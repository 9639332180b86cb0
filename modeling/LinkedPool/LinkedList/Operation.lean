import LinkedPool.Cursor.Script
import LinkedPool.LinkedList.Delete
import LinkedPool.LinkedList.Extend

/-!
# Operations on a list

What can be asked of one list, as data: an `Operation` is carried out by
`perform`, which answers with a `Reply` and leaves the list in the state of
its `Outcome`. Operations done one after the other are those of
`performAll`, whose every operation finds the list as the one before left
it, after a panic as well as after an answer.
-/

namespace LinkedPool

/-- What can be asked of a list. -/
inductive Operation (α : Type) where
  | len
  | isEmpty
  | outermost (e : End)
  | contents (e : End)
  | append (memory : Memory) (e : End) (element : α)
  | tryAppend (memory : Memory) (e : End) (element : α)
  | delete (e : End) (value : α)
  | find (e : End) (value : α)
  | clear
  | reserve (additional : Nat)
  | extend (memory : Memory) (source : Source α)
  | iterate (script : List (Cursor.Command α))

/-- What a list answers. -/
inductive Reply (α : Type) where
  | done
  | flag (b : Bool)
  | count (n : Nat)
  | item (element : Option α)
  | items (elements : List α)
  | insertion (result : Except InsertError Unit)
  | script (answers : List (Cursor.Answer α))

namespace LinkedList

variable {α : Type} [Element α]

/-- Carries out an operation. -/
def perform (list : LinkedList α) : Operation α → Outcome α (LinkedList α) (Reply α)
  | .len => (Traced.answer (.count list.len)).leaving list
  | .isEmpty => (Traced.answer (.flag list.isEmpty)).leaving list
  | .outermost e => ((Traced.ofExcept (list.outermost? e)).leaving list).map .item
  | .contents e => ((Traced.ofExcept (list.contents e)).leaving list).map .items
  | .append memory e element => (list.append memory e element).map fun _ => .insertion (.ok ())
  | .tryAppend memory e element => (list.tryAppend memory e element).map .insertion
  | .delete e value => (list.delete e value).map .flag
  | .find e value => ((list.find e value).leaving list).map .count
  | .clear => list.clear.map fun _ => .done
  | .reserve additional =>
      match list.reserve additional with
      | .ok list => (Traced.answer .done).leaving list
      | .error panic => (Traced.raise panic).leaving list
  | .extend memory source => (list.extend memory source).map fun _ => .done
  | .iterate script => ((list.cursor.run script).leaving list).map .script

/-- The outcomes of operations carried out one after the other. -/
def performAll (list : LinkedList α) :
    List (Operation α) → List (Outcome α (LinkedList α) (Reply α))
  | [] => []
  | operation :: operations =>
      let outcome := list.perform operation
      outcome :: outcome.state.performAll operations

end LinkedList

end LinkedPool
