import LinkedPool.LinkedList.Append
import LinkedPool.LinkedList.Search
import LinkedPool.LinkedList.Teardown

/-!
# Taking elements from a source

A source yields elements one at a time, after a hint of how many to expect.
The hint is trusted for making room and for nothing else. Each element is
appended before the next one is asked for, so that a panic, of the source
or of an insertion, leaves the list with what came before. The source still
owns what it did not yield, and drops it as the panic passes.
-/

namespace LinkedPool

/-- What a source does when it is asked for the next element. -/
inductive Pull (α : Type) where
  /-- Hands over an element that it owns. -/
  | give (element : α)
  /-- Hands over a copy of an element that it does not own. -/
  | copy (model : α)
  /-- Panics. -/
  | fail
deriving Repr, DecidableEq

/-- Elements to be had one after the other, with a hint of their number. -/
structure Source (α : Type) where
  hint : Nat
  pulls : List (Pull α)
deriving Repr, DecidableEq

namespace Pull

variable {α : Type}

/-- The element that the source owns until it is asked for it. -/
def owned? : Pull α → Option α
  | .give element => some element
  | _ => none

/-- The element that is handed over. -/
def yield [Element α] : Pull α → Traced α α
  | .give element => .answer element
  | .copy model => Element.copy model
  | .fail => .raise .source

end Pull

namespace Source

variable {α : Type}

/-- Hands over `elements`. -/
def ofList (hint : Nat) (elements : List α) : Source α := ⟨hint, elements.map .give⟩

/-- Hands over `elements`, but panics when asked for the one after the first
`k`. If there are fewer, this never comes about. -/
def failingAt (k hint : Nat) (elements : List α) : Source α :=
  if k ≤ elements.length then
    ⟨hint, (elements.take k).map .give ++ .fail :: (elements.drop k).map .give⟩
  else
    ofList hint elements

/-- Hands over copies of the elements of a list as they come from the end `e`. -/
def copies (e : End) (list : LinkedList α) : Except Panic (Source α) := do
  return ⟨list.len, (← list.contents e).map .copy⟩

/-- The events of dropping what a source owns that has `pulls` still to come. -/
def leftovers (pulls : List (Pull α)) : List (Event α) :=
  Element.departures (pulls.filterMap Pull.owned?)

end Source

namespace LinkedList

variable {α : Type} [Element α]

/-- Appends what `pulls` hand over at the tail, one after the other. What is
left of the pulls is part of the state. -/
def appendAll (memory : Memory) :
    List (Pull α) → LinkedList α → Outcome α (LinkedList α × List (Pull α)) Unit
  | [], list => (Traced.answer ()).leaving (list, [])
  | pull :: pulls, list =>
      (((pull.yield.leaving list).bind fun list element =>
          list.append memory .tail element).within fun list => (list, pulls)).bind
        fun state _ => state.1.appendAll memory pulls

/-- Appends all elements of a source at the tail. -/
def extend (memory : Memory) (source : Source α) (list : LinkedList α) :
    Outcome α (LinkedList α) Unit :=
  match list.reserve source.hint with
  | .error panic =>
      ((Traced.raise panic).onPanic (Source.leftovers source.pulls)).leaving list
  | .ok list =>
      let appended := list.appendAll memory source.pulls
      (appended.onPanic (Source.leftovers appended.state.2)).within Prod.fst

/-- A new list of the elements of a source. If it cannot be finished, what
there is of it is dropped, after what the source still owned. -/
def ofSource (memory : Memory) (source : Source α) : Traced α (LinkedList α) :=
  let extended := (empty : LinkedList α).extend memory source
  (extended.toTraced.onPanic (Element.departures extended.state.stored)).bind
    fun _ => .answer extended.state

end LinkedList

end LinkedPool
