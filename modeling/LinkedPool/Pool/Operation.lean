import LinkedPool.Pool.Ownership

/-!
# Operations on a pool

Everything that can be asked of one pool, as data. The handles in it may be
any slots at all: vacated ones, ones of another pool, ones that no pool
ever gave out.
-/

namespace LinkedPool.Pool

/-- What can be asked of a pool. -/
inductive Operation (β : Type) where
  | insert (memory : Memory) (object : β)
  /-- Takes the object out of a slot; it is dropped at the end. -/
  | remove (slot : Slot)
  /-- The object in a slot, if there is one. -/
  | get (slot : Slot)
  /-- Replaces the object in a slot, if there is one. -/
  | assign (slot : Slot) (object : β)
  /-- The object in a slot, which must hold one. -/
  | read (slot : Slot)
  /-- Replaces the object in a slot, which must hold one. -/
  | overwrite (slot : Slot) (object : β)
  | reserve (additional : Nat)
  | clear
  | len
  | isEmpty

/-- What a pool answers. -/
inductive Reply (β : Type) where
  | done
  | flag (b : Bool)
  | count (n : Nat)
  | item (object : Option β)
  | object (object : β)
  | insertion (result : Except GrowthError Slot)
deriving Repr

variable {β : Type}

/-- The operation with every handle replaced by what it stands for, if it
stands for something. -/
def Operation.resolve (handle : Nat → Option Slot) : Operation β → Option (Operation β)
  | .remove slot => (handle slot).map .remove
  | .get slot => (handle slot).map .get
  | .assign slot object => (handle slot).map (.assign · object)
  | .read slot => (handle slot).map .read
  | .overwrite slot object => (handle slot).map (.overwrite · object)
  | operation => some operation

/-- Carries out an operation. -/
def perform [Element β] (pool : Pool β) : Operation β → Outcome β (Pool β) (Reply β)
  | .insert memory object => (pool.insert memory object).map .insertion
  | .remove slot =>
      (pool.take slot).bind fun pool object =>
        ((Element.discardAll object.toList).leaving pool).map fun _ => .item object
  | .get slot => (Traced.answer (.item (pool.get? slot))).leaving pool
  | .assign slot object => (pool.assign slot object).map .flag
  | .read slot => ((Traced.ofExcept (pool.get slot)).leaving pool).map .object
  | .overwrite slot object => (pool.overwrite slot object).map fun _ => .done
  | .reserve additional =>
      match pool.reserve additional with
      | .ok pool => (Traced.answer .done).leaving pool
      | .error panic => (Traced.raise panic).leaving pool
  | .clear => pool.clear.map fun _ => .done
  | .len => (Traced.answer (.count pool.len)).leaving pool
  | .isEmpty => (Traced.answer (.flag pool.isEmpty)).leaving pool

/-- The outcomes of operations carried out one after the other. -/
def performAll [Element β] (pool : Pool β) :
    List (Operation β) → List (Outcome β (Pool β) (Reply β))
  | [] => []
  | operation :: operations =>
      let outcome := pool.perform operation
      outcome :: outcome.state.performAll operations

/-- The pool after operations carried out one after the other. -/
def final [Element β] (pool : Pool β) : List (Operation β) → Pool β
  | [] => pool
  | operation :: operations => (pool.perform operation).state.final operations

end LinkedPool.Pool
