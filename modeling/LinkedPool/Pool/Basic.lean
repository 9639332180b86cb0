import LinkedPool.Capacity
import LinkedPool.Count

/-!
# Pools

A pool keeps objects in numbered slots. An object stays in its slot for as
long as it lives, so that its slot number serves as a handle on it. A
vacated slot is put on top of a chain of vacant slots that runs through
the storage itself, and the next object takes the slot on top of that
chain; the storage grows only when the chain is empty.

Here the pool is a plain structure: nothing is dropped, compared or
copied. An operation that panics leaves the pool as it was, which is why
these operations answer with a new pool or with nothing.
-/

namespace LinkedPool

/-- A slot of a pool: in use, or vacant and linked to the next vacant one. -/
inductive Entry (β : Type) where
  | used (object : β)
  | vacant (next : Option Slot)
deriving Repr, DecidableEq

namespace Entry

variable {β : Type}

/-- The object in a slot. -/
def object? : Entry β → Option β
  | .used object => some object
  | .vacant _ => none

end Entry

/-- Objects in slots, with a chain of vacant slots and a count of the objects. -/
structure Pool (β : Type) where
  storage : Array (Entry β)
  /-- Where the chain of vacant slots begins. -/
  firstFree : Option Slot
  /-- The number of objects. -/
  len : Nat
  /-- The number of slots that the storage has memory for. -/
  capacity : Nat
deriving Repr, DecidableEq

namespace Pool

variable {β : Type}

/-- The pool with no slots. -/
def empty : Pool β := ⟨#[], none, 0, 0⟩

/-- The number of slots, in use or vacant. -/
def slots (pool : Pool β) : Nat := pool.storage.size

def isEmpty (pool : Pool β) : Bool := pool.len == 0

/-- The objects in the order of their slots. -/
def live (pool : Pool β) : List β := pool.storage.toList.filterMap Entry.object?

/-- The pool of `n` vacant slots, chained in ascending order. -/
def withCapacity [Stored β] (n : Nat) : Except Panic (Pool β) :=
  if Capacity.limit β ≤ n then .error .capacityOverflow
  else if n = 0 then .ok empty
  else do
    let last ← Count.minus n 1
    let chained := (Array.range last).map fun slot => .vacant (some (slot + 1))
    return { storage := chained.push (.vacant none), firstFree := some 0, len := 0, capacity := n }

/-! ## Looking at a slot -/

/-- The object in `slot`, if there is one. -/
def get? (pool : Pool β) (slot : Slot) : Option β := pool.storage[slot]?.bind Entry.object?

/-- The object in `slot`, which must hold one. -/
def get (pool : Pool β) (slot : Slot) : Except Panic β :=
  match pool.get? slot with
  | some object => .ok object
  | none => .error .dangling

/-- The link of `slot` to the next vacant slot; `slot` must be vacant. -/
def nextFree (pool : Pool β) (slot : Slot) : Except Panic (Option Slot) :=
  match pool.storage[slot]? with
  | some (.vacant next) => .ok next
  | some (.used _) => .error .slotInUse
  | none => .error (.outOfBounds pool.slots slot)

/-! ## Changing a slot -/

/-- The pool with the object in `slot` replaced. -/
def put (pool : Pool β) (slot : Slot) (object : β) : Pool β :=
  { pool with storage := pool.storage.setIfInBounds slot (.used object) }

@[simp] theorem slots_put (pool : Pool β) (slot : Slot) (object : β) :
    (pool.put slot object).slots = pool.slots :=
  Array.size_setIfInBounds

/-- What was put into a slot is found there. -/
theorem get?_put_self {pool : Pool β} {slot : Slot} (h : slot < pool.slots) (object : β) :
    (pool.put slot object).get? slot = some object := by
  simp only [get?, put, Array.getElem?_setIfInBounds_self_of_lt h]
  rfl

/-- Putting an object into one slot leaves the others as they are. -/
theorem get?_put_of_ne (pool : Pool β) {slot other : Slot} (h : slot ≠ other) (object : β) :
    (pool.put slot object).get? other = pool.get? other := by
  simp only [get?, put, Array.getElem?_setIfInBounds_ne h]

/-- The pool with the object in `slot`, which must hold one, changed by `f`. -/
def modify (pool : Pool β) (slot : Slot) (f : β → β) : Except Panic (Pool β) := do
  let object ← pool.get slot
  return pool.put slot (f object)

/-- Puts an object into the slot on top of the chain of vacant slots, or
into a new slot if no slot is vacant. The storage may have to grow for a
new slot, and may fail to; the chain is then empty and stays so. -/
def allocate [Stored β] (memory : Memory) (object : β) (pool : Pool β) :
    Except Panic (Except GrowthError (Slot × Pool β)) :=
  match pool.firstFree with
  | some slot => do
      let next ← pool.nextFree slot
      let len ← Count.succ pool.len
      return .ok (slot, { pool.put slot object with firstFree := next, len })
  | none =>
      match Capacity.grow β memory pool.capacity (pool.slots + 1) with
      | .error refusal => .ok (.error refusal)
      | .ok capacity => do
          let len ← Count.succ pool.len
          return .ok (pool.slots,
            { pool with storage := pool.storage.push (.used object), len, capacity })

/-- Takes the object out of `slot` and puts the slot on top of the chain of
vacant slots; a slot that holds no object is left alone. -/
def vacate (slot : Slot) (pool : Pool β) : Except Panic (Option (β × Pool β)) :=
  match pool.get? slot with
  | none => .ok none
  | some object => do
      let len ← Count.minus pool.len 1
      return some (object,
        { pool with
          storage := pool.storage.setIfInBounds slot (.vacant pool.firstFree)
          firstFree := some slot
          len })

/-! ## Room -/

/-- Makes room for `additional` more objects. Vacant slots are room already,
so that only what they lack is asked of the storage. -/
def reserve [Stored β] (additional : Nat) (pool : Pool β) : Except Panic (Pool β) := do
  let vacant ← Count.minus pool.slots pool.len
  if vacant < additional then
    let lacking ← Count.minus additional vacant
    match Capacity.grow β .ample pool.capacity (pool.slots + lacking) with
    | .ok capacity => return { pool with capacity }
    | .error _ => throw .capacityOverflow
  else
    return pool

end Pool

end LinkedPool
