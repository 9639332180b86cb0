import LinkedPool.Element
import LinkedPool.Pool.Basic

/-!
# Pools own their objects

An object given to a pool is the pool's: it is dropped when the pool does
not take it, when it is overwritten, when the pool is cleared or dropped.
Objects that go together go in the order of their slots. Each drop may
panic, and each operation says what the pool is after that.

* `insert`: a refused object is dropped, and the pool is as before.
* `overwrite`, `assign`: the new object is in place before the old one is
  dropped.
* `clear`: the slots are gone before the first object is dropped, the
  chain and the count only after the last one.
* `clone`: copies are made in the order of the slots; when one panics,
  those already made are dropped.
-/

namespace LinkedPool.Pool

variable {β : Type} [Element β]

/-- Drops a pool with all its objects. -/
def discard (pool : Pool β) : Traced β Unit := Element.discardAll pool.live

/-- Puts an object into a pool, and drops it if the pool cannot take it. -/
def insert (memory : Memory) (object : β) (pool : Pool β) :
    Outcome β (Pool β) (Except GrowthError Slot) :=
  match pool.allocate memory object with
  | .ok (.ok (slot, pool)) => (Traced.answer (.ok slot)).leaving pool
  | .ok (.error refusal) => ((Element.discard object).leaving pool).map fun _ => .error refusal
  | .error panic => ((Traced.raise panic).onPanic (Element.departures [object])).leaving pool

/-- Takes the object out of `slot` and hands it over. -/
def take (slot : Slot) (pool : Pool β) : Outcome β (Pool β) (Option β) :=
  match pool.vacate slot with
  | .ok (some (object, pool)) => (Traced.answer (some object)).leaving pool
  | .ok none => (Traced.answer none).leaving pool
  | .error panic => (Traced.raise panic).leaving pool

/-- Replaces the object in `slot`, which must hold one. -/
def overwrite (slot : Slot) (object : β) (pool : Pool β) : Outcome β (Pool β) Unit :=
  match pool.get slot with
  | .ok old => (Element.discard old).leaving (pool.put slot object)
  | .error panic => ((Traced.raise panic).onPanic (Element.departures [object])).leaving pool

/-- Replaces the object in `slot`, and says whether there was one. -/
def assign (slot : Slot) (object : β) (pool : Pool β) : Outcome β (Pool β) Bool :=
  match pool.get? slot with
  | some old => ((Element.discard old).leaving (pool.put slot object)).map fun _ => true
  | none => ((Element.discard object).leaving pool).map fun _ => false

/-- Drops every object and gives up all slots, but not their memory. -/
def clear (pool : Pool β) : Outcome β (Pool β) Unit :=
  ((Element.discardAll pool.live).leaving { pool with storage := #[] }).bind fun pool _ =>
    (Traced.answer ()).leaving { pool with firstFree := none, len := 0 }

/-- Copies entries one after the other. -/
def cloneEntries : List (Entry β) → Traced β (List (Entry β))
  | [] => .answer []
  | .vacant next :: rest => do
      return .vacant next :: (← cloneEntries rest)
  | .used object :: rest => do
      let twin ← Element.copy object
      return .used twin :: (← cloneEntries rest)

/-- A pool with a copy of each object in the same slot, and the same chain
of vacant slots. It has memory for these slots and no more. -/
def clone (pool : Pool β) : Traced β (Pool β) :=
  let copied := cloneEntries pool.storage.toList
  (copied.onPanic (Element.departures (Element.copiesIn copied.trace))).bind fun entries =>
    .answer { pool with storage := entries.toArray, capacity := pool.slots }

end LinkedPool.Pool
