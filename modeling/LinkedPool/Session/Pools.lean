import LinkedPool.Pool.Operation
import LinkedPool.Store

/-!
# Sessions on pools

A session works on any number of named pools. Every handle that one of them
gives out goes into one table, and later steps name handles by their
numbers in it, counted from 0. A handle stays in the table for good, and
may be used on any pool.
-/

namespace LinkedPool.Session.Pools

variable {β : Type}

/-- Named pools, and the handles they gave out. -/
structure State (β : Type) where
  pools : Store (Pool β)
  handles : Array Slot
deriving Repr, DecidableEq

/-- No pools, and no handles. -/
def State.initial : State β := ⟨.empty, #[]⟩

/-- Where a new pool comes from. -/
inductive Origin where
  | empty
  | withCapacity (n : Nat)
  | cloneOf (name : String)
deriving Repr, DecidableEq

/-- One thing done to named pools. -/
inductive Step (β : Type) where
  /-- Puts a new pool under `name`. -/
  | create (name : String) (origin : Origin)
  /-- Takes the pool under `name` away and drops it. -/
  | discard (name : String)
  /-- Carries out an operation on the pool under `name`; its handles are
  numbers in the table. -/
  | operate (name : String) (operation : Pool.Operation β)
  /-- Whether two numbers in the table stand for the same handle. -/
  | sameHandle (name : String) (left right : Nat)
  /-- The number of different handles in the table. -/
  | distinctHandles (name : String)

/-- The pool under a name; a new one if there is none. -/
def poolAt (name : String) (pools : Store (Pool β)) : Pool β :=
  (pools.find? name).getD .empty

/-- The table with the handle that an answer gives out, if it gives out one. -/
def record (handles : Array Slot) : Except Panic (Pool.Reply β) → Array Slot
  | .ok (.insertion (.ok slot)) => handles.push slot
  | _ => handles

/-- The number of different slots in a list. -/
def distinct (slots : List Slot) : Nat := slots.eraseDups.length

variable [Element β]

/-- Makes a new pool. -/
def Origin.build (pools : Store (Pool β)) : Origin → Traced β (Pool β)
  | .empty => .answer .empty
  | .withCapacity n => .ofExcept (Pool.withCapacity n)
  | .cloneOf name => (poolAt name pools).clone

/-- The pools, with a new one under a name that an origin is the first to use. -/
def Origin.prepare (pools : Store (Pool β)) : Origin → Store (Pool β)
  | .cloneOf name => pools.ensure name .empty
  | _ => pools

/-- Puts `pool` under `name`, and drops the one that was there. -/
def replace (name : String) (pool : Pool β) (pools : Store (Pool β)) :
    Outcome β (Store (Pool β)) Unit :=
  match pools.find? name with
  | none => (Traced.answer ()).leaving (pools.put name pool)
  | some old => old.discard.leaving (pools.put name pool)

/-- Carries out a step; nothing comes of one that names an unknown handle. -/
def perform (state : State β) : Step β → Option (Outcome β (State β) (Pool.Reply β))
  | .create name origin =>
      let pools := origin.prepare state.pools
      some <| ((((origin.build pools).leaving pools).bind fun pools pool =>
        replace name pool pools).map fun _ => .done).within fun pools => { state with pools }
  | .discard name =>
      some <| (((poolAt name state.pools).discard.leaving (state.pools.erase name)).map
        fun _ => .done).within fun pools => { state with pools }
  | .operate name operation => do
      let operation ← operation.resolve (state.handles[·]?)
      let outcome := (poolAt name state.pools).perform operation
      return outcome.within fun pool =>
        { pools := state.pools.put name pool, handles := record state.handles outcome.result }
  | .sameHandle name left right => do
      let left ← state.handles[left]?
      let right ← state.handles[right]?
      return (Traced.answer (.flag (left == right))).leaving
        { state with pools := state.pools.ensure name .empty }
  | .distinctHandles name =>
      some <| (Traced.answer (.count (distinct state.handles.toList))).leaving
        { state with pools := state.pools.ensure name .empty }

/-- What dropping the pools comes to, in the order of their names. -/
def close (state : State β) : List (Traced β Unit) :=
  state.pools.entries.map fun entry => entry.2.discard

end LinkedPool.Session.Pools
