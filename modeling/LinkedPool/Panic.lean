import LinkedPool.Document

/-!
# Errors and panics

A call can go wrong in two ways. An *error* is part of the answer of an
operation that may fail: `GrowthError` says why the storage of a pool did
not grow, `InsertError` why a list took no new element. A *panic* ends the
call instead of an answer. Both are causes; the wording of each is in one
place, its `message`.

The panics `dangling`, `outOfBounds`, `slotInUse`, `slotVacant`,
`subtractOverflow`, `addOverflow` and `endlessWalk` report a structure that
is not as its operations keep it.
-/

namespace LinkedPool

/-- The number of a slot in the storage of a pool, counted from 0. -/
abbrev Slot := Nat

/-- The text of a slot number given out as a handle. -/
def Slot.document (slot : Slot) : Document := .applied "NodePtr" (.count slot)

/-- Why the storage of a pool did not grow. -/
inductive GrowthError where
  /-- The wanted capacity exceeds every possible one. -/
  | capacityOverflow
  /-- The memory for the wanted capacity was refused. -/
  | refused
deriving Repr, DecidableEq

def GrowthError.message : GrowthError → String
  | .capacityOverflow =>
      "memory allocation failed because the computed capacity exceeded the collection's maximum"
  | .refused => "memory allocation failed because the memory allocator returned an error"

/-- Why a list took no new element. -/
inductive InsertError where
  /-- There was no slot for the new node. -/
  | outOfMemory (cause : GrowthError)
  /-- The list has no ends and still holds `len` elements. -/
  | notEmpty (len : Nat)
deriving Repr, DecidableEq

namespace InsertError

def message : InsertError → String
  | .outOfMemory cause => "failed to allocate a list node: " ++ cause.message
  | .notEmpty len =>
      "attempted to insert into an empty list, but it has " ++ toString len ++ " element(s)"

/-- The error of which an insertion error is a consequence, beyond its own
message: there is none, since the message of a failed growth is part of it. -/
def source : InsertError → Option GrowthError := fun _ => none

/-- The structure of the refusal to insert into a list that holds `len` elements. -/
def notEmptyDocument (len : Nat) : Document := .record "NotEmpty" [("len", .count len)]

end InsertError

/-- Why a call ended without an answer. -/
inductive Panic where
  /-- An element's own comparison, copying or dropping panicked. -/
  | element (message : String)
  /-- A source of elements panicked when it was asked for the next one. -/
  | source
  /-- An insertion that must not fail did. -/
  | insertion (error : InsertError)
  /-- Room was asked for beyond every possible capacity. -/
  | capacityOverflow
  /-- Nodes were left in the pool when all had been released. -/
  | nodesLeft
  /-- A slot that holds no object was read or written. -/
  | dangling
  /-- A slot beyond the storage was asked for. -/
  | outOfBounds (size index : Nat)
  /-- A slot in use was found on the chain of vacant slots. -/
  | slotInUse
  /-- A slot about to be released is vacant. -/
  | slotVacant (slot : Slot)
  /-- A count would fall below zero. -/
  | subtractOverflow
  /-- A count would need more than 64 bits. -/
  | addOverflow
  /-- The links of a list run in a circle: the walk along them has no end. -/
  | endlessWalk
deriving Repr, DecidableEq

def Panic.message : Panic → String
  | .element message => message
  | .source => "iterator panic"
  | .insertion error => error.message
  | .capacityOverflow => "capacity overflow"
  | .nodesLeft => "assertion failed: self.nodes.is_empty()"
  | .dangling => "dangling ptr"
  | .outOfBounds size index =>
      "index out of bounds: the len is " ++ toString size ++ " but the index is " ++ toString index
  | .slotInUse => "internal error: entered unreachable code"
  | .slotVacant slot =>
      "internal error: entered unreachable code: " ++ slot.document.inline ++ " is not a live node"
  | .subtractOverflow => "attempt to subtract with overflow"
  | .addOverflow => "attempt to add with overflow"
  | .endlessWalk => "the links of the list form a cycle"

end LinkedPool
