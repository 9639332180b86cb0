import LinkedPool.Panic

/-!
# Growth of a storage

A storage holds its slots in memory for `capacity` of them. More memory is
asked for only when the slots needed do not fit, and then at least twice
as much as before, so that slots added one at a time cost a constant on
average.

However much memory there is, a storage may take only so many bytes. How
many slots that makes depends on the bytes of a slot, which are a matter
of the type of the objects in them (`Stored`).
-/

namespace LinkedPool

/-- Whether the memory for a storage of a given capacity can be had. -/
structure Memory where
  grants : Nat → Bool

/-- Memory that is always granted. -/
def Memory.ample : Memory := ⟨fun _ => true⟩

/-- Memory that is always refused. -/
def Memory.exhausted : Memory := ⟨fun _ => false⟩

/-- A type of objects that are kept in slots. -/
class Stored (β : Type) where
  /-- The bytes of a slot with an object. -/
  slotBytes : Nat
  /-- The bytes of a slot with an object between two links. -/
  nodeBytes : Nat
  /-- A vacant slot holds a link. -/
  link_fits : 16 ≤ slotBytes
  links_fit : 32 ≤ nodeBytes

/-- A slot that is `excess` words larger than a link, and one for an object of
`words` words between two links. -/
@[reducible] def Stored.ofWords {β : Type} (excess words : Nat) : Stored β where
  slotBytes := 16 + 8 * excess
  nodeBytes := 32 + 8 * words
  link_fits := Nat.le_add_right ..
  links_fit := Nat.le_add_right ..

namespace Capacity

/-- The most bytes that a storage may take: the largest signed word. -/
def maxBytes : Nat := 9223372036854775807

/-- The least capacity that no storage of slots with a `β` can have. -/
def limit (β : Type) [Stored β] : Nat := maxBytes / Stored.slotBytes β + 1

/-- No storage at all has this capacity or more: the 59th power of two. -/
def ceiling : Nat := 576460752303423488

/-- The capacity asked for when `needed` slots do not fit into `capacity`. -/
def wanted (capacity needed : Nat) : Nat := max (max (2 * capacity) needed) 4

/-- The capacity of a storage of slots with a `β` after room was made for
`needed` of them. -/
def grow (β : Type) [Stored β] (memory : Memory) (capacity needed : Nat) :
    Except GrowthError Nat :=
  if needed ≤ capacity then .ok capacity
  else if limit β ≤ wanted capacity needed then .error .capacityOverflow
  else if memory.grants (wanted capacity needed) then .ok (wanted capacity needed)
  else .error .refused

variable {β : Type} [Stored β]

/-- A capacity is out of reach when its slots take too many bytes. -/
theorem limit_le_iff {n : Nat} : limit β ≤ n ↔ maxBytes < n * Stored.slotBytes β := by
  have hbytes : 0 < Stored.slotBytes β := Nat.lt_of_lt_of_le (by decide) Stored.link_fits
  rw [limit, Nat.succ_le_iff, Nat.div_lt_iff_lt_mul hbytes]

theorem limit_le_ceiling : limit β ≤ ceiling :=
  Nat.succ_le_succ (Nat.div_le_div_left Stored.link_fits (by decide))

/-- Room that is already there needs no memory. -/
theorem grow_of_le (memory : Memory) {capacity needed : Nat} (h : needed ≤ capacity) :
    grow β memory capacity needed = .ok capacity := if_pos h

end Capacity

end LinkedPool
