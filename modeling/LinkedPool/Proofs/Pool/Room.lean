import LinkedPool.Proofs.Pool.Allocation

/-!
# Room in a valid pool

Room for `n` more objects is room for `len + n` objects: the vacant slots
that `reserve` takes off what it asks for are just those that the storage
has beyond its objects (`reserve_eq`). A pool made with room has its slots
chained in ascending order (`withCapacity_eq`).
-/

namespace LinkedPool

namespace Capacity

variable {β : Type} [Stored β] {memory : Memory} {capacity needed grown : Nat}

theorem needed_le_of_grow (h : grow β memory capacity needed = .ok grown) : needed ≤ grown := by
  unfold grow wanted at h
  split at h
  · rename_i hle
    exact Except.ok.inj h ▸ hle
  · split at h
    · cases h
    · split at h
      · have := Except.ok.inj h
        omega
      · cases h

theorem le_of_grow (h : grow β memory capacity needed = .ok grown) : capacity ≤ grown := by
  unfold grow wanted at h
  split at h
  · exact Nat.le_of_eq (Except.ok.inj h)
  · split at h
    · cases h
    · split at h
      · have := Except.ok.inj h
        omega
      · cases h

theorem lt_ceiling_of_grow (hbounded : capacity < ceiling)
    (h : grow β memory capacity needed = .ok grown) : grown < ceiling := by
  unfold grow at h
  split at h
  · exact Except.ok.inj h ▸ hbounded
  · split at h
    · cases h
    · split at h
      · rename_i hwanted _
        exact Except.ok.inj h ▸ Nat.lt_of_lt_of_le (Nat.lt_of_not_le hwanted) limit_le_ceiling
      · cases h

/-- Memory that is always granted runs out only at the limit. -/
theorem grow_ample_error {refusal : GrowthError}
    (h : grow β .ample capacity needed = .error refusal) :
    refusal = .capacityOverflow ∧ capacity < needed ∧ limit β ≤ wanted capacity needed := by
  unfold grow at h
  split at h
  · cases h
  · rename_i hneeded
    split at h
    · rename_i hwanted
      exact ⟨(Except.error.inj h).symm, Nat.lt_of_not_le hneeded, hwanted⟩
    · cases h

end Capacity

namespace Pool

variable {β : Type} {pool : Pool β} {free : List Slot}

theorem Valid.withMemory (h : pool.Valid free) {capacity : Nat} (hfits : pool.slots ≤ capacity)
    (hbounded : capacity < Capacity.ceiling) : { pool with capacity }.Valid free :=
  ⟨h.chained, h.distinct, h.complete, h.count, hfits, hbounded⟩

theorem valid_empty : (empty : Pool β).Valid [] := by
  have hceiling : 0 < Capacity.ceiling := by decide
  refine ⟨rfl, .nil, ?_, rfl, Nat.le_refl 0, hceiling⟩
  intro slot next h
  cases h

section Reserve

variable [Stored β]

theorem reserve_eq (h : pool.Valid free) (additional : Nat) :
    pool.reserve additional
      = match Capacity.grow β .ample pool.capacity (pool.len + additional) with
        | .ok capacity => .ok { pool with capacity }
        | .error _ => .error .capacityOverflow := by
  have hlen := h.len_le_slots
  have hfits := h.fits
  rw [reserve, Count.minus_of_le hlen]
  show (if pool.slots - pool.len < additional then _ else _) = _
  split
  · rename_i hlacking
    rw [Count.minus_of_le (Nat.le_of_lt hlacking)]
    show (match Capacity.grow β .ample pool.capacity
      (pool.slots + (additional - (pool.slots - pool.len))) with
      | .ok capacity => _
      | .error _ => _) = _
    rw [show pool.slots + (additional - (pool.slots - pool.len)) = pool.len + additional by omega]
    cases Capacity.grow β .ample pool.capacity (pool.len + additional) <;> rfl
  · rw [Capacity.grow_of_le .ample (show pool.len + additional ≤ pool.capacity by omega)]
    rfl

/-- What making room does: it changes nothing but the memory, or it asks for
more than there can be. -/
theorem reserve_cases (h : pool.Valid free) (additional : Nat) :
    (∃ capacity, pool.reserve additional = .ok { pool with capacity }
        ∧ { pool with capacity }.Valid free
        ∧ Capacity.grow β .ample pool.capacity (pool.len + additional) = .ok capacity)
      ∨ (pool.reserve additional = .error .capacityOverflow
        ∧ pool.capacity < pool.len + additional
        ∧ Capacity.limit β ≤ Capacity.wanted pool.capacity (pool.len + additional)) := by
  rw [reserve_eq h]
  cases hgrow : Capacity.grow β .ample pool.capacity (pool.len + additional) with
  | ok capacity =>
      exact .inl ⟨capacity, rfl, h.withMemory (h.fits.trans (Capacity.le_of_grow hgrow))
        (Capacity.lt_ceiling_of_grow h.bounded hgrow), rfl⟩
  | error refusal => exact .inr ⟨rfl, (Capacity.grow_ample_error hgrow).2⟩

end Reserve

/-! ## New pools -/

/-- The pool of `n` vacant slots in ascending order, with memory for these. -/
def ofVacant (n : Nat) : Pool β where
  storage := (Array.range n).map fun slot =>
    .vacant (if slot + 1 < n then some (slot + 1) else none)
  firstFree := if 0 < n then some 0 else none
  len := 0
  capacity := n

theorem withCapacity_eq [Stored β] (n : Nat) :
    (withCapacity n : Except Panic (Pool β))
      = if Capacity.limit β ≤ n then .error .capacityOverflow else .ok (ofVacant n) := by
  unfold withCapacity
  split
  · rfl
  · cases n with
    | zero => simp [ofVacant, empty]
    | succ last =>
        rw [if_neg (Nat.succ_ne_zero last), Count.minus_of_le (Nat.le_add_left 1 last)]
        have hstorage : ((Array.range last).map fun slot =>
              Entry.vacant (β := β) (some (slot + 1))).push (.vacant none)
            = (ofVacant (last + 1)).storage := by
          apply Array.ext'
          simp only [ofVacant, Array.toList_push, Array.toList_map, Array.toList_range,
            List.range_succ, List.map_append, List.map_cons, List.map_nil,
            if_neg (Nat.lt_irrefl (last + 1))]
          refine congrArg (· ++ _) (List.map_congr_left ?_)
          intro slot hslot
          rw [if_pos (Nat.succ_lt_succ (List.mem_range.mp hslot))]
        simp only [bind, Except.bind, pure, Except.pure, Nat.add_sub_cancel, hstorage]
        rfl

theorem storage_ofVacant {n : Nat} {slot : Slot} (h : slot < n) :
    (ofVacant n : Pool β).storage[slot]?
      = some (.vacant (if slot + 1 < n then some (slot + 1) else none)) := by
  simp [ofVacant, h]

/-- From `first` on, the chain leads through the next `n` slots in order. -/
theorem chained_range' {storage : Array (Entry β)} {bound : Nat} :
    ∀ {n : Nat} {first : Slot}, first + n = bound →
      (∀ slot < bound,
        storage[slot]? = some (.vacant (if slot + 1 < bound then some (slot + 1) else none))) →
      Chained storage (if first < bound then some first else none) (List.range' first n)
  | 0, first, hbound, _ => if_neg (Nat.not_lt_of_le (Nat.le_of_eq hbound.symm))
  | n + 1, first, hbound, h => by
      have hfirst : first < bound := hbound ▸ Nat.lt_add_of_pos_right (Nat.succ_pos n)
      rw [List.range'_succ]
      exact ⟨if_pos hfirst, _, h first hfirst,
        chained_range' (show first + 1 + n = bound by rw [← hbound, Nat.add_right_comm]; rfl) h⟩

theorem get?_ofVacant (n : Nat) (slot : Slot) : (ofVacant n : Pool β).get? slot = none := by
  by_cases h : slot < n
  · exact get?_eq_none_of_vacant (storage_ofVacant h)
  · exact get?_eq_none_of_le (by simpa [slots, ofVacant] using h)

@[simp] theorem slots_ofVacant (n : Nat) : (ofVacant n : Pool β).slots = n := by
  simp [slots, ofVacant]

theorem valid_ofVacant [Stored β] {n : Nat} (h : n < Capacity.limit β) :
    (ofVacant n : Pool β).Valid (List.range n) := by
  refine ⟨?_, List.nodup_range, ?_, ?_, Nat.le_of_eq (slots_ofVacant n),
    Nat.lt_of_lt_of_le h Capacity.limit_le_ceiling⟩
  · rw [List.range_eq_range']
    exact chained_range' (Nat.zero_add n) fun slot hslot => storage_ofVacant hslot
  · intro slot next hvacant
    exact List.mem_range.mpr (slots_ofVacant n ▸ (Array.getElem?_eq_some_iff.mp hvacant).1)
  · have hlive : (ofVacant n : Pool β).live = [] := by
      rw [live_eq_filterMap_range (Nat.le_refl _), List.filterMap_eq_nil_iff]
      exact fun slot _ => get?_ofVacant n slot
    rw [hlive]
    rfl

variable [Stored β]

/-- How a pool begins: with no slots, or with `n` vacant ones. -/
inductive Begun : (n : Nat) → (pool : Pool β) → Prop
  | empty : Begun 0 .empty
  | withCapacity {n : Nat} {pool : Pool β} (made : withCapacity n = .ok pool) : Begun n pool

theorem Begun.eq_ofVacant {n : Nat} (h : Begun n pool) :
    n < Capacity.limit β ∧ pool = ofVacant n := by
  cases h with
  | empty => exact ⟨Nat.succ_pos _, by simp [ofVacant, Pool.empty]⟩
  | withCapacity made =>
      rw [withCapacity_eq] at made
      split at made
      · cases made
      · rename_i hlimit
        exact ⟨Nat.lt_of_not_le hlimit, (Except.ok.inj made).symm⟩

theorem Begun.valid {n : Nat} (h : Begun n pool) : pool.Valid (List.range n) := by
  obtain ⟨hlimit, rfl⟩ := h.eq_ofVacant
  exact valid_ofVacant hlimit

end Pool

end LinkedPool
