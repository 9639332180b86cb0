import LinkedPool.Proofs.Pool.Slots

/-!
# The chain of vacant slots

A pool is `Valid` with vacant slots `free` if its chain of vacant slots runs
through exactly these, each once, and ends, if it counts its objects
rightly, and if the storage fits into its memory. Then `free` is no choice:
its slots are exactly those that hold nothing (`mem_iff`), and every slot is
in use or among them (`len_add_length`).
-/

namespace LinkedPool.Pool

variable {β : Type} {pool pool' : Pool β} {slot : Slot} {free : List Slot} {object : β}

/-- The chain of vacant slots from `start` leads through `free` and ends there. -/
def Chained (storage : Array (Entry β)) : (start : Option Slot) → (free : List Slot) → Prop
  | start, [] => start = none
  | start, slot :: free =>
      start = some slot ∧ ∃ next, storage[slot]? = some (.vacant next) ∧ Chained storage next free

/-- The slots of `free` are vacant, and chained in this order; the pool has
no other vacant slots, and counts its objects and its memory rightly. -/
structure Valid (pool : Pool β) (free : List Slot) : Prop where
  chained : Chained pool.storage pool.firstFree free
  distinct : free.Nodup
  complete : ∀ slot next, pool.storage[slot]? = some (.vacant next) → slot ∈ free
  count : pool.len = pool.live.length
  fits : pool.slots ≤ pool.capacity
  bounded : pool.capacity < Capacity.ceiling

/-! ## The chain -/

theorem Chained.start_eq {storage : Array (Entry β)} {start : Option Slot} {free : List Slot}
    (h : Chained storage start free) : start = free.head? := by
  cases free with
  | nil => exact h
  | cons slot free => exact h.1

/-- A chain stays as it is as long as none of its slots is written to. -/
theorem Chained.frame {storage storage' : Array (Entry β)} {start : Option Slot}
    {free : List Slot} (h : Chained storage start free)
    (hsame : ∀ slot ∈ free, storage'[slot]? = storage[slot]?) :
    Chained storage' start free := by
  induction free generalizing start with
  | nil => exact h
  | cons slot free ih =>
      obtain ⟨hstart, next, hslot, hrest⟩ := h
      refine ⟨hstart, next, (hsame slot (List.mem_cons_self ..)).trans hslot, ih hrest ?_⟩
      intro other hother
      exact hsame other (List.mem_cons_of_mem _ hother)

theorem Chained.vacant {storage : Array (Entry β)} {start : Option Slot} {free : List Slot}
    (h : Chained storage start free) :
    ∀ slot ∈ free, ∃ next, storage[slot]? = some (.vacant next) := by
  induction free generalizing start with
  | nil => exact List.forall_mem_nil _
  | cons first free ih =>
      obtain ⟨-, next, hfirst, hrest⟩ := h
      intro slot hslot
      rcases List.mem_cons.mp hslot with rfl | hslot
      · exact ⟨next, hfirst⟩
      · exact ih hrest slot hslot

theorem Chained.unique {storage : Array (Entry β)} {start : Option Slot}
    {free free' : List Slot} (h : Chained storage start free)
    (h' : Chained storage start free') : free = free' := by
  induction free generalizing start free' with
  | nil =>
      cases free' with
      | nil => rfl
      | cons slot' free' =>
          have hstart' := h'.1
          rw [show start = none from h] at hstart'
          cases hstart'
  | cons slot free ih =>
      obtain ⟨hstart, next, hslot, hrest⟩ := h
      cases free' with
      | nil =>
          rw [show start = none from h'] at hstart
          cases hstart
      | cons slot' free' =>
          obtain ⟨hstart', next', hslot', hrest'⟩ := h'
          obtain rfl := Option.some.inj (hstart.symm.trans hstart')
          obtain rfl := Entry.vacant.inj (Option.some.inj (hslot.symm.trans hslot'))
          rw [ih hrest hrest']

namespace Valid

theorem mem_iff (h : pool.Valid free) :
    slot ∈ free ↔ ∃ next, pool.storage[slot]? = some (.vacant next) :=
  ⟨h.chained.vacant slot, fun ⟨next, hslot⟩ => h.complete slot next hslot⟩

theorem not_mem_of_get? (h : pool.Valid free) (hslot : pool.get? slot = some object) :
    slot ∉ free := by
  intro hmem
  obtain ⟨next, hvacant⟩ := h.mem_iff.mp hmem
  rw [get?_eq_none_of_vacant hvacant] at hslot
  cases hslot

theorem firstFree_eq (h : pool.Valid free) : pool.firstFree = free.head? :=
  h.chained.start_eq

theorem get?_eq_none (h : pool.Valid free) (hslot : slot ∈ free) : pool.get? slot = none := by
  obtain ⟨next, hvacant⟩ := h.mem_iff.mp hslot
  exact get?_eq_none_of_vacant hvacant

theorem lt_slots (h : pool.Valid free) (hslot : slot ∈ free) : slot < pool.slots := by
  obtain ⟨next, hvacant⟩ := h.mem_iff.mp hslot
  exact (Array.getElem?_eq_some_iff.mp hvacant).1

theorem mem_of_get?_eq_none (h : pool.Valid free) (hlt : slot < pool.slots)
    (hslot : pool.get? slot = none) : slot ∈ free := by
  have hentry : pool.storage[slot]? = some pool.storage[slot] :=
    Array.getElem?_eq_getElem hlt
  cases hcase : pool.storage[slot] with
  | used object =>
      rw [hcase] at hentry
      rw [get?_eq_some.mpr hentry] at hslot
      cases hslot
  | vacant next =>
      rw [hcase] at hentry
      exact h.complete slot next hentry

theorem len_add_length (h : pool.Valid free) : pool.len + free.length = pool.slots := by
  have hfree : free.Perm
      ((List.range pool.slots).filter fun slot => decide ¬(pool.get? slot).isSome) := by
    refine (List.perm_ext_iff_of_nodup h.distinct (List.nodup_range.filter _)).mpr ?_
    intro slot
    simp only [List.mem_filter, List.mem_range, decide_eq_true_eq, Option.not_isSome_iff_eq_none]
    exact ⟨fun hslot => ⟨h.lt_slots hslot, h.get?_eq_none hslot⟩,
      fun ⟨hlt, hnone⟩ => h.mem_of_get?_eq_none hlt hnone⟩
  rw [h.count, live_eq_filterMap_range (Nat.le_refl pool.slots),
    List.length_filterMap_eq_countP, hfree.length_eq, ← List.countP_eq_length_filter,
    ← List.length_eq_countP_add_countP, List.length_range]

theorem len_le_slots (h : pool.Valid free) : pool.len ≤ pool.slots := by
  have := h.len_add_length
  omega

end Valid

end LinkedPool.Pool
