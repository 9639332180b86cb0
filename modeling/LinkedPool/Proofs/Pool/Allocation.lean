import LinkedPool.Proofs.Pool.Vacancy

/-!
# Insertions and removals in a valid pool

Each operation on a valid pool is described by what it does to the vacant
slots `free`:

- an insertion takes the first of them (`allocate_of_vacant`);
- if there is none, it takes a new slot, or its growth is refused
  (`allocate_of_full`);
- a removal puts its slot in front (`vacate_of_get?`);
- an object replaced in its slot leaves them as they are (`Valid.put`).

None of them panics, and the pool after each is valid again. What they do to
the objects (`get?_of_allocate`, `get?_of_vacate`) does not depend on that.
-/

namespace LinkedPool

/-- A call that succeeds after another one: so did the other one. -/
theorem exists_of_bind_eq_ok {ε ρ τ : Type} {result : Except ε ρ} {next : ρ → Except ε τ}
    {value : τ} (h : result >>= next = .ok value) :
    ∃ found, result = .ok found ∧ next found = .ok value := by
  cases result with
  | error panic => cases h
  | ok found => exact ⟨found, rfl, h⟩

theorem Count.eq_of_succ {n m : Nat} (h : Count.succ n = .ok m) : m = n + 1 := by
  unfold Count.succ at h
  split at h
  · exact (Except.ok.inj h).symm
  · cases h

namespace Pool

variable {β : Type} {pool pool' : Pool β} {slot : Slot} {free : List Slot} {object : β}
  {memory : Memory}

/-- The pool with `object` put into `slot`, from where the chain led on to `free`. -/
def fill (slot : Slot) (object : β) (free : List Slot) (pool : Pool β) : Pool β :=
  { pool.put slot object with firstFree := free.head?, len := pool.len + 1 }

def push (object : β) (capacity : Nat) (pool : Pool β) : Pool β :=
  { pool with storage := pool.storage.push (.used object), len := pool.len + 1, capacity }

/-- The pool with `slot` put on top of the chain. -/
def reclaim (slot : Slot) (pool : Pool β) : Pool β :=
  { pool with
    storage := pool.storage.setIfInBounds slot (.vacant pool.firstFree)
    firstFree := some slot
    len := pool.len - 1 }

/-! ## What the slots hold -/

theorem get?_fill (h : slot < pool.slots) (object : β) (free : List Slot) :
    (pool.fill slot object free).get? = Function.update pool.get? slot (some object) :=
  get?_of_setIfInBounds (.used object) h rfl

theorem get?_push (object : β) (capacity : Nat) (pool : Pool β) :
    (pool.push object capacity).get? = Function.update pool.get? pool.slots (some object) :=
  get?_of_push rfl

theorem get?_reclaim (h : slot < pool.slots) :
    (pool.reclaim slot).get? = Function.update pool.get? slot none :=
  get?_of_setIfInBounds (.vacant pool.firstFree) h rfl

@[simp] theorem slots_fill (pool : Pool β) (slot : Slot) (object : β) (free : List Slot) :
    (pool.fill slot object free).slots = pool.slots :=
  Array.size_setIfInBounds

@[simp] theorem slots_push (pool : Pool β) (object : β) (capacity : Nat) :
    (pool.push object capacity).slots = pool.slots + 1 :=
  Array.size_push _

@[simp] theorem slots_reclaim (pool : Pool β) (slot : Slot) :
    (pool.reclaim slot).slots = pool.slots :=
  Array.size_setIfInBounds

theorem storage_of_nextFree {next : Option Slot} (h : pool.nextFree slot = .ok next) :
    pool.storage[slot]? = some (.vacant next) := by
  unfold nextFree at h
  split at h
  · rename_i found hfound
    rw [hfound, Except.ok.inj h]
  · cases h
  · cases h

/-- An insertion that succeeds, into a valid pool or not, takes the slot on top
of the chain, which is vacant, or a new one if there is no chain. -/
theorem allocate_cases [Stored β] (h : pool.allocate memory object = .ok (.ok (slot, pool'))) :
    (∃ next, pool.firstFree = some slot ∧ pool.storage[slot]? = some (.vacant next)
        ∧ pool' = { pool.put slot object with firstFree := next, len := pool.len + 1 })
      ∨ ∃ capacity, pool.firstFree = none ∧ slot = pool.slots
        ∧ Capacity.grow β memory pool.capacity (pool.slots + 1) = .ok capacity
        ∧ pool' = pool.push object capacity := by
  unfold allocate at h
  split at h
  · rename_i first hfirst
    obtain ⟨next, hnext, h⟩ := exists_of_bind_eq_ok h
    obtain ⟨len, hsucc, h⟩ := exists_of_bind_eq_ok h
    cases h
    exact .inl ⟨next, hfirst, storage_of_nextFree hnext, by rw [Count.eq_of_succ hsucc]⟩
  · rename_i hfirst
    split at h
    · cases h
    · rename_i capacity hgrow
      obtain ⟨len, hsucc, h⟩ := exists_of_bind_eq_ok h
      cases h
      exact .inr ⟨capacity, hfirst, rfl, hgrow, by rw [Count.eq_of_succ hsucc, push]⟩

/-- An insertion that succeeds, into a valid pool or not, takes a slot that
held nothing. -/
theorem get?_of_allocate [Stored β] (h : pool.allocate memory object = .ok (.ok (slot, pool'))) :
    pool.get? slot = none ∧ pool'.get? = Function.update pool.get? slot (some object) := by
  rcases allocate_cases h with ⟨next, -, hvacant, rfl⟩ | ⟨capacity, -, rfl, -, rfl⟩
  · exact ⟨get?_eq_none_of_vacant hvacant,
      get?_of_setIfInBounds (.used object) (Array.getElem?_eq_some_iff.mp hvacant).1 rfl⟩
  · exact ⟨get?_eq_none_of_le (Nat.le_refl _), get?_push object capacity pool⟩

/-- A removal that succeeds, from a valid pool or not, takes what its slot held. -/
theorem get?_of_vacate (h : pool.vacate slot = .ok (some (object, pool'))) :
    pool.get? slot = some object ∧ pool'.get? = Function.update pool.get? slot none := by
  unfold vacate at h
  split at h
  · cases h
  · rename_i held hheld
    obtain ⟨len, -, h⟩ := exists_of_bind_eq_ok h
    cases h
    exact ⟨hheld, get?_of_setIfInBounds (.vacant pool.firstFree) (lt_slots_of_get? hheld) rfl⟩

/-! ## Valid pools -/

/-- A chain without `slot` stays a chain when `slot` is written to. -/
theorem Chained.setIfInBounds {storage : Array (Entry β)} {start : Option Slot}
    {entry : Entry β} (h : Chained storage start free) (hslot : slot ∉ free) :
    Chained (storage.setIfInBounds slot entry) start free :=
  h.frame fun other hother => Array.getElem?_setIfInBounds_ne fun heq : slot = other =>
    hslot (heq ▸ hother)

/-- When an object is written into a slot, only other slots stay vacant. -/
theorem vacant_of_setIfInBounds_used {storage : Array (Entry β)} {other : Slot}
    {next : Option Slot} (hlt : slot < storage.size)
    (h : (storage.setIfInBounds slot (.used object))[other]? = some (.vacant next)) :
    slot ≠ other ∧ storage[other]? = some (.vacant next) := by
  by_cases heq : slot = other
  · subst heq
    rw [Array.getElem?_setIfInBounds_self_of_lt hlt] at h
    cases h
  · rw [Array.getElem?_setIfInBounds_ne heq] at h
    exact ⟨heq, h⟩

namespace Valid

theorem fill (h : pool.Valid (slot :: free)) (object : β) :
    (pool.fill slot object free).Valid free := by
  obtain ⟨_, next, hslot, hrest⟩ := h.chained
  obtain ⟨hnotin, hdistinct⟩ := List.nodup_cons.mp h.distinct
  have hlt : slot < pool.slots := h.lt_slots (List.mem_cons_self ..)
  have hlive := live_perm_of_update (get?_fill hlt object free)
  rw [h.get?_eq_none (List.mem_cons_self ..)] at hlive
  refine ⟨?_, hdistinct, ?_, ?_, ?_, h.bounded⟩
  · rw [show (pool.fill slot object free).firstFree = next from hrest.start_eq.symm]
    exact hrest.setIfInBounds hnotin
  · intro other next' hvacant
    obtain ⟨hne, hold⟩ := vacant_of_setIfInBounds_used hlt hvacant
    exact (List.mem_cons.mp (h.complete other next' hold)).resolve_left (Ne.symm hne)
  · exact (congrArg (· + 1) h.count).trans hlive.length_eq
  · rw [slots_fill]
    exact h.fits

theorem push (h : pool.Valid []) {capacity : Nat} (object : β)
    (hfits : pool.slots + 1 ≤ capacity) (hbounded : capacity < Capacity.ceiling) :
    (pool.push object capacity).Valid [] := by
  have hlive := live_perm_of_update (get?_push object capacity pool)
  rw [get?_eq_none_of_le (Nat.le_refl _)] at hlive
  refine ⟨h.chained, .nil, ?_, ?_, ?_, hbounded⟩
  · intro other next hvacant
    rw [show (pool.push object capacity).storage = pool.storage.push (.used object) from rfl,
      Array.getElem?_push] at hvacant
    split at hvacant
    · cases hvacant
    · exact h.complete other next hvacant
  · exact (congrArg (· + 1) h.count).trans hlive.length_eq
  · rw [slots_push]
    exact hfits

theorem reclaim (h : pool.Valid free) (hslot : pool.get? slot = some object) :
    (pool.reclaim slot).Valid (slot :: free) := by
  have hlt : slot < pool.slots := lt_slots_of_get? hslot
  have hnotin : slot ∉ free := h.not_mem_of_get? hslot
  have hlive := live_perm_of_update (get?_reclaim hlt)
  rw [hslot] at hlive
  refine ⟨⟨rfl, pool.firstFree, ?_, h.chained.setIfInBounds hnotin⟩,
    List.nodup_cons.mpr ⟨hnotin, h.distinct⟩, ?_, ?_, ?_, h.bounded⟩
  · exact Array.getElem?_setIfInBounds_self_of_lt hlt
  · intro other next hvacant
    by_cases heq : slot = other
    · exact heq ▸ List.mem_cons_self ..
    · refine List.mem_cons_of_mem _ (h.complete other next ?_)
      rwa [show (pool.reclaim slot).storage = pool.storage.setIfInBounds slot _ from rfl,
        Array.getElem?_setIfInBounds_ne heq] at hvacant
  · have hlength := hlive.length_eq
    have hcount := h.count
    simp only [Option.toList_some, Option.toList_none, List.nil_append, List.singleton_append,
      List.length_cons] at hlength
    show pool.len - 1 = _
    omega
  · rw [slots_reclaim]
    exact h.fits

theorem put (h : pool.Valid free) {old : β} (hslot : pool.get? slot = some old) (object : β) :
    (pool.put slot object).Valid free := by
  have hlt : slot < pool.slots := lt_slots_of_get? hslot
  have hlive := live_perm_of_update (get?_put hlt object)
  rw [hslot] at hlive
  refine ⟨h.chained.setIfInBounds (h.not_mem_of_get? hslot), h.distinct, ?_, ?_, ?_, h.bounded⟩
  · intro other next hvacant
    exact h.complete other next (vacant_of_setIfInBounds_used hlt hvacant).2
  · exact h.count.trans (Nat.succ.inj hlive.length_eq)
  · rw [slots_put]
    exact h.fits

theorem succ_len (h : pool.Valid free) : Count.succ pool.len = .ok (pool.len + 1) := by
  refine Count.succ_of_lt ?_
  have hlen := h.len_le_slots
  have hfits := h.fits
  have hbounded := h.bounded
  unfold Capacity.ceiling at hbounded
  unfold Count.limit
  omega

theorem len_pos (h : pool.Valid free) (hslot : pool.get? slot = some object) : 0 < pool.len := by
  have hlive := (live_perm_of_update (get?_reclaim (lt_slots_of_get? hslot))).length_eq
  rw [hslot] at hlive
  rw [h.count]
  simp only [Option.toList_some, Option.toList_none, List.nil_append, List.singleton_append,
    List.length_cons] at hlive
  omega

end Valid

/-! ## Operations on valid pools -/

theorem allocate_of_vacant [Stored β] (h : pool.Valid (slot :: free)) (memory : Memory)
    (object : β) :
    pool.allocate memory object = .ok (.ok (slot, pool.fill slot object free)) := by
  obtain ⟨hfirst, next, hslot, hrest⟩ := h.chained
  have hnext : pool.nextFree slot = .ok next := by rw [nextFree, hslot]
  rw [allocate, hfirst]
  simp only [hnext, h.succ_len]
  rw [hrest.start_eq]
  rfl

theorem allocate_of_full [Stored β] (h : pool.Valid []) (memory : Memory) (object : β) :
    pool.allocate memory object
      = .ok ((Capacity.grow β memory pool.capacity (pool.slots + 1)).map fun capacity =>
          (pool.slots, pool.push object capacity)) := by
  have hfirst : pool.firstFree = none := h.firstFree_eq
  rw [allocate, hfirst]
  cases Capacity.grow β memory pool.capacity (pool.slots + 1) with
  | error refusal => rfl
  | ok capacity =>
      simp only [h.succ_len, push, hfirst]
      rfl

theorem vacate_of_get? (h : pool.Valid free) (hslot : pool.get? slot = some object) :
    pool.vacate slot = .ok (some (object, pool.reclaim slot)) := by
  have hpos : 1 ≤ pool.len := h.len_pos hslot
  rw [vacate, hslot]
  simp only [Count.minus_of_le hpos]
  rfl

end Pool

end LinkedPool
