import LinkedPool.Element.Tracked
import LinkedPool.Pool.Operation
import LinkedPool.Proofs.Pool.Clone

/-!
# Pools after a clear that panicked

A clear gives up the slots first, then drops the objects, and resets the
chain and the count only when all are dropped. If one of the drops panics,
the chain and the count are left as they were. What is left is one of two
things:

* If no slot was vacant, the chain is in order and the count is too high: the
  pool is `Miscounted`. It stays so whatever is done to it, and no object in
  it comes to harm.
* If a slot was vacant, the chain begins at a slot that is gone: the pool is
  `Spent`. It takes no object and makes no room until it is cleared again.

Every pool that operations and copies lead to is one or the other, and the
count is right unless such a clear has left it (`reachable_consistent`).
-/

namespace LinkedPool

namespace Pool

variable {β : Type} {pool pool' sound : Pool β} {slot : Slot} {free : List Slot} {object : β}
  {memory : Memory} {excess : Nat} {stale : Bool}

/-- The slots of `free` are vacant, and chained in this order; the pool has
no other vacant slots. It counts `excess` more objects than it holds. -/
structure Miscounted (pool : Pool β) (free : List Slot) (excess : Nat) : Prop where
  chained : Chained pool.storage pool.firstFree free
  distinct : free.Nodup
  complete : ∀ slot next, pool.storage[slot]? = some (.vacant next) → slot ∈ free
  count : pool.len = pool.live.length + excess
  fits : pool.slots ≤ pool.capacity
  bounded : pool.capacity < Capacity.ceiling

/-- The chain of vacant slots begins somewhere, and objects are counted, but
the pool has no slots. -/
structure Spent (pool : Pool β) : Prop where
  storage : pool.storage = #[]
  linked : ∃ slot, pool.firstFree = some slot
  counted : 0 < pool.len
  bounded : pool.capacity < Capacity.ceiling

theorem Spent.not_miscounted (h : pool.Spent) : ¬pool.Miscounted free excess := by
  intro hmis
  obtain ⟨slot, hslot⟩ := h.linked
  have hchained := hmis.chained
  rw [h.storage, hslot] at hchained
  cases free with
  | nil => cases hchained
  | cons first rest =>
      obtain ⟨-, next, hfirst, -⟩ := hchained
      cases hfirst

/-! ## Pools that count too many -/

theorem Valid.overcounted (h : sound.Valid free) (excess : Nat) :
    { sound with len := sound.len + excess }.Miscounted free excess :=
  ⟨h.chained, h.distinct, h.complete, congrArg (· + excess) h.count, h.fits, h.bounded⟩

theorem Miscounted.exists_valid (h : pool.Miscounted free excess) :
    ∃ sound : Pool β, sound.Valid free ∧ pool = { sound with len := sound.len + excess } := by
  refine ⟨{ pool with len := pool.live.length },
    ⟨h.chained, h.distinct, h.complete, rfl, h.fits, h.bounded⟩, ?_⟩
  rw [← h.count]

theorem Miscounted.withMemory [Stored β] (h : pool.Miscounted free excess) {needed capacity : Nat}
    (hgrow : Capacity.grow β memory pool.capacity needed = .ok capacity) :
    { pool with capacity }.Miscounted free excess :=
  ⟨h.chained, h.distinct, h.complete, h.count, h.fits.trans (Capacity.le_of_grow hgrow),
    Capacity.lt_ceiling_of_grow h.bounded hgrow⟩

theorem Miscounted.put (h : pool.Miscounted free excess) {old : β}
    (hslot : pool.get? slot = some old) (object : β) :
    (pool.put slot object).Miscounted free excess := by
  obtain ⟨sound, hvalid, rfl⟩ := h.exists_valid
  exact (hvalid.put hslot object).overcounted excess

theorem Miscounted.allocate [Stored β] (h : pool.Miscounted free excess)
    (hallocate : pool.allocate memory object = .ok (.ok (slot, pool'))) :
    ∃ free', pool'.Miscounted free' excess := by
  obtain ⟨sound, hvalid, rfl⟩ := h.exists_valid
  rcases allocate_cases hallocate with
    ⟨next, hfirst, hvacant, rfl⟩ | ⟨capacity, hfirst, -, hgrow, rfl⟩
  · cases free with
    | nil => cases hfirst.symm.trans hvalid.firstFree_eq
    | cons first rest =>
        obtain ⟨hstart, next', hentry, hrest⟩ := hvalid.chained
        obtain rfl : slot = first := Option.some.inj (hfirst.symm.trans hstart)
        obtain rfl : next = next' := Entry.vacant.inj (Option.some.inj (hvacant.symm.trans hentry))
        have hfilled := (hvalid.fill object).overcounted excess
        rw [fill, ← hrest.start_eq] at hfilled
        simp only [Nat.add_right_comm] at hfilled ⊢
        exact ⟨rest, hfilled⟩
  · cases free with
    | cons first rest => cases hfirst.symm.trans hvalid.firstFree_eq
    | nil =>
        have hpushed := (hvalid.push object (Capacity.needed_le_of_grow hgrow)
          (Capacity.lt_ceiling_of_grow hvalid.bounded hgrow)).overcounted excess
        rw [push, Nat.add_right_comm] at hpushed
        exact ⟨[], hpushed⟩

/-- A removal counts down, however much too high the count is. -/
theorem Miscounted.vacate (h : pool.Miscounted free excess)
    (hslot : pool.get? slot = some object) :
    pool.vacate slot = .ok (some (object, pool.reclaim slot))
      ∧ (pool.reclaim slot).Miscounted (slot :: free) excess
      ∧ (pool.reclaim slot).len + 1 = pool.len := by
  obtain ⟨sound, hvalid, rfl⟩ := h.exists_valid
  have hpos : 1 ≤ sound.len := hvalid.len_pos hslot
  have hminus : Count.minus (sound.len + excess) 1 = .ok (sound.len + excess - 1) :=
    Count.minus_of_le (hpos.trans (Nat.le_add_right _ _))
  refine ⟨?_, ?_, ?_⟩
  · rw [Pool.vacate, hslot]
    simp only [hminus]
    rfl
  · have hreclaimed := (hvalid.reclaim hslot).overcounted excess
    rw [reclaim, show sound.len - 1 + excess = sound.len + excess - 1 by omega] at hreclaimed
    exact hreclaimed
  · show sound.len + excess - 1 + 1 = sound.len + excess
    omega

theorem Miscounted.image (h : pool.Miscounted free excess) (f : β → β) :
    (pool.image f).Miscounted free excess := by
  obtain ⟨sound, hvalid, rfl⟩ := h.exists_valid
  exact (hvalid.image f).overcounted excess

/-- Making room changes the memory or nothing. -/
theorem capacity_of_reserve [Stored β] {additional : Nat}
    (h : pool.reserve additional = .ok pool') :
    ∃ needed capacity, Capacity.grow β .ample pool.capacity needed = .ok capacity
      ∧ pool' = { pool with capacity } := by
  unfold reserve at h
  obtain ⟨vacant, -, h⟩ := exists_of_bind_eq_ok h
  split at h
  · obtain ⟨lacking, -, h⟩ := exists_of_bind_eq_ok h
    split at h
    · rename_i capacity hgrow
      cases h
      exact ⟨_, capacity, hgrow, rfl⟩
    · cases h
  · cases h
    exact ⟨0, pool.capacity, Capacity.grow_of_le .ample (Nat.zero_le _), rfl⟩

/-! ## Operations on a pool, in order or not -/

section Operations

variable [Element β]

/-- An insertion leaves the pool with the object in it, or as it was. -/
theorem state_insert_cases (memory : Memory) (object : β) (pool : Pool β) :
    (pool.insert memory object).state = pool
      ∨ ∃ slot, pool.allocate memory object
        = .ok (.ok (slot, (pool.insert memory object).state)) := by
  rw [insert]
  cases hallocate : pool.allocate memory object with
  | error panic => exact .inl rfl
  | ok taken =>
      cases taken with
      | error refusal => exact .inl rfl
      | ok taken => exact .inr ⟨taken.1, rfl⟩

theorem get?_insert_of_get? (h : pool.get? slot = some object) (memory : Memory) (other : β) :
    (pool.insert memory other).state.get? slot = some object := by
  rcases state_insert_cases memory other pool with hsame | ⟨taken, hallocate⟩
  · rw [hsame, h]
  · obtain ⟨habsent, hview⟩ := get?_of_allocate hallocate
    have hne : slot ≠ taken := by
      rintro rfl
      cases h.symm.trans habsent
    rw [hview, Function.update_of_ne hne, h]

theorem state_remove (pool : Pool β) (slot : Slot) :
    (pool.perform (.remove slot)).state = (pool.take slot).state := by
  rw [perform]
  cases htake : pool.take slot with
  | mk call state =>
      obtain ⟨result, trace⟩ := call
      cases result <;> rfl

/-- Whatever is done to a pool, but for a clear, it goes on counting too many. -/
theorem Miscounted.perform (h : pool.Miscounted free excess) {operation : Operation β}
    (hclear : operation ≠ .clear) :
    ∃ free', (pool.perform operation).state.Miscounted free' excess := by
  cases operation with
  | insert memory object =>
      rcases state_insert_cases memory object pool with hsame | ⟨slot, hallocate⟩
      · exact ⟨free, hsame.symm ▸ h⟩
      · exact h.allocate hallocate
  | remove slot =>
      rw [state_remove]
      cases hslot : pool.get? slot with
      | none =>
          rw [take_of_get?_eq_none hslot]
          exact ⟨free, h⟩
      | some object =>
          obtain ⟨hvacate, hnext, -⟩ := h.vacate hslot
          rw [take, hvacate]
          exact ⟨_, hnext⟩
  | assign slot object =>
      rw [Pool.perform, assign]
      cases hslot : pool.get? slot with
      | none => exact ⟨free, h⟩
      | some old => exact ⟨free, h.put hslot object⟩
  | overwrite slot object =>
      rw [Pool.perform, overwrite, get]
      cases hslot : pool.get? slot with
      | none => exact ⟨free, h⟩
      | some old => exact ⟨free, h.put hslot object⟩
  | reserve additional =>
      rw [Pool.perform]
      cases hreserve : pool.reserve additional with
      | error panic => exact ⟨free, h⟩
      | ok pool' =>
          obtain ⟨needed, capacity, hgrow, rfl⟩ := capacity_of_reserve hreserve
          exact ⟨free, h.withMemory hgrow⟩
  | clear => exact absurd rfl hclear
  | get slot => exact ⟨free, h⟩
  | read slot => exact ⟨free, h⟩
  | len => exact ⟨free, h⟩
  | isEmpty => exact ⟨free, h⟩

/-- What a clear leaves that panicked: the chain tells whether the pool is spent. -/
theorem Miscounted.clear (h : pool.Miscounted free excess) (halarming : ¬Element.Calm pool.live) :
    ({ pool with storage := #[] } : Pool β).Miscounted [] pool.len
      ∨ ({ pool with storage := #[] } : Pool β).Spent := by
  cases free with
  | nil =>
      refine .inl ⟨h.chained, .nil, ?_, (Nat.zero_add _).symm, Nat.zero_le _, h.bounded⟩
      intro slot next hvacant
      cases hvacant
  | cons first rest =>
      refine .inr ⟨rfl, ⟨first, h.chained.1⟩, ?_, h.bounded⟩
      have hlive : 0 < pool.live.length := by
        refine List.length_pos_iff.mpr ?_
        intro hnil
        exact halarming (hnil ▸ List.forall_mem_nil _)
      show 0 < pool.len
      rw [h.count]
      omega

theorem eq_image_of_clone (h : pool.clone.result = .ok pool') :
    pool' = pool.image Element.twin := by
  rcases clone_cases pool with ⟨-, hclone⟩ | ⟨front, x, back, panic, -, -, -, hclone⟩
  · rw [hclone] at h
    exact (Except.ok.inj h).symm
  · rw [hclone] at h
    cases h

theorem clear_of_result (h : pool.clear.result = .ok ()) : pool.clear.state = pool.cleared := by
  rcases clear_cases pool with ⟨-, hclear⟩ | ⟨panic, -, hclear⟩
  · rw [hclear]
  · rw [hclear] at h
    cases h

end Operations

/-! ## Pools without slots -/

namespace Spent

theorem slots_eq (h : pool.Spent) : pool.slots = 0 := by
  rw [slots, h.storage]
  rfl

theorem get?_eq_none (h : pool.Spent) (slot : Slot) : pool.get? slot = none :=
  get?_eq_none_of_le (h.slots_eq ▸ Nat.zero_le slot)

theorem take (h : pool.Spent) (slot : Slot) : pool.take slot = ⟨⟨.ok none, []⟩, pool⟩ :=
  take_of_get?_eq_none (h.get?_eq_none slot)

theorem reserve [Stored β] (h : pool.Spent) (additional : Nat) :
    pool.reserve additional = .error .subtractOverflow := by
  rw [Pool.reserve, h.slots_eq, Count.minus, if_neg (Nat.not_le_of_lt h.counted)]
  rfl

theorem image (h : pool.Spent) (f : β → β) : (pool.image f).Spent := by
  refine ⟨?_, h.linked, h.counted, ?_⟩
  · rw [Pool.image, h.storage]
    rfl
  · show pool.slots < Capacity.ceiling
    rw [h.slots_eq]
    decide

variable [Element β]

theorem insert (h : pool.Spent) (memory : Memory) (object : β) :
    ∃ slot, pool.insert memory object
      = ⟨⟨.error (.outOfBounds 0 slot), [.dropped object]⟩, pool⟩ := by
  obtain ⟨slot, hslot⟩ := h.linked
  have hnext : pool.nextFree slot = .error (.outOfBounds 0 slot) := by
    rw [nextFree, h.slots_eq, h.storage]
    rfl
  refine ⟨slot, ?_⟩
  rw [Pool.insert, allocate, hslot]
  simp only [hnext]
  rfl

/-- Nothing but a clear changes a spent pool. -/
theorem perform (h : pool.Spent) {operation : Operation β} (hclear : operation ≠ .clear) :
    (pool.perform operation).state = pool := by
  cases operation with
  | insert memory object =>
      obtain ⟨slot, hinsert⟩ := h.insert memory object
      rw [Pool.perform, hinsert]
      rfl
  | remove slot => rw [state_remove, h.take]
  | assign slot object =>
      rw [Pool.perform, assign, h.get?_eq_none]
      rfl
  | overwrite slot object =>
      rw [Pool.perform, overwrite, get, h.get?_eq_none]
      rfl
  | reserve additional =>
      rw [Pool.perform, h.reserve]
      rfl
  | clear => exact absurd rfl hclear
  | get slot => rfl
  | read slot => rfl
  | len => rfl
  | isEmpty => rfl

end Spent

/-! ## Everything that a pool can come to -/

section Reachable

variable [Element β]

/-- Whether the chain and the count are in doubt after an operation that ended
with `result`: a clear that panics brings that about, and one that is
completed sets them right. -/
def Operation.spoils (stale : Bool) : Operation β → Except Panic (Reply β) → Bool
  | .clear, .ok _ => false
  | .clear, .error _ => true
  | _, _ => stale

/-- The pools that operations and copies lead to; `stale` if a clear has
panicked and none has been completed since, on the pool or on the one that
it is a copy of. -/
inductive Reachable : (pool : Pool β) → (stale : Bool) → Prop
  | begun {n : Nat} {pool : Pool β} (begun : Begun n pool) : Reachable pool false
  | operated {pool : Pool β} {stale : Bool} (reachable : Reachable pool stale)
      (operation : Operation β) :
      Reachable (pool.perform operation).state
        (operation.spoils stale (pool.perform operation).result)
  | cloned {pool copy : Pool β} {stale : Bool} (reachable : Reachable pool stale)
      (made : pool.clone.result = .ok copy) : Reachable copy stale

def Consistent (pool : Pool β) (stale : Bool) : Prop :=
  (∃ free excess, pool.Miscounted free excess ∧ (stale = false → excess = 0))
    ∨ (pool.Spent ∧ stale = true)

theorem Begun.consistent {n : Nat} (h : Begun n pool) : pool.Consistent false :=
  .inl ⟨_, 0, h.valid.overcounted 0, fun _ => rfl⟩

omit [Element β] in
theorem Operation.spoils_of_ne {operation : Operation β} (h : operation ≠ .clear)
    (result : Except Panic (Reply β)) : operation.spoils stale result = stale := by
  cases operation with
  | clear => exact absurd rfl h
  | _ => rfl

omit [Element β] in
theorem Consistent.bounded (h : pool.Consistent stale) : pool.capacity < Capacity.ceiling := by
  rcases h with ⟨free, excess, hmis, -⟩ | ⟨hspent, -⟩
  · exact hmis.bounded
  · exact hspent.bounded

theorem Consistent.clear (h : pool.Consistent stale) :
    (pool.perform .clear).state.Consistent
      (Operation.clear.spoils stale (pool.perform .clear).result) := by
  rw [perform]
  rcases clear_cases pool with ⟨-, hclear⟩ | ⟨panic, halarming, hclear⟩
  · rw [hclear]
    refine .inl ⟨[], 0, ⟨rfl, .nil, ?_, rfl, Nat.zero_le _, h.bounded⟩, fun _ => rfl⟩
    intro slot next hvacant
    cases hvacant
  · rw [hclear]
    rcases h with ⟨free, excess, hmis, -⟩ | ⟨hspent, -⟩
    · rcases hmis.clear halarming with hleft | hleft
      · exact .inl ⟨[], pool.len, hleft, nofun⟩
      · exact .inr ⟨hleft, rfl⟩
    · refine absurd ?_ halarming
      rw [live, hspent.storage]
      exact List.forall_mem_nil _

theorem Consistent.perform (h : pool.Consistent stale) (operation : Operation β) :
    (pool.perform operation).state.Consistent
      (operation.spoils stale (pool.perform operation).result) := by
  by_cases hclear : operation = .clear
  · subst hclear
    exact h.clear
  · rw [Operation.spoils_of_ne hclear]
    rcases h with ⟨free, excess, hmis, hexcess⟩ | ⟨hspent, hstale⟩
    · obtain ⟨free', hnext⟩ := hmis.perform hclear
      exact .inl ⟨free', excess, hnext, hexcess⟩
    · rw [hspent.perform hclear]
      exact .inr ⟨hspent, hstale⟩

theorem Reachable.consistent (h : pool.Reachable stale) : pool.Consistent stale := by
  induction h with
  | begun begun => exact begun.consistent
  | operated _ operation ih => exact ih.perform operation
  | cloned _ made ih =>
      rw [eq_image_of_clone made]
      rcases ih with ⟨free, excess, hmis, hexcess⟩ | ⟨hspent, hstale⟩
      · exact .inl ⟨free, excess, hmis.image _, hexcess⟩
      · exact .inr ⟨hspent.image _, hstale⟩

/-- A pool has its vacant slots chained and counts its objects rightly, but for
an excess left by a clear that panicked, or else it is spent. Whatever the
excess, an insertion leaves the objects alone and a removal counts down. A
spent pool has no objects, takes none, and stays as it is until it is
cleared. Either of them is empty after a clear that is completed. -/
theorem reachable_consistent (h : pool.Reachable stale) :
    Xor (∃ free excess, pool.Miscounted free excess ∧ (stale = false → excess = 0)) pool.Spent
      ∧ (∀ free excess, pool.Miscounted free excess →
        (∀ memory object slot held, pool.get? slot = some held →
          (pool.insert memory object).state.get? slot = some held)
        ∧ (∀ slot held, pool.get? slot = some held →
          pool.take slot = ⟨⟨.ok (some held), []⟩, pool.reclaim slot⟩
            ∧ (pool.reclaim slot).len + 1 = pool.len)
        ∧ ∀ copy, pool.clone.result = .ok copy → copy.Miscounted free excess)
      ∧ (pool.Spent →
        (∀ slot, pool.get? slot = none ∧ pool.take slot = ⟨⟨.ok none, []⟩, pool⟩)
        ∧ (∀ memory object, ∃ slot,
          (pool.insert memory object).result = .error (.outOfBounds 0 slot))
        ∧ (∀ additional, pool.reserve additional = .error .subtractOverflow)
        ∧ (∀ operation, operation ≠ .clear → (pool.perform operation).state = pool)
        ∧ ∀ copy, pool.clone.result = .ok copy → copy.Spent)
      ∧ (pool.clear.result = .ok () → pool.clear.state = ⟨#[], none, 0, pool.capacity⟩) := by
  refine ⟨?_, ?_, ?_, clear_of_result⟩
  · rcases h.consistent with ⟨free, excess, hpool, hexcess⟩ | ⟨hspent, -⟩
    · exact .inl ⟨⟨free, excess, hpool, hexcess⟩, fun hspent => hspent.not_miscounted hpool⟩
    · exact .inr ⟨hspent, fun ⟨free, excess, hpool, _⟩ => hspent.not_miscounted hpool⟩
  · intro free excess hmis
    refine ⟨fun memory object slot held hslot => get?_insert_of_get? hslot memory object, ?_, ?_⟩
    · intro slot held hslot
      obtain ⟨hvacate, -, hlen⟩ := hmis.vacate hslot
      refine ⟨?_, hlen⟩
      rw [take, hvacate]
      rfl
    · intro copy hcopy
      rw [eq_image_of_clone hcopy]
      exact hmis.image _
  · intro hspent
    refine ⟨fun slot => ⟨hspent.get?_eq_none slot, hspent.take slot⟩, ?_, hspent.reserve,
      fun operation => hspent.perform, ?_⟩
    · intro memory object
      obtain ⟨slot, hinsert⟩ := hspent.insert memory object
      exact ⟨slot, by rw [hinsert]⟩
    · intro copy hcopy
      rw [eq_image_of_clone hcopy]
      exact hspent.image _

/-- One object that panics when it is dropped, and no vacant slot. -/
def surplus : Pool Tracked := empty.final [.insert .ample ⟨1, "x", some .dropping⟩, .clear]

/-- One object that panics when it is dropped, and a vacant slot. -/
def stranded : Pool Tracked :=
  empty.final [.insert .ample ⟨1, "x", some .dropping⟩, .insert .ample ⟨2, "y", none⟩, .remove 1,
    .clear]

theorem stranded_consistent :
    stranded.Spent
      ∧ (∀ operation, operation ≠ .clear → (stranded.perform operation).state = stranded)
      ∧ stranded.clear.state = ⟨#[], none, 0, 4⟩
      ∧ surplus.Miscounted [] 1
      ∧ ∀ copy, surplus.clone.result = .ok copy → copy.Miscounted [] 1 := by
  have hempty : (empty : Pool Tracked).Reachable false := .begun .empty
  have hsurplus : surplus.Reachable true := (hempty.operated (.insert ..)).operated .clear
  have hstranded : stranded.Reachable true :=
    (((hempty.operated (.insert ..)).operated (.insert ..)).operated (.remove 1)).operated .clear
  have hspent : stranded.Spent := ⟨rfl, ⟨1, rfl⟩, by decide, by decide⟩
  have hmis : surplus.Miscounted [] 1 := ⟨rfl, .nil, nofun, rfl, by decide, by decide⟩
  obtain ⟨-, -, hstays, hclear⟩ := reachable_consistent hstranded
  obtain ⟨-, hcounts, -, -⟩ := reachable_consistent hsurplus
  exact ⟨hspent, (hstays hspent).2.2.2.1, hclear rfl, hmis, (hcounts [] 1 hmis).2.2⟩

end Reachable

end Pool

end LinkedPool
