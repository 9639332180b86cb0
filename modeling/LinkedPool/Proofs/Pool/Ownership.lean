import LinkedPool.Pool.Ownership
import LinkedPool.Proofs.Pool.Room
import LinkedPool.Proofs.Traced

/-!
# Insertions and removals with what they drop

An insertion into a valid pool puts its object into a slot that held none,
and into the first vacant one if there is any (`Inserted`), or the growth
of the storage is refused, and the object is dropped with the pool as it
was (`insert_cases`). A pool without objects is cleared without a drop
(`clear_of_len_eq_zero`).
-/

namespace LinkedPool.Pool

variable {β : Type} {pool pool' : Pool β} {slot : Slot} {free : List Slot} {object : β}

/-- Where an insertion got its `slot` from: it was the first of the vacant
slots `free` and leaves `free'`, or it is new, and the storage grew for it. -/
inductive Obtained [Stored β] (memory : Memory) (pool : Pool β) :
    (free : List Slot) → (slot : Slot) → (pool' : Pool β) → (free' : List Slot) → Prop
  | vacant {slot : Slot} {free' : List Slot} {pool' : Pool β} (slots : pool'.slots = pool.slots)
      (capacity : pool'.capacity = pool.capacity) :
      Obtained memory pool (slot :: free') slot pool' free'
  | new {pool' : Pool β} (slots : pool'.slots = pool.slots + 1)
      (grown : Capacity.grow β memory pool.capacity (pool.slots + 1) = .ok pool'.capacity) :
      Obtained memory pool [] pool.slots pool' []

/-- `pool'` is `pool` with `object` put into `slot`, which was vacant or is
new; the vacant slots were `free` and are `free'`. -/
structure Inserted [Stored β] (memory : Memory) (object : β) (pool : Pool β) (free : List Slot)
    (slot : Slot) (pool' : Pool β) (free' : List Slot) : Prop where
  valid : pool'.Valid free'
  absent : pool.get? slot = none
  view : pool'.get? = Function.update pool.get? slot (some object)
  len : pool'.len = pool.len + 1
  obtained : Obtained memory pool free slot pool' free'

theorem Obtained.congr [Stored β] {memory : Memory} {free' : List Slot} {pool'' : Pool β}
    (h : Obtained memory pool free slot pool' free') (hslots : pool''.slots = pool'.slots)
    (hcapacity : pool''.capacity = pool'.capacity) :
    Obtained memory pool free slot pool'' free' := by
  cases h with
  | vacant slots capacity => exact .vacant (hslots.trans slots) (hcapacity.trans capacity)
  | new slots grown => exact .new (hslots.trans slots) (hcapacity ▸ grown)

theorem take_of_get? (h : pool.Valid free) (hslot : pool.get? slot = some object) :
    pool.take slot = ⟨⟨.ok (some object), []⟩, pool.reclaim slot⟩ := by
  rw [take, vacate_of_get? h hslot]
  rfl

theorem take_of_get?_eq_none (hslot : pool.get? slot = none) :
    pool.take slot = ⟨⟨.ok none, []⟩, pool⟩ := by
  rw [take, vacate, hslot]
  rfl

variable [Element β]

theorem insert_cases (h : pool.Valid free) (memory : Memory) (object : β) :
    (∃ refusal, free = [] ∧ Capacity.grow β memory pool.capacity (pool.slots + 1) = .error refusal
        ∧ pool.insert memory object
          = ((Element.discard object).leaving pool).map fun _ => .error refusal)
      ∨ ∃ slot pool' free', pool.insert memory object = ⟨⟨.ok (.ok slot), []⟩, pool'⟩
        ∧ Inserted memory object pool free slot pool' free' := by
  cases free with
  | cons slot free =>
      have hlt : slot < pool.slots := h.lt_slots (List.mem_cons_self ..)
      refine .inr ⟨slot, pool.fill slot object free, free, ?_, h.fill object,
        h.get?_eq_none (List.mem_cons_self ..), get?_fill hlt object free, rfl,
        .vacant (slots_fill ..) rfl⟩
      rw [insert, allocate_of_vacant h]
      rfl
  | nil =>
      rw [insert, allocate_of_full h]
      cases hgrow : Capacity.grow β memory pool.capacity (pool.slots + 1) with
      | error refusal => exact .inl ⟨refusal, rfl, rfl, rfl⟩
      | ok capacity =>
          refine .inr ⟨pool.slots, pool.push object capacity, [], rfl, ?_,
            get?_eq_none_of_le (Nat.le_refl _), get?_push object capacity pool, rfl,
            .new (slots_push ..) hgrow⟩
          exact h.push object (Capacity.needed_le_of_grow hgrow)
            (Capacity.lt_ceiling_of_grow h.bounded hgrow)

/-- An insertion that names a slot, into a valid pool or not, took a slot
that held nothing. -/
theorem get?_of_insert {memory : Memory}
    (h : (pool.insert memory object).result = .ok (.ok slot)) :
    pool.get? slot = none
      ∧ (pool.insert memory object).state.get?
        = Function.update pool.get? slot (some object) := by
  cases hallocate : pool.allocate memory object with
  | error panic =>
      rw [insert, hallocate] at h
      cases h
  | ok taken =>
      rw [insert, hallocate] at h ⊢
      cases taken with
      | ok taken =>
          cases h
          exact get?_of_allocate hallocate
      | error refusal =>
          rcases Element.discard_cases object with ⟨-, hdrop⟩ | ⟨panic, -, hdrop⟩
          · rw [hdrop] at h
            cases h
          · rw [hdrop] at h
            cases h

/-- No slot is vacant, and the storage does not grow. -/
def Full (memory : Memory) (pool : Pool β) : Prop :=
  pool.firstFree = none
    ∧ ∃ refusal, Capacity.grow β memory pool.capacity (pool.slots + 1) = .error refusal

instance (memory : Memory) (pool : Pool β) : Decidable (Full memory pool) :=
  match hgrow : Capacity.grow β memory pool.capacity (pool.slots + 1) with
  | .ok _ => isFalse fun ⟨_, _, hrefused⟩ => nomatch hgrow.symm.trans hrefused
  | .error refusal => decidable_of_iff (pool.firstFree = none)
      ⟨fun hnone => ⟨hnone, refusal, hgrow⟩, And.left⟩

/-- The pool that has given up all its slots, but not their memory. -/
def cleared (pool : Pool β) : Pool β := ⟨#[], none, 0, pool.capacity⟩

omit [Element β] in
theorem Valid.cleared (h : pool.Valid free) : pool.cleared.Valid [] := by
  refine ⟨rfl, .nil, ?_, rfl, Nat.zero_le _, h.bounded⟩
  intro slot next hvacant
  cases hvacant

theorem clear_cases (pool : Pool β) :
    (Element.Calm pool.live
        ∧ pool.clear = ⟨⟨.ok (), Element.departures pool.live⟩, pool.cleared⟩)
      ∨ ∃ panic, ¬Element.Calm pool.live
        ∧ pool.clear
          = ⟨⟨.error panic, Element.departures pool.live⟩, { pool with storage := #[] }⟩ := by
  cases hpanic : pool.live.findSome? Element.dropPanic with
  | none =>
      refine .inl ⟨List.findSome?_eq_none_iff.mp hpanic, ?_⟩
      rw [clear, Element.discardAll, hpanic]
      simp only [Traced.leaving_mk, Outcome.bind_ok, Traced.answer, Outcome.after_mk,
        List.append_nil]
      rfl
  | some panic =>
      refine .inr ⟨panic, ?_, ?_⟩
      · intro hcalm
        rw [List.findSome?_eq_none_iff.mpr hcalm] at hpanic
        cases hpanic
      · rw [clear, Element.discardAll, hpanic]
        rfl

theorem clear_of_len_eq_zero (h : pool.Valid free) (hlen : pool.len = 0) :
    pool.clear = ⟨⟨.ok (), []⟩, pool.cleared⟩ := by
  have hlive : pool.live = [] := List.length_eq_zero_iff.mp (h.count.symm.trans hlen)
  rw [clear, hlive]
  rfl

end LinkedPool.Pool
