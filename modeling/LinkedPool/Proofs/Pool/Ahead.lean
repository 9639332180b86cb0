import LinkedPool.Proofs.Paired
import LinkedPool.Proofs.Pool.Registry

/-!
# Pools that have their slots in advance

A pool made with room has slots before it needs them. It is `Ahead` of one
that makes its slots one by one: the two hold the same objects in the same
slots, and the vacant slots of the first are those of the second and then
the next ones in ascending order. This is never seen. An insertion takes
the same slot from either, be it vacant in both, vacant in the first and new
in the second, or new in both; and all else that is done to them keeps what
is vacant in the second in front (`Ahead.perform`).

An insertion for which the storage fails to grow is another matter, since
the first pool has room when the second has not: that no storage is `Full`
is assumed.
-/

namespace LinkedPool.Pool

variable {β : Type} {pool pool' other other' : Pool β} {slot : Slot} {free : List Slot}
  {extra : Nat} {object : β} {memory : Memory}

/-- The pools hold the same; `free` are the vacant slots of `other`, and
`pool` has the next `extra` slots besides. -/
structure Leads (extra : Nat) (free : List Slot) (pool other : Pool β) : Prop where
  view : pool.get? = other.get?
  valid : pool.Valid (free ++ List.range' other.slots extra)
  behind : other.Valid free
  slots : pool.slots = other.slots + extra

def Ahead (pool other : Pool β) : Prop := ∃ extra free, Leads extra free pool other

theorem Valid.ahead (h : pool.Valid free) : pool.Ahead pool :=
  ⟨0, free, rfl, by rwa [List.range'_zero, List.append_nil], h, rfl⟩

theorem Begun.ahead [Stored β] {n : Nat} (h : Begun n pool) : pool.Ahead Pool.empty := by
  have hvalid := h.valid
  obtain ⟨-, rfl⟩ := h.eq_ofVacant
  refine ⟨n, [], ?_, ?_, valid_empty, ?_⟩
  · funext slot
    exact get?_ofVacant n slot
  · rw [List.range_eq_range'] at hvalid
    exact hvalid
  · exact (slots_ofVacant n).trans (Nat.zero_add n).symm

theorem Leads.live (h : Leads extra free pool other) : pool.live = other.live := by
  have hslots : other.slots ≤ pool.slots := h.slots ▸ Nat.le_add_right ..
  rw [live_eq_filterMap_range (Nat.le_refl pool.slots), live_eq_filterMap_range hslots, h.view]

theorem Ahead.view (h : pool.Ahead other) : pool.get? = other.get? := by
  obtain ⟨extra, free, h⟩ := h
  exact h.view

theorem Ahead.live (h : pool.Ahead other) : pool.live = other.live := by
  obtain ⟨extra, free, h⟩ := h
  exact h.live

theorem Ahead.len (h : pool.Ahead other) : pool.len = other.len := by
  obtain ⟨extra, free, h⟩ := h
  rw [h.valid.count, h.behind.count, h.live]

theorem Ahead.isEmpty (h : pool.Ahead other) : pool.isEmpty = other.isEmpty := by
  rw [Pool.isEmpty, Pool.isEmpty, h.len]

/-! ## Changing a slot -/

theorem Ahead.get (h : pool.Ahead other) (slot : Slot) : pool.get slot = other.get slot := by
  rw [Pool.get, Pool.get, h.view]

theorem Ahead.reclaim (h : pool.Ahead other) (hslot : pool.get? slot = some object) :
    (pool.reclaim slot).Ahead (other.reclaim slot) := by
  obtain ⟨extra, free, h⟩ := h
  have hslot' : other.get? slot = some object := h.view ▸ hslot
  refine ⟨extra, slot :: free, ?_, ?_, h.behind.reclaim hslot', ?_⟩
  · rw [get?_reclaim (lt_slots_of_get? hslot), get?_reclaim (lt_slots_of_get? hslot'), h.view]
  · rw [slots_reclaim, List.cons_append]
    exact h.valid.reclaim hslot
  · rw [slots_reclaim, slots_reclaim, h.slots]

theorem Ahead.put {old : β} (h : pool.Ahead other) (hslot : pool.get? slot = some old)
    (object : β) : (pool.put slot object).Ahead (other.put slot object) := by
  obtain ⟨extra, free, h⟩ := h
  have hslot' : other.get? slot = some old := h.view ▸ hslot
  refine ⟨extra, free, ?_, ?_, h.behind.put hslot' object, ?_⟩
  · rw [get?_put (lt_slots_of_get? hslot), get?_put (lt_slots_of_get? hslot'), h.view]
  · rw [slots_put]
    exact h.valid.put hslot object
  · rw [slots_put, slots_put, h.slots]

theorem Ahead.modify (h : pool.Ahead other) (slot : Slot) (f : β → β) :
    Matched Ahead (pool.modify slot f) (other.modify slot f) := by
  rw [Pool.modify, Pool.modify, ← h.get, Pool.get]
  cases hslot : pool.get? slot with
  | none => exact .error .dangling
  | some old => exact .ok (h.put hslot (f old))

theorem Ahead.vacate (h : pool.Ahead other) (slot : Slot) :
    (pool.vacate slot = .ok none ∧ other.vacate slot = .ok none)
      ∨ ∃ object, pool.vacate slot = .ok (some (object, pool.reclaim slot))
        ∧ other.vacate slot = .ok (some (object, other.reclaim slot))
        ∧ (pool.reclaim slot).Ahead (other.reclaim slot) := by
  cases hslot : pool.get? slot with
  | none =>
      have hslot' : other.get? slot = none := h.view ▸ hslot
      exact .inl ⟨by rw [Pool.vacate, hslot], by rw [Pool.vacate, hslot']⟩
  | some object =>
      have hreclaimed := h.reclaim hslot
      obtain ⟨extra, free, h⟩ := h
      have hslot' : other.get? slot = some object := h.view ▸ hslot
      exact .inr ⟨object, vacate_of_get? h.valid hslot, vacate_of_get? h.behind hslot', hreclaimed⟩

/-! ## Room -/

theorem Ahead.reserve [Stored β] {additional : Nat} (h : pool.Ahead other)
    (hreserve : pool.reserve additional = .ok pool')
    (hreserve' : other.reserve additional = .ok other') : pool'.Ahead other' := by
  obtain ⟨extra, free, h⟩ := h
  rcases reserve_cases h.valid additional with ⟨capacity, hroom, hvalid, -⟩ | ⟨hfails, -⟩
  · rcases reserve_cases h.behind additional with ⟨capacity', hroom', hbehind, -⟩ | ⟨hfails, -⟩
    · obtain rfl := Except.ok.inj (hroom.symm.trans hreserve)
      obtain rfl := Except.ok.inj (hroom'.symm.trans hreserve')
      exact ⟨extra, free, h.view, hvalid, hbehind, h.slots⟩
    · cases hfails.symm.trans hreserve'
  · cases hfails.symm.trans hreserve

theorem Ahead.cleared (h : pool.Ahead other) : pool.cleared.Ahead other.cleared := by
  obtain ⟨extra, free, h⟩ := h
  exact ⟨0, [], rfl, h.valid.cleared, h.behind.cleared, rfl⟩

theorem Ahead.image (h : pool.Ahead other) (f : β → β) : (pool.image f).Ahead (other.image f) := by
  obtain ⟨extra, free, h⟩ := h
  refine ⟨extra, free, ?_, ?_, h.behind.image f, ?_⟩
  · funext slot
    rw [get?_image, get?_image, h.view]
  · rw [slots_image]
    exact h.valid.image f
  · rw [slots_image, slots_image, h.slots]

/-! ## Insertions -/

theorem Obtained.eq_cons_or_nil [Stored β] {free' : List Slot}
    (h : Obtained memory pool free slot pool' free') :
    (free = slot :: free' ∧ pool'.slots = pool.slots)
      ∨ (free = [] ∧ free' = [] ∧ slot = pool.slots ∧ pool'.slots = pool.slots + 1) := by
  cases h with
  | vacant slots capacity => exact .inl ⟨rfl, slots⟩
  | new slots grown => exact .inr ⟨rfl, rfl, rfl, slots⟩

/-- The same slot is taken, and the first pool has no more in advance than before. -/
theorem Leads.inserted [Stored β] {slot slot' : Slot} {rest rest' : List Slot}
    (h : Leads extra free pool other)
    (hinserted : Inserted memory object pool (free ++ List.range' other.slots extra) slot pool'
      rest)
    (hinserted' : Inserted memory object other free slot' other' rest') :
    slot = slot' ∧ pool'.Ahead other' := by
  have hview : slot = slot' → pool'.get? = other'.get? := by
    rintro rfl
    rw [hinserted.view, hinserted'.view, h.view]
  rcases hinserted'.obtained.eq_cons_or_nil with
    ⟨rfl, hslots'⟩ | ⟨rfl, rfl, rfl, hslots'⟩
  · rcases hinserted.obtained.eq_cons_or_nil with ⟨hcons, hslots⟩ | ⟨hnil, -⟩
    · obtain ⟨rfl, rfl⟩ := List.cons.inj hcons
      refine ⟨rfl, extra, rest', hview rfl, ?_, hinserted'.valid, ?_⟩
      · rw [hslots']
        exact hinserted.valid
      · rw [hslots, hslots', h.slots]
    · cases hnil
  · rw [List.nil_append] at hinserted
    rcases hinserted.obtained.eq_cons_or_nil with ⟨hcons, hslots⟩ | ⟨hnil, rfl, rfl, hslots⟩
    · -- the slot that is new in the one is the first of those in advance in the other
      cases extra with
      | zero => cases hcons
      | succ extra =>
          rw [List.range'_succ] at hcons
          obtain ⟨rfl, rfl⟩ := List.cons.inj hcons
          refine ⟨rfl, extra, [], hview rfl, ?_, hinserted'.valid, ?_⟩
          · rw [hslots']
            exact hinserted.valid
          · rw [hslots, hslots', h.slots]
            omega
    · cases extra with
      | succ extra => cases hnil
      | zero =>
          have hslot : pool.slots = other.slots := h.slots
          refine ⟨hslot, 0, [], hview hslot, hinserted.valid, hinserted'.valid, ?_⟩
          rw [hslots, hslots', hslot]

/-! ## Operations -/

theorem Ahead.take (h : pool.Ahead other) (slot : Slot) :
    Outcome.Paired Eq Ahead (pool.take slot) (other.take slot) := by
  rw [Pool.take, Pool.take]
  rcases h.vacate slot with ⟨hvacate, hvacate'⟩ | ⟨object, hvacate, hvacate', hreclaimed⟩
  · rw [hvacate, hvacate']
    exact .answered [] rfl h
  · rw [hvacate, hvacate']
    exact .answered [] rfl hreclaimed

variable [Element β]

theorem Ahead.insert (h : pool.Ahead other) (hroom : ¬pool.Full memory)
    (hroom' : ¬other.Full memory) (object : β) :
    Outcome.Paired Eq Ahead (pool.insert memory object) (other.insert memory object) := by
  obtain ⟨extra, free, h⟩ := h
  obtain ⟨slot, pool', rest, hinsert, hinserted⟩ := h.valid.insert_of_not_full hroom object
  obtain ⟨slot', other', rest', hinsert', hinserted'⟩ := h.behind.insert_of_not_full hroom' object
  obtain ⟨rfl, hahead⟩ := h.inserted hinserted hinserted'
  rw [hinsert, hinsert']
  exact .answered [] rfl hahead

/-- Copies are asked for in the same order, and the copies are as far apart. -/
theorem Ahead.clone (h : pool.Ahead other) : Traced.Paired Ahead pool.clone other.clone := by
  rw [clone_eq, clone_eq, h.live]
  exact (Traced.paired_self _).bind fun _ _ _ => Traced.paired_answer (h.image _)

/-- An operation in which nothing goes wrong does the same to both. -/
theorem Ahead.perform (h : pool.Ahead other) (operation : Operation β)
    (hsmooth : Smooth (pool.perform operation)) (hsmooth' : Smooth (other.perform operation)) :
    Outcome.Paired Eq Ahead (pool.perform operation) (other.perform operation) := by
  cases operation with
  | insert memory object =>
      exact (h.insert (not_full_of_smooth hsmooth) (not_full_of_smooth hsmooth') object).map_eq _
  | remove slot =>
      rw [Pool.perform, Pool.perform]
      refine (h.take slot).bind ?_
      rintro pool' other' object object' hahead rfl
      exact (Outcome.paired_leaving _ hahead).map_eq _
  | assign slot object =>
      rw [Pool.perform, Pool.perform, assign, assign, ← h.view]
      cases hslot : pool.get? slot with
      | none => exact ((Outcome.paired_leaving _ h).map_eq _).map_eq _
      | some old => exact ((Outcome.paired_leaving _ (h.put hslot object)).map_eq _).map_eq _
  | overwrite slot object =>
      rw [Pool.perform, Pool.perform, overwrite, overwrite, ← h.get, Pool.get]
      cases hslot : pool.get? slot with
      | none => exact .panicked _ _ h
      | some old => exact (Outcome.paired_leaving _ (h.put hslot object)).map_eq _
  | reserve additional =>
      have hahead := h
      obtain ⟨extra, free, hleads⟩ := h
      obtain ⟨capacity, hreserve, -⟩ := hleads.valid.reserve_of_smooth hsmooth
      obtain ⟨capacity', hreserve', -⟩ := hleads.behind.reserve_of_smooth hsmooth'
      rw [Pool.perform, Pool.perform, hreserve, hreserve']
      exact .answered [] rfl (hahead.reserve hreserve hreserve')
  | clear =>
      rw [Pool.perform, Pool.perform, clear_of_smooth hsmooth, clear_of_smooth hsmooth', h.live]
      exact .answered _ rfl h.cleared
  | get slot =>
      rw [Pool.perform, Pool.perform, h.view]
      exact .answered [] rfl h
  | read slot =>
      rw [Pool.perform, Pool.perform, h.get]
      exact (Outcome.paired_leaving _ h).map_eq _
  | len =>
      rw [Pool.perform, Pool.perform, h.len]
      exact .answered [] rfl h
  | isEmpty =>
      rw [Pool.perform, Pool.perform, h.isEmpty]
      exact .answered [] rfl h

theorem Ahead.performAll (h : pool.Ahead other) (operations : List (Operation β))
    (hsmooth : ∀ outcome ∈ pool.performAll operations, Smooth outcome)
    (hsmooth' : ∀ outcome ∈ other.performAll operations, Smooth outcome) :
    (pool.performAll operations).map (·.toTraced)
      = (other.performAll operations).map (·.toTraced) := by
  induction operations generalizing pool other with
  | nil => rfl
  | cons operation operations ih =>
      obtain ⟨hfirst, hrest⟩ := List.forall_mem_cons.mp hsmooth
      obtain ⟨hfirst', hrest'⟩ := List.forall_mem_cons.mp hsmooth'
      have hpaired := h.perform operation hfirst hfirst'
      exact congrArg₂ List.cons hpaired.toTraced.eq (ih hpaired.state hrest hrest')

end LinkedPool.Pool
