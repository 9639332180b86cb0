import LinkedPool.Proofs.Pool.Room

/-!
# Pools of images

What a pool does with its slots depends on nothing of the objects in them but
their size: on images of its objects that take as many bytes it does the same,
slot by slot, whether the pool is valid or not. Two changes of objects that commute may be
made in either order (`modify_comm`).
-/

namespace LinkedPool

def Entry.map {β γ : Type} (f : β → γ) : Entry β → Entry γ
  | .used object => .used (f object)
  | .vacant next => .vacant next

namespace Pool

variable {β γ : Type} {pool : Pool β} {free : List Slot} {f : β → γ}

/-- The pool of the images of the objects, each in the slot of its original. -/
def map (f : β → γ) (pool : Pool β) : Pool γ :=
  { storage := pool.storage.map (Entry.map f)
    firstFree := pool.firstFree
    len := pool.len
    capacity := pool.capacity }

@[simp] theorem firstFree_map (f : β → γ) (pool : Pool β) :
    (pool.map f).firstFree = pool.firstFree := rfl

@[simp] theorem len_map (f : β → γ) (pool : Pool β) : (pool.map f).len = pool.len := rfl

@[simp] theorem capacity_map (f : β → γ) (pool : Pool β) :
    (pool.map f).capacity = pool.capacity := rfl

@[simp] theorem slots_map (f : β → γ) (pool : Pool β) : (pool.map f).slots = pool.slots :=
  Array.size_map

theorem storage_map (f : β → γ) (pool : Pool β) (slot : Slot) :
    (pool.map f).storage[slot]? = pool.storage[slot]?.map (Entry.map f) :=
  Array.getElem?_map ..

theorem get?_map (f : β → γ) (pool : Pool β) (slot : Slot) :
    (pool.map f).get? slot = (pool.get? slot).map f := by
  rw [get?, storage_map, get?]
  cases pool.storage[slot]? with
  | none => rfl
  | some entry => cases entry <;> rfl

theorem get_map (f : β → γ) (pool : Pool β) (slot : Slot) :
    (pool.map f).get slot = (pool.get slot).map f := by
  rw [get, get?_map, get]
  cases pool.get? slot <;> rfl

theorem nextFree_map (f : β → γ) (pool : Pool β) (slot : Slot) :
    (pool.map f).nextFree slot = pool.nextFree slot := by
  rw [nextFree, storage_map, nextFree, slots_map]
  cases pool.storage[slot]? with
  | none => rfl
  | some entry => cases entry <;> rfl

theorem live_map (f : β → γ) (pool : Pool β) : (pool.map f).live = pool.live.map f := by
  have hentry (entry : Entry β) : (Entry.map f entry).object? = entry.object?.map f := by
    cases entry <;> rfl
  simp only [live, map, Array.toList_map, List.filterMap_map, List.map_filterMap]
  exact List.filterMap_congr fun entry _ => hentry entry

theorem put_map (f : β → γ) (pool : Pool β) (slot : Slot) (object : β) :
    (pool.map f).put slot (f object) = (pool.put slot object).map f := by
  simp [put, map, Array.map_setIfInBounds, Entry.map]

/-! ## Valid pools -/

theorem Chained.map (f : β → γ) {storage : Array (Entry β)} {start : Option Slot}
    (h : Chained storage start free) : Chained (storage.map (Entry.map f)) start free := by
  induction free generalizing start with
  | nil => exact h
  | cons slot free ih =>
      obtain ⟨hstart, next, hslot, hrest⟩ := h
      refine ⟨hstart, next, ?_, ih hrest⟩
      rw [Array.getElem?_map, hslot]
      rfl

theorem Valid.map (h : pool.Valid free) (f : β → γ) : (pool.map f).Valid free where
  chained := h.chained.map f
  distinct := h.distinct
  complete slot next hvacant := by
    rw [storage_map] at hvacant
    obtain ⟨entry, hentry, hmap⟩ := Option.map_eq_some_iff.mp hvacant
    cases entry with
    | used object => cases hmap
    | vacant next' => exact h.complete slot next' hentry
  count := by rw [live_map, List.length_map]; exact h.count
  fits := by rw [slots_map]; exact h.fits
  bounded := h.bounded

/-! ## Operations -/

/-- A change of an object, made to its image. -/
theorem modify_map {g : β → β} {g' : γ → γ} (hg : ∀ object, g' (f object) = f (g object))
    (pool : Pool β) (slot : Slot) :
    (pool.map f).modify slot g' = (pool.modify slot g).map (Pool.map f) := by
  rw [modify, get_map, modify]
  cases pool.get slot with
  | error panic => rfl
  | ok object =>
      show Except.ok ((pool.map f).put slot (g' (f object))) = _
      rw [hg, put_map]
      rfl

section Growth

variable [Stored β] [Stored γ]

theorem limit_congr (hbytes : Stored.slotBytes γ = Stored.slotBytes β) :
    Capacity.limit γ = Capacity.limit β := by
  rw [Capacity.limit, Capacity.limit, hbytes]

theorem grow_congr (hbytes : Stored.slotBytes γ = Stored.slotBytes β) (memory : Memory)
    (capacity needed : Nat) :
    Capacity.grow γ memory capacity needed = Capacity.grow β memory capacity needed := by
  rw [Capacity.grow, Capacity.grow, limit_congr hbytes]

theorem allocate_map (hbytes : Stored.slotBytes γ = Stored.slotBytes β) (f : β → γ)
    (memory : Memory) (object : β) (pool : Pool β) :
    (pool.map f).allocate memory (f object)
      = (pool.allocate memory object).map
          (Except.map fun taken => (taken.1, taken.2.map f)) := by
  rw [allocate, allocate, firstFree_map]
  cases hfirst : pool.firstFree with
  | some slot =>
      simp only [nextFree_map, put_map, len_map]
      cases pool.nextFree slot with
      | error panic => rfl
      | ok next =>
          cases Count.succ pool.len <;> rfl
  | none =>
      simp only [slots_map, capacity_map, len_map, grow_congr hbytes]
      cases Capacity.grow β memory pool.capacity (pool.slots + 1) with
      | error refusal => rfl
      | ok capacity =>
          cases Count.succ pool.len with
          | error panic => rfl
          | ok len =>
              simp only [map, bind, Except.bind, pure, Except.pure, Except.map, Array.map_push,
                hfirst]
              rfl

theorem reserve_map (hbytes : Stored.slotBytes γ = Stored.slotBytes β) (f : β → γ)
    (additional : Nat) (pool : Pool β) :
    (pool.map f).reserve additional = (pool.reserve additional).map (Pool.map f) := by
  rw [reserve, reserve, slots_map, len_map]
  cases Count.minus pool.slots pool.len with
  | error panic => rfl
  | ok vacant =>
      simp only [bind, Except.bind, capacity_map, grow_congr hbytes]
      split
      · cases Count.minus additional vacant with
        | error panic => rfl
        | ok lacking =>
            simp only
            cases Capacity.grow β .ample pool.capacity (pool.slots + lacking) <;> rfl
      · rfl

end Growth

theorem vacate_map (f : β → γ) (slot : Slot) (pool : Pool β) :
    (pool.map f).vacate slot
      = (pool.vacate slot).map (Option.map fun taken => (f taken.1, taken.2.map f)) := by
  rw [vacate, get?_map, vacate]
  cases pool.get? slot with
  | none => rfl
  | some object =>
      simp only [Option.map_some, len_map]
      cases Count.minus pool.len 1 with
      | error panic => rfl
      | ok len =>
          simp only [map, bind, Except.bind, pure, Except.pure, Except.map, Option.map_some,
            Array.map_setIfInBounds]
          rfl

/-! ## Changes that commute -/

theorem modify_eq (pool : Pool β) (slot : Slot) (g : β → β) :
    pool.modify slot g
      = match pool.get? slot with
        | some object => .ok (pool.put slot (g object))
        | none => .error .dangling := by
  rw [modify, get]
  cases pool.get? slot <;> rfl

theorem put_put (pool : Pool β) (slot : Slot) (object object' : β) :
    (pool.put slot object).put slot object' = pool.put slot object' := by
  simp [put]

theorem put_comm (pool : Pool β) {first second : Slot} (h : first ≠ second)
    (object object' : β) :
    (pool.put first object).put second object' = (pool.put second object').put first object := by
  simp [put, Array.setIfInBounds_comm _ _ h]

theorem modify_comm {g h : β → β} (hcomm : ∀ object, g (h object) = h (g object))
    (pool : Pool β) (first second : Slot) :
    (pool.modify first g >>= fun pool => pool.modify second h)
      = pool.modify second h >>= fun pool => pool.modify first g := by
  rw [modify_eq, modify_eq]
  by_cases hsame : first = second
  · subst hsame
    cases hfirst : pool.get? first with
    | none => rfl
    | some object =>
        have hlt := lt_slots_of_get? hfirst
        simp only [bind, Except.bind, modify_eq, get?_put_self hlt, put_put, hcomm]
  · have hsame' : second ≠ first := fun heq => hsame heq.symm
    cases hfirst : pool.get? first with
    | none =>
        cases hsecond : pool.get? second with
        | none => rfl
        | some object =>
            simp only [bind, Except.bind, modify_eq, get?_put_of_ne pool hsame', hfirst]
    | some object =>
        cases hsecond : pool.get? second with
        | none => simp only [bind, Except.bind, modify_eq, get?_put_of_ne pool hsame, hsecond]
        | some object' =>
            simp only [bind, Except.bind, modify_eq, get?_put_of_ne pool hsame,
              get?_put_of_ne pool hsame', hfirst, hsecond]
            rw [put_comm pool hsame]

end Pool

end LinkedPool
