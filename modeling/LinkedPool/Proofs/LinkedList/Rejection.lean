import LinkedPool.Proofs.Element.Ledger
import LinkedPool.Proofs.LinkedList.Room

/-!
# Rejected insertions

A list rejects an element for one of two reasons, which exclude each other
(`Rejects`): it is detached, or it is healthy and the memory that it needs is
not to be had. In either case nothing has been written when that is found
out, so that the call leaves the list as it was and drops the element once
(`Outcome.Undone`), whether that drop panics or not. The same goes for an
insertion into a pool, valid or not.
-/

namespace LinkedPool

open Element

/-- The call left the structure in `state`, as it was, and dropped `x` and
nothing else. -/
structure Outcome.Undone {α σ ρ : Type} (state : σ) (x : α) (outcome : Outcome α σ ρ) :
    Prop where
  state : outcome.state = state
  drops : dropsIn outcome.trace = [x]

/-! ## Pools -/

namespace Pool

variable {β : Type} {pool : Pool β} {object : β} {memory : Memory} {refusal : GrowthError}

theorem allocate_eq_refused_iff [Stored β] (object : β) :
    pool.allocate memory object = .ok (.error refusal)
      ↔ pool.firstFree = none
        ∧ Capacity.grow β memory pool.capacity (pool.slots + 1) = .error refusal := by
  rw [allocate]
  constructor
  · intro hallocate
    cases hfirst : pool.firstFree with
    | some slot =>
        rw [hfirst] at hallocate
        obtain ⟨next, -, hallocate⟩ := exists_of_bind_eq_ok hallocate
        obtain ⟨len, -, hallocate⟩ := exists_of_bind_eq_ok hallocate
        cases hallocate
    | none =>
        rw [hfirst] at hallocate
        cases hgrow : Capacity.grow β memory pool.capacity (pool.slots + 1) with
        | error refusal' =>
            simp only [hgrow] at hallocate
            rw [Except.error.inj (Except.ok.inj hallocate)]
            exact ⟨rfl, rfl⟩
        | ok capacity =>
            simp only [hgrow] at hallocate
            obtain ⟨len, -, hallocate⟩ := exists_of_bind_eq_ok hallocate
            cases hallocate
  · rintro ⟨hfirst, hgrow⟩
    rw [hfirst]
    simp only [hgrow]

/-- A growth that fails is a growth that was needed. -/
theorem needsGrowth_and_iff [Stored β] :
    pool.NeedsGrowth ∧ Capacity.grow β memory pool.capacity (pool.slots + 1) = .error refusal
      ↔ pool.firstFree = none
        ∧ Capacity.grow β memory pool.capacity (pool.slots + 1) = .error refusal :=
  ⟨fun ⟨hneeds, hgrow⟩ => ⟨hneeds.1, hgrow⟩,
    fun ⟨hfirst, hgrow⟩ => ⟨⟨hfirst, Capacity.lt_of_grow_error hgrow⟩, hgrow⟩⟩

variable [Element β]

theorem insert_eq_refused_iff :
    (pool.insert memory object).result = .ok (.error refusal)
      ↔ dropPanic object = none ∧ pool.NeedsGrowth
        ∧ Capacity.grow β memory pool.capacity (pool.slots + 1) = .error refusal := by
  rw [needsGrowth_and_iff, ← allocate_eq_refused_iff object, insert]
  cases pool.allocate memory object with
  | error panic => simp [Traced.raise]
  | ok taken =>
      cases taken with
      | ok taken => simp [Traced.answer]
      | error refusal' =>
          rcases discard_cases object with ⟨hcalm, hdrop⟩ | ⟨panic, hpanic, hdrop⟩
          · simp [hcalm, hdrop]
          · simp [hpanic, hdrop]

/-- An insertion that does not give out a slot, into a valid pool or not. -/
theorem insert_undone (h : ∀ slot, (pool.insert memory object).result ≠ .ok (.ok slot)) :
    (pool.insert memory object).Undone pool object := by
  rw [insert] at h ⊢
  cases hallocate : pool.allocate memory object with
  | error panic => exact ⟨rfl, rfl⟩
  | ok taken =>
      rw [hallocate] at h
      cases taken with
      | ok taken => exact absurd rfl (h taken.1)
      | error refusal => exact ⟨rfl, rfl⟩

end Pool

/-! ## Lists -/

namespace LinkedList

open Cells

variable {α : Type} {e : End} {list : LinkedList α} {cells : Cells α} {free : List Slot}
  {content : Content α} {memory : Memory} {x : α} {error error' : InsertError} {panic : Panic}

variable [Element α]

/-- Why a list takes no element. -/
def Rejects (memory : Memory) (list : LinkedList α) : InsertError → Prop
  | .notEmpty len => list.Detached ∧ len = list.len
  | .outOfMemory refusal =>
      (∃ slots, list.Healthy slots) ∧ list.nodes.NeedsGrowth
        ∧ Capacity.grow (Node α) memory list.nodes.capacity (list.nodes.slots + 1) = .error refusal

/-- A list has at most one reason. -/
theorem Rejects.unique (h : Rejects memory list error) (h' : Rejects memory list error') :
    error = error' := by
  cases error with
  | notEmpty len =>
      cases error' with
      | notEmpty len' => rw [h.2, h'.2]
      | outOfMemory refusal' =>
          obtain ⟨⟨slots, hhealthy⟩, -⟩ := h'
          exact absurd h.1 hhealthy.not_detached
  | outOfMemory refusal =>
      cases error' with
      | notEmpty len' =>
          obtain ⟨⟨slots, hhealthy⟩, -⟩ := h
          exact absurd h'.1 hhealthy.not_detached
      | outOfMemory refusal' =>
          rw [Except.error.inj (h.2.2.symm.trans h'.2.2)]

/-- A list with a way to get a slot has no reason. -/
theorem not_rejects {capacity : Nat} (hlinks : ¬list.Detached) (hvalid : list.nodes.Valid free)
    (hgrown : list.len ≠ list.nodes.capacity
      ∨ Capacity.grow (Node α) memory list.nodes.capacity (list.nodes.capacity + 1)
        = .ok capacity) :
    ¬Rejects memory list error := by
  intro hrejects
  cases error with
  | notEmpty len => exact hlinks hrejects.1
  | outOfMemory refusal =>
      obtain ⟨-, hneeds, hrefused⟩ := hrejects
      rw [hvalid.slots_eq_capacity hneeds] at hrefused
      rcases hgrown with hspare | hgrown
      · exact hspare (hvalid.needsGrowth_iff.mp hneeds)
      · cases hgrown.symm.trans hrefused

/-- An element that is not taken is dropped, and the reason is the answer
unless the drop panics. -/
theorem refusing_eq (error : InsertError) (x : α) (list : LinkedList α) :
    ((Element.discard x).leaving list).map (fun _ => (.error error : Except InsertError Unit))
      = ⟨⟨(dropPanic x).elim (.ok (.error error)) .error, [.dropped x]⟩, list⟩ := by
  rcases discard_cases x with ⟨hcalm, hdrop⟩ | ⟨panic, hpanic, hdrop⟩
  · rw [hdrop, hcalm]
    rfl
  · rw [hdrop, hpanic]
    rfl

/-- An append is rejected, and then undone, or it is not. -/
theorem Holds.insertion_cases (h : list.Holds content) (memory : Memory) (e : End) (x : α) :
    (∃ (error : InsertError) (lines : List LogLine), Rejects memory list error
        ∧ list.tryAppend memory e x
          = ⟨⟨(dropPanic x).elim (.ok (.error error)) .error,
              lines.map .logged ++ [.dropped x]⟩, list⟩
        ∧ list.append memory e x
          = ⟨⟨.error ((dropPanic x).getD (.insertion error)),
              lines.map .logged ++ [.dropped x]⟩, list⟩)
      ∨ (∀ error, ¬Rejects memory list error)
        ∧ (list.tryAppend memory e x).result = .ok (.ok ())
        ∧ (list.append memory e x).result = .ok () := by
  by_cases hlinks : list.Detached
  · refine .inl ⟨.notEmpty list.len, [.refusedFirst list.len], ⟨hlinks, rfl⟩, ?_, ?_⟩
    · rw [hlinks.tryAppend, refusing_eq]
      rfl
    · rw [hlinks.append, rejecting_eq]
      rfl
  · cases content with
    | detached xs => exact absurd h.1 hlinks
    | linked xs =>
        obtain ⟨cells, free, hlinked, -⟩ := h.linked_from e
        rcases hlinked.insertion_cases memory x with
          ⟨refusal, hlen, hgrow, htry, happend⟩ | ⟨slot, list', free', htry, happend, -, hgrown⟩
        · have hneeds := hlinked.valid.needsGrowth_iff.mpr hlen
          have hslots := hlinked.valid.slots_eq_capacity hneeds
          rw [refusing_eq] at htry
          rw [rejecting_eq] at happend
          obtain ⟨cells', free', hlinked', -⟩ := h
          refine .inl ⟨.outOfMemory refusal, [], ⟨⟨_, hlinked'.healthy⟩, hneeds, ?_⟩, htry,
            happend⟩
          rw [hslots]
          exact hgrow
        · refine .inr ⟨fun error => not_rejects hlinks hlinked.valid
            (hgrown.imp And.left And.right), ?_, ?_⟩
          · rw [htry]
          · rw [happend]

/-! ## What is said of an append -/

theorem Holds.tryAppend_eq_error_iff (h : list.Holds content) (hcalm : dropPanic x = none) :
    (list.tryAppend memory e x).result = .ok (.error error) ↔ Rejects memory list error := by
  rcases h.insertion_cases memory e x with
    ⟨error', lines, hrejects, htry, -⟩ | ⟨hnone, htry, -⟩
  · rw [htry, hcalm]
    constructor
    · intro hresult
      exact Except.error.inj (Except.ok.inj hresult) ▸ hrejects
    · intro hrejects'
      rw [hrejects'.unique hrejects]
      rfl
  · rw [htry]
    exact ⟨nofun, fun hrejects => absurd hrejects (hnone error)⟩

theorem Holds.takes_of_not_rejects (h : list.Holds content)
    (hnone : ∀ error, ¬Rejects memory list error) (e : End) (x : α) :
    (list.tryAppend memory e x).result = .ok (.ok ())
      ∧ (list.append memory e x).result = .ok () := by
  rcases h.insertion_cases memory e x with
    ⟨error, lines, hrejects, -⟩ | ⟨-, htry, happend⟩
  · exact absurd hrejects (hnone error)
  · exact ⟨htry, happend⟩

/-- An append panics with the reason why the other form fails. -/
theorem Holds.append_eq_error_iff (h : list.Holds content) (hcalm : dropPanic x = none) :
    (list.append memory e x).result = .error panic
      ↔ ∃ error, (list.tryAppend memory e x).result = .ok (.error error)
        ∧ panic = .insertion error ∧ panic.message = error.message := by
  rcases h.insertion_cases memory e x with
    ⟨error, lines, hrejects, htry, happend⟩ | ⟨-, htry, happend⟩
  · rw [htry, happend, hcalm]
    constructor
    · intro hresult
      obtain rfl := Except.error.inj hresult
      exact ⟨error, rfl, rfl, rfl⟩
    · rintro ⟨error', hresult, rfl, -⟩
      rw [← Except.error.inj (Except.ok.inj hresult)]
      rfl
  · rw [htry, happend]
    exact ⟨nofun, fun ⟨error, hresult, _⟩ => nomatch Except.ok.inj hresult⟩

/-- The panic of a drop takes the place of the reason. -/
theorem Holds.panics_of_rejects (h : list.Holds content) (hpanic : dropPanic x = some panic)
    (hrejects : Rejects memory list error) (e : End) :
    (list.tryAppend memory e x).result = .error panic
      ∧ (list.append memory e x).result = .error panic := by
  rcases h.insertion_cases memory e x with
    ⟨error', lines, -, htry, happend⟩ | ⟨hnone, -⟩
  · rw [htry, happend, hpanic]
    exact ⟨rfl, rfl⟩
  · exact absurd hrejects (hnone error)

omit [Element α] in
theorem undone_of_dropped {ρ : Type} {result : Except Panic ρ} (lines : List LogLine) :
    Outcome.Undone list x ⟨⟨result, lines.map .logged ++ [.dropped x]⟩, list⟩ := by
  refine ⟨rfl, ?_⟩
  simp

theorem Holds.undone (h : list.Holds content) (memory : Memory) (e : End) (x : α) :
    ((list.tryAppend memory e x).result ≠ .ok (.ok ()) →
        (list.tryAppend memory e x).Undone list x)
      ∧ ((list.append memory e x).result ≠ .ok () → (list.append memory e x).Undone list x) := by
  rcases h.insertion_cases memory e x with
    ⟨error, lines, -, htry, happend⟩ | ⟨-, htry, happend⟩
  · rw [htry, happend]
    exact ⟨fun _ => undone_of_dropped lines, fun _ => undone_of_dropped lines⟩
  · exact ⟨absurd htry, absurd happend⟩

/-! ## Room that is not to be had -/

/-- Room that exceeds every capacity is refused before anything is changed. -/
theorem Holds.exceeding (h : list.Holds content) {n : Nat} (hexceeds : Exceeds n list) :
    list.perform (.reserve n) = ⟨⟨.error .capacityOverflow, []⟩, list⟩
      ∧ ∀ (memory : Memory) (pulls : List (Pull α)),
        list.perform (.extend memory ⟨n, pulls⟩)
          = ⟨⟨.error .capacityOverflow, Source.leftovers pulls⟩, list⟩ := by
  have hreserve : list.reserve n = .error .capacityOverflow := by
    rw [h.reserve_eq, if_neg (Nat.not_le_of_lt hexceeds.1), if_pos hexceeds.2]
  constructor
  · rw [perform, hreserve]
    rfl
  · intro memory pulls
    rw [perform, extend, hreserve]
    rfl

theorem Holds.not_exceeding (h : list.Holds content) {n : Nat} (hfits : ¬Exceeds n list) :
    (list.perform (.reserve n)).result = .ok .done := by
  rw [h.perform_reserve]
  by_cases hle : list.len + n ≤ list.nodes.capacity
  · rw [if_pos hle]
  · have hlimit : ¬Capacity.limit (Node α) ≤ Capacity.wanted list.nodes.capacity (list.len + n) :=
      fun hlimit => hfits ⟨Nat.lt_of_not_le hle, hlimit⟩
    rw [if_neg hle, if_neg hlimit]

end LinkedList

end LinkedPool
