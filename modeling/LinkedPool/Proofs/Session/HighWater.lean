import LinkedPool.Element.Tracked
import LinkedPool.Proofs.LinkedList.HighWater
import LinkedPool.Proofs.Session.Affected

/-!
# The number of slots is a high-water mark

A list that is made with `n` slots has `n` of them, or as many as it has had
elements at a time if these were more (`slots_high_water`). Elements that
come and go use the same slots again, and so it is after a panic, a clear
that was cut short or a growth that was denied. A clear that gets to the end
gives the slots back, and the count begins anew.
-/

namespace LinkedPool.Session.Lists

open Element LinkedList

variable {α : Type} [Element α] {lists : Store (LinkedList α)} {name : String} {step : Step α}
  {steps front back : List (Step α)}

/-- Whether the step is a clear of the list under `name`. -/
def Step.clears (name : String) : Step α → Bool
  | .operate target .clear => target == name
  | _ => false

/-- The step clears the list under `name`, and gets to the end of that. -/
def Empties (name : String) (lists : Store (LinkedList α)) (step : Step α) : Prop :=
  step.clears name = true ∧ (listAt name lists).clear.result = .ok ()

instance (name : String) (lists : Store (LinkedList α)) : DecidablePred (Empties name lists) :=
  fun _ => inferInstanceAs (Decidable (_ ∧ _))

/-- One of the steps does. -/
def EmptiedIn (name : String) (lists : Store (LinkedList α)) : List (Step α) → Prop
  | [] => False
  | step :: steps => Empties name lists step ∨ EmptiedIn name (perform lists step).state steps

instance decidableEmptiedIn (name : String) :
    (lists : Store (LinkedList α)) → (steps : List (Step α)) →
      Decidable (EmptiedIn name lists steps)
  | _, [] => inferInstanceAs (Decidable False)
  | lists, step :: steps =>
      have := decidableEmptiedIn name (perform lists step).state steps
      inferInstanceAs (Decidable (Empties name lists step ∨ _))

/-- The most elements that the list under `name` has before, between and after the steps. -/
def peak (name : String) (lists : Store (LinkedList α)) : List (Step α) → Nat
  | [] => (listAt name lists).len
  | step :: steps => max (listAt name lists).len (peak name (perform lists step).state steps)

omit [Element α] in
theorem Step.clears_iff : step.clears name = true ↔ step = .operate name .clear := by
  constructor
  · intro hclears
    unfold Step.clears at hclears
    split at hclears
    · rw [beq_iff_eq.mp hclears]
    · cases hclears
  · rintro rfl
    simp [Step.clears]

theorem len_le_peak (name : String) (lists : Store (LinkedList α)) (steps : List (Step α)) :
    (listAt name lists).len ≤ peak name lists steps := by
  cases steps with
  | nil => exact Nat.le_refl _
  | cons step steps => exact Nat.le_max_left ..

theorem final_append (lists : Store (LinkedList α)) (front back : List (Step α)) :
    final lists (front ++ back) = final (final lists front) back := by
  induction front generalizing lists with
  | nil => rfl
  | cons step front ih => exact ih (perform lists step).state

namespace Sound

theorem perform_slots (h : Sound lists) (hspares : step.Spares name) :
    (Empties name lists step ∧ (listAt name (perform lists step).state).nodes.slots = 0)
      ∨ ¬Empties name lists step
        ∧ Thrifty (listAt name lists) (listAt name (perform lists step).state) := by
  obtain ⟨content, hholds⟩ := h.holds_at name
  obtain ⟨free, hvalid⟩ := hholds.valid
  by_cases hempties : Empties name lists step
  · refine .inl ⟨hempties, ?_⟩
    obtain ⟨hclears, hdone⟩ := hempties
    obtain rfl := Step.clears_iff.mp hclears
    have hstate : listAt name (perform lists (.operate name .clear)).state
        = (listAt name lists).clear.state := listAt_put_self ..
    rcases hholds.clear_slots with ⟨-, hslots, -⟩ | ⟨hstopped, -⟩
    · rw [hstate, hslots]
    · exact absurd hdone hstopped
  · refine .inr ⟨hempties, ?_⟩
    cases h.affected name step with
    | unchanged same =>
        rw [same]
        exact thrifty_refl hvalid
    | operated operation state trace clears named =>
        rw [state]
        by_cases hclear : operation = .clear
        · subst hclear
          rcases hholds.clear_slots with ⟨hdone, -⟩ | ⟨-, hthrifty⟩
          · exact absurd ⟨Step.clears_iff.mpr (clears rfl), hdone⟩ hempties
          · exact hthrifty
        · exact hholds.thrifty_perform hclear
    | ended named dropped => exact absurd hspares named

/-- Without a clear that gets to the end, the slots keep up with the most elements. -/
theorem final_slots (h : Sound lists) (hspares : ∀ step ∈ steps, step.Spares name)
    (hkept : ¬EmptiedIn name lists steps) :
    (listAt name (final lists steps)).nodes.slots
      = max (listAt name lists).nodes.slots (peak name lists steps) := by
  induction steps generalizing lists with
  | nil =>
      obtain ⟨content, hholds⟩ := h.holds_at name
      obtain ⟨free, hvalid⟩ := hholds.valid
      exact thrifty_refl hvalid
  | cons step steps ih =>
      obtain ⟨hstep, hsteps⟩ := List.forall_mem_cons.mp hspares
      obtain ⟨content, hholds⟩ := h.holds_at name
      obtain ⟨free, hvalid⟩ := hholds.valid
      have hlen : (listAt name lists).len ≤ (listAt name lists).nodes.slots := hvalid.len_le_slots
      have hpeak := len_le_peak name (perform lists step).state steps
      rcases h.perform_slots hstep with ⟨hempties, -⟩ | ⟨-, hthrifty⟩
      · exact absurd (.inl hempties) hkept
      · have hrest := ih (h.perform_advances step).sound hsteps fun hlater => hkept (.inr hlater)
        rw [hthrifty] at hrest
        rw [final, peak, hrest]
        omega

/-- With or without, they do not exceed it. -/
theorem final_slots_le (h : Sound lists) (hspares : ∀ step ∈ steps, step.Spares name) :
    (listAt name (final lists steps)).nodes.slots
      ≤ max (listAt name lists).nodes.slots (peak name lists steps) := by
  induction steps generalizing lists with
  | nil => exact Nat.le_max_left ..
  | cons step steps ih =>
      obtain ⟨hstep, hsteps⟩ := List.forall_mem_cons.mp hspares
      have hpeak := len_le_peak name (perform lists step).state steps
      have hrest := ih (h.perform_advances step).sound hsteps
      rw [final, peak]
      rcases h.perform_slots hstep with ⟨-, hnone⟩ | ⟨-, hthrifty⟩
      · omega
      · rw [hthrifty] at hrest
        omega

end Sound

/-- A list that begins with `n` slots has `n` of them, or as many as the most
elements that it has had at a time, as long as no clear of it got to the end,
and since the last one that did, as many as the most elements after it. At no
time are there more than `n` slots and than elements at one time. -/
theorem slots_high_water (hsound : Sound lists) {n : Nat}
    (hbegun : Pool.Begun n (listAt name lists).nodes)
    (hspares : ∀ step ∈ steps, step.Spares name) :
    (¬EmptiedIn name lists steps →
        (listAt name (final lists steps)).nodes.slots = max n (peak name lists steps))
      ∧ (∀ front step back, steps = front ++ step :: back → Empties name (final lists front) step →
        ¬EmptiedIn name (perform (final lists front) step).state back →
          (listAt name (final lists steps)).nodes.slots
            = peak name (perform (final lists front) step).state back)
      ∧ (listAt name (final lists steps)).nodes.slots ≤ max n (peak name lists steps) := by
  have hslots : (listAt name lists).nodes.slots = n := by
    obtain ⟨-, hnodes⟩ := hbegun.eq_ofVacant
    rw [hnodes, Pool.slots_ofVacant]
  refine ⟨?_, ?_, ?_⟩
  · intro hkept
    rw [hsound.final_slots hspares hkept, hslots]
  · rintro front step back rfl hempties hkept
    have hfront : Sound (final lists front) := hsound.final_sound front
    have hstep : step.Spares name := hspares step (by simp)
    have hback : ∀ later ∈ back, later.Spares name := fun later hlater =>
      hspares later (by simp [hlater])
    rcases hfront.perform_slots hstep with ⟨-, hnone⟩ | ⟨hnot, -⟩
    · rw [final_append, final,
        (hfront.perform_advances step).sound.final_slots hback hkept, hnone, Nat.zero_max]
    · exact absurd hempties hnot
  · exact hslots ▸ hsound.final_slots_le hspares

/-- A list with room for one element. -/
def narrow : Store (LinkedList Tracked) := final .empty [.create "a" (.withCapacity 1)]

/-- Of three elements one is refused, one goes, and the other with a clear that
it stops; three come then, for two of which there were slots, and two go. -/
def ebbAndFlow : List (Step Tracked) :=
  [.operate "a" (.append .ample .tail ⟨1, "v", some .dropping⟩),
    .operate "a" (.append .exhausted .tail ⟨2, "w", none⟩),
    .operate "a" (.tryAppend .ample .head ⟨3, "x", none⟩),
    .operate "a" (.delete .head ⟨3, "", none⟩),
    .operate "a" .clear,
    .operate "a" (.extend .exhausted (.ofList 3 [⟨4, "y", none⟩, ⟨5, "z", none⟩])),
    .operate "a" (.append .exhausted .head ⟨6, "u", none⟩),
    .operate "a" (.delete .tail ⟨5, "", none⟩),
    .operate "a" (.delete .head ⟨6, "", none⟩)]

/-- A clear gets to the end, and an element comes after it. -/
def flushed : List (Step Tracked) :=
  ebbAndFlow ++ .operate "a" .clear :: [.operate "a" (.append .exhausted .head ⟨7, "t", none⟩)]

theorem narrow_slots_high_water :
    Sound narrow ∧ Pool.Begun 1 (listAt "a" narrow).nodes
      ∧ (∀ step ∈ flushed, step.Spares "a")
      ∧ (listAt "a" (final narrow ebbAndFlow)).nodes.slots = 3
      ∧ (listAt "a" (final narrow flushed)).nodes.slots = 1 := by
  have hsound : Sound narrow := sound_empty.final_sound _
  have hbegun : Pool.Begun 1 (listAt "a" narrow).nodes := .withCapacity rfl
  have hspares : ∀ step ∈ flushed, step.Spares "a" := by
    simp [flushed, ebbAndFlow, Step.Spares]
  have hspares' : ∀ step ∈ ebbAndFlow, step.Spares "a" := by
    simp [ebbAndFlow, Step.Spares]
  obtain ⟨hkept, -, -⟩ := slots_high_water hsound hbegun hspares'
  obtain ⟨-, hemptied, -⟩ := slots_high_water hsound hbegun hspares
  refine ⟨hsound, hbegun, hspares, ?_, ?_⟩
  · rw [hkept (by decide +kernel)]
    decide +kernel
  · rw [hemptied ebbAndFlow (.operate "a" .clear) _ rfl (by decide +kernel) (by decide +kernel)]
    decide +kernel

end LinkedPool.Session.Lists
