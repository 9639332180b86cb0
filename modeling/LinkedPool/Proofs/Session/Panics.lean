import LinkedPool.Element.Tracked
import LinkedPool.Proofs.LinkedList.Panics
import LinkedPool.Proofs.Session.Sound

/-!
# What makes a step panic

Whatever went before in a session, a step panics by one of its elements, or
for a cause on a short list (`Sound.perform_excused`). A panic that reports
a broken structure is not on that list: only an element that itself panics
so can bring one about.
-/

namespace LinkedPool

open Element

namespace Session.Lists

open LinkedList

variable {α : Type} [Element α] {lists : Store (LinkedList α)}

/-- What makes a step panic, other than its elements. -/
inductive Cause (lists : Store (LinkedList α)) : Step α → Panic → Prop
  | operation (name : String) (operation : Operation α) (panic : Panic)
      (cause : (listAt name lists).Cause operation panic) :
      Cause lists (.operate name operation) panic
  /-- The copies from the other list are a source like any. -/
  | copies (memory : Memory) (name other : String) (e : End) (source : Source α) (panic : Panic)
      (copies : Source.copies e (listAt other lists) = .ok source)
      (cause : (listAt name lists).Cause (.extend memory source) panic) :
      Cause lists (.extendFrom memory name other e) panic
  | source (name : String) (memory : Memory) (source : Source α) (panic : Panic)
      (cause : LinkedList.empty.Cause (.extend memory source) panic) :
      Cause lists (.create name (.ofSource memory source)) panic
  | capacity (name : String) (n : Nat) (exceeds : Capacity.limit (Node α) ≤ n) :
      Cause lists (.create name (.withCapacity n)) .capacityOverflow
  | stranded (name : String) (detached : (listAt name lists).Detached) :
      Cause lists (.destroy name) .nodesLeft

theorem Cause.not_structural {step : Step α} {panic : Panic} (h : Cause lists step panic) :
    ¬panic.Structural := by
  have hlist {list : LinkedList α} {operation : Operation α}
      (hcause : list.Cause operation panic) : ¬panic.Structural := by
    cases hcause <;> exact id
  cases h with
  | operation name operation panic cause => exact hlist cause
  | copies memory name other e source panic copies cause => exact hlist cause
  | source name memory source panic cause => exact hlist cause
  | capacity name n exceeds => exact id
  | stranded name detached => exact id

theorem Sound.build_excused (h : Sound lists) (name : String) :
    ∀ origin : Origin α, Excused (Cause lists (.create name origin))
      (origin.build (origin.prepare lists))
  | .empty => excused_ok
  | .withCapacity n =>
      (withCapacity_excused n).imp fun _ ⟨hexceeds, hpanic⟩ => hpanic ▸ .capacity name n hexceeds
  | .ofSource memory source =>
      (ofSource_excused memory source).imp fun panic hcause =>
        .source name memory source panic hcause
  | .cloneOf other => by
      obtain ⟨content, hholds⟩ := (h.ensure other).holds_at other
      exact hholds.clone_excused

/-- Dropping the list that is replaced is the last that can panic. -/
theorem excused_replace {cause : Panic → Prop} {call : Traced α (LinkedList α)}
    (h : Excused cause call) (name : String) :
    Excused cause
      ((call.leaving lists).bind fun lists list => replace name list lists).toTraced := by
  obtain ⟨result, trace⟩ := call
  cases result with
  | error panic => exact excused_error (h panic rfl)
  | ok list =>
      rw [Traced.leaving_mk, Outcome.bind_ok, replace]
      cases lists.find? name with
      | none => exact excused_ok
      | some old => exact (excused_discardAll old.stored).after trace

/-- Every step of a sound session panics by its elements or for a cause. -/
theorem Sound.perform_excused (h : Sound lists) :
    ∀ step, Excused (Cause lists step) (perform lists step).toTraced
  | .create name origin => (excused_replace (h.build_excused name origin) name).map
  | .destroy name => by
      obtain ⟨content, hholds⟩ := h.holds_at name
      have hdestroy : Excused (Cause lists (.destroy name))
          ((listAt name lists).destroy.leaving (lists.erase name)).toTraced :=
        hholds.destroy_excused.imp fun _ ⟨hdetached, hpanic⟩ => hpanic ▸ .stranded name hdetached
      exact hdestroy.map
  | .discard name =>
      have hdiscard : Excused (Cause lists (.discard name))
          ((listAt name lists).discard.leaving (lists.erase name)).toTraced :=
        excused_discardAll (listAt name lists).stored
      hdiscard.map
  | .operate name operation => by
      obtain ⟨content, hholds⟩ := h.holds_at name
      exact (hholds.perform_excused operation).imp fun panic hcause =>
        .operation name operation panic hcause
  | .extendFrom memory name other e => by
      have hsound := h.ensure other
      obtain ⟨content, hholds⟩ := hsound.holds_at other
      obtain ⟨content', hholds'⟩ := hsound.holds_at name
      have hcopies := hholds.copies e
      rw [perform, hcopies]
      refine (hholds'.perform_excused _).imp ?_
      intro panic hcause
      rw [listAt_ensure] at hcopies
      simp only [listAt_ensure] at hcause
      exact .copies memory name other e _ panic hcopies hcause
  | .equals name other =>
      have hequals : Excused (Cause lists (.equals name other)) _ :=
        (h.inquiry_equals name other).excused
      hequals.map
  | .differs name other =>
      have hdiffers : Excused (Cause lists (.differs name other)) _ :=
        (h.inquiry_differs name other).excused
      hdiffers.map

/-- After any session that began with no lists, the next step panics only by
the comparison, the copy or the drop of an element in it, or for a cause.
A panic that reports a broken structure is always that of an element. -/
theorem perform_panics_for_cause (history : List (Step α)) (step : Step α) (panic : Panic)
    (hpanic : (perform (final .empty history) step).result = .error panic) :
    (Raised (perform (final .empty history) step).trace panic
        ∨ Cause (final .empty history) step panic)
      ∧ (panic.Structural → Raised (perform (final .empty history) step).trace panic) := by
  have hexcused := (sound_empty.final_sound history).perform_excused step panic hpanic
  refine ⟨hexcused, ?_⟩
  intro hstructural
  rcases hexcused with hraised | hcause
  · exact hraised
  · exact absurd hstructural hcause.not_structural

/-- A list is cleared, and the first of its two elements panics as it is
dropped: the second is left behind. -/
def bereft : List (Step Tracked) :=
  [.operate "a" (.append .ample .tail ⟨1, "x", some .dropping⟩),
    .operate "a" (.append .ample .tail ⟨2, "y", none⟩),
    .operate "a" .clear]

theorem bereft_panics_for_cause :
    (perform (final .empty bereft) (.destroy "a")).result = .error .nodesLeft
      ∧ (Raised (perform (final .empty bereft) (.destroy "a")).trace .nodesLeft
        ∨ Cause (final .empty bereft) (.destroy "a") .nodesLeft) := by
  have hpanic : (perform (final .empty bereft) (.destroy "a")).result = .error .nodesLeft := rfl
  exact ⟨hpanic, (perform_panics_for_cause bereft (.destroy "a") .nodesLeft hpanic).1⟩

end Session.Lists

end LinkedPool
