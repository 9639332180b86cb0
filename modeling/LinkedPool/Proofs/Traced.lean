import LinkedPool.Element

/-!
# Calls whose end is known

A call is joined with what follows by looking at how it ended. Here are the
rules for that, one for each end, so that a joined call is computed without
unfolding how calls are joined.
-/

namespace LinkedPool

variable {α β σ υ ρ τ : Type}

instance decidableExistsOk {result : Except τ ρ} {P : ρ → Prop} [DecidablePred P] :
    Decidable (∃ value, result = .ok value ∧ P value) :=
  match result with
  | .ok value => decidable_of_iff (P value) (by simp)
  | .error _ => isFalse (by simp)

namespace Traced

variable {events : List (Event α)} {value : ρ} {panic : Panic}

@[simp] theorem bind_ok (next : ρ → Traced α τ) :
    (⟨.ok value, events⟩ : Traced α ρ).bind next = (next value).after events := rfl

@[simp] theorem bind_error (next : ρ → Traced α τ) :
    (⟨.error panic, events⟩ : Traced α ρ).bind next = ⟨.error panic, events⟩ := rfl

@[simp] theorem after_mk (first : List (Event α)) (result : Except Panic ρ) :
    (⟨result, events⟩ : Traced α ρ).after first = ⟨result, first ++ events⟩ := rfl

@[simp] theorem ofExcept_ok (value : ρ) :
    (ofExcept (.ok value) : Traced α ρ) = answer value := rfl

@[simp] theorem ofExcept_error (panic : Panic) :
    (ofExcept (.error panic) : Traced α ρ) = raise panic := rfl

@[simp] theorem onPanic_ok (added : List (Event α)) :
    (⟨.ok value, events⟩ : Traced α ρ).onPanic added = ⟨.ok value, events⟩ := rfl

@[simp] theorem onPanic_error (added : List (Event α)) :
    (⟨.error panic, events⟩ : Traced α ρ).onPanic added = ⟨.error panic, events ++ added⟩ := rfl

@[simp] theorem leaving_mk (result : Except Panic ρ) (state : σ) :
    (⟨result, events⟩ : Traced α ρ).leaving state = ⟨⟨result, events⟩, state⟩ := rfl

@[simp] theorem relabel_mk (f : α → β) (result : Except Panic ρ) :
    (⟨result, events⟩ : Traced α ρ).relabel f = ⟨result, events.map (Event.map f)⟩ := rfl

theorem trace_ofExcept_bind {result : Except Panic ρ} {next : ρ → Traced α τ}
    (h : ∀ value, result = .ok value → (next value).trace = []) :
    ((ofExcept result).bind next).trace = [] := by
  cases result with
  | error panic => rfl
  | ok value => exact h value rfl

end Traced

namespace Outcome

variable {events : List (Event α)} {value : ρ} {panic : Panic} {state : σ}

@[simp] theorem bind_ok (next : σ → ρ → Outcome α σ τ) :
    (⟨⟨.ok value, events⟩, state⟩ : Outcome α σ ρ).bind next = (next state value).after events :=
  rfl

@[simp] theorem bind_error (next : σ → ρ → Outcome α σ τ) :
    (⟨⟨.error panic, events⟩, state⟩ : Outcome α σ ρ).bind next
      = ⟨⟨.error panic, events⟩, state⟩ := rfl

@[simp] theorem after_mk (first : List (Event α)) (result : Except Panic ρ) :
    (⟨⟨result, events⟩, state⟩ : Outcome α σ ρ).after first
      = ⟨⟨result, first ++ events⟩, state⟩ := rfl

@[simp] theorem map_ok (f : ρ → τ) :
    (⟨⟨.ok value, events⟩, state⟩ : Outcome α σ ρ).map f = ⟨⟨.ok (f value), events⟩, state⟩ := rfl

@[simp] theorem map_error (f : ρ → τ) :
    (⟨⟨.error panic, events⟩, state⟩ : Outcome α σ ρ).map f = ⟨⟨.error panic, events⟩, state⟩ :=
  rfl

theorem exists_of_map_eq_ok {call : Outcome α σ ρ} {f : ρ → τ} {value : τ}
    (h : (call.map f).result = .ok value) :
    ∃ answer, call.result = .ok answer ∧ f answer = value := by
  obtain ⟨⟨result, trace⟩, state⟩ := call
  cases result with
  | ok answer => exact ⟨answer, rfl, Except.ok.inj h⟩
  | error panic => cases h

@[simp] theorem within_mk (f : σ → υ) (result : Except Panic ρ) :
    (⟨⟨result, events⟩, state⟩ : Outcome α σ ρ).within f = ⟨⟨result, events⟩, f state⟩ := rfl

@[simp] theorem onPanic_ok (added : List (Event α)) :
    (⟨⟨.ok value, events⟩, state⟩ : Outcome α σ ρ).onPanic added
      = ⟨⟨.ok value, events⟩, state⟩ := rfl

@[simp] theorem onPanic_error (added : List (Event α)) :
    (⟨⟨.error panic, events⟩, state⟩ : Outcome α σ ρ).onPanic added
      = ⟨⟨.error panic, events ++ added⟩, state⟩ := rfl

@[simp] theorem relabel_mk (f : α → β) (result : Except Panic ρ) :
    (⟨⟨result, events⟩, state⟩ : Outcome α σ ρ).relabel f
      = ⟨⟨result, events.map (Event.map f)⟩, state⟩ := rfl

end Outcome

namespace Element

variable [Element α] {x : α} {panic : Panic}

/-! ## Dropping -/

def Calm (xs : List α) : Prop := ∀ x ∈ xs, dropPanic x = none

instance (xs : List α) : Decidable (Calm xs) :=
  inferInstanceAs (Decidable (∀ x ∈ xs, dropPanic x = none))

theorem Calm.cons {xs : List α} (hx : dropPanic x = none) (h : Calm xs) : Calm (x :: xs) := by
  intro y hy
  rcases List.mem_cons.mp hy with rfl | hy
  · exact hx
  · exact h y hy

theorem Calm.not_panics {xs : List α} (h : Calm xs) (hx : x ∈ xs) :
    dropPanic x ≠ some panic := by
  simp [h x hx]

theorem discardAll_of_calm {xs : List α} (h : Calm xs) :
    discardAll xs = ⟨.ok (), xs.map .dropped⟩ := by
  have hnone : xs.findSome? dropPanic = none := List.findSome?_eq_none_iff.mpr h
  rw [discardAll, hnone]

theorem discard_of_none (h : dropPanic x = none) : discard x = ⟨.ok (), [.dropped x]⟩ := by
  simp [discard, discardAll, h]

theorem discard_of_some (h : dropPanic x = some panic) :
    discard x = ⟨.error panic, [.dropped x]⟩ := by
  simp [discard, discardAll, h]

theorem discard_cases (x : α) :
    (dropPanic x = none ∧ discard x = ⟨.ok (), [.dropped x]⟩)
      ∨ ∃ panic, dropPanic x = some panic ∧ discard x = ⟨.error panic, [.dropped x]⟩ := by
  cases h : dropPanic x with
  | none => exact .inl ⟨rfl, discard_of_none h⟩
  | some panic => exact .inr ⟨panic, rfl, discard_of_some h⟩

omit [Element α] in
theorem departures_map (f : α → β) (xs : List α) :
    departures (xs.map f) = (departures xs).map (Event.map f) := by
  simp [departures, Event.map]

end Element

end LinkedPool
