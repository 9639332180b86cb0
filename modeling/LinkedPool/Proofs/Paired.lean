import LinkedPool.Proofs.Traced

/-!
# Calls that go alike

Two calls go alike if their traces are the same and they end alike: with the
same panic, or with answers that are related in a given way; the states that
they leave may have to be related as well. Calls that are joined of parts
that go alike go alike.
-/

namespace LinkedPool

variable {α β σ σ' υ υ' ρ ρ' τ τ' : Type} {R : ρ → ρ' → Prop} {Q : τ → τ' → Prop}
  {S : σ → σ' → Prop} {T : υ → υ' → Prop}

/-- The results are the same panic, or values that are related. -/
inductive Matched (R : ρ → ρ' → Prop) : Except Panic ρ → Except Panic ρ' → Prop
  | ok {value : ρ} {value' : ρ'} (related : R value value') : Matched R (.ok value) (.ok value')
  | error (panic : Panic) : Matched R (.error panic) (.error panic)

theorem Matched.bind {result : Except Panic ρ} {result' : Except Panic ρ'}
    {next : ρ → Except Panic τ} {next' : ρ' → Except Panic τ'} (h : Matched R result result')
    (hnext : ∀ value value', R value value' → Matched Q (next value) (next' value')) :
    Matched Q (result >>= next) (result' >>= next') := by
  cases h with
  | ok related => exact hnext _ _ related
  | error panic => exact .error panic

namespace Traced

variable {call : Traced α ρ} {call' : Traced α ρ'}

/-- The calls do the same, and end with the same panic or with related answers. -/
inductive Paired (R : ρ → ρ' → Prop) : Traced α ρ → Traced α ρ' → Prop
  | answered {value : ρ} {value' : ρ'} (trace : List (Event α)) (related : R value value') :
      Paired R ⟨.ok value, trace⟩ ⟨.ok value', trace⟩
  | panicked (panic : Panic) (trace : List (Event α)) :
      Paired R ⟨.error panic, trace⟩ ⟨.error panic, trace⟩

theorem paired_answer {value : ρ} {value' : ρ'} (h : R value value') :
    Paired R (answer value : Traced α ρ) (answer value') :=
  .answered [] h

theorem paired_self (call : Traced α ρ) : Paired Eq call call := by
  obtain ⟨result, trace⟩ := call
  cases result with
  | ok value => exact .answered trace rfl
  | error panic => exact .panicked panic trace

theorem Paired.eq {other : Traced α ρ} (h : Paired Eq call other) : call = other := by
  cases h with
  | answered trace related => rw [related]
  | panicked panic trace => rfl

theorem Paired.after (h : Paired R call call') (events : List (Event α)) :
    Paired R (call.after events) (call'.after events) := by
  cases h with
  | answered trace related => exact .answered _ related
  | panicked panic trace => exact .panicked panic _

theorem Paired.bind {next : ρ → Traced α τ} {next' : ρ' → Traced α τ'} (h : Paired R call call')
    (hnext : ∀ value value', R value value' → Paired Q (next value) (next' value')) :
    Paired Q (call.bind next) (call'.bind next') := by
  cases h with
  | answered trace related => exact (hnext _ _ related).after trace
  | panicked panic trace => exact .panicked panic trace

theorem Paired.relabel (h : Paired R call call') (f : α → β) :
    Paired R (call.relabel f) (call'.relabel f) := by
  cases h with
  | answered trace related => exact .answered _ related
  | panicked panic trace => exact .panicked panic _

end Traced

namespace Outcome

variable {call : Outcome α σ ρ} {call' : Outcome α σ' ρ'}

/-- The calls do the same, end with the same panic or with related answers,
and leave related states. -/
inductive Paired (R : ρ → ρ' → Prop) (S : σ → σ' → Prop) :
    Outcome α σ ρ → Outcome α σ' ρ' → Prop
  | answered {value : ρ} {value' : ρ'} {state : σ} {state' : σ'} (trace : List (Event α))
      (related : R value value') (states : S state state') :
      Paired R S ⟨⟨.ok value, trace⟩, state⟩ ⟨⟨.ok value', trace⟩, state'⟩
  | panicked {state : σ} {state' : σ'} (panic : Panic) (trace : List (Event α))
      (states : S state state') :
      Paired R S ⟨⟨.error panic, trace⟩, state⟩ ⟨⟨.error panic, trace⟩, state'⟩

theorem Paired.toTraced (h : Paired R S call call') :
    Traced.Paired R call.toTraced call'.toTraced := by
  cases h with
  | answered trace related => exact .answered trace related
  | panicked panic trace => exact .panicked panic trace

theorem Paired.state (h : Paired R S call call') : S call.state call'.state := by
  cases h <;> assumption

theorem Paired.after (h : Paired R S call call') (events : List (Event α)) :
    Paired R S (call.after events) (call'.after events) := by
  cases h with
  | answered trace related states => exact .answered _ related states
  | panicked panic trace states => exact .panicked panic _ states

theorem Paired.bind {next : σ → ρ → Outcome α σ τ} {next' : σ' → ρ' → Outcome α σ' τ'}
    (h : Paired R S call call')
    (hnext : ∀ state state' value value', S state state' → R value value' →
      Paired Q S (next state value) (next' state' value')) :
    Paired Q S (call.bind next) (call'.bind next') := by
  cases h with
  | answered trace related states => exact (hnext _ _ _ _ states related).after trace
  | panicked panic trace states => exact .panicked panic trace states

theorem Paired.map {f : ρ → τ} {f' : ρ' → τ'} (h : Paired R S call call')
    (hf : ∀ value value', R value value' → Q (f value) (f' value')) :
    Paired Q S (call.map f) (call'.map f') := by
  cases h with
  | answered trace related states => exact .answered trace (hf _ _ related) states
  | panicked panic trace states => exact .panicked panic trace states

theorem Paired.map_eq {call' : Outcome α σ' ρ} (h : Paired Eq S call call') (f : ρ → τ) :
    Paired Eq S (call.map f) (call'.map f) :=
  h.map fun _ _ => congrArg f

theorem Paired.within {f : σ → υ} {f' : σ' → υ'} (h : Paired R S call call')
    (hf : ∀ state state', S state state' → T (f state) (f' state')) :
    Paired R T (call.within f) (call'.within f') := by
  cases h with
  | answered trace related states => exact .answered trace related (hf _ _ states)
  | panicked panic trace states => exact .panicked panic trace (hf _ _ states)

theorem Paired.onPanic (h : Paired R S call call') (events : List (Event α)) :
    Paired R S (call.onPanic events) (call'.onPanic events) := by
  cases h with
  | answered trace related states => exact .answered trace related states
  | panicked panic trace states => exact .panicked panic _ states

theorem Paired.relabel (h : Paired R S call call') (f : α → β) :
    Paired R S (call.relabel f) (call'.relabel f) := by
  cases h with
  | answered trace related states => exact .answered _ related states
  | panicked panic trace states => exact .panicked panic _ states

end Outcome

theorem Traced.Paired.leaving {call : Traced α ρ} {call' : Traced α ρ'} {state : σ} {state' : σ'}
    (h : Traced.Paired R call call') (hstates : S state state') :
    Outcome.Paired R S (call.leaving state) (call'.leaving state') := by
  cases h with
  | answered trace related => exact .answered trace related hstates
  | panicked panic trace => exact .panicked panic trace hstates

/-- The same call on both, which does not depend on their states. -/
theorem Outcome.paired_leaving (call : Traced α ρ) {state : σ} {state' : σ'}
    (h : S state state') : Paired Eq S (call.leaving state) (call.leaving state') :=
  (Traced.paired_self call).leaving h

end LinkedPool
