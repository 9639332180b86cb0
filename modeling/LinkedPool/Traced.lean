import LinkedPool.Event

/-!
# Calls and what they leave behind

A call ends with an answer or with a panic, and either way it has a trace:
`Traced` holds the two. A call on a structure also leaves that structure
in some state, after a panic as well as after an answer: an `Outcome` is a
traced call with the state it leaves.

Calls are joined by `bind`. A panic ends the joined call where it struck,
so the state is the one that the panicking part left. What a call owns
when a panic passes through it is dropped on the way; `onPanic` adds these
events, and only to a call that panics.
-/

namespace LinkedPool

variable {α β σ υ ρ τ : Type}

/-- How a call ended, and what it did in order. -/
structure Traced (α ρ : Type) where
  result : Except Panic ρ
  trace : List (Event α)

namespace Traced

/-- The call that answers at once. -/
def answer (value : ρ) : Traced α ρ := ⟨.ok value, []⟩

/-- The call that panics at once. -/
def raise (panic : Panic) : Traced α ρ := ⟨.error panic, []⟩

/-- The call that logs a line. -/
def log (line : LogLine) : Traced α Unit := ⟨.ok (), [.logged line]⟩

/-- A computation without events. -/
def ofExcept (result : Except Panic ρ) : Traced α ρ := ⟨result, []⟩

/-- The call, preceded by events. -/
def after (events : List (Event α)) (call : Traced α ρ) : Traced α ρ :=
  { call with trace := events ++ call.trace }

/-- The first call, and with its answer the second. -/
def bind (call : Traced α ρ) (next : ρ → Traced α τ) : Traced α τ :=
  match call.result with
  | .ok value => (next value).after call.trace
  | .error panic => ⟨.error panic, call.trace⟩

instance : Monad (Traced α) where
  pure := answer
  bind := bind

/-- The call, with events added to it if it panics. -/
def onPanic (events : List (Event α)) (call : Traced α ρ) : Traced α ρ :=
  match call.result with
  | .ok _ => call
  | .error _ => { call with trace := call.trace ++ events }

/-- The call, its events told of the images of their elements. -/
def relabel (f : α → β) (call : Traced α ρ) : Traced β ρ :=
  ⟨call.result, call.trace.map (Event.map f)⟩

@[simp] theorem after_nil (call : Traced α ρ) : call.after [] = call := rfl

theorem after_after (first second : List (Event α)) (call : Traced α ρ) :
    (call.after second).after first = call.after (first ++ second) := by
  simp [after]

@[simp] theorem answer_bind (value : ρ) (next : ρ → Traced α τ) :
    (answer value).bind next = next value := rfl

@[simp] theorem raise_bind (panic : Panic) (next : ρ → Traced α τ) :
    (raise panic).bind next = raise panic := rfl

@[simp] theorem bind_answer (call : Traced α ρ) : call.bind answer = call := by
  obtain ⟨result, trace⟩ := call
  cases result <;> simp [bind, answer, after]

/-- The events of a call come before those of what follows it. -/
theorem after_bind (events : List (Event α)) (call : Traced α ρ) (next : ρ → Traced α τ) :
    (call.after events).bind next = (call.bind next).after events := by
  obtain ⟨result, trace⟩ := call
  cases result <;> simp [bind, after]

theorem bind_assoc (call : Traced α ρ) (next : ρ → Traced α τ) {ω : Type}
    (last : τ → Traced α ω) :
    (call.bind next).bind last = call.bind fun value => (next value).bind last := by
  obtain ⟨result, trace⟩ := call
  cases result with
  | ok value => exact after_bind trace (next value) last
  | error panic => rfl

theorem pure_eq (value : ρ) : (pure value : Traced α ρ) = answer value := rfl

theorem bind_eq (call : Traced α ρ) (next : ρ → Traced α τ) :
    call >>= next = call.bind next := rfl

instance : LawfulMonad (Traced α) :=
  LawfulMonad.mk' (Traced α) bind_answer answer_bind fun call next last =>
    bind_assoc call next last

end Traced

/-- A call on a structure: how it ended, what it did, and the state it left. -/
structure Outcome (α σ ρ : Type) extends Traced α ρ where
  state : σ

/-- The call on a structure that leaves it in `state` however it ends. -/
def Traced.leaving (state : σ) (call : Traced α ρ) : Outcome α σ ρ := { call with state }

namespace Outcome

/-- The call, preceded by events. -/
def after (events : List (Event α)) (call : Outcome α σ ρ) : Outcome α σ ρ :=
  { call with trace := events ++ call.trace }

/-- The first call, and with the state it leaves and its answer the second. -/
def bind (call : Outcome α σ ρ) (next : σ → ρ → Outcome α σ τ) : Outcome α σ τ :=
  match call.result with
  | .ok value => (next call.state value).after call.trace
  | .error panic => { result := .error panic, trace := call.trace, state := call.state }

/-- The call with its answer replaced. -/
def map (f : ρ → τ) (call : Outcome α σ ρ) : Outcome α σ τ :=
  { result := call.result.map f, trace := call.trace, state := call.state }

/-- The call on a part of a larger structure. -/
def within (f : σ → υ) (call : Outcome α σ ρ) : Outcome α υ ρ :=
  { result := call.result, trace := call.trace, state := f call.state }

/-- The call, with events added to it if it panics. -/
def onPanic (events : List (Event α)) (call : Outcome α σ ρ) : Outcome α σ ρ :=
  (call.toTraced.onPanic events).leaving call.state

/-- The call, its events told of the images of their elements. -/
def relabel (f : α → β) (call : Outcome α σ ρ) : Outcome β σ ρ :=
  (call.toTraced.relabel f).leaving call.state

@[simp] theorem after_nil (call : Outcome α σ ρ) : call.after [] = call := rfl

@[simp] theorem answer_bind (value : ρ) (state : σ) (next : σ → ρ → Outcome α σ τ) :
    ((Traced.answer value).leaving state).bind next = next state value := rfl

@[simp] theorem raise_bind (panic : Panic) (state : σ) (next : σ → ρ → Outcome α σ τ) :
    ((Traced.raise panic).leaving state).bind next = (Traced.raise panic).leaving state := rfl

/-- The events of a call come before those of what follows it. -/
theorem after_bind (events : List (Event α)) (call : Outcome α σ ρ)
    (next : σ → ρ → Outcome α σ τ) :
    (call.after events).bind next = (call.bind next).after events := by
  obtain ⟨⟨result, trace⟩, state⟩ := call
  cases result <;> simp [bind, after]

theorem bind_assoc (call : Outcome α σ ρ) (next : σ → ρ → Outcome α σ τ) {ω : Type}
    (last : σ → τ → Outcome α σ ω) :
    (call.bind next).bind last
      = call.bind fun state value => (next state value).bind last := by
  obtain ⟨⟨result, trace⟩, state⟩ := call
  cases result with
  | ok value => exact after_bind trace (next state value) last
  | error panic => rfl

end Outcome

end LinkedPool
