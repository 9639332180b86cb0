import LinkedPool.Proofs.Traced

/-!
# Looking for an element

A call that only asks elements whether they are equal is an `Inquiry`: it
ends with its answer, or with the panic of a comparison that it made.

A search asks the elements of a sequence, one after the other, whether they
equal a value, and stops at the first that does. Whatever equality says, it
ends in one of three ways (`searched`): an element says yes and all before
it said no, all say no, or one panics and all before it said no. The
elements asked are in each case a beginning of the sequence.
-/

namespace LinkedPool.Element

variable {α ρ τ : Type} [Element α]

/-! ## Inquiries -/

/-- Whether `x` says that it equals `y`; an element that panics does not. -/
def same (x y : α) : Bool :=
  match equal x y with
  | .ok answer => answer
  | .error _ => false

theorem same_of_equal {x y : α} {answer : Bool} (h : equal x y = .ok answer) :
    same x y = answer := by
  rw [same, h]

/-- Nothing but questions. -/
def Comparing (trace : List (Event α)) : Prop :=
  ∀ event ∈ trace, ∃ left right, event = .compared left right

omit [Element α] in
theorem comparing_nil : Comparing ([] : List (Event α)) := List.forall_mem_nil _

omit [Element α] in
theorem Comparing.append {first second : List (Event α)} (h : Comparing first)
    (h' : Comparing second) : Comparing (first ++ second) := by
  intro event hevent
  rcases List.mem_append.mp hevent with hevent | hevent
  · exact h event hevent
  · exact h' event hevent

/-- The call asks elements whether they are equal and does nothing else; its
answer satisfies `P`. -/
inductive Inquiry (P : ρ → Prop) : Traced α ρ → Prop
  | answered (value : ρ) (trace : List (Event α)) (comparing : Comparing trace)
      (holds : P value) : Inquiry P ⟨.ok value, trace⟩
  | panicked (x y : α) (panic : Panic) (trace : List (Event α)) (comparing : Comparing trace)
      (asked : .compared x y ∈ trace) (refused : equal x y = .error panic) :
      Inquiry P ⟨.error panic, trace⟩

theorem inquiry_answer {P : ρ → Prop} {value : ρ} (h : P value) :
    Inquiry P (.answer value : Traced α ρ) :=
  .answered value [] comparing_nil h

theorem inquiry_compare (x y : α) : Inquiry (fun answer => answer = same x y) (compare x y) := by
  have hcomparing : Comparing [Event.compared x y] := by
    intro event hevent
    exact ⟨x, y, List.mem_singleton.mp hevent⟩
  unfold compare
  cases hequal : equal x y with
  | ok answer => exact .answered answer _ hcomparing (same_of_equal hequal).symm
  | error panic => exact .panicked x y panic _ hcomparing (List.mem_singleton_self _) hequal

theorem Inquiry.imp {P Q : ρ → Prop} {call : Traced α ρ} (h : Inquiry P call)
    (hanswer : ∀ value, P value → Q value) : Inquiry Q call := by
  cases h with
  | answered value trace comparing holds =>
      exact .answered value trace comparing (hanswer value holds)
  | panicked x y panic trace comparing asked refused =>
      exact .panicked x y panic trace comparing asked refused

theorem Inquiry.comparing {P : ρ → Prop} {call : Traced α ρ} (h : Inquiry P call) :
    Comparing call.trace := by
  cases h with
  | answered value trace comparing holds => exact comparing
  | panicked x y panic trace comparing asked refused => exact comparing

theorem Inquiry.bind {P : ρ → Prop} {Q : τ → Prop} {call : Traced α ρ} {next : ρ → Traced α τ}
    (h : Inquiry P call) (hnext : ∀ value, P value → Inquiry Q (next value)) :
    Inquiry Q (call.bind next) := by
  cases h with
  | answered value trace comparing holds =>
      have hvalue := hnext value holds
      rw [Traced.bind_ok]
      generalize next value = call' at hvalue ⊢
      cases hvalue with
      | answered value' trace' comparing' holds' =>
          exact .answered value' _ (comparing.append comparing') holds'
      | panicked x y panic trace' comparing' asked refused =>
          exact .panicked x y panic _ (comparing.append comparing')
            (List.mem_append_right _ asked) refused
  | panicked x y panic trace comparing asked refused =>
      exact .panicked x y panic trace comparing asked refused

/-! ## Searches -/

def asked (value : α) (xs : List α) : List (Event α) := xs.map (.compared · value)

/-- Asks `xs` in order whether they equal `value`; answers how many come
before the first that does. -/
def search (value : α) : List α → Traced α (Option Nat)
  | [] => .answer none
  | x :: xs => (compare x value).bind fun same =>
      if same then .answer (some 0)
      else (search value xs).bind fun steps => .answer (steps.map (· + 1))

/-- Each of `xs` denies that it equals `value`. -/
def Denied (value : α) (xs : List α) : Prop := ∀ x ∈ xs, equal x value = .ok false

inductive Searched (value : α) (xs : List α) : Traced α (Option Nat) → Prop
  | found (front : List α) (x : α) (back : List α) (split : xs = front ++ x :: back)
      (denied : Denied value front) (same : equal x value = .ok true) :
      Searched value xs ⟨.ok (some front.length), asked value (front ++ [x])⟩
  | absent (denied : Denied value xs) : Searched value xs ⟨.ok none, asked value xs⟩
  | panicked (front : List α) (x : α) (back : List α) (panic : Panic)
      (split : xs = front ++ x :: back) (denied : Denied value front)
      (same : equal x value = .error panic) :
      Searched value xs ⟨.error panic, asked value (front ++ [x])⟩

theorem Denied.cons {value x : α} {xs : List α} (hx : equal x value = .ok false)
    (h : Denied value xs) : Denied value (x :: xs) := by
  intro y hy
  rcases List.mem_cons.mp hy with rfl | hy
  · exact hx
  · exact h y hy

/-- One more element that says no leaves the search as it was, one step later. -/
theorem Searched.cons {value x : α} {xs : List α} {call : Traced α (Option Nat)}
    (hx : equal x value = .ok false) (h : Searched value xs call) :
    Searched value (x :: xs)
      ((call.bind fun steps => .answer (steps.map (· + 1))).after [.compared x value]) := by
  cases h with
  | found front y back split denied same =>
      simpa [asked, Traced.answer] using Searched.found (x :: front) y back
        (congrArg (x :: ·) split) (denied.cons hx) same
  | absent denied => simpa [asked, Traced.answer] using Searched.absent (denied.cons hx)
  | panicked front y back panic split denied same =>
      simpa [asked] using Searched.panicked (x :: front) y back panic
        (congrArg (x :: ·) split) (denied.cons hx) same

/-- A search answers how many elements come before the first that says yes. -/
theorem inquiry_search (value : α) (xs : List α) :
    Inquiry (fun steps => steps = xs.findIdx? (same · value)) (search value xs) := by
  induction xs with
  | nil => exact inquiry_answer rfl
  | cons x xs ih =>
      refine (inquiry_compare x value).bind ?_
      intro answer hanswer
      rw [List.findIdx?_cons, ← hanswer]
      cases answer with
      | true => exact inquiry_answer rfl
      | false =>
          refine ih.bind ?_
          intro steps hsteps
          rw [hsteps]
          exact inquiry_answer rfl

theorem searched (value : α) (xs : List α) : Searched value xs (search value xs) := by
  have hnone : Denied value [] := List.forall_mem_nil _
  induction xs with
  | nil => exact .absent hnone
  | cons x xs ih =>
      rw [search, compare]
      cases hx : equal x value with
      | error panic => exact .panicked [] x xs panic rfl hnone hx
      | ok same =>
          cases same with
          | true => exact .found [] x xs rfl hnone hx
          | false => exact ih.cons hx

end LinkedPool.Element
