import LinkedPool.Proofs.Element.Equivalence

/-!
# Comparing sequences pair by pair

Two sequences are compared by asking the elements on the left, one after the
other, whether they equal those on the right that are in the same place. The
first that does not say yes ends it; if all say yes, the lengths decide
(`agreed`). So the sequences are equal just if they are the same element by
element (`Agreed.ok_true_iff`), whatever equality of elements is.
-/

namespace LinkedPool.Element

variable {α : Type} [Element α] {x y : α} {xs ys : List α} {call : Traced α Bool}

/-- The questions to the elements on the left of `pairs`. -/
def confronted (pairs : List (α × α)) : List (Event α) :=
  pairs.map fun pair => .compared pair.1 pair.2

/-- In each of `pairs` the element on the left says that it equals the one on the right. -/
def Matching (pairs : List (α × α)) : Prop := ∀ pair ∈ pairs, Same pair.1 pair.2

theorem Matching.cons {pairs : List (α × α)} (hx : Same x y) (h : Matching pairs) :
    Matching ((x, y) :: pairs) := by
  intro pair hpair
  rcases List.mem_cons.mp hpair with rfl | hpair
  · exact hx
  · exact h pair hpair

/-- How asking `xs` whether they equal `ys` ends. -/
inductive Agreed (xs ys : List α) : Traced α Bool → Prop
  | settled (same : Matching (xs.zip ys)) :
      Agreed xs ys ⟨.ok (decide (xs.length = ys.length)), confronted (xs.zip ys)⟩
  | differed (front : List (α × α)) (x y : α) (back : List (α × α))
      (split : xs.zip ys = front ++ (x, y) :: back) (same : Matching front)
      (differ : equal x y = .ok false) :
      Agreed xs ys ⟨.ok false, confronted (front ++ [(x, y)])⟩
  | panicked (front : List (α × α)) (x y : α) (back : List (α × α)) (panic : Panic)
      (split : xs.zip ys = front ++ (x, y) :: back) (same : Matching front)
      (refused : equal x y = .error panic) :
      Agreed xs ys ⟨.error panic, confronted (front ++ [(x, y)])⟩

/-- A pair that is equal is passed over. -/
theorem Agreed.cons (hx : Same x y) (h : Agreed xs ys call) :
    Agreed (x :: xs) (y :: ys) (call.after [.compared x y]) := by
  cases h with
  | settled same =>
      have hsettled : Agreed (x :: xs) (y :: ys) _ := .settled (same.cons hx)
      simpa [confronted] using hsettled
  | differed front x' y' back split same differ =>
      exact .differed ((x, y) :: front) x' y' back (congrArg ((x, y) :: ·) split)
        (same.cons hx) differ
  | panicked front x' y' back panic split same refused =>
      exact .panicked ((x, y) :: front) x' y' back panic (congrArg ((x, y) :: ·) split)
        (same.cons hx) refused

theorem agreed : ∀ xs ys : List α, Agreed xs ys (agree xs ys)
  | [], [] => .settled (List.forall_mem_nil _)
  | [], _ :: _ => .settled (List.forall_mem_nil _)
  | _ :: _, [] => .settled (List.forall_mem_nil _)
  | x :: xs, y :: ys => by
      rw [agree, compare]
      cases hx : equal x y with
      | error panic => exact .panicked [] x y (xs.zip ys) panic rfl (List.forall_mem_nil _) hx
      | ok same =>
          cases same with
          | true => exact (agreed xs ys).cons hx
          | false => exact .differed [] x y (xs.zip ys) rfl (List.forall_mem_nil _) hx

/-- A pair that is not the same tells the sequences apart. -/
theorem not_forall₂_of_split {front back : List (α × α)}
    (split : xs.zip ys = front ++ (x, y) :: back) (hx : ¬Same x y) : ¬List.Forall₂ Same xs ys := by
  intro hall
  have hpair : (x, y) ∈ xs.zip ys := split ▸ List.mem_append_right front List.mem_cons_self
  exact hx ((List.forall₂_iff_zip.mp hall).2 hpair)

/-- The answer is yes just if the sequences are the same element by element. -/
theorem Agreed.ok_true_iff (h : Agreed xs ys call) :
    call.result = .ok true ↔ List.Forall₂ Same xs ys := by
  cases h with
  | settled same =>
      rw [Except.ok.injEq, decide_eq_true_eq, List.forall₂_iff_zip]
      exact ⟨fun hlength => ⟨hlength, fun hpair => same _ hpair⟩, And.left⟩
  | differed front x y back split same differ =>
      have hx : ¬Same x y := by
        rw [Same, differ]
        intro heq
        cases heq
      refine ⟨?_, fun hall => absurd hall (not_forall₂_of_split split hx)⟩
      intro heq
      cases heq
  | panicked front x y back panic split same refused =>
      have hx : ¬Same x y := by
        rw [Same, refused]
        intro heq
        cases heq
      refine ⟨?_, fun hall => absurd hall (not_forall₂_of_split split hx)⟩
      intro heq
      cases heq

theorem agree_of_refused {panic : Panic} {back : List (α × α)} :
    ∀ {xs ys : List α} {front : List (α × α)}, xs.zip ys = front ++ (x, y) :: back →
      Matching front → equal x y = .error panic → (agree xs ys).result = .error panic
  | [], _, front, split, _, _ => by
      cases front <;> cases split
  | _ :: _, [], front, split, _, _ => by
      cases front <;> cases split
  | a :: xs, b :: ys, [], split, _, hx => by
      rw [List.zip_cons_cons, List.nil_append] at split
      cases split
      rw [agree, compare, hx]
      rfl
  | a :: xs, b :: ys, pair :: front, split, same, hx => by
      rw [List.zip_cons_cons, List.cons_append] at split
      obtain ⟨rfl, hrest⟩ := List.cons.inj split
      have hfirst : equal a b = .ok true := same (a, b) List.mem_cons_self
      rw [agree, compare, hfirst]
      exact agree_of_refused hrest (fun pair hpair => same pair (List.mem_cons_of_mem _ hpair)) hx

/-- A comparison of two sequences panics just if that of the first pair does
that is not the same. -/
theorem agree_error_iff {panic : Panic} :
    (agree xs ys).result = .error panic
      ↔ ∃ front x y back, xs.zip ys = front ++ (x, y) :: back ∧ Matching front
        ∧ equal x y = .error panic := by
  refine ⟨?_, ?_⟩
  · have hagreed := agreed xs ys
    generalize agree xs ys = call at hagreed ⊢
    intro hpanic
    cases hagreed with
    | settled same => cases hpanic
    | differed front x y back split same differ => cases hpanic
    | panicked front x y back panic' split same refused =>
        cases hpanic
        exact ⟨front, x, y, back, split, same, refused⟩
  · rintro ⟨front, x, y, back, split, same, hx⟩
    exact agree_of_refused split same hx

end LinkedPool.Element
