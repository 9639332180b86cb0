import LinkedPool.Proofs.Cursor.Window
import LinkedPool.Proofs.Element.Search

/-!
# Looking for elements with cursors

A cursor looks for an element as one looks for it in the sequence that the
cursor yields, and is past the elements asked after that (`Yields.seek`).
Two cursors are compared as the two sequences are (`Yields.agrees`): element
by element, until one pair differs or one sequence ends.
-/

namespace LinkedPool

namespace Element

variable {α : Type} [Element α]

/-- Whether two sequences are equal, by the word of the elements on the left. -/
def alike : List α → List α → Bool
  | [], [] => true
  | [], _ :: _ => false
  | _ :: _, [] => false
  | x :: xs, y :: ys => same x y && alike xs ys

/-- Asks the elements of one sequence whether they equal those of another. -/
def agree : List α → List α → Traced α Bool
  | [], ys => .answer ys.isEmpty
  | _ :: _, [] => .answer false
  | x :: xs, y :: ys => (compare x y).bind fun same => if same then agree xs ys else .answer false

theorem inquiry_agree : ∀ xs ys : List α,
    Inquiry (fun answer => answer = alike xs ys) (agree xs ys)
  | [], [] => inquiry_answer rfl
  | [], _ :: _ => inquiry_answer rfl
  | _ :: _, [] => inquiry_answer rfl
  | x :: xs, y :: ys => by
      refine (inquiry_compare x y).bind ?_
      intro answer hanswer
      rw [alike, ← hanswer]
      cases answer with
      | true => exact inquiry_agree xs ys
      | false => exact inquiry_answer rfl

theorem alike_eq_false : ∀ {xs ys : List α}, xs.length ≠ ys.length → alike xs ys = false
  | [], [], h => absurd rfl h
  | [], _ :: _, _ => rfl
  | _ :: _, [], _ => rfl
  | x :: xs, y :: ys, h => by
      rw [alike, alike_eq_false fun hlength => h (congrArg (· + 1) hlength), Bool.and_false]

end Element

open Element

namespace Cursor

variable {α : Type} [Element α] {e : End} {lost lost' : Nat} {cursor other : Cursor α}
  {xs ys : List α}

theorem Yields.seekWithin (h : Yields e lost cursor xs) (value : α) {n : Nat}
    (hn : xs.length ≤ n) :
    ∃ after : Option Nat → Cursor α,
      cursor.seekWithin e value n
          = (search value xs).bind (fun steps => .answer (steps, after steps))
        ∧ Yields e lost (after none) []
        ∧ ∀ i, Yields e lost (after (some i)) (xs.drop (i + 1)) := by
  induction xs generalizing cursor n with
  | nil =>
      refine ⟨fun _ => cursor, ?_, h, fun _ => h⟩
      cases n with
      | zero => rfl
      | succ n =>
          rw [Cursor.seekWithin, h.next_nil]
          rfl
  | cons x xs ih =>
      have hpos : 0 < n := by
        rw [List.length_cons] at hn
        omega
      obtain ⟨n, rfl⟩ := Nat.exists_eq_add_one.mpr hpos
      obtain ⟨cursor', hnext, hyields⟩ := h.next_cons
      obtain ⟨after, hseek, hnone, hsome⟩ := ih hyields (Nat.le_of_succ_le_succ hn)
      refine ⟨fun
        | none => after none
        | some 0 => cursor'
        | some (i + 1) => after (some i), ?_, hnone, ?_⟩
      · rw [Cursor.seekWithin, hnext, search]
        simp only [Traced.ofExcept_ok, Traced.bind_eq, Traced.pure_eq, Traced.answer_bind,
          Traced.bind_assoc, hseek]
        congr 1
        funext answer
        cases answer with
        | true => rfl
        | false =>
            simp only [Bool.false_eq_true, if_false, Traced.bind_assoc, Traced.answer_bind]
            congr 1
            funext steps
            cases steps <;> rfl
      · intro i
        cases i with
        | zero => exact hyields
        | succ i => exact hsome i

theorem Yields.seek (h : Yields e lost cursor xs) (value : α) :
    ∃ after : Option Nat → Cursor α,
      cursor.seek e value = (search value xs).bind (fun steps => .answer (steps, after steps))
        ∧ Yields e lost (after none) []
        ∧ ∀ i, Yields e lost (after (some i)) (xs.drop (i + 1)) :=
  h.seekWithin value (h.remaining ▸ Nat.le_add_right xs.length lost)

theorem Yields.agreesWithin {n : Nat} (h : Yields .head lost cursor xs)
    (h' : Yields .head lost' other ys) (hn : xs.length ≤ n) :
    cursor.agreesWithin n other = agree xs ys := by
  induction xs generalizing cursor other ys n with
  | nil =>
      obtain ⟨other', hnext, -⟩ := h'.next
      cases n with
      | zero =>
          rw [Cursor.agreesWithin, hnext]
          cases ys <;> rfl
      | succ n =>
          rw [Cursor.agreesWithin, h.next_nil, hnext]
          cases ys <;> rfl
  | cons x xs ih =>
      have hpos : 0 < n := by
        rw [List.length_cons] at hn
        omega
      obtain ⟨n, rfl⟩ := Nat.exists_eq_add_one.mpr hpos
      obtain ⟨cursor', hnext, hyields⟩ := h.next_cons
      obtain ⟨other', hnext', hyields'⟩ := h'.next
      rw [Cursor.agreesWithin, hnext, hnext']
      cases ys with
      | nil => rfl
      | cons y ys =>
          have hrest := ih hyields hyields' (Nat.le_of_succ_le_succ hn)
          simp only [Traced.ofExcept_ok, Traced.bind_eq, Traced.pure_eq, Traced.answer_bind,
            List.head?_cons, hrest, List.tail_cons]
          rfl

theorem Yields.agrees (h : Yields .head lost cursor xs) (h' : Yields .head lost' other ys) :
    cursor.agrees other = agree xs ys :=
  h.agreesWithin h' (h.remaining ▸ Nat.le_add_right xs.length lost)

end Cursor

end LinkedPool
