import LinkedPool.Proofs.Element.Comparison
import LinkedPool.Proofs.LinkedList.Congruence

/-!
# Comparing lists

Two lists of different lengths are told apart at sight. Otherwise the elements
that they show are compared pair by pair, those on the left being asked
(`Holds.equals_agreed`), whatever equality of elements is. A detached list
shows none; so it equals the detached lists of its length, and no other list
(`Holds.detached_equals`, `Holds.detached_equals_linked`).

`Comparison` gathers what comparing two lists comes to.
-/

namespace LinkedPool.LinkedList

open Element

variable {α : Type} [Element α] {list other : LinkedList α} {content content' : Content α}
  {xs ys : List α}

theorem equals_of_len_ne (h : list.len ≠ other.len) : list.equals other = .answer false :=
  if_neg h

theorem Holds.equals_of_len_eq (h : list.Holds content) (h' : other.Holds content')
    (hlen : list.len = other.len) :
    list.equals other = agree content.reached content'.reached := by
  rw [h.len, h'.len] at hlen
  rw [h.equals h', if_pos hlen]

theorem Holds.equals_agreed (h : list.Holds content) (h' : other.Holds content')
    (hlen : list.len = other.len) :
    Agreed content.reached content'.reached (list.equals other) := by
  rw [h.equals_of_len_eq h' hlen]
  exact agreed _ _

theorem Holds.equals_ok_true_iff (h : list.Holds content) (h' : other.Holds content') :
    (list.equals other).result = .ok true
      ↔ list.len = other.len ∧ List.Forall₂ Same content.reached content'.reached := by
  by_cases hlen : list.len = other.len
  · exact (h.equals_agreed h' hlen).ok_true_iff.trans (and_iff_right hlen).symm
  · rw [equals_of_len_ne hlen]
    exact ⟨nofun, fun hboth => absurd hboth.1 hlen⟩

theorem Holds.equals_error_iff {panic : Panic} (h : list.Holds content)
    (h' : other.Holds content') :
    (list.equals other).result = .error panic
      ↔ list.len = other.len ∧ ∃ front x y back,
        content.reached.zip content'.reached = front ++ (x, y) :: back ∧ Matching front
          ∧ equal x y = .error panic := by
  by_cases hlen : list.len = other.len
  · rw [h.equals_of_len_eq h' hlen, agree_error_iff, and_iff_right hlen]
  · rw [equals_of_len_ne hlen]
    exact ⟨nofun, fun hboth => absurd hboth.1 hlen⟩

/-- A linked list equals itself just if all its elements do. -/
theorem Holds.equals_self_iff (h : list.Holds content) :
    (list.equals list).result = .ok true ↔ ∀ x ∈ content.reached, Same x x := by
  rw [h.equals_ok_true_iff h, and_iff_right rfl, List.forall₂_same]

theorem Holds.detached_equals (h : list.Holds (.detached xs)) (h' : other.Holds (.detached ys)) :
    list.equals other = .answer (decide (list.len = other.len)) := by
  by_cases hlen : list.len = other.len
  · rw [h.equals_of_len_eq h' hlen, decide_eq_true hlen]
    rfl
  · rw [equals_of_len_ne hlen, decide_eq_false hlen]

/-- A detached list counts elements that it does not show, and a linked list
shows as many as it counts. -/
theorem Holds.detached_equals_linked (h : list.Holds (.detached xs))
    (h' : other.Holds (.linked ys)) :
    list.equals other = .answer false ∧ other.equals list = .answer false := by
  by_cases hlen : list.len = other.len
  · have hlength : xs.length = ys.length := h.len.symm.trans (hlen.trans h'.len)
    obtain ⟨y, ys, rfl⟩ : ∃ y rest, ys = y :: rest :=
      List.exists_cons_of_length_pos (hlength ▸ List.length_pos_of_ne_nil h.ne_nil)
    rw [h.equals_of_len_eq h' hlen, h'.equals_of_len_eq h hlen.symm]
    exact ⟨rfl, rfl⟩
  · exact ⟨equals_of_len_ne hlen, equals_of_len_ne (Ne.symm hlen)⟩

theorem result_differs (list other : LinkedList α) :
    (list.differs other).result = (list.equals other).result.map not := by
  rw [differs, Traced.bind_eq, Traced.bind]
  cases (list.equals other).result with
  | error panic => rfl
  | ok answer => rfl

/-- What comparing two lists comes to that show `xs` and `ys`. -/
structure Comparison (list other : LinkedList α) (xs ys : List α) : Prop where
  /-- Lists of different lengths are not looked into. -/
  of_len_ne : list.len ≠ other.len → list.equals other = .answer false
  /-- Otherwise the elements on the left are asked, up to the first that
  does not say yes. -/
  of_len_eq : list.len = other.len → Agreed xs ys (list.equals other)
  ok_true_iff : (list.equals other).result = .ok true
    ↔ xs.length = ys.length ∧ list.len = other.len ∧ Matching (xs.zip ys)
  differs : (list.differs other).result = (list.equals other).result.map not
    ∧ (list.differs other).trace = (list.equals other).trace
  detached : list.Detached → other.Detached →
    list.equals other = .answer (decide (list.len = other.len))
  apart : ∀ slots, list.Detached → other.Healthy slots →
    list.equals other = .answer false ∧ other.equals list = .answer false

theorem Holds.comparison (h : list.Holds content) (h' : other.Holds content') :
    Comparison list other content.reached content'.reached where
  of_len_ne := equals_of_len_ne
  of_len_eq := h.equals_agreed h'
  ok_true_iff := by
    rw [h.equals_ok_true_iff h', List.forall₂_iff_zip]
    refine ⟨?_, ?_⟩
    · rintro ⟨hlen, hlength, hall⟩
      exact ⟨hlength, hlen, fun _ hpair => hall hpair⟩
    · rintro ⟨hlength, hlen, hall⟩
      exact ⟨hlen, hlength, fun hpair => hall _ hpair⟩
  differs := ⟨result_differs list other, trace_differs list other⟩
  detached := by
    intro hlist hother
    rw [h.detached_iff] at hlist
    rw [h'.detached_iff] at hother
    cases content with
    | linked xs => exact hlist.elim
    | detached xs =>
        cases content' with
        | linked ys => exact hother.elim
        | detached ys => exact h.detached_equals h'
  apart := by
    intro slots hlist hother
    obtain ⟨ys, hlinked⟩ := h'.linked_of_not_detached hother.not_detached
    rw [h.detached_iff] at hlist
    cases content with
    | linked xs => exact hlist.elim
    | detached xs => exact h.detached_equals_linked hlinked

end LinkedPool.LinkedList
