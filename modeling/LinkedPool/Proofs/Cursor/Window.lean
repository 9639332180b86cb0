import LinkedPool.LinkedList.Search
import LinkedPool.Proofs.LinkedList.Content

/-!
# What a cursor yields

A cursor on a list spans a window of its cells, and what was taken
from either end of the window is out of it (`Spans`). A cursor on a detached
list is stuck: it has no ends, and yields nothing. `Yields` covers both; the
elements that remain but are never come to are `lost`. What a cursor yields
from one end is what it yields from the other, the other way round
(`Yields.flip`), so that the steps are studied from one end only.
-/

namespace LinkedPool.Cursor

open Cells LinkedList Element

variable {α : Type} {e : End} {cursor other : Cursor α} {list : LinkedList α}
  {content : Content α} {lost : Nat} {x : α} {xs ys : List α}

/-- From the end `e`, the cursor is before `xs`, the elements of
neighbouring cells of a list. -/
def Spans (e : End) (cursor : Cursor α) (xs : List α) : Prop :=
  ∃ front window back : Cells α,
    Laid e cursor.nodes (front ++ window ++ back)
      ∧ cursor.remaining = window.length ∧ window.elements = xs
      ∧ (window ≠ [] → cursor.slotAt e = firstSlot window
        ∧ cursor.slotAt e.opposite = lastSlot window)

/-- From the end `e`, the cursor yields `xs`, and then nothing; it counts
`lost` more elements than these. -/
def Yields (e : End) (lost : Nat) (cursor : Cursor α) (xs : List α) : Prop :=
  (lost = 0 ∧ Spans e cursor xs)
    ∨ (xs = [] ∧ cursor.remaining = lost ∧ ∀ end', cursor.slotAt end' = none)

/-! ## From either end -/

theorem Spans.flip (h : Spans e cursor xs) : Spans e.opposite cursor xs.reverse := by
  obtain ⟨front, window, back, hlaid, hremaining, rfl, hends⟩ := h
  have hflip := hlaid.flip
  rw [List.reverse_append, List.reverse_append, ← List.append_assoc] at hflip
  refine ⟨back.reverse, window.reverse, front.reverse, hflip, ?_, elements_reverse window, ?_⟩
  · rw [hremaining, List.length_reverse]
  · intro hwindow
    obtain ⟨hnear, hfar⟩ := hends fun hnil => hwindow (by rw [hnil, List.reverse_nil])
    rw [End.opposite_opposite, firstSlot_reverse, lastSlot_reverse]
    exact ⟨hfar, hnear⟩

theorem Yields.flip (h : Yields e lost cursor xs) :
    Yields e.opposite lost cursor xs.reverse := by
  rcases h with ⟨hlost, hspans⟩ | ⟨rfl, hstuck⟩
  · exact .inl ⟨hlost, hspans.flip⟩
  · exact .inr ⟨rfl, hstuck⟩

/-- A cursor is the same whichever end it is looked at from. -/
theorem yields_listed : Yields e lost cursor (e.listed xs) ↔ Yields .head lost cursor xs := by
  cases e with
  | head => exact .rfl
  | tail =>
      refine ⟨?_, fun h => h.flip⟩
      intro h
      have := h.flip
      rwa [show End.tail.listed xs = xs.reverse from rfl, List.reverse_reverse] at this

theorem Yields.remaining (h : Yields e lost cursor xs) : cursor.remaining = xs.length + lost := by
  rcases h with ⟨rfl, front, window, back, -, hremaining, rfl, -⟩ | ⟨rfl, hlost, -⟩
  · rw [hremaining, elements, List.length_map, Nat.add_zero]
  · rw [hlost, List.length_nil, Nat.zero_add]

/-! ## One step -/

theorem Yields.next_nil (h : Yields e lost cursor []) : cursor.next e = .ok (none, cursor) := by
  rw [next]
  split
  · rfl
  · rename_i hremaining
    rcases h with hspans | ⟨-, -, hstuck⟩
    · exact absurd (Yields.remaining (.inl hspans)) (by rw [hspans.1]; exact hremaining)
    · rw [hstuck e]

theorem Spans.next_cons (h : Spans e cursor (x :: xs)) :
    ∃ cursor', cursor.next e = .ok (some x, cursor') ∧ Spans e cursor' xs := by
  obtain ⟨front, window, back, hlaid, hremaining, hwindow, hends⟩ := h
  obtain ⟨⟨slot, x⟩, window, rfl, rfl, rfl⟩ := List.map_eq_cons_iff.mp hwindow
  obtain ⟨hnear, hfar⟩ := hends (List.cons_ne_nil _ _)
  rw [List.append_assoc, List.cons_append] at hlaid
  have hnode := hlaid front slot x (window ++ back) rfl
  refine ⟨{ cursor.toEnds.set e (firstSlot (window ++ back)) with
    nodes := cursor.nodes, remaining := window.length }, ?_, ?_⟩
  · have hsome : ¬cursor.remaining = 0 := by
      rw [hremaining]
      exact Nat.succ_ne_zero window.length
    have hminus : Count.minus cursor.remaining 1 = .ok window.length := by
      rw [hremaining]
      exact Count.minus_of_le (Nat.le_add_left 1 window.length)
    rw [next, if_neg hsome, hnear]
    simp only [firstSlot_cons, Pool.get_of_get? hnode, hminus, bind, Except.bind,
      Node.inward_between, Node.element_between]
    rfl
  · rw [← List.singleton_append, ← List.append_assoc, ← List.append_assoc] at hlaid
    refine ⟨front ++ [(slot, x)], window, back, hlaid, rfl, rfl, ?_⟩
    intro hwindow'
    cases window with
    | nil => exact absurd rfl hwindow'
    | cons cell window =>
        rw [lastSlot_cons_cons] at hfar
        exact ⟨Ends.slotAt_set_self .., (Ends.slotAt_set_opposite ..).trans hfar⟩

theorem Yields.next_cons (h : Yields e lost cursor (x :: xs)) :
    ∃ cursor', cursor.next e = .ok (some x, cursor') ∧ Yields e lost cursor' xs := by
  rcases h with ⟨hlost, hspans⟩ | ⟨hnil, -⟩
  · obtain ⟨cursor', hnext, hspans'⟩ := hspans.next_cons
    exact ⟨cursor', hnext, .inl ⟨hlost, hspans'⟩⟩
  · cases hnil

theorem Yields.next (h : Yields e lost cursor xs) :
    ∃ cursor', cursor.next e = .ok (xs.head?, cursor') ∧ Yields e lost cursor' xs.tail := by
  cases xs with
  | nil => exact ⟨cursor, h.next_nil, h⟩
  | cons x xs => exact h.next_cons

/-! ## Several steps -/

theorem Yields.nth (h : Yields e lost cursor xs) (k : Nat) :
    ∃ cursor', cursor.nth e k = .ok (xs[k]?, cursor')
      ∧ Yields e lost cursor' (xs.drop (k + 1)) := by
  induction k generalizing cursor xs with
  | zero =>
      obtain ⟨cursor', hnext, hyields⟩ := h.next
      rw [List.head?_eq_getElem?] at hnext
      rw [← List.drop_one] at hyields
      exact ⟨cursor', hnext, hyields⟩
  | succ k ih =>
      cases xs with
      | nil =>
          refine ⟨cursor, ?_, h⟩
          rw [Cursor.nth, h.next_nil]
          rfl
      | cons x xs =>
          obtain ⟨cursor₁, hnext, hyields₁⟩ := h.next_cons
          obtain ⟨cursor', hnth, hyields⟩ := ih hyields₁
          refine ⟨cursor', ?_, hyields⟩
          rw [Cursor.nth, hnext]
          exact hnth

theorem Yields.upTo {n : Nat} (h : Yields e lost cursor xs) (hn : xs.length ≤ n) :
    cursor.upTo e n = .ok xs := by
  induction n generalizing cursor xs with
  | zero =>
      rw [List.length_eq_zero_iff.mp (Nat.le_zero.mp hn)]
      rfl
  | succ n ih =>
      cases xs with
      | nil =>
          rw [Cursor.upTo, h.next_nil]
          rfl
      | cons x xs =>
          obtain ⟨cursor', hnext, hyields⟩ := h.next_cons
          have hrest := ih hyields (Nat.le_of_succ_le_succ hn)
          rw [Cursor.upTo, hnext]
          simp only [bind, Except.bind, hrest]
          rfl

theorem Yields.rest (h : Yields e lost cursor xs) : cursor.rest e = .ok xs :=
  h.upTo (h.remaining ▸ Nat.le_add_right xs.length lost)

end LinkedPool.Cursor
