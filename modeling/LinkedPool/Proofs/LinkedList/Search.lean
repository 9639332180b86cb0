import LinkedPool.Cursor.Script
import LinkedPool.LinkedList.Extend
import LinkedPool.Proofs.Cursor.Search

/-!
# Looking at the content of a list

What a list answers when it is looked at, from its content alone: its ends,
its elements from either end, the position of an element, and whether it
equals another list. A list that is detached has its length and nothing
else to show.
-/

namespace LinkedPool

open Cells Element

def Content.lost {α : Type} : Content α → Nat
  | .linked _ => 0
  | .detached xs => xs.length

theorem End.position_eq {len steps : Nat} (e : End) (h : steps < len) :
    e.position len steps = .ok (Cursor.stepsFromFront e len steps) := by
  cases e with
  | head => rfl
  | tail =>
      have hlen : 1 ≤ len := Nat.lt_of_le_of_lt (Nat.zero_le steps) h
      have hsteps : steps ≤ len - 1 := Nat.le_sub_one_of_lt h
      simp only [End.position, Count.minus_of_le hlen, bind, Except.bind, Count.minus_of_le hsteps]
      rfl

namespace LinkedList

variable {α : Type} {e : End} {list other : LinkedList α} {content content' : Content α}
  {xs ys : List α}

theorem Holds.len (h : list.Holds content) : list.len = content.elements.length := by
  obtain ⟨free, hvalid⟩ := h.valid
  rw [← h.stored_perm.length_eq, stored, List.length_map]
  exact hvalid.count

theorem Holds.yields (h : list.Holds content) (e : End) :
    Cursor.Yields e content.lost list.cursor (e.listed content.reached) := by
  cases content with
  | linked xs =>
      obtain ⟨cells, free, hlinked, hcells⟩ := h.linked_from e
      refine .inl ⟨rfl, [], cells, [], ?_, hlinked.count, hcells, fun _ =>
        ⟨hlinked.near, hlinked.far⟩⟩
      rw [List.nil_append, List.append_nil]
      exact hlinked.node
  | detached xs =>
      refine .inr ⟨?_, h.len, h.1.slotAt⟩
      cases e <;> rfl

theorem Holds.contents (h : list.Holds content) (e : End) :
    list.contents e = .ok (e.listed content.reached) :=
  (h.yields e).rest

theorem Holds.copies (h : list.Holds content) (e : End) :
    Source.copies e list = .ok ⟨list.len, (e.listed content.reached).map .copy⟩ := by
  rw [Source.copies, h.contents e]
  rfl

theorem Holds.outermost? (h : list.Holds content) (e : End) :
    list.outermost? e = .ok (e.listed content.reached).head? := by
  cases content with
  | linked xs =>
      obtain ⟨cells, free, hlinked, hcells⟩ := h.linked_from e
      rw [LinkedList.outermost?, hlinked.near, Content.reached, ← hcells]
      cases cells with
      | nil => rfl
      | cons cell cells =>
          have hnode := Pool.get_of_get? (hlinked.node [] cell.1 cell.2 cells rfl)
          simp only [firstSlot_cons, hnode, bind, Except.bind, Node.element_between]
          rfl
  | detached xs =>
      rw [LinkedList.outermost?, h.1.slotAt e]
      cases e <;> rfl

theorem Holds.isEmpty (h : list.Holds content) : list.isEmpty = content.reached.isEmpty := by
  cases content with
  | linked xs =>
      obtain ⟨cells, free, hlinked, rfl⟩ := h
      rw [LinkedList.isEmpty, show list.head = firstSlot cells from hlinked.near]
      cases cells <;> rfl
  | detached xs =>
      rw [LinkedList.isEmpty, h.1.head]
      rfl

variable [Element α]

theorem Holds.find_eq (h : list.Holds content) (e : End) (value : α) :
    list.find e value
      = (search value (e.listed content.reached)).bind fun
          | none => .answer list.len
          | some steps => .ofExcept (e.position list.len steps) := by
  obtain ⟨after, hseek, -⟩ := (h.yields e).seek value
  rw [LinkedList.find, Traced.bind_eq, hseek, Traced.bind_assoc]
  rfl

/-- A search of the list answers with the position of the first element,
from its end, that says yes, or with the length of the list. -/
theorem Holds.find (h : list.Holds content) (e : End) (value : α) :
    Inquiry (fun position =>
        position = (((e.listed content.reached).findIdx? (same · value)).map
          (Cursor.stepsFromFront e list.len)).getD list.len)
      (list.find e value) := by
  rw [h.find_eq]
  refine (inquiry_search value _).bind ?_
  intro steps hsteps
  cases steps with
  | none => exact inquiry_answer (by rw [← hsteps]; rfl)
  | some steps =>
      have hlt : steps < list.len := by
        have hreached : content.reached.length ≤ content.elements.length := by
          cases content with
          | linked xs => exact Nat.le_refl _
          | detached xs => exact Nat.zero_le _
        obtain ⟨hsteps, -⟩ := List.findIdx?_eq_some_iff_getElem.mp hsteps.symm
        rw [End.length_listed] at hsteps
        rw [h.len]
        omega
      simp only [End.position_eq e hlt, Traced.ofExcept_ok]
      exact inquiry_answer (by rw [← hsteps]; rfl)

theorem Holds.equals (h : list.Holds content) (h' : other.Holds content') :
    list.equals other
      = if content.elements.length = content'.elements.length
          then agree content.reached content'.reached
          else .answer false := by
  rw [LinkedList.equals, h.len, h'.len, (h.yields .head).agrees (h'.yields .head)]
  rfl

end LinkedList

end LinkedPool
