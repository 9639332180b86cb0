import LinkedPool.Proofs.Element.Search
import LinkedPool.Proofs.LinkedList.Append
import LinkedPool.Proofs.LinkedList.Unlink

/-!
# Deleting from a linked list

The walk that looks for a value asks the elements of a linked list in order
(`Linked.locate`). So a deletion ends as the search among them does
(`Linked.delete_cases`): the first element that says yes is taken out and
dropped, or none does and the list stays as it is, or a comparison panics
and the list stays as it is. Of a detached list nothing is asked.
-/

namespace LinkedPool.LinkedList

open Cells Element

variable {α : Type} {e : End} {list list' : LinkedList α} {cells front back : Cells α}
  {free : List Slot} {slot : Slot} {x : α} [Element α]

/-! ## Looking for the node -/

theorem Linked.locateWithin (h : Linked e list cells free) (value : α) {fuel : Nat}
    {front back : Cells α} (hsplit : cells = front ++ back) (hfuel : back.length ≤ fuel) :
    locateWithin list.nodes e value fuel (firstSlot back)
      = (search value back.elements).bind fun steps =>
          .answer (steps.bind fun i => back.slots[i]?) := by
  induction back generalizing front fuel with
  | nil => cases fuel <;> rfl
  | cons cell back ih =>
      obtain ⟨slot, x⟩ := cell
      have hpos : 0 < fuel := by
        rw [List.length_cons] at hfuel
        omega
      obtain ⟨fuel, rfl⟩ := Nat.exists_eq_add_one.mpr hpos
      have hrest : cells = (front ++ [(slot, x)]) ++ back := by
        rw [hsplit, List.append_assoc, List.singleton_append]
      have hnode := Pool.get_of_get? (h.node front slot x back hsplit)
      rw [firstSlot_cons, LinkedList.locateWithin, hnode]
      simp only [Traced.ofExcept_ok, Traced.bind_eq, Traced.answer_bind, Node.element_between,
        Node.inward_between, ih hrest (Nat.le_of_succ_le_succ hfuel), elements, List.map_cons,
        search, Traced.bind_assoc]
      congr 1
      funext same
      cases same with
      | true => rfl
      | false =>
          simp only [Bool.false_eq_true, if_false, Traced.bind_assoc, Traced.answer_bind]
          congr 1
          funext steps
          cases steps <;> rfl

omit [Element α] in
theorem Linked.length_le_slots (h : Linked e list cells free) :
    cells.length ≤ list.nodes.slots :=
  h.count ▸ h.valid.len_le_slots

theorem Linked.locate (h : Linked e list cells free) (value : α) :
    list.locate e value
      = (search value cells.elements).bind fun steps =>
          .answer (steps.bind fun i => cells.slots[i]?) := by
  rw [LinkedList.locate, h.near]
  exact h.locateWithin value (List.nil_append cells).symm
    (h.length_le_slots.trans (Nat.le_succ _))

theorem Detached.locate (h : list.Detached) (e : End) (value : α) :
    list.locate e value = .answer none := by
  rw [LinkedList.locate, h.slotAt e]
  rfl

/-! ## Taking it out -/

/-- The line logged when the node in `slot` is taken out. -/
def removalLine (e : End) (outward : Option Slot) (slot : Slot) (inward : Option Slot)
    (x : α) : LogLine :=
  .removed slot (Node.between e outward inward x).prev (Node.between e outward inward x).next

theorem Linked.remove_fromHead (h : Linked .head list (front ++ (slot, x) :: back) free) :
    ∃ list', list.remove slot
        = ((Element.discard x).leaving list').after
            [.logged (removalLine .head (lastSlot front) slot (firstSlot back) x)]
      ∧ Linked .head list' (front ++ back) (slot :: free)
      ∧ list'.nodes.slots = list.nodes.slots ∧ list'.nodes.capacity = list.nodes.capacity := by
  obtain ⟨unlinked, nodes, hunlink, hrelease, hslots, hcapacity, hlinked⟩ := h.unlink_release
  refine ⟨_, ?_, hlinked, hslots, hcapacity⟩
  rw [LinkedList.remove, hunlink]
  simp only [Traced.log, Traced.leaving_mk, Outcome.bind_ok, hrelease]
  rfl

theorem Linked.remove (h : Linked e list (front ++ (slot, x) :: back) free) :
    ∃ list', list.remove slot
        = ((Element.discard x).leaving list').after
            [.logged (removalLine e (lastSlot front) slot (firstSlot back) x)]
      ∧ Linked e list' (front ++ back) (slot :: free)
      ∧ list'.nodes.slots = list.nodes.slots ∧ list'.nodes.capacity = list.nodes.capacity := by
  cases e with
  | head => exact h.remove_fromHead
  | tail =>
      have hflip := h.flip
      simp only [List.reverse_append, List.reverse_cons, List.append_assoc,
        List.singleton_append] at hflip
      obtain ⟨list', hremove, hlinked, hslots⟩ := Linked.remove_fromHead hflip
      refine ⟨list', ?_, ?_, hslots⟩
      · rw [hremove, lastSlot_reverse, firstSlot_reverse]
        rfl
      · rw [← List.reverse_append] at hlinked
        exact linked_flip_iff.mpr hlinked

/-! ## Deleting by value -/

omit [Element α] in
/-- An element that a search stops at is the element of some cell. -/
theorem split_of_elements {front back : List α} (h : cells.elements = front ++ x :: back) :
    ∃ (before : Cells α) (slot : Slot) (behind : Cells α),
      cells = before ++ (slot, x) :: behind ∧ before.elements = front := by
  obtain ⟨before, rest, rfl, hbefore, hrest⟩ := List.map_eq_append_iff.mp h
  obtain ⟨⟨slot, y⟩, behind, rfl, rfl, -⟩ := List.map_eq_cons_iff.mp hrest
  exact ⟨before, slot, behind, rfl, hbefore⟩

theorem Linked.delete_cases (h : Linked e list cells free) (value : α) :
    (∃ (front : Cells α) (slot : Slot) (x : α) (back : Cells α) (list' : LinkedList α),
        cells = front ++ (slot, x) :: back
        ∧ Denied value front.elements ∧ equal x value = .ok true
        ∧ list.delete e value
          = (((Element.discard x).leaving list').map fun _ => true).after
              (asked value (front.elements ++ [x])
                ++ [.logged (removalLine e (lastSlot front) slot (firstSlot back) x)])
        ∧ Linked e list' (front ++ back) (slot :: free)
        ∧ list'.nodes.slots = list.nodes.slots ∧ list'.nodes.capacity = list.nodes.capacity)
      ∨ (Denied value cells.elements
        ∧ list.delete e value = ⟨⟨.ok false, asked value cells.elements⟩, list⟩)
      ∨ ∃ (front : Cells α) (slot : Slot) (x : α) (back : Cells α) (panic : Panic),
        cells = front ++ (slot, x) :: back
        ∧ Denied value front.elements ∧ equal x value = .error panic
        ∧ list.delete e value
          = ⟨⟨.error panic, asked value (front.elements ++ [x])⟩, list⟩ := by
  rw [LinkedList.delete, h.locate value]
  generalize hcall : search value cells.elements = call
  have hsearch : Searched value cells.elements call := hcall ▸ searched value cells.elements
  cases hsearch with
  | found before x behind split denied same =>
      obtain ⟨front, slot, back, rfl, rfl⟩ := split_of_elements split
      obtain ⟨list', hremove, hlinked, hcapacity⟩ := h.remove
      refine .inl ⟨front, slot, x, back, list', rfl, denied, same, ?_, hlinked, hcapacity⟩
      have hslot : (slots (front ++ (slot, x) :: back))[front.elements.length]? = some slot := by
        simp [slots, elements]
      simp only [Traced.bind_ok, Option.bind_some, hslot, Traced.answer, Traced.after_mk,
        Traced.leaving_mk, Outcome.bind_ok, hremove, List.append_nil]
      rcases discard_cases x with ⟨-, hdrop⟩ | ⟨panic, -, hdrop⟩ <;> rw [hdrop] <;> simp
  | absent denied => exact .inr (.inl ⟨denied, by simp [Traced.answer]⟩)
  | panicked before x behind panic split denied same =>
      obtain ⟨front, slot, back, rfl, rfl⟩ := split_of_elements split
      exact .inr (.inr ⟨front, slot, x, back, panic, rfl, denied, same, rfl⟩)

theorem Detached.delete (h : list.Detached) (e : End) (value : α) :
    list.delete e value = ⟨⟨.ok false, []⟩, list⟩ := by
  rw [LinkedList.delete, h.locate]
  rfl

end LinkedPool.LinkedList
