import LinkedPool.Proofs.LinkedList.Footprint

/-!
# Elements stay in their slots

An element is in the slot that it was put in until it is dropped: after an
operation it is there, or its slot is vacant and the operation dropped it
(`Holds.stays`). This is so of a list that has lost its links as well, and
when a panic ends the operation.
-/

namespace LinkedPool.LinkedList

open Cells Element

variable {α : Type} {e : End} {list list' : LinkedList α} {cells front back gone : Cells α}
  {slots more free free' : List Slot} {slot other : Slot} {x y : α} {content : Content α}

/-- The element `x` is in `slot`. -/
def Houses (list : LinkedList α) (slot : Slot) (x : α) : Prop :=
  (list.nodes.get? slot).map Node.element = some x

instance [DecidableEq α] (list : LinkedList α) (slot : Slot) (x : α) :
    Decidable (list.Houses slot x) :=
  inferInstanceAs (Decidable (_ = _))

theorem houses_iff_exists :
    list.Houses slot x ↔ ∃ node, list.nodes.get? slot = some node ∧ node.element = x :=
  Option.map_eq_some_iff

theorem Houses.mem_stored (h : list.Houses slot x) : x ∈ list.stored := by
  obtain ⟨node, hnode, rfl⟩ := houses_iff_exists.mp h
  rw [stored_eq_filterMap_range, List.mem_filterMap]
  exact ⟨slot, List.mem_range.mpr (Pool.lt_slots_of_get? hnode), h⟩

theorem Grown.houses (hgrown : Grown list list') (h : list.Houses slot x) :
    list'.Houses slot x := by
  obtain ⟨capacity, -, rfl⟩ := hgrown
  exact h

theorem Linked.houses_iff (h : Linked e list cells free) :
    list.Houses slot x ↔ (slot, x) ∈ cells := by
  rw [houses_iff_exists]
  constructor
  · rintro ⟨node, hnode, rfl⟩
    have hslot : slot ∈ cells.slots := by
      by_contra hslot
      rw [h.get?_eq_none hslot] at hnode
      cases hnode
    obtain ⟨⟨slot, y⟩, hmem, rfl⟩ := List.mem_map.mp hslot
    obtain ⟨front, back, hsplit⟩ := List.append_of_mem hmem
    obtain rfl := Option.some.inj ((h.node front slot y back hsplit).symm.trans hnode)
    rwa [Node.element_between]
  · intro hmem
    obtain ⟨front, back, hsplit⟩ := List.append_of_mem hmem
    exact ⟨_, h.node front slot x back hsplit, Node.element_between ..⟩

theorem Extended.houses (hextended : Extended e list slots more list') (hslot : slot ∈ slots)
    (h : list.Houses slot x) : list'.Houses slot x := by
  obtain ⟨node, hnode, rfl⟩ := houses_iff_exists.mp h
  rw [Houses, hextended.kept slot hslot, hnode, Option.map_some, Option.map_some]
  split
  · rw [Node.element_setOutward]
  · rfl

/-- After a call on the list, the element is in its slot, or the slot is
vacant and the call has dropped the element. -/
def Stays {ρ : Type} (slot : Slot) (x : α) (outcome : Outcome α (LinkedList α) ρ) : Prop :=
  outcome.state.Houses slot x
    ∨ outcome.state.nodes.get? slot = none ∧ .dropped x ∈ outcome.trace

theorem stays_of_state {ρ : Type} {outcome : Outcome α (LinkedList α) ρ}
    (hstate : outcome.state = list) (h : list.Houses slot x) : Stays slot x outcome :=
  .inl (hstate ▸ h)

variable [Element α]

theorem Linked.delete_stays (h : Linked e list cells free) (hx : (slot, x) ∈ cells) (value : α) :
    Stays slot x (list.delete e value) := by
  rcases h.delete_cases value with
    ⟨front, other, y, back, list', rfl, hdenied, hsame, -⟩ | ⟨-, hdelete⟩ |
    ⟨front, other, y, back, panic, -, -, -, hdelete⟩
  · obtain ⟨list', hdelete, hlinked, -⟩ := h.delete_of_denied hdenied hsame
    rw [hdelete]
    rcases List.mem_append.mp hx with hfront | hrest
    · exact .inl (hlinked.houses_iff.mpr (List.mem_append_left _ hfront))
    rcases List.mem_cons.mp hrest with hcell | hback
    · -- It is the element that was found.
      obtain ⟨rfl, rfl⟩ := Prod.mk.inj hcell
      obtain ⟨hfront, hback, -, -⟩ := h.apart
      refine .inr ⟨hlinked.get?_eq_none ?_, by simp⟩
      rw [slots_append, List.mem_append]
      exact fun hmem => hmem.elim hfront hback
    · exact .inl (hlinked.houses_iff.mpr (List.mem_append_right _ hback))
  · rw [hdelete]
    exact .inl (h.houses_iff.mpr hx)
  · rw [hdelete]
    exact .inl (h.houses_iff.mpr hx)

theorem Linked.clear_stays (h : Linked .head list cells free) (hx : (slot, x) ∈ cells) :
    Stays slot x list.clear := by
  have hdropped {xs : List α} (hmem : x ∈ xs) : Event.dropped x ∈ departures xs :=
    List.mem_map.mpr ⟨x, hmem, rfl⟩
  rcases h.clear_cases with
    ⟨-, hclear⟩ | ⟨front, other, y, back, panic, nodes', rfl, -, -, hreleased, hclear⟩
  · rw [hclear]
    exact .inr ⟨Pool.get?_eq_none_of_le (Nat.zero_le _),
      List.mem_append_left _ (hdropped (List.mem_map.mpr ⟨_, hx, rfl⟩))⟩
  · rw [hclear]
    rw [← List.singleton_append, ← List.append_assoc] at h hx
    rcases List.mem_append.mp hx with hgone | hleft
    · have hslot : slot ∈ slots (front ++ [(other, y)]) := List.mem_map.mpr ⟨_, hgone, rfl⟩
      have hmem : x ∈ elements (front ++ [(other, y)]) := List.mem_map.mpr ⟨_, hgone, rfl⟩
      rw [elements_append] at hmem
      refine .inr ⟨?_, hdropped hmem⟩
      show nodes'.get? slot = none
      rw [hreleased.view, if_pos hslot]
    · -- The walk did not come to it.
      have hdistinct := h.distinct
      rw [slots_append, List.nodup_append] at hdistinct
      have hslot : slot ∉ slots (front ++ [(other, y)]) := fun hgone =>
        hdistinct.2.2 slot hgone slot (List.mem_map.mpr ⟨_, hleft, rfl⟩) rfl
      refine .inl ?_
      show (nodes'.get? slot).map Node.element = some x
      rw [hreleased.view, if_neg hslot]
      exact h.houses_iff.mpr hx

/-- An element stays in its slot until it is dropped, whatever is asked of its list. -/
theorem Holds.stays (h : list.Holds content) (hx : list.Houses slot x) (operation : Operation α) :
    Stays slot x (list.perform operation) := by
  cases content with
  | detached xs =>
      obtain ⟨free, hvalid⟩ := h.valid
      obtain ⟨list', hperform, hgrown, -⟩ := h.1.perform hvalid operation
      rw [hperform]
      exact .inl (hgrown.houses hx)
  | linked xs =>
      obtain ⟨cells, free, hlinked, -⟩ := h
      have hmem := hlinked.houses_iff.mp hx
      have hslot : slot ∈ cells.slots := List.mem_map.mpr ⟨_, hmem, rfl⟩
      have hgrown (hinspects : operation.Inspects) : Stays slot x (list.perform operation) :=
        .inl ((inspect_grown hlinked.valid operation hinspects).houses hx)
      cases operation with
      | append memory e y =>
          rcases hlinked.append_extended memory e y with hdeclines | ⟨capacity, -, hextended, -⟩
          · exact stays_of_state hdeclines.unchanged hx
          · exact stays_of_state rfl (hextended.houses hslot hx)
      | tryAppend memory e y =>
          rcases hlinked.append_extended memory e y with
            hdeclines | ⟨capacity, htakes, hextended, -⟩
          · exact stays_of_state hdeclines.unchanged' hx
          · exact stays_of_state htakes.appended.symm (hextended.houses hslot hx)
      | delete e value =>
          have hdelete : Stays slot x (list.delete e value) := by
            cases e with
            | head => exact hlinked.delete_stays hmem value
            | tail => exact hlinked.flip.delete_stays (List.mem_reverse.mpr hmem) value
          exact hdelete
      | clear => exact hlinked.clear_stays hmem
      | extend memory source =>
          obtain ⟨n, hextended⟩ := hlinked.flip.extend_extended memory source
          rw [slots_reverse, List.reverse_reverse] at hextended
          exact stays_of_state rfl (hextended.houses hslot hx)
      | _ => exact hgrown trivial

end LinkedPool.LinkedList
