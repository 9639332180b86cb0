import Mathlib.Data.List.Perm.Subperm
import LinkedPool.Proofs.LinkedList.Clear

/-!
# What a list holds

All that an operation on a list depends on, its storage apart, is the
`Content` of the list: a sequence of elements if the list is linked, and
some elements in no order if it is detached. `Holds` says of a list that it
is as it should be, and what its content is. The elements stored in it are
those of the content, in one case as in the other (`Holds.stored_perm`).

A linked list may be looked at from either end: `End.listed` is the sequence
as it comes from that end.
-/

namespace LinkedPool

/-- A sequence, given from the head, as it comes from an end. -/
def End.listed {α : Type} (e : End) (xs : List α) : List α :=
  match e with
  | .head => xs
  | .tail => xs.reverse

namespace End

variable {α : Type} (e : End) (xs : List α)

@[simp] theorem listed_listed : e.listed (e.listed xs) = xs := by
  cases e
  · rfl
  · exact List.reverse_reverse xs

@[simp] theorem length_listed : (e.listed xs).length = xs.length := by
  cases e
  · rfl
  · exact List.length_reverse

theorem listed_perm : (e.listed xs).Perm xs := by
  cases e
  · exact .refl xs
  · exact List.reverse_perm xs

@[simp] theorem mem_listed {x : α} : x ∈ e.listed xs ↔ x ∈ xs :=
  (e.listed_perm xs).mem_iff

end End

/-- The elements of a list: in their order, or left behind when the links
to them were lost. -/
inductive Content (α : Type) where
  | linked (xs : List α)
  | detached (xs : List α)

namespace Content

variable {α : Type}

def elements : Content α → List α
  | .linked xs => xs
  | .detached xs => xs

/-- The elements that are come to along the links, in their order. -/
def reached : Content α → List α
  | .linked xs => xs
  | .detached _ => []

def IsDetached : Content α → Prop
  | .linked _ => False
  | .detached _ => True

def append (content : Content α) (xs : List α) : Content α :=
  match content with
  | .linked old => .linked (old ++ xs)
  | .detached old => .detached (old ++ xs)

@[simp] theorem append_nil (content : Content α) : content.append [] = content := by
  cases content <;> exact congrArg _ (List.append_nil _)

@[simp] theorem elements_append (content : Content α) (xs : List α) :
    (content.append xs).elements = content.elements ++ xs := by
  cases content <;> rfl

theorem length_reached_le (content : Content α) :
    content.reached.length ≤ content.elements.length := by
  cases content with
  | linked xs => exact Nat.le_refl _
  | detached xs => exact Nat.zero_le _

end Content

open Cells

namespace LinkedList

variable {α : Type} {e : End} {list : LinkedList α} {cells gone : Cells α} {free : List Slot}
  {xs : List α} {content : Content α} {nodes nodes' : Pool (Node α)}

/-- The list is as it should be, and this is its content. -/
def Holds (list : LinkedList α) : Content α → Prop
  | .linked xs => ∃ (cells : Cells α) (free : List Slot),
      Linked .head list cells free ∧ cells.elements = xs
  | .detached xs => list.Detached ∧ (∃ free, list.nodes.Valid free) ∧ list.stored.Perm xs

theorem Linked.holds (h : Linked e list cells free) :
    list.Holds (.linked (e.listed cells.elements)) := by
  cases e with
  | head => exact ⟨cells, free, h, rfl⟩
  | tail => exact ⟨cells.reverse, free, h.flip, elements_reverse cells⟩

theorem Holds.linked_from (h : list.Holds (.linked xs)) (e : End) :
    ∃ (cells : Cells α) (free : List Slot),
      Linked e list cells free ∧ cells.elements = e.listed xs := by
  obtain ⟨cells, free, hlinked, rfl⟩ := h
  cases e with
  | head => exact ⟨cells, free, hlinked, rfl⟩
  | tail => exact ⟨cells.reverse, free, hlinked.flip, elements_reverse cells⟩

theorem Holds.valid (h : list.Holds content) : ∃ free, list.nodes.Valid free := by
  cases content with
  | linked xs =>
      obtain ⟨cells, free, hlinked, -⟩ := h
      exact ⟨free, hlinked.valid⟩
  | detached xs => exact h.2.1

theorem holds_empty : (empty : LinkedList α).Holds (.linked []) :=
  linked_empty (e := .head) |>.holds

theorem Holds.detached_iff (h : list.Holds content) : list.Detached ↔ content.IsDetached := by
  cases content with
  | detached xs => exact ⟨fun _ => trivial, fun _ => h.1⟩
  | linked xs =>
      refine ⟨?_, False.elim⟩
      intro hdetached
      obtain ⟨cells, free, hlinked, -⟩ := h
      have hleft := hdetached.left
      have hnear := hlinked.near
      rw [hlinked.count] at hleft
      rw [hdetached.slotAt] at hnear
      cases cells with
      | nil => exact Nat.lt_irrefl 0 hleft
      | cons cell cells => cases hnear

theorem Holds.not_detached (h : list.Holds (.linked xs)) : ¬list.Detached := h.detached_iff.mp

theorem Healthy.not_detached {slots : List Slot} (h : list.Healthy slots) : ¬list.Detached := by
  intro hdetached
  have hleft := hdetached.left
  have hhead := h.forward.start_eq
  rw [hdetached.head] at hhead
  rw [h.count, List.head?_eq_none_iff.mp hhead.symm] at hleft
  exact Nat.lt_irrefl 0 hleft

theorem Holds.linked_of_not_detached (h : list.Holds content) (hlinks : ¬list.Detached) :
    ∃ xs, list.Holds (.linked xs) := by
  cases content with
  | linked xs => exact ⟨xs, h⟩
  | detached xs => exact absurd h.1 hlinks

/-! ## What is stored -/

/-- Slots that hold as many elements as the pool counts hold all of them. -/
theorem live_perm_of_cells (hdistinct : cells.slots.Nodup)
    (hnode : ∀ slot x, (slot, x) ∈ cells →
      ∃ node, nodes.get? slot = some node ∧ node.element = x)
    (hcount : nodes.live.length = cells.length) :
    (nodes.live.map Node.element).Perm cells.elements := by
  have hget : cells.slots.filterMap (fun slot => (nodes.get? slot).map Node.element)
      = cells.elements := by
    rw [slots, List.filterMap_map, elements, ← List.filterMap_eq_map]
    refine List.filterMap_congr ?_
    intro cell hmem
    obtain ⟨slot, x⟩ := cell
    obtain ⟨node, hslot, helement⟩ := hnode slot x hmem
    show (nodes.get? slot).map Node.element = some x
    rw [hslot, Option.map_some, helement]
  have hsubset : cells.slots ⊆ List.range nodes.slots := by
    intro slot hslot
    obtain ⟨⟨slot, x⟩, hmem, rfl⟩ := List.mem_map.mp hslot
    obtain ⟨node, hslot, -⟩ := hnode slot x hmem
    exact List.mem_range.mpr (Pool.lt_slots_of_get? hslot)
  obtain ⟨ordered, hperm, hsublist⟩ := List.subperm_of_subset hdistinct hsubset
  have hlive : ordered.filterMap (fun slot => (nodes.get? slot).map Node.element)
      = nodes.live.map Node.element := by
    have hall : nodes.live.map Node.element
        = (List.range nodes.slots).filterMap fun slot => (nodes.get? slot).map Node.element := by
      rw [Pool.live_eq_filterMap_range (Nat.le_refl _), List.map_filterMap]
    rw [hall]
    refine (hsublist.filterMap _).eq_of_length ?_
    rw [← hall, List.length_map, hcount, (hperm.filterMap _).length_eq, hget, elements,
      List.length_map]
  rw [← hlive, ← hget]
  exact hperm.filterMap _

theorem Linked.stored_perm (h : Linked e list cells free) :
    list.stored.Perm cells.elements := by
  refine live_perm_of_cells h.distinct ?_ ?_
  · intro slot x hmem
    obtain ⟨front, back, hsplit⟩ := List.append_of_mem hmem
    exact ⟨_, h.node front slot x back hsplit, Node.element_between ..⟩
  · exact h.valid.count.symm.trans h.count

theorem Holds.stored_perm (h : list.Holds content) : list.stored.Perm content.elements := by
  cases content with
  | linked xs =>
      obtain ⟨cells, free, hlinked, rfl⟩ := h
      exact hlinked.stored_perm
  | detached xs => exact h.2.2

/-- What is left after a walk that stopped before the last cell. -/
theorem Released.holds {rest : Cells α} (h : Linked .head list (gone ++ rest) free)
    (hreleased : Released list.nodes free gone nodes') (hrest : rest ≠ []) :
    Holds { Ends.none with nodes := nodes' } (.detached rest.elements) := by
  have hdistinct := h.distinct
  rw [slots_append, List.nodup_append] at hdistinct
  refine ⟨hreleased.detached h hrest, ⟨_, hreleased.valid⟩, ?_⟩
  refine live_perm_of_cells hdistinct.2.1 ?_ ?_
  · intro slot x hmem
    obtain ⟨front, back, hsplit⟩ := List.append_of_mem hmem
    have hslot : slot ∉ gone.slots := fun hgone =>
      hdistinct.2.2 slot hgone slot (List.mem_map.mpr ⟨_, hmem, rfl⟩) rfl
    refine ⟨_, ?_, Node.element_between .head (lastSlot (gone ++ front)) (firstSlot back) x⟩
    rw [hreleased.view, if_neg hslot]
    exact h.node (gone ++ front) slot x back (by rw [hsplit, List.append_assoc])
  · have hlen := hreleased.len
    have hcount : list.nodes.len = (gone ++ rest).length := h.count
    rw [List.length_append] at hcount
    show nodes'.live.length = rest.length
    rw [← hreleased.valid.count]
    omega

end LinkedList

end LinkedPool
