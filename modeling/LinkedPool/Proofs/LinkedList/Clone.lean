import LinkedPool.Proofs.LinkedList.Content
import LinkedPool.Proofs.Pool.Clone

/-!
# Copies of lists

The copy of a list has its nodes in the slots of the original, with the same
links; so it holds the twins of what the original holds, in the same order,
and the copy of a detached list is detached (`Holds.image`).
-/

namespace LinkedPool

open Element

def Content.map {α : Type} (f : α → α) : Content α → Content α
  | .linked xs => .linked (xs.map f)
  | .detached xs => .detached (xs.map f)

namespace LinkedList

open Cells

variable {α : Type} {e : End} {list : LinkedList α} {content : Content α} {cells : Cells α}
  {free : List Slot} [Element α]

/-! ## Nodes and their elements -/

theorem clone_node (node : Node α) :
    Element.clone node
      = (Element.clone node.element).map fun element => { node with element } := rfl

theorem twin_node (node : Node α) : twin node = { node with element := twin node.element } := by
  rw [twin, twin, clone_node]
  cases Element.clone node.element <;> rfl

theorem clone_node_ok {node : Node α} (h : Element.clone node = .ok (twin node)) :
    Element.clone node.element = .ok (twin node.element) := by
  rw [clone_node] at h
  cases hclone : Element.clone node.element with
  | error panic =>
      rw [hclone] at h
      cases h
  | ok y => exact hclone ▸ clone_eq_twin hclone

theorem clone_node_error {node : Node α} {panic : Panic} (h : Element.clone node = .error panic) :
    Element.clone node.element = .error panic := by
  rw [clone_node] at h
  cases hclone : Element.clone node.element with
  | error panic' =>
      rw [hclone] at h
      exact congrArg _ (Except.error.inj h)
  | ok y =>
      rw [hclone] at h
      cases h

theorem copied_elements {nodes : List (Node α)} (h : Copied nodes) :
    Copied (nodes.map Node.element) := by
  intro x hx
  obtain ⟨node, hnode, rfl⟩ := List.mem_map.mp hx
  exact clone_node_ok (h node hnode)

omit [Element α] in
theorem copying_elements (nodes : List (Node α)) :
    (copying nodes).map (Event.map Node.element) = copying (nodes.map Node.element) := by
  simp [copying, Event.map]

theorem element_twin (nodes : List (Node α)) :
    (nodes.map twin).map Node.element = (nodes.map Node.element).map twin := by
  simp [twin_node]

/-! ## The copy -/

def twinCell (cell : Slot × α) : Slot × α := (cell.1, twin cell.2)

@[simp] theorem slots_map_twinCell (cells : Cells α) :
    slots (cells.map twinCell) = slots cells := by
  simp [slots, twinCell, Function.comp_def]

@[simp] theorem elements_map_twinCell (cells : Cells α) :
    elements (cells.map twinCell) = (elements cells).map twin := by
  simp [elements, twinCell, Function.comp_def]

@[simp] theorem firstSlot_map_twinCell (cells : Cells α) :
    firstSlot (cells.map twinCell) = firstSlot cells := by
  cases cells <;> rfl

@[simp] theorem lastSlot_map_twinCell (cells : Cells α) :
    lastSlot (cells.map twinCell) = lastSlot cells := by
  rw [← firstSlot_reverse, ← List.map_reverse, firstSlot_map_twinCell, firstSlot_reverse]

theorem stored_image (list : LinkedList α) :
    stored { list with nodes := list.nodes.image twin } = list.stored.map twin := by
  rw [stored, Pool.live_image, element_twin]
  rfl

theorem Linked.image (h : Linked e list cells free) :
    Linked e { list with nodes := list.nodes.image twin } (cells.map twinCell) free where
  valid := h.valid.image twin
  near := by rw [firstSlot_map_twinCell]; exact h.near
  far := by rw [lastSlot_map_twinCell]; exact h.far
  distinct := by rw [slots_map_twinCell]; exact h.distinct
  count := by rw [List.length_map]; exact h.count
  node front slot x back hsplit := by
    obtain ⟨front, rest, rfl, rfl, hrest⟩ := List.map_eq_append_iff.mp hsplit
    obtain ⟨⟨slot, y⟩, back, rfl, hcell, rfl⟩ := List.map_eq_cons_iff.mp hrest
    obtain ⟨rfl, rfl⟩ := Prod.mk.inj hcell
    rw [Pool.get?_image, h.node front slot y back rfl, lastSlot_map_twinCell,
      firstSlot_map_twinCell]
    cases e <;> exact congrArg some (twin_node _)

theorem Holds.image (h : list.Holds content) :
    Holds { list with nodes := list.nodes.image twin } (content.map twin) := by
  cases content with
  | linked xs =>
      obtain ⟨cells, free, hlinked, rfl⟩ := h
      exact ⟨cells.map twinCell, free, hlinked.image, elements_map_twinCell cells⟩
  | detached xs =>
      obtain ⟨⟨hhead, htail, hleft⟩, ⟨free, hvalid⟩, hstored⟩ := h
      refine ⟨⟨hhead, htail, hleft⟩, ⟨free, hvalid.image twin⟩, ?_⟩
      rw [stored_image]
      exact hstored.map twin

/-- A list is copied slot by slot; the copies are dropped if one cannot be made. -/
theorem clone_cases (list : LinkedList α) :
    (Copied list.stored
        ∧ list.clone
          = ⟨.ok { list with nodes := list.nodes.image twin }, copying list.stored⟩)
      ∨ ∃ (front : List α) (x : α) (back : List α) (panic : Panic),
        list.stored = front ++ x :: back ∧ Copied front ∧ Element.clone x = .error panic
        ∧ list.clone
          = ⟨.error panic, copying (front ++ [x]) ++ departures (front.map twin)⟩ := by
  unfold clone
  rcases list.nodes.clone_cases with
    ⟨hcopied, hclone⟩ | ⟨front, node, back, panic, hlive, hcopied, hnode, hclone⟩
  · refine .inl ⟨copied_elements hcopied, ?_⟩
    rw [hclone, Traced.relabel_mk, copying_elements, Traced.bind_ok, Traced.answer,
      Traced.after_mk, List.append_nil]
    rfl
  · refine .inr ⟨front.map Node.element, node.element, back.map Node.element, panic, ?_,
      copied_elements hcopied, clone_node_error hnode, ?_⟩
    · rw [stored, hlive, List.map_append, List.map_cons]
    · rw [hclone, Traced.relabel_mk, List.map_append, copying_elements, ← departures_map,
        element_twin, List.map_append]
      rfl

/-- The copy that is made if every element can be copied. -/
def twins (list : LinkedList α) : LinkedList α := { list with nodes := list.nodes.image twin }

theorem clone_of_copied (h : Copied list.stored) :
    list.clone = ⟨.ok list.twins, copying list.stored⟩ := by
  rcases list.clone_cases with ⟨-, hclone⟩ | ⟨front, x, back, panic, hstored, -, hx, -⟩
  · exact hclone
  · have hmem : x ∈ list.stored := by simp [hstored]
    cases (h x hmem).symm.trans hx

theorem Holds.clone_cases (h : list.Holds content) :
    (∃ list', list'.Holds (content.map twin) ∧ Copied list.stored
        ∧ list.clone = ⟨.ok list', copying list.stored⟩)
      ∨ ∃ (front : List α) (x : α) (back : List α) (panic : Panic),
        list.stored = front ++ x :: back ∧ Copied front ∧ Element.clone x = .error panic
        ∧ list.clone
          = ⟨.error panic, copying (front ++ [x]) ++ departures (front.map twin)⟩ := by
  rcases list.clone_cases with ⟨hcopied, hclone⟩ | hfailed
  · exact .inl ⟨_, h.image, hcopied, hclone⟩
  · exact .inr hfailed

end LinkedList

end LinkedPool
