import LinkedPool.LinkedList.Teardown
import LinkedPool.Proofs.LinkedList.Delete

/-!
# Clearing a linked list

Clearing releases the nodes of a linked list in order and drops their
elements as it goes. If no drop panics, the list is empty and has given up
its slots; else the walk stops with the element whose drop panics, and the
nodes behind it are left in their slots (`Linked.clear_cases`). Then the
list is detached, unless that element was the last (`Released.detached`).
A detached list is not cleared at all.
-/

namespace LinkedPool.LinkedList

open Cells Element

variable {α : Type} {e : End} {list : LinkedList α} {cells gone : Cells α}
  {free : List Slot} {slot : Slot} {x : α} {nodes nodes' : Pool (Node α)}

/-- Each of the cells holds its element, and links on to the next of them. -/
def Trail (nodes : Pool (Node α)) : Cells α → Prop
  | [] => True
  | (slot, x) :: cells =>
      (∃ node, nodes.get? slot = some node ∧ node.element = x ∧ node.next = firstSlot cells)
        ∧ Trail nodes cells

theorem Trail.frame (h : Trail nodes cells)
    (hsame : ∀ slot ∈ cells.slots, nodes'.get? slot = nodes.get? slot) : Trail nodes' cells := by
  induction cells with
  | nil => trivial
  | cons cell cells ih =>
      obtain ⟨⟨node, hnode, hnext⟩, hrest⟩ := h
      refine ⟨⟨node, (hsame cell.1 (List.mem_cons_self ..)).trans hnode, hnext⟩, ih hrest ?_⟩
      intro other hother
      exact hsame other (List.mem_cons_of_mem _ hother)

/-- A slot that is not among them may be released. -/
theorem Trail.reclaim {node : Node α} (h : Trail nodes cells) (hslot : slot ∉ cells.slots)
    (hnode : nodes.get? slot = some node) : Trail (nodes.reclaim slot) cells := by
  refine h.frame ?_
  intro other hother
  have hne : other ≠ slot := by
    rintro rfl
    exact hslot hother
  rw [Pool.get?_reclaim (Pool.lt_slots_of_get? hnode), Function.update_of_ne hne]

theorem Linked.trail (h : Linked .head list cells free) {front back : Cells α}
    (hsplit : cells = front ++ back) : Trail list.nodes back := by
  induction back generalizing front with
  | nil => trivial
  | cons cell back ih =>
      have hcell := h.node front cell.1 cell.2 back hsplit
      have hnext : cells = (front ++ [cell]) ++ back := by
        rw [hsplit, List.append_assoc, List.singleton_append]
      exact ⟨⟨_, hcell, rfl, rfl⟩, ih hnext⟩

/-- `nodes'` are `nodes` after those in the cells `gone` were released in order. -/
structure Released (nodes : Pool (Node α)) (free : List Slot) (gone : Cells α)
    (nodes' : Pool (Node α)) : Prop where
  valid : nodes'.Valid (gone.slots.reverse ++ free)
  view : ∀ slot, nodes'.get? slot = if slot ∈ gone.slots then none else nodes.get? slot
  len : nodes'.len + gone.length = nodes.len
  slots : nodes'.slots = nodes.slots
  capacity : nodes'.capacity = nodes.capacity

theorem released_nil (h : nodes.Valid free) : Released nodes free [] nodes :=
  ⟨h, fun _ => (if_neg (List.not_mem_nil)).symm, rfl, rfl, rfl⟩

theorem Released.cons {node : Node α} (hvalid : nodes.Valid free)
    (hnode : nodes.get? slot = some node)
    (h : Released (nodes.reclaim slot) (slot :: free) gone nodes') :
    Released nodes free ((slot, x) :: gone) nodes' where
  valid := by
    have hgone := h.valid
    rwa [slots_cons, List.reverse_cons, List.append_assoc]
  view other := by
    rw [h.view, Pool.get?_reclaim (Pool.lt_slots_of_get? hnode), slots_cons]
    by_cases hother : other = slot
    · subst hother
      rw [Function.update_self, ite_self, if_pos (List.mem_cons_self ..)]
    · rw [Function.update_of_ne hother]
      by_cases hmem : other ∈ gone.slots
      · rw [if_pos hmem, if_pos (List.mem_cons_of_mem _ hmem)]
      · rw [if_neg hmem, if_neg fun h => (List.mem_cons.mp h).elim hother hmem]
  len := by
    have hpos := hvalid.len_pos hnode
    have hlen : nodes'.len + gone.length = nodes.len - 1 := h.len
    rw [List.length_cons]
    omega
  slots := h.slots.trans (Pool.slots_reclaim ..)
  capacity := h.capacity

/-! ## The walk -/

variable [Element α]

inductive Releasing (nodes : Pool (Node α)) (free : List Slot) (cells : Cells α) :
    Outcome α (Pool (Node α)) Nat → Prop
  | done (nodes' : Pool (Node α)) (calm : Calm cells.elements)
      (released : Released nodes free cells nodes') :
      Releasing nodes free cells ⟨⟨.ok cells.length, departures cells.elements⟩, nodes'⟩
  | stopped (front : Cells α) (slot : Slot) (x : α) (back : Cells α) (panic : Panic)
      (nodes' : Pool (Node α)) (split : cells = front ++ (slot, x) :: back)
      (calm : Calm front.elements) (drop : dropPanic x = some panic)
      (released : Released nodes free (front ++ [(slot, x)]) nodes') :
      Releasing nodes free cells
        ⟨⟨.error panic, departures (front.elements ++ [x])⟩, nodes'⟩

theorem Releasing.cons {node : Node α} {call : Outcome α (Pool (Node α)) Nat}
    (hvalid : nodes.Valid free) (hnode : nodes.get? slot = some node)
    (hx : dropPanic x = none) (h : Releasing (nodes.reclaim slot) (slot :: free) cells call) :
    Releasing nodes free ((slot, x) :: cells) ((call.map (· + 1)).after [.dropped x]) := by
  cases h with
  | done nodes' calm released =>
      exact .done nodes' (calm.cons hx) (released.cons hvalid hnode)
  | stopped front slot' y back panic nodes' split calm drop released =>
      exact .stopped ((slot, x) :: front) slot' y back panic nodes'
        (congrArg ((slot, x) :: ·) split) (calm.cons hx) drop (released.cons hvalid hnode)

theorem releaseWithin_cases {fuel : Nat} (hvalid : nodes.Valid free) (htrail : Trail nodes cells)
    (hdistinct : cells.slots.Nodup) (hfuel : cells.length ≤ fuel) :
    Releasing nodes free cells (releaseWithin fuel (firstSlot cells) nodes) := by
  have hcalm : Calm ([] : List α) := List.forall_mem_nil _
  induction cells generalizing fuel nodes free with
  | nil =>
      have hdone : Releasing nodes free ([] : Cells α) ⟨⟨.ok 0, []⟩, nodes⟩ :=
        .done nodes hcalm (released_nil hvalid)
      cases fuel <;> exact hdone
  | cons cell cells ih =>
      obtain ⟨slot, x⟩ := cell
      have hpos : 0 < fuel := by
        rw [List.length_cons] at hfuel
        omega
      obtain ⟨fuel, rfl⟩ := Nat.exists_eq_add_one.mpr hpos
      obtain ⟨⟨node, hnode, hx, hnext⟩, htrail⟩ := htrail
      obtain ⟨hslot, hcells⟩ := List.nodup_cons.mp hdistinct
      rw [firstSlot_cons, releaseWithin, release_eq hvalid hnode]
      simp only [hx]
      cases hdrop : dropPanic x with
      | some panic =>
          rw [discard_of_some hdrop]
          exact .stopped [] slot x cells panic _ rfl hcalm hdrop
            ((released_nil (hvalid.reclaim hnode)).cons hvalid hnode)
      | none =>
          have hrest := ih (hvalid.reclaim hnode) (htrail.reclaim hslot hnode) hcells
            (Nat.le_of_succ_le_succ hfuel)
          rw [discard_of_none hdrop, hnext]
          exact hrest.cons hvalid hnode hdrop

/-! ## The operation -/

omit [Element α] in
/-- A list without ends whose pool holds no nodes is empty. -/
theorem linked_none (hvalid : nodes.Valid free) (hlen : nodes.len = 0) :
    Linked e { Ends.none with nodes } ([] : Cells α) free where
  valid := hvalid
  near := by cases e <;> rfl
  far := by cases e <;> rfl
  distinct := .nil
  count := hlen
  node front slot x back hsplit := by simp at hsplit

theorem Linked.clear_cases (h : Linked .head list cells free) :
    (Calm cells.elements ∧ list.clear
        = ⟨⟨.ok (), departures cells.elements ++ [.logged (.cleared cells.length)]⟩,
            { Ends.none with nodes := list.nodes.cleared }⟩)
      ∨ ∃ (front : Cells α) (slot : Slot) (x : α) (back : Cells α) (panic : Panic)
          (nodes' : Pool (Node α)),
        cells = front ++ (slot, x) :: back ∧ Calm front.elements ∧ dropPanic x = some panic
        ∧ Released list.nodes free (front ++ [(slot, x)]) nodes'
        ∧ list.clear = ⟨⟨.error panic, departures (front.elements ++ [x])⟩,
            { Ends.none with nodes := nodes' }⟩ := by
  have hwalk := releaseWithin_cases h.valid (h.trail (List.nil_append cells).symm) h.distinct
    (h.length_le_slots.trans (Nat.le_succ _))
  rw [← h.near] at hwalk
  rw [clear, show list.head = list.slotAt .head from rfl]
  generalize releaseWithin (list.nodes.slots + 1) (list.slotAt .head) list.nodes = call at hwalk ⊢
  cases hwalk with
  | done nodes' calm released =>
      have hlen : nodes'.len = 0 := by
        have hreleased := released.len
        have hcount : list.nodes.len = cells.length := h.count
        omega
      have hempty : nodes'.isEmpty = true := by
        simp only [Pool.isEmpty, beq_iff_eq]
        exact hlen
      have hcleared : nodes'.cleared = list.nodes.cleared := by
        simp only [Pool.cleared, released.capacity]
      refine .inl ⟨calm, ?_⟩
      simp only [Outcome.within_mk, Outcome.bind_ok, hempty, if_true,
        Pool.clear_of_len_eq_zero released.valid hlen, hcleared]
      rfl
  | stopped front slot x back panic nodes' split calm drop released =>
      exact .inr ⟨front, slot, x, back, panic, nodes', split, calm, drop, released, rfl⟩

theorem Linked.clear_of_calm (h : Linked .head list cells free) (hcalm : Calm cells.elements) :
    list.clear
      = ⟨⟨.ok (), departures cells.elements ++ [.logged (.cleared cells.length)]⟩,
          { Ends.none with nodes := list.nodes.cleared }⟩ := by
  rcases h.clear_cases with ⟨-, hclear⟩ | ⟨front, slot, x, back, panic, nodes', rfl, -, hdrop, -⟩
  · exact hclear
  · exact absurd hdrop (hcalm.not_panics (by simp))

omit [Element α] in
/-- A walk that stopped at the last cell left nothing behind. -/
theorem Released.linked (h : Linked .head list gone free)
    (hreleased : Released list.nodes free gone nodes') :
    Linked e { Ends.none with nodes := nodes' } ([] : Cells α) (gone.slots.reverse ++ free) := by
  refine linked_none hreleased.valid ?_
  have hlen := hreleased.len
  have hcount : list.nodes.len = gone.length := h.count
  omega

omit [Element α] in
/-- A walk that stopped before that leaves the list detached. -/
theorem Released.detached {rest : Cells α} (h : Linked .head list (gone ++ rest) free)
    (hreleased : Released list.nodes free gone nodes') (hrest : rest ≠ []) :
    Detached { Ends.none with nodes := nodes' } := by
  refine ⟨rfl, rfl, ?_⟩
  have hlen := hreleased.len
  have hcount : list.nodes.len = (gone ++ rest).length := h.count
  have hpos : 0 < rest.length := List.length_pos_iff.mpr hrest
  rw [List.length_append] at hcount
  show 0 < nodes'.len
  omega

theorem Detached.clear (h : list.Detached) :
    list.clear = (Traced.raise .nodesLeft).leaving list := by
  have hfull : ¬list.nodes.isEmpty = true := by
    simp only [Pool.isEmpty, beq_iff_eq]
    exact Nat.ne_of_gt h.left
  have hends : { Ends.none with nodes := list.nodes } = list := by
    obtain ⟨⟨head, tail⟩, nodes⟩ := list
    rw [show head = none from h.head, show tail = none from h.tail]
    rfl
  rw [LinkedList.clear, h.head]
  simp only [releaseWithin, Traced.answer, Traced.leaving_mk, Outcome.within_mk, Outcome.bind_ok,
    if_neg hfull, hends]
  rfl

end LinkedPool.LinkedList
