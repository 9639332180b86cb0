import LinkedPool.LinkedList.Delete
import LinkedPool.Proofs.LinkedList.Linked

/-!
# Taking a node out of a linked list

A node is taken out in three writes: the next node is linked back past it,
the previous one is linked on past it, and its slot is vacated. What the
slots hold after that is said neighbour by neighbour (`Bypassed`), alike
from either end; that the list then runs through the other cells follows
for the cells before it, and from the other end for those behind it
(`Linked.bypass`). `Linked.relink_neighbours` is the first two writes, and
`Linked.unlink_release` all three of them.
-/

namespace LinkedPool

open Cells

namespace Cells

variable {α : Type} {cells : Cells α} {slot : Slot}

theorem mem_slots_of_firstSlot (h : cells.firstSlot = some slot) : slot ∈ cells.slots := by
  cases cells with
  | nil => cases h
  | cons cell cells =>
      obtain rfl := Option.some.inj h
      exact List.mem_cons_self ..

theorem mem_slots_of_lastSlot (h : cells.lastSlot = some slot) : slot ∈ cells.slots := by
  rw [← firstSlot_reverse] at h
  have := mem_slots_of_firstSlot h
  rwa [slots_reverse, List.mem_reverse] at this

/-- A cell of two sequences joined is a cell of the second or of the first. -/
theorem append_eq_append_cons {front back rest tail : Cells α} {cell : Slot × α}
    (h : front ++ back = rest ++ cell :: tail) :
    (∃ middle, rest = front ++ middle ∧ back = middle ++ cell :: tail)
      ∨ ∃ middle, front = rest ++ cell :: middle ∧ tail = middle ++ back := by
  rcases List.append_eq_append_iff.mp h with hback | ⟨middle, hfront, hmiddle⟩
  · exact .inl hback
  · cases middle with
    | nil => exact .inl ⟨[], by simp [hfront], hmiddle.symm⟩
    | cons cell' middle =>
        obtain ⟨rfl, htail⟩ := List.cons.inj hmiddle
        exact .inr ⟨middle, hfront, htail⟩

end Cells

namespace LinkedList

variable {α : Type} {e : End} {list list' : LinkedList α} {front back : Cells α}
  {free free' : List Slot} {slot : Slot} {x : α}

/-- Between the cells `front` and `back`, the nodes at either side of `slot`
are linked past it; the others are as they were. -/
structure Bypassed (e : End) (nodes nodes' : Pool (Node α)) (front : Cells α) (slot : Slot)
    (back : Cells α) : Prop where
  before : ∀ rest other y, front = rest ++ [(other, y)] →
    nodes'.get? other = some (.between e (lastSlot rest) (firstSlot back) y)
  behind : ∀ other y rest, back = (other, y) :: rest →
    nodes'.get? other = some (.between e (lastSlot front) (firstSlot rest) y)
  others : ∀ other, other ≠ slot → lastSlot front ≠ some other → firstSlot back ≠ some other →
    nodes'.get? other = nodes.get? other

theorem Bypassed.flip {nodes nodes' : Pool (Node α)} (h : Bypassed e nodes nodes' front slot back) :
    Bypassed e.opposite nodes nodes' back.reverse slot front.reverse where
  before rest other y hsplit := by
    rw [h.behind other y rest.reverse (by rw [← List.reverse_reverse back, hsplit]; simp)]
    simp
  behind other y rest hsplit := by
    rw [h.before rest.reverse other y (by rw [← List.reverse_reverse front, hsplit]; simp)]
    simp
  others other hne hlast hfirst := by
    rw [lastSlot_reverse] at hlast
    rw [firstSlot_reverse] at hfirst
    exact h.others other hne hfirst hlast

theorem Linked.apart (h : Linked e list (front ++ (slot, x) :: back) free) :
    slot ∉ front.slots ∧ slot ∉ back.slots ∧ front.slots.Nodup
      ∧ ∀ other ∈ front.slots, other ∉ back.slots := by
  have hdistinct := h.distinct
  rw [slots_append, slots_cons] at hdistinct
  obtain ⟨hfront, hrest, hdisjoint⟩ := List.nodup_append.mp hdistinct
  refine ⟨fun hmem => hdisjoint slot hmem slot (List.mem_cons_self ..) rfl,
    (List.nodup_cons.mp hrest).1, hfront, ?_⟩
  intro other hmem hmem'
  exact hdisjoint other hmem other (List.mem_cons_of_mem _ hmem') rfl

/-- The cells before the one taken out. -/
theorem Linked.node_of_bypassed (h : Linked e list (front ++ (slot, x) :: back) free)
    {nodes' : Pool (Node α)} (hnodes : Bypassed e list.nodes nodes' front slot back)
    {rest : Cells α} {other : Slot} {y : α} {middle : Cells α}
    (hsplit : front = rest ++ (other, y) :: middle) :
    nodes'.get? other = some (.between e (lastSlot rest) (firstSlot (middle ++ back)) y) := by
  cases middle with
  | nil => exact hnodes.before rest other y hsplit
  | cons cell middle =>
      obtain ⟨hslot, -, hfront, hdisjoint⟩ := h.apart
      have hmem : other ∈ front.slots := by simp [hsplit]
      have hold := h.node rest other y (cell :: middle ++ (slot, x) :: back) (by simp [hsplit])
      rw [show firstSlot (cell :: middle ++ back)
        = firstSlot (cell :: middle ++ (slot, x) :: back) from rfl, ← hold]
      refine hnodes.others other (fun heq => hslot (heq ▸ hmem)) ?_
        fun hfirst => hdisjoint other hmem (mem_slots_of_firstSlot hfirst)
      intro hlast
      -- The last cell of `front` is in `cell :: middle`, and so is not this one.
      rw [hsplit, slots_append, List.nodup_append] at hfront
      refine (List.nodup_cons.mp hfront.2.1).1 (mem_slots_of_lastSlot ?_)
      rw [← hlast, hsplit]
      simp [lastSlot, List.getLast?_cons]

theorem Linked.bypass (h : Linked e list (front ++ (slot, x) :: back) free)
    (hnodes : Bypassed e list.nodes list'.nodes front slot back)
    (hvalid : list'.nodes.Valid free') (hlen : list'.len = list.len - 1)
    (hnear : list'.slotAt e = firstSlot (front ++ back))
    (hfar : list'.slotAt e.opposite = lastSlot (front ++ back)) :
    Linked e list' (front ++ back) free' where
  valid := hvalid
  near := hnear
  far := hfar
  distinct := by
    refine List.Nodup.sublist ?_ h.distinct
    exact (List.Sublist.append_left (List.sublist_cons_self ..) front).map _
  count := by
    rw [hlen, h.count]
    simp
  node rest other y tail hsplit := by
    rcases append_eq_append_cons hsplit with ⟨middle, hrest, hback⟩ | ⟨middle, hfront, htail⟩
    · have hflip := h.flip
      simp only [List.reverse_append, List.reverse_cons, List.append_assoc,
        List.singleton_append] at hflip
      have hnode := hflip.node_of_bypassed hnodes.flip
        (show back.reverse = tail.reverse ++ (other, y) :: middle.reverse by simp [hback])
      rw [hnode, Node.between_opposite, lastSlot_reverse, hrest, ← List.reverse_append,
        firstSlot_reverse]
    · rw [htail]
      exact h.node_of_bypassed hnodes hfront

/-! ## The three writes -/

/-- Linking a neighbour, if there is one, to another node. -/
theorem relink_eq {nodes : Pool (Node α)} (hvalid : nodes.Valid free) (link : Option Slot)
    (f : Node α → Node α)
    (hlink : ∀ other, link = some other → ∃ node, nodes.get? other = some node) :
    ∃ nodes', relink link f nodes = .ok nodes' ∧ nodes'.Valid free ∧ nodes'.len = nodes.len
      ∧ nodes'.slots = nodes.slots ∧ nodes'.capacity = nodes.capacity
      ∧ ∀ other, nodes'.get? other
          = if link = some other then (nodes.get? other).map f else nodes.get? other := by
  cases link with
  | none => exact ⟨nodes, rfl, hvalid, rfl, rfl, rfl, fun other => (if_neg nofun).symm⟩
  | some slot =>
      obtain ⟨node, hnode⟩ := hlink slot rfl
      refine ⟨nodes.put slot (f node), ?_, hvalid.put hnode _, rfl, Pool.slots_put .., rfl, ?_⟩
      · rw [relink, Pool.modify, Pool.get_of_get? hnode]
        rfl
      · intro other
        rw [Pool.get?_put (Pool.lt_slots_of_get? hnode)]
        by_cases hother : other = slot
        · subst hother
          rw [Function.update_self, if_pos rfl, hnode]
          rfl
        · rw [Function.update_of_ne hother, if_neg fun heq => hother (Option.some.inj heq).symm]

theorem release_eq {nodes : Pool (Node α)} {node : Node α} (hvalid : nodes.Valid free)
    (hnode : nodes.get? slot = some node) :
    release slot nodes = .ok (node, nodes.reclaim slot) := by
  rw [release, Pool.vacate_of_get? hvalid hnode]
  rfl

theorem firstSlot_bypassed (x : α) (back : Cells α) (h : slot ∉ front.slots) :
    (if firstSlot (front ++ (slot, x) :: back) = some slot then firstSlot back
      else firstSlot (front ++ (slot, x) :: back)) = firstSlot (front ++ back) := by
  cases front with
  | nil => exact if_pos rfl
  | cons cell front =>
      exact if_neg fun heq : some cell.1 = some slot =>
        h (Option.some.inj heq ▸ List.mem_cons_self ..)

theorem lastSlot_bypassed (x : α) (front : Cells α) (h : slot ∉ back.slots) :
    (if lastSlot (front ++ (slot, x) :: back) = some slot then lastSlot front
      else lastSlot (front ++ (slot, x) :: back)) = lastSlot (front ++ back) := by
  have hreverse : slot ∉ slots back.reverse := by
    rwa [slots_reverse, List.mem_reverse]
  have := firstSlot_bypassed x front.reverse hreverse
  simpa [← firstSlot_reverse] using this

/-- Linking the neighbours of a node past it leaves the node itself as it was. -/
theorem Linked.relink_neighbours (h : Linked .head list (front ++ (slot, x) :: back) free) :
    ∃ nodes₁ nodes,
      relink (firstSlot back) (fun next => { next with prev := lastSlot front }) list.nodes
        = .ok nodes₁
      ∧ relink (lastSlot front) (fun prev => { prev with next := firstSlot back }) nodes₁
        = .ok nodes
      ∧ nodes.Valid free ∧ nodes.len = list.nodes.len
      ∧ nodes.slots = list.nodes.slots ∧ nodes.capacity = list.nodes.capacity
      ∧ nodes.get? slot = some (.between .head (lastSlot front) (firstSlot back) x)
      ∧ Bypassed .head list.nodes nodes front slot back := by
  obtain ⟨hfront, hback, -, hdisjoint⟩ := h.apart
  have hprev : lastSlot front ≠ some slot := fun heq => hfront (mem_slots_of_lastSlot heq)
  have hnext : firstSlot back ≠ some slot := fun heq => hback (mem_slots_of_firstSlot heq)
  have hends {other : Slot} (hlast : lastSlot front = some other) : firstSlot back ≠ some other :=
    fun hfirst => hdisjoint other (mem_slots_of_lastSlot hlast) (mem_slots_of_firstSlot hfirst)
  -- Back past the node: the link of the next node.
  obtain ⟨nodes₁, hrelink₁, hvalid₁, hlen₁, hslots₁, hcapacity₁, hview₁⟩ :=
    relink_eq h.valid (firstSlot back) (fun next => { next with prev := lastSlot front })
      fun other hother => h.get?_of_mem <| by
        simp [mem_slots_of_firstSlot hother]
  -- On past the node: the link of the previous one.
  obtain ⟨nodes₂, hrelink₂, hvalid₂, hlen₂, hslots₂, hcapacity₂, hview₂⟩ :=
    relink_eq hvalid₁ (lastSlot front) (fun prev => { prev with next := firstSlot back })
      fun other hother => by
        rw [hview₁, if_neg (hends hother)]
        exact h.get?_of_mem (by simp [mem_slots_of_lastSlot hother])
  refine ⟨nodes₁, nodes₂, hrelink₁, hrelink₂, hvalid₂, hlen₂.trans hlen₁, hslots₂.trans hslots₁,
    hcapacity₂.trans hcapacity₁, ?_, ?_, ?_, ?_⟩
  · rw [hview₂, if_neg hprev, hview₁, if_neg hnext, h.node front slot x back rfl]
  · intro rest other y hsplit
    have hlast : lastSlot front = some other := by rw [hsplit, lastSlot_concat]
    rw [hview₂, if_pos hlast, hview₁, if_neg (hends hlast),
      h.node rest other y ((slot, x) :: back) (by rw [hsplit]; simp)]
    rfl
  · intro other y rest hsplit
    have hfirst : firstSlot back = some other := by rw [hsplit, firstSlot_cons]
    rw [hview₂, if_neg fun hlast => hends hlast hfirst, hview₁, if_pos hfirst,
      h.node (front ++ [(slot, x)]) other y rest (by rw [hsplit]; simp)]
    rfl
  · intro other _ hlast hfirst
    rw [hview₂, if_neg hlast, hview₁, if_neg hfirst]

/-- The slot between the neighbours is of no matter to them. -/
theorem Bypassed.reclaim {nodes nodes' : Pool (Node α)}
    (h : Bypassed e nodes nodes' front slot back) (hlt : slot < nodes'.slots)
    (hfront : slot ∉ front.slots) (hback : slot ∉ back.slots) :
    Bypassed e nodes (nodes'.reclaim slot) front slot back := by
  have hview (other : Slot) (hother : other ≠ slot) :
      (nodes'.reclaim slot).get? other = nodes'.get? other := by
    rw [Pool.get?_reclaim hlt, Function.update_of_ne hother]
  refine ⟨?_, ?_, ?_⟩
  · intro rest other y hsplit
    have hother : other ≠ slot := by
      rintro rfl
      exact hfront (by simp [hsplit])
    rw [hview other hother, h.before rest other y hsplit]
  · intro other y rest hsplit
    have hother : other ≠ slot := by
      rintro rfl
      exact hback (by simp [hsplit])
    rw [hview other hother, h.behind other y rest hsplit]
  · intro other hother hlast hfirst
    rw [hview other hother, h.others other hother hlast hfirst]

theorem Linked.unlink_release (h : Linked .head list (front ++ (slot, x) :: back) free) :
    ∃ unlinked nodes,
      list.unlink slot = .ok (.between .head (lastSlot front) (firstSlot back) x, unlinked)
      ∧ release slot unlinked.nodes
        = .ok (.between .head (lastSlot front) (firstSlot back) x, nodes)
      ∧ nodes.slots = list.nodes.slots ∧ nodes.capacity = list.nodes.capacity
      ∧ Linked .head { unlinked with nodes } (front ++ back) (slot :: free) := by
  obtain ⟨hfront, hback, -, -⟩ := h.apart
  obtain ⟨nodes₁, nodes, hrelink₁, hrelink, hvalid, hlen, hslots, hcapacity, hnode, hbypassed⟩ :=
    h.relink_neighbours
  refine ⟨{
      head := if list.head = some slot then firstSlot back else list.head
      tail := if list.tail = some slot then lastSlot front else list.tail
      nodes }, nodes.reclaim slot, ?_, release_eq hvalid hnode,
    (Pool.slots_reclaim ..).trans hslots, hcapacity, ?_⟩
  · rw [unlink, Pool.get_of_get? (h.node front slot x back rfl)]
    simp only [Node.between, bind, Except.bind, hrelink₁, hrelink]
    rfl
  · refine h.bypass (hbypassed.reclaim (Pool.lt_slots_of_get? hnode) hfront hback)
      (hvalid.reclaim hnode) (congrArg (· - 1) hlen) ?_ ?_
    · rw [← firstSlot_bypassed x back hfront, ← h.near]
      rfl
    · rw [← lastSlot_bypassed x front hback, ← h.far]
      rfl

end LinkedList

end LinkedPool
