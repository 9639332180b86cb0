import Mathlib.Data.List.Nodup
import LinkedPool.LinkedList.Basic
import LinkedPool.Proofs.Pool.Room

/-!
# Linked lists

A list is `Linked` through `cells`, its slots with their elements from one
end to the other, if each of these slots holds a node with its element and
links to the slots before and after it, if the ends of the list are the
first and the last of them, and if there are as many as the pool counts.
The end from which the cells are listed is part of the statement, and a
list that is linked from one end is linked from the other (`Linked.flip`);
so each operation is studied from the one end from which it works.

`Healthy` is the same without the elements, said of the walks along the
links: from each end the walk visits the slots of the list in order and
ends with the last of them. `Linked.healthy` is the passage to it.
-/

namespace LinkedPool

/-- Slots with the elements in them, in the order of a list. -/
abbrev Cells (α : Type) := List (Slot × α)

namespace Cells

variable {α : Type}

def firstSlot (cells : Cells α) : Option Slot := cells.head?.map Prod.fst

def lastSlot (cells : Cells α) : Option Slot := cells.getLast?.map Prod.fst

def slots (cells : Cells α) : List Slot := cells.map Prod.fst

def elements (cells : Cells α) : List α := cells.map Prod.snd

@[simp] theorem slots_cons (cell : Slot × α) (cells : Cells α) :
    slots (cell :: cells) = cell.1 :: slots cells := rfl

@[simp] theorem slots_append (front back : Cells α) :
    slots (front ++ back) = slots front ++ slots back :=
  List.map_append

@[simp] theorem slots_reverse (cells : Cells α) : slots cells.reverse = (slots cells).reverse :=
  List.map_reverse

@[simp] theorem elements_cons (cell : Slot × α) (cells : Cells α) :
    elements (cell :: cells) = cell.2 :: elements cells := rfl

@[simp] theorem elements_append (front back : Cells α) :
    elements (front ++ back) = elements front ++ elements back :=
  List.map_append

@[simp] theorem elements_reverse (cells : Cells α) :
    elements cells.reverse = (elements cells).reverse :=
  List.map_reverse

@[simp] theorem firstSlot_nil : firstSlot ([] : Cells α) = none := rfl

@[simp] theorem firstSlot_cons (cell : Slot × α) (cells : Cells α) :
    firstSlot (cell :: cells) = some cell.1 := rfl

@[simp] theorem lastSlot_nil : lastSlot ([] : Cells α) = none := rfl

@[simp] theorem lastSlot_concat (cells : Cells α) (cell : Slot × α) :
    lastSlot (cells ++ [cell]) = some cell.1 := by
  simp [lastSlot]

theorem lastSlot_cons_cons (cell next : Slot × α) (cells : Cells α) :
    lastSlot (cell :: next :: cells) = lastSlot (next :: cells) := by
  simp [lastSlot, List.getLast?_cons_cons]

@[simp] theorem firstSlot_reverse (cells : Cells α) : firstSlot cells.reverse = lastSlot cells := by
  simp [firstSlot, lastSlot]

@[simp] theorem lastSlot_reverse (cells : Cells α) : lastSlot cells.reverse = firstSlot cells := by
  simp [firstSlot, lastSlot]

end Cells

namespace Node

variable {α : Type}

/-- The node between the slots `outward` and `inward`, as seen from the end `e`. -/
def between (e : End) (outward inward : Option Slot) (element : α) : Node α :=
  match e with
  | .head => { next := inward, prev := outward, element }
  | .tail => { next := outward, prev := inward, element }

variable (e : End) (outward inward slot : Option Slot) (x : α)

@[simp] theorem element_between : (between e outward inward x).element = x := by
  cases e <;> rfl

@[simp] theorem inward_between : (between e outward inward x).inward e = inward := by
  cases e <;> rfl

@[simp] theorem between_opposite :
    between e.opposite outward inward x = between e inward outward x := by
  cases e <;> rfl

@[simp] theorem setOutward_between :
    (between e outward inward x).setOutward e slot = between e slot inward x := by
  cases e <;> rfl

theorem outermost_eq : outermost e inward x = between e none inward x := by
  cases e <;> rfl

theorem alone_eq : alone x = between e none none x := by
  cases e <;> rfl

end Node

open Cells

namespace LinkedList

variable {α : Type} {e : End} {list : LinkedList α} {cells : Cells α} {free : List Slot}
  {slot : Slot} {x : α}

/-- Each of the cells holds a node with its element and links to the cells
before and after it, as seen from the end `e`. -/
def Laid (e : End) (nodes : Pool (Node α)) (cells : Cells α) : Prop :=
  ∀ front slot x back, cells = front ++ (slot, x) :: back →
    nodes.get? slot = some (.between e (lastSlot front) (firstSlot back) x)

theorem Laid.flip {nodes : Pool (Node α)} (h : Laid e nodes cells) :
    Laid e.opposite nodes cells.reverse := by
  intro front slot x back hsplit
  have hsplit' : cells = back.reverse ++ (slot, x) :: front.reverse := by
    rw [← List.reverse_reverse cells, hsplit]
    simp
  rw [h _ slot x _ hsplit', Node.between_opposite, lastSlot_reverse, firstSlot_reverse]

/-- From the end `e`, the list runs through `cells`; its vacant slots are `free`. -/
structure Linked (e : End) (list : LinkedList α) (cells : Cells α) (free : List Slot) : Prop where
  valid : list.nodes.Valid free
  near : list.slotAt e = cells.firstSlot
  far : list.slotAt e.opposite = cells.lastSlot
  distinct : cells.slots.Nodup
  count : list.len = cells.length
  node : ∀ front slot x back, cells = front ++ (slot, x) :: back →
    list.nodes.get? slot = some (.between e (lastSlot front) (firstSlot back) x)

/-- Without ends, but not without nodes. -/
structure Detached (list : LinkedList α) : Prop where
  head : list.head = none
  tail : list.tail = none
  left : 0 < list.len

instance (list : LinkedList α) : Decidable list.Detached :=
  decidable_of_iff (list.head = none ∧ list.tail = none ∧ 0 < list.len)
    ⟨fun ⟨head, tail, left⟩ => ⟨head, tail, left⟩, fun ⟨head, tail, left⟩ => ⟨head, tail, left⟩⟩

theorem Linked.flip (h : Linked e list cells free) : Linked e.opposite list cells.reverse free where
  valid := h.valid
  near := by rw [firstSlot_reverse, h.far]
  far := by rw [End.opposite_opposite, lastSlot_reverse, h.near]
  distinct := by
    rw [slots_reverse]
    exact List.nodup_reverse.mpr h.distinct
  count := by rw [List.length_reverse, h.count]
  node := Laid.flip h.node

theorem linked_flip_iff :
    Linked e.opposite list cells free ↔ Linked e list cells.reverse free := by
  constructor
  · intro h
    have := h.flip
    rwa [End.opposite_opposite] at this
  · intro h
    have := h.flip
    rwa [List.reverse_reverse] at this

theorem linked_empty : Linked e (empty : LinkedList α) [] [] where
  valid := Pool.valid_empty
  near := by cases e <;> rfl
  far := by cases e <;> rfl
  distinct := .nil
  count := rfl
  node front slot x back hsplit := by simp at hsplit

theorem Linked.get?_of_mem (h : Linked e list cells free) (hslot : slot ∈ cells.slots) :
    ∃ node, list.nodes.get? slot = some node := by
  obtain ⟨⟨slot, x⟩, hmem, rfl⟩ := List.mem_map.mp hslot
  obtain ⟨front, back, hsplit⟩ := List.append_of_mem hmem
  exact ⟨_, h.node front slot x back hsplit⟩

theorem Linked.not_mem_slots (h : Linked e list cells free)
    (hslot : list.nodes.get? slot = none) : slot ∉ cells.slots := by
  intro hmem
  obtain ⟨node, hnode⟩ := h.get?_of_mem hmem
  rw [hslot] at hnode
  cases hnode

/-! ## Healthy lists -/

/-- The walk from `start` along the links that lead away from the end `e`
visits `slots`, one after the other, and ends there. -/
def Walk (nodes : Pool (Node α)) (e : End) : (start : Option Slot) → (slots : List Slot) → Prop
  | start, [] => start = none
  | start, slot :: slots =>
      start = some slot ∧ ∃ node, nodes.get? slot = some node ∧ Walk nodes e (node.inward e) slots

/-- A list whose links are as they should be, running through `slots` from
its head to its tail. -/
structure Healthy (list : LinkedList α) (slots : List Slot) : Prop where
  forward : Walk list.nodes .head list.head slots
  backward : Walk list.nodes .tail list.tail slots.reverse
  distinct : slots.Nodup
  count : list.len = slots.length
  /-- The last slot is that of the tail, the first that of the head. -/
  ends : list.head = slots.head? ∧ list.tail = slots.getLast?
  adjacent : ∀ front slot next back, slots = front ++ slot :: next :: back →
    (∃ node, list.nodes.get? slot = some node ∧ node.next = some next)
      ∧ ∃ node, list.nodes.get? next = some node ∧ node.prev = some slot

/-- From any of the cells on, the walk visits the rest of them. -/
theorem Linked.walk (h : Linked e list cells free) {front back : Cells α}
    (hsplit : cells = front ++ back) : Walk list.nodes e (firstSlot back) back.slots := by
  induction back generalizing front with
  | nil => rfl
  | cons cell back ih =>
      have hcell := h.node front cell.1 cell.2 back hsplit
      have hnext : cells = (front ++ [cell]) ++ back := by
        rw [hsplit, List.append_assoc, List.singleton_append]
      refine ⟨rfl, _, hcell, ?_⟩
      rw [Node.inward_between]
      exact ih hnext

theorem Linked.healthy (h : Linked .head list cells free) : list.Healthy cells.slots where
  forward := by
    have hwalk := h.walk (List.nil_append cells).symm
    rwa [← h.near] at hwalk
  backward := by
    have hwalk := h.flip.walk (List.nil_append cells.reverse).symm
    rw [← h.flip.near] at hwalk
    rwa [← slots_reverse]
  distinct := h.distinct
  count := by rw [h.count, slots, List.length_map]
  ends := by
    constructor
    · rw [slots, List.head?_map]
      exact h.near
    · rw [slots, List.getLast?_map]
      exact h.far
  adjacent front slot next back hsplit := by
    obtain ⟨front, rest, hcells, rfl, hrest⟩ := List.map_eq_append_iff.mp hsplit
    obtain ⟨⟨slot, x⟩, rest, rfl, rfl, htail⟩ := List.map_eq_cons_iff.mp hrest
    obtain ⟨⟨next, y⟩, back, rfl, rfl, rfl⟩ := List.map_eq_cons_iff.mp htail
    refine ⟨⟨_, h.node front slot x ((next, y) :: back) hcells, rfl⟩,
      ⟨_, h.node (front ++ [(slot, x)]) next y back (by rw [hcells]; simp), ?_⟩⟩
    rw [lastSlot_concat]
    rfl

theorem Walk.start_eq {nodes : Pool (Node α)} {start : Option Slot} {slots : List Slot}
    (h : Walk nodes e start slots) : start = slots.head? := by
  cases slots with
  | nil => exact h
  | cons slot slots => exact h.1

/-- A node visited on a walk leads on to the slot visited after it. -/
theorem Walk.inward_eq {nodes : Pool (Node α)} {start : Option Slot} {front back : List Slot}
    (h : Walk nodes e start (front ++ slot :: back)) :
    ∃ node, nodes.get? slot = some node ∧ node.inward e = back.head? := by
  induction front generalizing start with
  | nil =>
      obtain ⟨-, node, hnode, hrest⟩ := h
      exact ⟨node, hnode, hrest.start_eq⟩
  | cons first front ih =>
      obtain ⟨-, node, -, hrest⟩ := h
      exact ih hrest

/-- The cells of a healthy list, if its nodes hold `xs` in order. -/
theorem Healthy.laid {slots : List Slot} {xs : List α} (h : list.Healthy slots)
    (hcontents : slots.map (fun slot => (list.nodes.get? slot).map Node.element) = xs.map some) :
    ∃ cells : Cells α, Laid .head list.nodes cells ∧ cells.slots = slots ∧ cells.elements = xs := by
  have hlength : slots.length = xs.length := by
    have := congrArg List.length hcontents
    rwa [List.length_map, List.length_map] at this
  have hslots : Cells.slots (slots.zip xs) = slots := List.map_fst_zip (Nat.le_of_eq hlength)
  have helements : Cells.elements (slots.zip xs) = xs :=
    List.map_snd_zip (Nat.le_of_eq hlength.symm)
  refine ⟨slots.zip xs, ?_, hslots, helements⟩
  intro front slot x back hsplit
  rw [hsplit, slots_append, slots_cons] at hslots
  rw [hsplit, elements_append, elements_cons] at helements
  have hforward := h.forward
  have hbackward := h.backward
  rw [← hslots] at hforward
  rw [← hslots, List.reverse_append, List.reverse_cons, List.append_assoc,
    List.singleton_append] at hbackward
  obtain ⟨node, hnode, hnext⟩ := hforward.inward_eq
  obtain ⟨node', hnode', hprev⟩ := hbackward.inward_eq
  obtain rfl := Option.some.inj (hnode.symm.trans hnode')
  have helement : node.element = x := by
    rw [← hslots, ← helements, List.map_append, List.map_append] at hcontents
    have hcell := (List.append_inj hcontents (by simp [Cells.slots, Cells.elements])).2
    rw [List.map_cons, List.map_cons, hnode] at hcell
    exact Option.some.inj (List.cons.inj hcell).1
  have hfirst : node.next = firstSlot back := hnext.trans List.head?_map
  have hlast : node.prev = lastSlot front := by
    refine hprev.trans ?_
    rw [List.head?_reverse]
    exact List.getLast?_map
  rw [hnode, ← hfirst, ← hlast, ← helement]
  rfl

theorem Walk.exists_elements {nodes : Pool (Node α)} {start : Option Slot} {slots : List Slot}
    (h : Walk nodes e start slots) :
    ∃ xs : List α, slots.map (fun slot => (nodes.get? slot).map Node.element) = xs.map some := by
  induction slots generalizing start with
  | nil => exact ⟨[], rfl⟩
  | cons slot slots ih =>
      obtain ⟨-, node, hnode, hrest⟩ := h
      obtain ⟨xs, hxs⟩ := ih hrest
      refine ⟨node.element :: xs, ?_⟩
      rw [List.map_cons, List.map_cons, hnode, hxs]
      rfl

/-- A healthy list with a valid pool is linked through its slots. -/
theorem Healthy.linked {slots : List Slot} (h : list.Healthy slots)
    (hvalid : list.nodes.Valid free) :
    ∃ cells, Linked .head list cells free ∧ cells.slots = slots := by
  obtain ⟨xs, hxs⟩ := h.forward.exists_elements
  obtain ⟨cells, hlaid, rfl, -⟩ := h.laid hxs
  refine ⟨cells, ⟨hvalid, ?_, ?_, h.distinct, ?_, hlaid⟩, rfl⟩
  · exact h.ends.1.trans List.head?_map
  · exact h.ends.2.trans List.getLast?_map
  · rw [h.count, Cells.slots, List.length_map]

end LinkedList

end LinkedPool
