import LinkedPool.Pool.Ownership

/-!
# Lists linked through a pool

A list is a pool of nodes with the slots of its two ends. Each node names
the slots of its neighbours, `prev` towards the head and `next` towards the
tail. The count of the pool is the length of the list.

Most of what a list does it does from either end alike. So links are named
from the end in hand: from an end, a node's *inward* link leads away from
that end and its *outward* link back to it. Whatever is stated for `e` then
holds for both ends, and exchanging head and tail exchanges `next` and
`prev` with them.
-/

namespace LinkedPool

/-- The two ends of a list. -/
inductive End where
  | head
  | tail
deriving Repr, DecidableEq

/-- The other end. -/
def End.opposite : End → End
  | .head => .tail
  | .tail => .head

@[simp] theorem End.opposite_opposite (e : End) : e.opposite.opposite = e := by
  cases e <;> rfl

theorem End.opposite_ne (e : End) : e.opposite ≠ e := by
  cases e <;> exact End.noConfusion

/-- The slots at the two ends of a list, if it has ends. -/
structure Ends where
  head : Option Slot
  tail : Option Slot
deriving Repr, DecidableEq

namespace Ends

/-- No ends. -/
def none : Ends := ⟨.none, .none⟩

/-- The slot at an end. -/
def slotAt (e : End) (ends : Ends) : Option Slot :=
  match e with
  | .head => ends.head
  | .tail => ends.tail

/-- The ends with the slot at one of them replaced. -/
def set (e : End) (slot : Option Slot) (ends : Ends) : Ends :=
  match e with
  | .head => { ends with head := slot }
  | .tail => { ends with tail := slot }

@[simp] theorem slotAt_set_self (e : End) (slot : Option Slot) (ends : Ends) :
    (ends.set e slot).slotAt e = slot := by
  cases e <;> rfl

@[simp] theorem slotAt_set_opposite (e : End) (slot : Option Slot) (ends : Ends) :
    (ends.set e slot).slotAt e.opposite = ends.slotAt e.opposite := by
  cases e <;> rfl

end Ends

/-- An element with links to its neighbours. -/
structure Node (α : Type) where
  next : Option Slot
  prev : Option Slot
  element : α
deriving Repr, DecidableEq

namespace Node

variable {α : Type}

/-- The link that leads away from the end `e`. -/
def inward (e : End) (node : Node α) : Option Slot :=
  match e with
  | .head => node.next
  | .tail => node.prev

/-- The node with the link that leads towards the end `e` replaced. -/
def setOutward (e : End) (slot : Option Slot) (node : Node α) : Node α :=
  match e with
  | .head => { node with prev := slot }
  | .tail => { node with next := slot }

/-- The node at the end `e` of a list, before the node in the slot `inward`. -/
def outermost (e : End) (inward : Option Slot) (element : α) : Node α :=
  match e with
  | .head => { next := inward, prev := none, element }
  | .tail => { next := none, prev := inward, element }

/-- The only node of a list. -/
def alone (element : α) : Node α := { next := none, prev := none, element }

@[simp] theorem element_setOutward (e : End) (slot : Option Slot) (node : Node α) :
    (node.setOutward e slot).element = node.element := by
  cases e <;> rfl

@[simp] theorem inward_setOutward (e : End) (slot : Option Slot) (node : Node α) :
    (node.setOutward e slot).inward e = node.inward e := by
  cases e <;> rfl

@[simp] theorem inward_opposite_setOutward (e : End) (slot : Option Slot) (node : Node α) :
    (node.setOutward e slot).inward e.opposite = slot := by
  cases e <;> rfl

end Node

/-- Nodes do as their elements do; a copy of a node has the same links. -/
instance {α : Type} [Element α] : Element (Node α) where
  slotBytes := Stored.nodeBytes α
  nodeBytes := Stored.nodeBytes α + 32
  link_fits := Nat.le_trans (by decide) Stored.links_fit
  links_fit := Nat.le_add_left ..
  equal left right := Element.equal left.element right.element
  clone node := (Element.clone node.element).map fun element => { node with element }
  dropPanic node := Element.dropPanic node.element

/-- A list of elements: the slots of its ends, and its nodes. -/
structure LinkedList (α : Type) extends Ends where
  nodes : Pool (Node α)
deriving Repr, DecidableEq

namespace LinkedList

variable {α : Type}

/-- The list with no elements, and no memory for any. -/
def empty : LinkedList α := { Ends.none with nodes := .empty }

/-- The list with no elements, and memory for `n`. -/
def withCapacity [Element α] (n : Nat) : Except Panic (LinkedList α) := do
  let nodes ← Pool.withCapacity n
  return { Ends.none with nodes }

/-- The number of elements. -/
def len (list : LinkedList α) : Nat := list.nodes.len

/-- Whether the list has no first element. -/
def isEmpty (list : LinkedList α) : Bool := list.head.isNone

/-- The element at an end. -/
def outermost? (e : End) (list : LinkedList α) : Except Panic (Option α) :=
  match list.slotAt e with
  | none => .ok none
  | some slot => do
      let node ← list.nodes.get slot
      return some node.element

/-- The elements in the order of their slots. -/
def stored (list : LinkedList α) : List α := list.nodes.live.map Node.element

/-- Makes room for `additional` more elements. -/
def reserve [Element α] (additional : Nat) (list : LinkedList α) : Except Panic (LinkedList α) := do
  let nodes ← list.nodes.reserve additional
  return { list with nodes }

/-- Takes the node out of `slot`, which must hold one. -/
def release (slot : Slot) (nodes : Pool (Node α)) :
    Except Panic (Node α × Pool (Node α)) := do
  match ← nodes.vacate slot with
  | some released => return released
  | none => throw (.slotVacant slot)

end LinkedList

end LinkedPool
