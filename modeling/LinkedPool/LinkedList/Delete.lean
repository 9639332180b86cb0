import LinkedPool.LinkedList.Basic

/-!
# Deleting

Deleting by value walks from an end along the inward links, asking each
element whether it equals the value, and removes the first that does. The
node is unlinked from its neighbours first, then its slot is vacated, and
its element is dropped last: a drop that panics leaves the deletion in force.

A walk of more steps than the pool has slots has come to some slot twice.
From there on it repeats itself, so that it is known to have no end.
-/

namespace LinkedPool.LinkedList

variable {α : Type}

/-- The pool with the node in `slot`, if there is a slot, changed by `f`. -/
def relink (slot : Option Slot) (f : Node α → Node α) (nodes : Pool (Node α)) :
    Except Panic (Pool (Node α)) :=
  match slot with
  | none => .ok nodes
  | some slot => nodes.modify slot f

/-- Joins the neighbours of the node in `slot` with each other. The node
stays in its slot, and its links tell where it was. -/
def unlink (slot : Slot) (list : LinkedList α) : Except Panic (Node α × LinkedList α) := do
  let node ← list.nodes.get slot
  let nodes ← relink node.next (fun next => { next with prev := node.prev }) list.nodes
  let nodes ← relink node.prev (fun prev => { prev with next := node.next }) nodes
  return (node,
    { head := if list.head = some slot then node.next else list.head
      tail := if list.tail = some slot then node.prev else list.tail
      nodes })

variable [Element α]

/-- Walks from `start` along the links that lead away from the end `e` to
the first element that equals `value`, in `fuel` steps at most. -/
def locateWithin (nodes : Pool (Node α)) (e : End) (value : α) :
    (fuel : Nat) → (start : Option Slot) → Traced α (Option Slot)
  | _, none => .answer none
  | 0, some _ => .raise .endlessWalk
  | fuel + 1, some slot => do
      let node ← Traced.ofExcept (nodes.get slot)
      if ← Element.compare node.element value then
        return some slot
      else
        locateWithin nodes e value fuel (node.inward e)

/-- The slot of the first element, from the end `e`, that equals `value`. -/
def locate (e : End) (value : α) (list : LinkedList α) : Traced α (Option Slot) :=
  locateWithin list.nodes e value (list.nodes.slots + 1) (list.slotAt e)

/-- Removes the node in `slot`, which must hold one of the list's. -/
def remove (slot : Slot) (list : LinkedList α) : Outcome α (LinkedList α) Unit :=
  match list.unlink slot with
  | .error panic => (Traced.raise panic).leaving list
  | .ok (node, list) =>
      ((Traced.log (.removed slot node.prev node.next)).leaving list).bind fun list _ =>
        match release slot list.nodes with
        | .error panic => (Traced.raise panic).leaving list
        | .ok (node, nodes) => (Element.discard node.element).leaving { list with nodes }

/-- Removes the first element, from the end `e`, that equals `value`, and
says whether there is one. -/
def delete (e : End) (value : α) (list : LinkedList α) : Outcome α (LinkedList α) Bool :=
  ((list.locate e value).leaving list).bind fun list found =>
    match found with
    | none => (Traced.answer false).leaving list
    | some slot => (list.remove slot).map fun _ => true

end LinkedPool.LinkedList
