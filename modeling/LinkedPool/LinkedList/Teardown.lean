import LinkedPool.LinkedList.Basic

/-!
# Taking a list apart

A list ends in one of three ways. `clear` empties it: the ends are given up
first, then the nodes are released one by one from the head to the tail.
`discard` drops it as it is, its elements in the order of their slots.
`destroy` clears it, and then drops what is left.

A drop that panics stops `clear` in its tracks. The nodes not yet reached
stay in the pool, but the list has no ends and will never come to them
again; they go when the list is dropped.
-/

namespace LinkedPool.LinkedList

variable {α : Type} [Element α]

/-- Releases nodes from `start` along the links that lead to the tail, in
`fuel` steps at most, and counts them. -/
def releaseWithin : (fuel : Nat) → (start : Option Slot) → Pool (Node α) →
    Outcome α (Pool (Node α)) Nat
  | _, none, nodes => (Traced.answer 0).leaving nodes
  | 0, some _, nodes => (Traced.raise .endlessWalk).leaving nodes
  | fuel + 1, some slot, nodes =>
      match release slot nodes with
      | .error panic => (Traced.raise panic).leaving nodes
      | .ok (node, nodes) =>
          ((Element.discard node.element).leaving nodes).bind fun nodes _ =>
            (releaseWithin fuel node.next nodes).map (· + 1)

/-- Drops every element, from the head to the tail. -/
def clear (list : LinkedList α) : Outcome α (LinkedList α) Unit :=
  (releaseWithin (list.nodes.slots + 1) list.head list.nodes).within
      (fun nodes => { Ends.none with nodes })
    |>.bind fun list released =>
      if list.nodes.isEmpty then
        (list.nodes.clear.relabel Node.element).within (fun nodes => { list with nodes })
          |>.bind fun list _ => (Traced.log (.cleared released)).leaving list
      else
        (Traced.raise .nodesLeft).leaving list

/-- Drops a list with all its elements. -/
def discard (list : LinkedList α) : Traced α Unit := Element.discardAll list.stored

/-- Clears a list, and drops what is left of it. -/
def destroy (list : LinkedList α) : Traced α Unit :=
  let cleared := list.clear
  match cleared.result with
  | .ok () => cleared.state.discard.after cleared.trace
  | .error _ => cleared.toTraced.onPanic (Element.departures cleared.state.stored)

/-- A list with a copy of each element in the same slot, and the same links. -/
def clone (list : LinkedList α) : Traced α (LinkedList α) :=
  (list.nodes.clone.relabel Node.element).bind fun nodes => .answer { list with nodes }

end LinkedPool.LinkedList
