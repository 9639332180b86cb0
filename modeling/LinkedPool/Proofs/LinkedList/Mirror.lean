import LinkedPool.LinkedList.Operation
import LinkedPool.Proofs.LinkedList.Ledger
import LinkedPool.Proofs.Pool.Map

/-!
# Lists seen in a mirror

The mirror of a list has its nodes in the same slots, with `next` and `prev`
exchanged, and its ends exchanged. What is done to a list at one end is done
to its mirror at the other, and the two stay mirrors of each other. An
operation is a sequence of reads and writes, and most of these are found to
have a counterpart in the mirror whatever the list is like; two that are made
in the opposite order, when a node is unlinked, commute. Only where the two
ends are not treated alike by the source, in positions counted from the head
and in a walk that begins at the head, is it used that the list is as it
should be (`Holds.find_mirror`, `Holds.clear_mirror`).
-/

namespace LinkedPool

open Element

/-! ## Mirrors -/

def Ends.mirror (ends : Ends) : Ends := ⟨ends.tail, ends.head⟩

@[simp] theorem Ends.slotAt_mirror (e : End) (ends : Ends) :
    ends.mirror.slotAt e.opposite = ends.slotAt e := by
  cases e <;> rfl

theorem Ends.set_mirror (e : End) (slot : Option Slot) (ends : Ends) :
    ends.mirror.set e.opposite slot = (ends.set e slot).mirror := by
  cases e <;> rfl

namespace Node

variable {α : Type}

/-- The node with its links exchanged. -/
def mirror (node : Node α) : Node α := { node with next := node.prev, prev := node.next }

@[simp] theorem inward_mirror (e : End) (node : Node α) :
    node.mirror.inward e.opposite = node.inward e := by
  cases e <;> rfl

theorem setOutward_mirror (e : End) (slot : Option Slot) (node : Node α) :
    node.mirror.setOutward e.opposite slot = (node.setOutward e slot).mirror := by
  cases e <;> rfl

theorem mirror_outermost (e : End) (inward : Option Slot) (x : α) :
    (outermost e inward x).mirror = outermost e.opposite inward x := by
  cases e <;> rfl

theorem mirror_between (e : End) (outward inward : Option Slot) (x : α) :
    (between e outward inward x).mirror = between e.opposite outward inward x := by
  cases e <;> rfl

end Node

/-- The same event in the mirror: a node has its neighbours exchanged. -/
def Event.mirror {α : Type} : Event α → Event α
  | .logged (.removed slot prev next) => .logged (.removed slot next prev)
  | event => event

/-- A call that is told in the mirror. -/
def Traced.mirror {α ρ : Type} (call : Traced α ρ) : Traced α ρ :=
  ⟨call.result, call.trace.map Event.mirror⟩

theorem Traced.mirror_bind {α ρ τ : Type} (call : Traced α ρ) {next next' : ρ → Traced α τ}
    (h : ∀ value, next' value = (next value).mirror) :
    call.mirror.bind next' = (call.bind next).mirror := by
  obtain ⟨result, trace⟩ := call
  cases result with
  | error panic => rfl
  | ok value =>
      rw [mirror, bind_ok, bind_ok, h]
      simp [mirror, after]

/-- The list with the links of every node exchanged, and its ends. -/
def LinkedList.mirror {α : Type} (list : LinkedList α) : LinkedList α :=
  { list.toEnds.mirror with nodes := list.nodes.map Node.mirror }

/-- A call on a list that is told in the mirror, and leaves the mirror of the list. -/
def Outcome.mirror {α ρ : Type} (call : Outcome α (LinkedList α) ρ) :
    Outcome α (LinkedList α) ρ :=
  call.toTraced.mirror.leaving call.state.mirror

namespace Outcome

variable {α ρ τ : Type}

theorem mirror_bind (call : Outcome α (LinkedList α) ρ)
    {next next' : LinkedList α → ρ → Outcome α (LinkedList α) τ}
    (h : ∀ list value, next' list.mirror value = (next list value).mirror) :
    call.mirror.bind next' = (call.bind next).mirror := by
  obtain ⟨⟨result, trace⟩, list⟩ := call
  cases result with
  | error panic => rfl
  | ok value =>
      rw [mirror, Traced.mirror, Traced.leaving_mk, bind_ok, bind_ok, h]
      simp [mirror, Traced.mirror, Traced.leaving, after]

end Outcome

namespace LinkedList

variable {α : Type} {list : LinkedList α} {nodes : Pool (Node α)} {e : End}

@[simp] theorem slotAt_mirror (e : End) (list : LinkedList α) :
    list.mirror.slotAt e.opposite = list.slotAt e := Ends.slotAt_mirror e list.toEnds

@[simp] theorem len_mirror (list : LinkedList α) : list.mirror.len = list.len := rfl

/-! ## Appending -/

theorem modify_mirror (e : End) (outer : Slot) (link : Option Slot) (nodes : Pool (Node α)) :
    (nodes.map Node.mirror).modify outer (Node.setOutward e.opposite link)
      = (nodes.modify outer (Node.setOutward e link)).map (Pool.map Node.mirror) :=
  Pool.modify_map (fun node => Node.setOutward_mirror e link node) nodes outer

section Append

variable [Element α]

theorem insertNode_mirror (memory : Memory) (node : Node α) (list : LinkedList α) :
    ((list.mirror.nodes.insert memory node.mirror).relabel Node.element).within
        (fun nodes => { list.mirror with nodes })
      = (((list.nodes.insert memory node).relabel Node.element).within
          fun nodes => { list with nodes }).mirror := by
  rw [Pool.insert, Pool.insert, mirror, Pool.allocate_map rfl]
  cases list.nodes.allocate memory node with
  | error panic => rfl
  | ok taken =>
      cases taken with
      | ok taken => rfl
      | error refusal =>
          rcases discard_cases node with ⟨hcalm, hdrop⟩ | ⟨panic, hpanic, hdrop⟩
          · have hdrop' : Element.discard node.mirror = ⟨.ok (), [.dropped node.mirror]⟩ :=
              discard_of_none hcalm
            simp only [Except.map, hdrop, hdrop']
            rfl
          · have hdrop' : Element.discard node.mirror = ⟨.error panic, [.dropped node.mirror]⟩ :=
              discard_of_some hpanic
            simp only [Except.map, hdrop, hdrop']
            rfl

theorem insertFirst_mirror (memory : Memory) (x : α) (list : LinkedList α) :
    list.mirror.insertFirst memory x = (list.insertFirst memory x).mirror := by
  have hempty : list.mirror.nodes.isEmpty = list.nodes.isEmpty := rfl
  rw [insertFirst, insertFirst, hempty]
  split
  · have hinsert := insertNode_mirror memory (.alone x) list
    rw [show (Node.alone x).mirror = .alone x from rfl] at hinsert
    rw [hinsert]
    refine Outcome.mirror_bind _ ?_
    intro list inserted
    cases inserted <;> rfl
  · rfl

theorem insertBeyond_mirror (memory : Memory) (e : End) (outer : Slot) (x : α)
    (list : LinkedList α) :
    list.mirror.insertBeyond memory e.opposite outer x
      = (list.insertBeyond memory e outer x).mirror := by
  rw [insertBeyond, insertBeyond, ← Node.mirror_outermost, insertNode_mirror]
  refine Outcome.mirror_bind _ ?_
  intro list inserted
  cases inserted with
  | error refusal => rfl
  | ok slot =>
      simp only [mirror, modify_mirror]
      cases list.nodes.modify outer (Node.setOutward e (some slot)) with
      | error panic => rfl
      | ok nodes =>
          simp only [Except.map, Ends.set_mirror]
          rfl

theorem tryAppend_mirror (memory : Memory) (e : End) (x : α) (list : LinkedList α) :
    list.mirror.tryAppend memory e.opposite x = (list.tryAppend memory e x).mirror := by
  rw [tryAppend, tryAppend, slotAt_mirror]
  cases list.slotAt e with
  | none => exact insertFirst_mirror memory x list
  | some outer => exact insertBeyond_mirror memory e outer x list

theorem append_mirror (memory : Memory) (e : End) (x : α) (list : LinkedList α) :
    list.mirror.append memory e.opposite x = (list.append memory e x).mirror := by
  rw [append, append, tryAppend_mirror]
  refine Outcome.mirror_bind _ ?_
  intro list inserted
  cases inserted <;> rfl

end Append

/-! ## Deleting -/

theorem locateWithin_mirror [Element α] (nodes : Pool (Node α)) (e : End) (value : α)
    (fuel : Nat) (start : Option Slot) :
    locateWithin (nodes.map Node.mirror) e.opposite value fuel start
      = (locateWithin nodes e value fuel start).mirror := by
  induction fuel generalizing start with
  | zero => cases start <;> rfl
  | succ fuel ih =>
      cases start with
      | none => rfl
      | some slot =>
          rw [locateWithin, locateWithin, Pool.get_map]
          cases nodes.get slot with
          | error panic => rfl
          | ok node =>
              refine Traced.mirror_bind (compare node.element value) ?_
              intro same
              rw [Node.inward_mirror, ih]
              cases same <;> rfl

theorem relink_mirror (e : End) (link outward : Option Slot) (nodes : Pool (Node α)) :
    relink link (Node.setOutward e.opposite outward) (nodes.map Node.mirror)
      = (relink link (Node.setOutward e outward) nodes).map (Pool.map Node.mirror) := by
  cases link with
  | none => rfl
  | some slot => exact modify_mirror e slot outward nodes

theorem relink_comm {f g : Node α → Node α} (h : ∀ node, f (g node) = g (f node))
    (link link' : Option Slot) (nodes : Pool (Node α)) :
    (relink link f nodes >>= relink link' g) = relink link' g nodes >>= relink link f := by
  cases link with
  | none =>
      show relink link' g nodes = relink link' g nodes >>= Except.ok
      cases relink link' g nodes <;> rfl
  | some slot =>
      cases link' with
      | none =>
          show nodes.modify slot f >>= Except.ok = nodes.modify slot f
          cases nodes.modify slot f <;> rfl
      | some slot' => exact Pool.modify_comm h nodes slot slot'

/-- Both neighbours of a node are linked past it, if there is a node. -/
theorem unlink_eq {slot : Slot} {node : Node α} (h : list.nodes.get slot = .ok node) :
    list.unlink slot
      = (relink node.next (Node.setOutward .head node.prev) list.nodes
          >>= relink node.prev (Node.setOutward .tail node.next)).map fun nodes =>
        (node,
          { head := if list.head = some slot then node.next else list.head
            tail := if list.tail = some slot then node.prev else list.tail
            nodes }) := by
  rw [unlink, h]
  show (relink node.next (Node.setOutward .head node.prev) list.nodes >>= _) = _
  cases relink node.next (Node.setOutward .head node.prev) list.nodes with
  | error panic => rfl
  | ok nodes =>
      show (relink node.prev (Node.setOutward .tail node.next) nodes >>= _)
        = (relink node.prev (Node.setOutward .tail node.next) nodes).map _
      cases relink node.prev (Node.setOutward .tail node.next) nodes <;> rfl

/-- In the mirror the two links are written in the opposite order. -/
theorem unlink_mirror (slot : Slot) (list : LinkedList α) :
    list.mirror.unlink slot
      = (list.unlink slot).map fun unlinked => (unlinked.1.mirror, unlinked.2.mirror) := by
  have hget : list.mirror.nodes.get slot = (list.nodes.get slot).map Node.mirror :=
    Pool.get_map ..
  cases hnode : list.nodes.get slot with
  | error panic =>
      rw [hnode] at hget
      rw [unlink, unlink, hnode, hget]
      rfl
  | ok node =>
      rw [hnode] at hget
      -- What is written second here is written first in the mirror. It may be
      -- the same node, but not the same link of it.
      have hcomm (x : Node α) : (x.setOutward .tail node.next).setOutward .head node.prev
          = (x.setOutward .head node.prev).setOutward .tail node.next := rfl
      have hprev := relink_mirror .tail node.prev node.next list.nodes
      rw [unlink_eq hget, unlink_eq hnode, relink_comm hcomm]
      show ((relink node.prev (Node.setOutward End.tail.opposite node.next)
        (list.nodes.map Node.mirror)) >>= _).map _ = _
      rw [hprev]
      cases relink node.prev (Node.setOutward .tail node.next) list.nodes with
      | error panic => rfl
      | ok nodes =>
          have hnext := relink_mirror .head node.next node.prev nodes
          show (relink node.next (Node.setOutward End.head.opposite node.prev)
            (nodes.map Node.mirror)).map _ = _
          rw [hnext]
          show _ = Except.map _ (Except.map _ (relink node.next _ nodes))
          cases relink node.next (Node.setOutward .head node.prev) nodes <;> rfl

theorem release_mirror (slot : Slot) (nodes : Pool (Node α)) :
    release slot (nodes.map Node.mirror)
      = (release slot nodes).map fun released =>
          (released.1.mirror, released.2.map Node.mirror) := by
  rw [release, release, Pool.vacate_map]
  cases nodes.vacate slot with
  | error panic => rfl
  | ok released => cases released <;> rfl

section Delete

variable [Element α]

theorem remove_mirror (slot : Slot) (list : LinkedList α) :
    list.mirror.remove slot = (list.remove slot).mirror := by
  rw [remove, remove, unlink_mirror]
  cases list.unlink slot with
  | error panic => rfl
  | ok unlinked =>
      obtain ⟨node, unlinked⟩ := unlinked
      refine Outcome.mirror_bind
        ((Traced.log (.removed slot node.prev node.next)).leaving unlinked) ?_
      intro list _
      simp only [mirror, release_mirror]
      cases release slot list.nodes <;> rfl

theorem delete_mirror (e : End) (value : α) (list : LinkedList α) :
    list.mirror.delete e.opposite value = (list.delete e value).mirror := by
  have hlocate : list.mirror.locate e.opposite value = (list.locate e value).mirror := by
    rw [locate, locate, slotAt_mirror, mirror, Pool.slots_map]
    exact locateWithin_mirror list.nodes e value _ _
  rw [delete, delete, hlocate]
  refine Outcome.mirror_bind ((list.locate e value).leaving list) ?_
  intro list found
  cases found with
  | none => rfl
  | some slot =>
      show (list.mirror.remove slot).map _ = _
      rw [remove_mirror]
      rfl

end Delete

/-! ## Looking, and making room -/

theorem outermost?_mirror (e : End) (list : LinkedList α) :
    list.mirror.outermost? e.opposite = list.outermost? e := by
  rw [outermost?, outermost?, slotAt_mirror]
  cases list.slotAt e with
  | none => rfl
  | some slot =>
      simp only [mirror, Pool.get_map]
      cases list.nodes.get slot <;> rfl

theorem reserve_mirror [Element α] (additional : Nat) (list : LinkedList α) :
    list.mirror.reserve additional = (list.reserve additional).map mirror := by
  rw [reserve, reserve, mirror, Pool.reserve_map rfl]
  cases list.nodes.reserve additional <;> rfl

/-! ## The content -/

open Cells

variable {cells : Cells α} {free : List Slot} {content : Content α}

theorem Linked.mirror (h : Linked e list cells free) :
    Linked e.opposite list.mirror cells free where
  valid := h.valid.map Node.mirror
  near := by rw [slotAt_mirror]; exact h.near
  far := by rw [slotAt_mirror]; exact h.far
  distinct := h.distinct
  count := h.count
  node front slot x back hsplit := by
    rw [LinkedList.mirror, Pool.get?_map, h.node front slot x back hsplit, Option.map_some,
      Node.mirror_between]

theorem Detached.mirror (h : list.Detached) : list.mirror.Detached := ⟨h.tail, h.head, h.left⟩

theorem stored_mirror (list : LinkedList α) : list.mirror.stored = list.stored := by
  rw [stored, LinkedList.mirror, Pool.live_map, stored, List.map_map]
  rfl

end LinkedList

/-- A sequence in the mirror is reversed. -/
def Content.mirror {α : Type} : Content α → Content α
  | .linked xs => .linked xs.reverse
  | .detached xs => .detached xs

namespace LinkedList

open Cells

variable {α : Type} {list : LinkedList α} {e : End} {cells : Cells α} {free : List Slot}
  {content : Content α}

theorem Holds.mirror (h : list.Holds content) : list.mirror.Holds content.mirror := by
  cases content with
  | linked xs =>
      obtain ⟨cells, free, hlinked, rfl⟩ := h
      exact hlinked.mirror.holds
  | detached xs =>
      obtain ⟨hdetached, ⟨free, hvalid⟩, hstored⟩ := h
      exact ⟨hdetached.mirror, ⟨free, hvalid.map Node.mirror⟩, stored_mirror list ▸ hstored⟩

/-- From the other end, the mirror lists the elements in the same order. -/
theorem listed_mirror (e : End) (content : Content α) :
    e.opposite.listed content.mirror.reached = e.listed content.reached := by
  cases content with
  | linked xs =>
      cases e with
      | head => exact List.reverse_reverse xs
      | tail => rfl
  | detached xs => cases e <;> rfl

theorem Holds.contents_mirror (h : list.Holds content) (e : End) :
    list.mirror.contents e.opposite = list.contents e := by
  rw [h.mirror.contents, h.contents, listed_mirror]

theorem Holds.isEmpty_mirror (h : list.Holds content) : list.mirror.isEmpty = list.isEmpty := by
  rw [h.mirror.isEmpty, h.isEmpty]
  cases content with
  | linked xs => exact List.isEmpty_reverse
  | detached xs => rfl

/-- A position counted from the head, as it is counted from the tail; the
length stands for "nowhere" from either end. -/
def positionFromTail (len position : Nat) : Nat :=
  if position < len then len - 1 - position else position

theorem position_mirror {len steps : Nat} (e : End) (h : steps < len) :
    e.opposite.position len steps = (e.position len steps).map (positionFromTail len) := by
  rw [End.position_eq e.opposite h, End.position_eq e h]
  cases e with
  | head => simp [Except.map, positionFromTail, h, End.opposite, Cursor.stepsFromFront]
  | tail =>
      have hback : len - 1 - steps < len := by omega
      have hagain : len - 1 - (len - 1 - steps) = steps := by omega
      simp [Except.map, positionFromTail, hback, hagain, End.opposite, Cursor.stepsFromFront]

theorem asked_mirror (value : α) (xs : List α) :
    (asked value xs).map Event.mirror = asked value xs := by
  simp [asked, Event.mirror]

theorem Holds.length_reached_le (h : list.Holds content) (e : End) :
    (e.listed content.reached).length ≤ list.len := by
  rw [h.len, End.length_listed]
  exact content.length_reached_le

variable [Element α]

theorem Holds.find_mirror (h : list.Holds content) (e : End) (value : α) :
    list.mirror.find e.opposite value
      = ⟨(list.find e value).result.map (positionFromTail list.len),
          (list.find e value).trace.map Event.mirror⟩ := by
  rw [h.mirror.find_eq, h.find_eq, listed_mirror, len_mirror]
  have hlength := h.length_reached_le e
  have hsearch := searched value (e.listed content.reached)
  generalize search value (e.listed content.reached) = call at hsearch ⊢
  cases hsearch with
  | found front x back split denied same =>
      have hlt : front.length < list.len := by
        rw [split, List.length_append, List.length_cons] at hlength
        omega
      rw [Traced.bind_ok, Traced.bind_ok]
      simp only [position_mirror e hlt, End.position_eq e hlt]
      simp [Traced.answer, asked_mirror, Except.map]
  | absent denied =>
      rw [Traced.bind_ok, Traced.bind_ok]
      simp [Traced.answer, asked_mirror, Except.map, positionFromTail]
  | panicked front x back panic split denied same =>
      rw [Traced.bind_error, Traced.bind_error]
      simp [asked_mirror, Except.map]

/-- The mirror is cleared in the opposite order, of the same elements. -/
theorem Holds.clear_mirror (h : list.Holds content) (hcalm : Calm (dropsIn list.clear.trace)) :
    list.mirror.clear
      = ⟨⟨list.clear.result, departures (dropsIn list.clear.trace).reverse
            ++ (list.clear.trace.filterMap Event.line?).map .logged⟩,
          list.clear.state.mirror⟩ := by
  cases content with
  | detached xs =>
      rw [h.1.mirror.clear, h.1.clear]
      rfl
  | linked xs =>
      obtain ⟨cells, free, hlinked, -⟩ := h
      have hmirror : Linked .head list.mirror cells.reverse free := hlinked.mirror.flip
      rcases hlinked.clear_cases with
        ⟨hall, hclear⟩ | ⟨front, slot, x, back, panic, nodes', rfl, -, hdrop, -, hclear⟩
      · have hclear' := hmirror.clear_of_calm fun x hx =>
          hall x (List.mem_reverse.mp (elements_reverse cells ▸ hx))
        have hdrops : dropsIn list.clear.trace = cells.elements := by
          rw [hclear, dropsIn_append, dropsIn_departures]
          exact List.append_nil _
        have hlines : list.clear.trace.filterMap Event.line? = [.cleared cells.length] := by
          simp [hclear, departures, Event.line?]
        have hnodes : list.mirror.nodes.cleared = list.nodes.cleared.map Node.mirror := by
          simp [LinkedList.mirror, Pool.cleared, Pool.map]
        rw [hdrops, hlines, hclear', hclear, elements_reverse, List.length_reverse, hnodes]
        rfl
      · -- The drop that stops a clear is one of those that do not panic.
        rw [hclear, dropsIn_departures] at hcalm
        exact absurd hdrop (hcalm.not_panics (by simp))

end LinkedList

/-! ## Operations -/

/-- The operation with head and tail exchanged. -/
def Operation.mirror {α : Type} : Operation α → Operation α
  | .outermost e => .outermost e.opposite
  | .contents e => .contents e.opposite
  | .append memory e x => .append memory e.opposite x
  | .tryAppend memory e x => .tryAppend memory e.opposite x
  | .delete e value => .delete e.opposite value
  | .find e value => .find e.opposite value
  | operation => operation

/-- The operation may be asked for at either end; those that take elements
from a source or yield them one by one are not of this kind. -/
def Operation.TwoEnded {α : Type} : Operation α → Prop
  | .extend .. => False
  | .iterate _ => False
  | _ => True

/-- The answer of a search as it is in the mirror of a list of `len` elements. -/
def Reply.mirror {α : Type} (len : Nat) : Reply α → Reply α
  | .count position => .count (LinkedList.positionFromTail len position)
  | reply => reply

/-- What an operation on the mirror of a list comes to, from what it comes to
on the list: the same result, but for the positions of a search, the same
events but for the links in a log line and the order in which a clear drops
the elements, and the mirror of the list that is left. -/
def Operation.reflect {α : Type} (operation : Operation α)
    (outcome : Outcome α (LinkedList α) (Reply α)) : Outcome α (LinkedList α) (Reply α) :=
  match operation with
  | .find .. => outcome.mirror.map (Reply.mirror outcome.state.len)
  | .clear =>
      { outcome.mirror with
        trace := departures (dropsIn outcome.trace).reverse
          ++ (outcome.trace.filterMap Event.line?).map .logged }
  | _ => outcome.mirror

namespace LinkedList

variable {α : Type} [Element α] {list : LinkedList α} {content : Content α}

omit [Element α] in
theorem reflect_state (operation : Operation α)
    (outcome : Outcome α (LinkedList α) (Reply α)) :
    (operation.reflect outcome).state = outcome.state.mirror := by
  cases operation <;> rfl

/-- One operation on a list, and the one with head and tail exchanged on its mirror. -/
theorem Holds.perform_mirror (h : list.Holds content) {operation : Operation α}
    (hends : operation.TwoEnded)
    (hcalm : operation = .clear → Calm (dropsIn (list.perform operation).trace)) :
    list.mirror.perform operation.mirror = operation.reflect (list.perform operation) := by
  cases operation with
  | len => rfl
  | isEmpty =>
      show (Traced.answer (Reply.flag list.mirror.isEmpty)).leaving list.mirror = _
      rw [h.isEmpty_mirror]
      rfl
  | outermost e =>
      rw [Operation.mirror, perform, outermost?_mirror]
      rfl
  | contents e =>
      rw [Operation.mirror, perform, h.contents_mirror]
      rfl
  | append memory e x =>
      rw [Operation.mirror, perform, append_mirror]
      rfl
  | tryAppend memory e x =>
      rw [Operation.mirror, perform, tryAppend_mirror]
      rfl
  | delete e value =>
      rw [Operation.mirror, perform, delete_mirror]
      rfl
  | find e value =>
      rw [Operation.mirror, perform, h.find_mirror, perform]
      cases list.find e value with
      | mk result trace => cases result <;> rfl
  | clear =>
      show list.mirror.clear.map _ = _
      rw [h.clear_mirror (hcalm rfl)]
      rfl
  | reserve additional =>
      have hreserve := reserve_mirror additional list
      cases hroom : list.reserve additional with
      | error panic =>
          rw [hroom] at hreserve
          show list.mirror.perform (.reserve additional) = _
          simp only [perform, hroom, hreserve]
          rfl
      | ok list' =>
          rw [hroom] at hreserve
          show list.mirror.perform (.reserve additional) = _
          simp only [perform, hroom, hreserve]
          rfl
  | extend memory source => exact hends.elim
  | iterate script => exact hends.elim

/-- No element panics as a clear drops it, in a run. -/
def CalmClears (list : LinkedList α) (operations : List (Operation α)) : Prop :=
  ∀ step ∈ operations.zip (list.performAll operations),
    step.1 = .clear → Calm (dropsIn step.2.trace)

theorem Holds.performAll_mirror (h : list.Holds content) {operations : List (Operation α)}
    (hends : ∀ operation ∈ operations, operation.TwoEnded)
    (hcalm : list.CalmClears operations) :
    list.mirror.performAll (operations.map Operation.mirror)
      = List.zipWith Operation.reflect operations (list.performAll operations) := by
  induction operations generalizing list content with
  | nil => rfl
  | cons operation operations ih =>
      -- What the step leaves holds something again, so that the rest of the
      -- run is one on its mirror.
      have hfirst := h.perform_mirror (hends operation (List.mem_cons_self ..))
        (hcalm (operation, list.perform operation) (List.mem_cons_self ..))
      obtain ⟨content', ⟨hholds, -⟩, -⟩ := h.perform_kept operation
      have hrest := ih hholds (fun operation hmem => hends operation (List.mem_cons_of_mem _ hmem))
        (fun step hstep => hcalm step (List.mem_cons_of_mem _ hstep))
      rw [List.map_cons, performAll, performAll, List.zipWith_cons_cons, hfirst, reflect_state,
        hrest]

end LinkedList

end LinkedPool
