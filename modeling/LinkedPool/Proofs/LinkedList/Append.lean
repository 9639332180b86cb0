import LinkedPool.LinkedList.Append
import LinkedPool.Proofs.LinkedList.Linked
import LinkedPool.Proofs.Pool.Ownership

/-!
# Appending to a linked list

An element appended at an end of a linked list becomes the first of its
cells from that end, in a slot that held nothing; or there is no slot for
it, and it is dropped with the list as it was (`Linked.tryAppend_cases`). A
list that is detached refuses every element (`Detached.tryAppend`).
-/

namespace LinkedPool.LinkedList

open Cells

variable {α : Type} {e : End} {list : LinkedList α} {cells : Cells α} {free : List Slot}
  {slot : Slot} {x : α}

/-- A new cell in front of the others: the pool holds a node for it, and in
the slot of the former first cell a node that links back to it. -/
theorem Linked.cons {list' : LinkedList α} {free' : List Slot} (h : Linked e list cells free)
    (hvalid : list'.nodes.Valid free') (hlen : list'.len = list.len + 1)
    (hnear : list'.slotAt e = some slot)
    (hfar : list'.slotAt e.opposite = lastSlot ((slot, x) :: cells))
    (hslot : slot ∉ cells.slots)
    (hnew : list'.nodes.get? slot = some (.between e none (firstSlot cells) x))
    (hfirst : ∀ outer y rest, cells = (outer, y) :: rest →
      list'.nodes.get? outer = some (.between e (some slot) (firstSlot rest) y))
    (hothers : ∀ other, other ≠ slot → firstSlot cells ≠ some other →
      list'.nodes.get? other = list.nodes.get? other) :
    Linked e list' ((slot, x) :: cells) free' where
  valid := hvalid
  near := hnear
  far := hfar
  distinct := List.nodup_cons.mpr ⟨hslot, h.distinct⟩
  count := by rw [hlen, h.count, List.length_cons]
  node front other y back hsplit := by
    cases front with
    | nil =>
        obtain ⟨hcell, rfl⟩ := List.cons.inj hsplit
        obtain ⟨rfl, rfl⟩ := Prod.mk.inj hcell
        exact hnew
    | cons cell front =>
        obtain ⟨rfl, hcells⟩ := List.cons.inj hsplit
        cases front with
        | nil => exact hfirst other y back hcells
        | cons first front =>
            -- Beyond the former first cell nothing was written to.
            have hmem : other ∈ slots (first :: front ++ (other, y) :: back) := by simp
            have hdistinct := h.distinct
            rw [hcells] at hdistinct hslot
            have hne : other ≠ first.1 := by
              rintro rfl
              exact (List.nodup_cons.mp hdistinct).1 (by simp)
            rw [lastSlot_cons_cons, ← h.node (first :: front) other y back hcells]
            refine hothers other (fun heq => hslot (heq ▸ hmem)) ?_
            intro heq
            rw [hcells] at heq
            exact hne (Option.some.inj heq).symm

/-! ## The operations -/

variable [Element α] {memory : Memory}

theorem dropPanic_node (node : Node α) :
    Element.dropPanic node = Element.dropPanic node.element := rfl

theorem discard_node (node : Node α) :
    (Element.discard node).relabel Node.element = Element.discard node.element := by
  simp [Element.discard, Element.discardAll, Traced.relabel, Event.map, dropPanic_node]

/-- The lines of an insertion into `slot` before `cells`: only the first
element of a list is worth one. -/
def insertionLines (slot : Slot) (cells : Cells α) : List (Event α) :=
  if cells.isEmpty then [.logged (.insertedFirst slot)] else []

/-- Storing a node for `x`: it gets a slot, or `x` is dropped and the list
is as before. -/
theorem insertNode_cases (h : list.nodes.Valid free) (memory : Memory) (node : Node α) :
    (∃ refusal, free = []
        ∧ Capacity.grow (Node α) memory list.nodes.capacity (list.nodes.slots + 1) = .error refusal
        ∧ ((list.nodes.insert memory node).relabel Node.element).within
            (fun nodes => { list with nodes })
          = ((Element.discard node.element).leaving list).map fun _ => .error refusal)
      ∨ ∃ slot nodes free',
        ((list.nodes.insert memory node).relabel Node.element).within
            (fun nodes => { list with nodes })
          = ⟨⟨.ok (.ok slot), []⟩, { list with nodes }⟩
        ∧ Pool.Inserted memory node list.nodes free slot nodes free' := by
  rcases Pool.insert_cases h memory node with
    ⟨refusal, hfree, hgrow, hinsert⟩ | ⟨slot, nodes, free', hinsert, hnodes⟩
  · refine .inl ⟨refusal, hfree, hgrow, ?_⟩
    rw [hinsert, ← discard_node]
    rcases Element.discard_cases node with ⟨-, hdrop⟩ | ⟨panic, -, hdrop⟩ <;> rw [hdrop] <;> rfl
  · exact .inr ⟨slot, nodes, free', by rw [hinsert]; rfl, hnodes⟩

/-- A refused element is dropped, and the refusal is the answer. -/
theorem bind_of_refused {refusal : GrowthError}
    {next : LinkedList α → Except GrowthError Slot →
      Outcome α (LinkedList α) (Except InsertError Unit)}
    (hnext : next list (.error refusal)
      = (Traced.answer (.error (.outOfMemory refusal))).leaving list) :
    (((Element.discard x).leaving list).map fun _ => .error refusal).bind next
      = ((Element.discard x).leaving list).map fun _ => .error (.outOfMemory refusal) := by
  rcases Element.discard_cases x with ⟨-, hdrop⟩ | ⟨panic, -, hdrop⟩
  · rw [hdrop]
    simp [hnext, Traced.answer]
  · rw [hdrop]
    simp

/-- A stored node is linked to the one that was outermost, and that one to it. -/
theorem Linked.linkBeyond {outer : Slot} {y : α} {rest : Cells α} {nodes : Pool (Node α)}
    {free' : List Slot} (h : Linked e list ((outer, y) :: rest) free)
    (hnodes : Pool.Inserted memory (.outermost e (some outer) x) list.nodes free slot nodes free') :
    ∃ linked, nodes.modify outer (Node.setOutward e (some slot)) = .ok linked
      ∧ linked.slots = nodes.slots ∧ linked.capacity = nodes.capacity
      ∧ Linked e { list.toEnds.set e (some slot) with nodes := linked }
          ((slot, x) :: (outer, y) :: rest) free' := by
  have hslot := h.not_mem_slots hnodes.absent
  have hne : outer ≠ slot := fun heq => hslot (heq ▸ List.mem_cons_self ..)
  have houter : nodes.get? outer = some (.between e none (firstSlot rest) y) := by
    rw [hnodes.view, Function.update_of_ne hne]
    exact h.node [] outer y rest rfl
  have hlt : outer < nodes.slots := Pool.lt_slots_of_get? houter
  refine ⟨nodes.put outer (.between e (some slot) (firstSlot rest) y), ?_, Pool.slots_put ..,
    rfl, ?_⟩
  · rw [Pool.modify, Pool.get_of_get? houter]
    exact congrArg (fun node => Except.ok (nodes.put outer node)) (Node.setOutward_between ..)
  · refine h.cons (hnodes.valid.put houter _) hnodes.len ?_ ?_ hslot ?_ ?_ ?_
    · exact Ends.slotAt_set_self ..
    · rw [lastSlot_cons_cons, ← h.far]
      exact Ends.slotAt_set_opposite ..
    · rw [Pool.get?_put hlt, Function.update_of_ne hne.symm, hnodes.view, Function.update_self,
        Node.outermost_eq]
      rfl
    · intro outer' y' rest' hcells
      obtain ⟨hcell, rfl⟩ := List.cons.inj hcells
      obtain ⟨rfl, rfl⟩ := Prod.mk.inj hcell
      rw [Pool.get?_put hlt, Function.update_self]
    · intro other hother houtermost
      rw [Pool.get?_put hlt, Function.update_of_ne fun heq => houtermost (congrArg some heq.symm),
        hnodes.view, Function.update_of_ne hother]

theorem Linked.tryAppend_cases (h : Linked e list cells free) (memory : Memory) (x : α) :
    (∃ refusal, free = []
        ∧ Capacity.grow (Node α) memory list.nodes.capacity (list.nodes.slots + 1) = .error refusal
        ∧ list.tryAppend memory e x
          = ((Element.discard x).leaving list).map fun _ => .error (.outOfMemory refusal))
      ∨ ∃ slot list' free',
        list.tryAppend memory e x = ⟨⟨.ok (.ok ()), insertionLines slot cells⟩, list'⟩
        ∧ Linked e list' ((slot, x) :: cells) free'
        ∧ Pool.Obtained memory list.nodes free slot list'.nodes free' := by
  cases cells with
  | nil =>
      have hempty : list.nodes.isEmpty = true := by
        simp only [Pool.isEmpty, beq_iff_eq]
        exact h.count
      rw [tryAppend, h.near]
      simp only [firstSlot_nil, insertFirst, hempty, if_true]
      rcases insertNode_cases h.valid memory (.alone x) with
        ⟨refusal, hfree, hgrow, hinsert⟩ | ⟨slot, nodes, free', hinsert, hnodes⟩
      · refine .inl ⟨refusal, hfree, hgrow, ?_⟩
        rw [hinsert]
        exact bind_of_refused rfl
      · refine .inr ⟨slot, { head := some slot, tail := some slot, nodes }, free', ?_, ?_,
          hnodes.obtained⟩
        · rw [hinsert]
          rfl
        · refine h.cons hnodes.valid hnodes.len ?_ ?_ (h.not_mem_slots hnodes.absent) ?_ ?_ ?_
          · cases e <;> rfl
          · cases e <;> rfl
          · rw [hnodes.view, Function.update_self, Node.alone_eq e]
            rfl
          · intro outer y rest hcells
            cases hcells
          · intro other hother _
            rw [hnodes.view, Function.update_of_ne hother]
  | cons cell rest =>
      obtain ⟨outer, y⟩ := cell
      rw [tryAppend, h.near]
      simp only [firstSlot_cons, insertBeyond]
      rcases insertNode_cases h.valid memory (.outermost e (some outer) x) with
        ⟨refusal, hfree, hgrow, hinsert⟩ | ⟨slot, nodes, free', hinsert, hnodes⟩
      · refine .inl ⟨refusal, hfree, hgrow, ?_⟩
        rw [hinsert]
        cases e <;> exact bind_of_refused rfl
      · obtain ⟨linked, hmodify, hslots, hcapacity, hlinked⟩ := h.linkBeyond hnodes
        refine .inr ⟨slot, _, free', ?_, hlinked, hnodes.obtained.congr hslots hcapacity⟩
        rw [hinsert]
        simp [hmodify, insertionLines, Traced.answer]

/-- An element that is not taken is dropped; then the reason is raised. -/
def rejecting (error : InsertError) (x : α) (list : LinkedList α) : Outcome α (LinkedList α) Unit :=
  ((Element.discard x).leaving list).bind fun list _ =>
    (Traced.raise (.insertion error)).leaving list

theorem append_of_tryAppend {error : InsertError} {lines : List (Event α)}
    (h : list.tryAppend memory e x
      = (((Element.discard x).leaving list).map fun _ => .error error).after lines) :
    list.append memory e x = (rejecting error x list).after lines := by
  rw [append, h, Outcome.after_bind, rejecting]
  rcases Element.discard_cases x with ⟨-, hdrop⟩ | ⟨panic, -, hdrop⟩ <;> rw [hdrop] <;> rfl

theorem Linked.append_cases (h : Linked e list cells free) (memory : Memory) (x : α) :
    (∃ refusal, free = []
        ∧ Capacity.grow (Node α) memory list.nodes.capacity (list.nodes.slots + 1) = .error refusal
        ∧ list.append memory e x = rejecting (.outOfMemory refusal) x list)
      ∨ ∃ slot list' free',
        list.append memory e x = ⟨⟨.ok (), insertionLines slot cells⟩, list'⟩
        ∧ Linked e list' ((slot, x) :: cells) free'
        ∧ Pool.Obtained memory list.nodes free slot list'.nodes free' := by
  rcases h.tryAppend_cases memory x with
    ⟨refusal, hfree, hgrow, htry⟩ | ⟨slot, list', free', htry, hlinked, hslot⟩
  · rw [← Outcome.after_nil (Outcome.map _ _)] at htry
    exact .inl ⟨refusal, hfree, hgrow, append_of_tryAppend htry⟩
  · refine .inr ⟨slot, list', free', ?_, hlinked, hslot⟩
    rw [append, htry]
    simp [Traced.answer]

/-! ## Detached lists -/

omit [Element α] in
theorem Detached.slotAt (h : list.Detached) (e : End) : list.slotAt e = none := by
  cases e with
  | head => exact h.head
  | tail => exact h.tail

theorem Detached.tryAppend (h : list.Detached) (memory : Memory) (e : End) (x : α) :
    list.tryAppend memory e x
      = (((Element.discard x).leaving list).map fun _ => .error (.notEmpty list.len)).after
          [.logged (.refusedFirst list.len)] := by
  have hfull : ¬list.nodes.isEmpty = true := by
    simp only [Pool.isEmpty, beq_iff_eq]
    exact Nat.ne_of_gt h.left
  rw [LinkedList.tryAppend, h.slotAt e]
  simp only [insertFirst, if_neg hfull]
  rfl

theorem Detached.append (h : list.Detached) (memory : Memory) (e : End) (x : α) :
    list.append memory e x
      = (rejecting (.notEmpty list.len) x list).after [.logged (.refusedFirst list.len)] :=
  append_of_tryAppend (h.tryAppend memory e x)

end LinkedPool.LinkedList
