import LinkedPool.Proofs.Cursor.Frame
import LinkedPool.Proofs.LinkedList.Clone
import LinkedPool.Proofs.LinkedList.Extend
import LinkedPool.Proofs.Pool.Ahead

/-!
# Lists that have their slots in advance

Two lists are alike but for slots that the first has in advance if they have
the same ends and the pool of the first is ahead of that of the second. What
is written to one of them is written to the other, in the same order and to
the same slots, so that they stay alike, and what is read from one is read
from the other. The storage itself shows in two places only: a walk along the
links is given as many steps as there are slots, which is more than it needs
in either list, and an insertion may fail for want of room, which is
excluded here (`Starves`).
-/

namespace LinkedPool.LinkedList

open Cells Element

variable {α : Type} {e : End} {list list' other other' : LinkedList α} {cells : Cells α}
  {free : List Slot} {content : Content α} {nodes nodes' : Pool (Node α)} {slot : Slot}
  {memory : Memory}

/-- The same ends, and the pool of `list` has slots in advance of that of `other`. -/
structure Ahead (list other : LinkedList α) : Prop where
  ends : list.toEnds = other.toEnds
  nodes : list.nodes.Ahead other.nodes

theorem ahead_withCapacity [Element α] {n : Nat} (h : withCapacity n = .ok list) :
    list.Ahead empty := by
  unfold withCapacity at h
  obtain ⟨nodes, hnodes, h⟩ := exists_of_bind_eq_ok h
  cases h
  exact ⟨rfl, (Pool.Begun.withCapacity hnodes).ahead⟩

theorem Holds.ahead (h : list.Holds content) : list.Ahead list := by
  obtain ⟨free, hvalid⟩ := h.valid
  exact ⟨rfl, hvalid.ahead⟩

namespace Ahead

theorem slotAt (h : list.Ahead other) (e : End) : list.slotAt e = other.slotAt e :=
  congrArg (Ends.slotAt e) h.ends

theorem len (h : list.Ahead other) : list.len = other.len := h.nodes.len

theorem stored (h : list.Ahead other) : list.stored = other.stored := by
  rw [LinkedList.stored, LinkedList.stored, h.nodes.live]

theorem withNodes (h : list.Ahead other) (hnodes : nodes.Ahead nodes') :
    Ahead { list with nodes } { other with nodes := nodes' } :=
  ⟨h.ends, hnodes⟩

/-! ## The content -/

theorem linked (h : list.Ahead other) (hlinked : Linked e list cells free) :
    ∃ free', Linked e other cells free' := by
  obtain ⟨extra, free', hleads⟩ := h.nodes
  refine ⟨free', hleads.behind, h.slotAt e ▸ hlinked.near, h.slotAt e.opposite ▸ hlinked.far,
    hlinked.distinct, h.len ▸ hlinked.count, ?_⟩
  rw [← hleads.view]
  exact hlinked.node

theorem detached (h : list.Ahead other) (hdetached : list.Detached) : other.Detached :=
  ⟨(h.slotAt .head).symm.trans hdetached.head, (h.slotAt .tail).symm.trans hdetached.tail,
    h.len ▸ hdetached.left⟩

theorem holds (h : list.Ahead other) (hholds : list.Holds content) : other.Holds content := by
  cases content with
  | linked xs =>
      obtain ⟨cells, free, hlinked, rfl⟩ := hholds
      obtain ⟨free', hlinked'⟩ := h.linked hlinked
      exact ⟨cells, free', hlinked', rfl⟩
  | detached xs =>
      obtain ⟨extra, free', hleads⟩ := h.nodes
      exact ⟨h.detached hholds.1, ⟨free', hleads.behind⟩, h.stored ▸ hholds.2.2⟩

end Ahead

/-! ## Appending -/

theorem not_detached_of_isEmpty (h : list.nodes.isEmpty = true) : ¬list.Detached := by
  intro hdetached
  have hleft := hdetached.left
  rw [LinkedList.len, beq_iff_eq.mp h] at hleft
  exact Nat.lt_irrefl 0 hleft

theorem not_detached_of_slotAt (h : list.slotAt e = some slot) : ¬list.Detached := by
  intro hdetached
  cases h.symm.trans (hdetached.slotAt e)

variable [Element α]

/-- There is no slot for another element, and the list would take one. -/
def Starved (memory : Memory) (list : LinkedList α) : Prop :=
  ¬list.Detached ∧ list.nodes.Full memory

instance (memory : Memory) (list : LinkedList α) : Decidable (Starved memory list) :=
  inferInstanceAs (Decidable (_ ∧ _))

theorem Ahead.insertNode (h : list.Ahead other) (hroom : ¬list.nodes.Full memory)
    (hroom' : ¬other.nodes.Full memory) (node : Node α) :
    Outcome.Paired Eq Ahead
      (((list.nodes.insert memory node).relabel Node.element).within
        fun nodes => { list with nodes })
      (((other.nodes.insert memory node).relabel Node.element).within
        fun nodes => { other with nodes }) :=
  ((h.nodes.insert hroom hroom' node).relabel Node.element).within fun _ _ => h.withNodes

theorem Ahead.insertFirst (h : list.Ahead other) (hroom : ¬Starved memory list)
    (hroom' : ¬Starved memory other) (x : α) :
    Outcome.Paired Eq Ahead (list.insertFirst memory x) (other.insertFirst memory x) := by
  rw [LinkedList.insertFirst, LinkedList.insertFirst, ← h.len, ← h.nodes.isEmpty]
  split
  · rename_i hempty
    have hempty' : other.nodes.isEmpty = true := h.nodes.isEmpty ▸ hempty
    refine (h.insertNode (fun hfull => hroom ⟨not_detached_of_isEmpty hempty, hfull⟩)
      (fun hfull => hroom' ⟨not_detached_of_isEmpty hempty', hfull⟩) _).bind ?_
    rintro list' other' inserted inserted' hahead rfl
    cases inserted with
    | error refusal => exact Outcome.paired_leaving _ hahead
    | ok slot => exact (Outcome.paired_leaving _ ⟨rfl, hahead.nodes⟩).map_eq _
  · refine (Outcome.paired_leaving _ h).bind ?_
    rintro list' other' - - hahead -
    rw [← hahead.len]
    exact (Outcome.paired_leaving _ hahead).map_eq _

theorem Ahead.insertBeyond (h : list.Ahead other) (hroom : ¬list.nodes.Full memory)
    (hroom' : ¬other.nodes.Full memory) (e : End) (outer : Slot) (x : α) :
    Outcome.Paired Eq Ahead (list.insertBeyond memory e outer x)
      (other.insertBeyond memory e outer x) := by
  rw [LinkedList.insertBeyond, LinkedList.insertBeyond]
  refine (h.insertNode hroom hroom' _).bind ?_
  rintro list' other' inserted inserted' hahead rfl
  cases inserted with
  | error refusal => exact Outcome.paired_leaving _ hahead
  | ok slot =>
      have hmodified := hahead.nodes.modify outer (Node.setOutward e (some slot))
      simp only
      generalize list'.nodes.modify outer (Node.setOutward e (some slot)) = modified at *
      generalize other'.nodes.modify outer (Node.setOutward e (some slot)) = modified' at *
      cases hmodified with
      | error panic => exact Outcome.paired_leaving _ hahead
      | ok hnodes =>
          exact Outcome.paired_leaving _ ⟨congrArg (Ends.set e (some slot)) hahead.ends, hnodes⟩

theorem Ahead.tryAppend (h : list.Ahead other) (hroom : ¬Starved memory list)
    (hroom' : ¬Starved memory other) (e : End) (x : α) :
    Outcome.Paired Eq Ahead (list.tryAppend memory e x) (other.tryAppend memory e x) := by
  have hslot := h.slotAt e
  rw [LinkedList.tryAppend, LinkedList.tryAppend, ← hslot]
  cases houter : list.slotAt e with
  | none => exact h.insertFirst hroom hroom' x
  | some outer =>
      exact h.insertBeyond (fun hfull => hroom ⟨not_detached_of_slotAt houter, hfull⟩)
        (fun hfull => hroom' ⟨not_detached_of_slotAt (hslot.symm.trans houter), hfull⟩) e outer x

theorem Ahead.append (h : list.Ahead other) (hroom : ¬Starved memory list)
    (hroom' : ¬Starved memory other) (e : End) (x : α) :
    Outcome.Paired Eq Ahead (list.append memory e x) (other.append memory e x) := by
  refine (h.tryAppend hroom hroom' e x).bind ?_
  rintro list' other' inserted inserted' hahead rfl
  cases inserted with
  | error refusal => exact Outcome.paired_leaving _ hahead
  | ok _ => exact Outcome.paired_leaving _ hahead

/-! ## Extending -/

theorem Ahead.reserve {additional : Nat} (h : list.Ahead other)
    (hroom : ¬Exceeds additional list) (hroom' : ¬Exceeds additional other) :
    ∃ list' other', list.reserve additional = .ok list' ∧ other.reserve additional = .ok other'
      ∧ list'.Ahead other' := by
  obtain ⟨extra, free, hleads⟩ := h.nodes
  rcases Pool.reserve_cases hleads.valid additional with
    ⟨capacity, hreserve, -⟩ | ⟨-, hexceeds⟩
  · rcases Pool.reserve_cases hleads.behind additional with
      ⟨capacity', hreserve', -⟩ | ⟨-, hexceeds⟩
    · refine ⟨_, _, ?_, ?_, h.withNodes (h.nodes.reserve hreserve hreserve')⟩
      · rw [LinkedList.reserve, hreserve]
        rfl
      · rw [LinkedList.reserve, hreserve']
        rfl
    · exact absurd hexceeds hroom'
  · exact absurd hexceeds hroom

/-- At some of the pulls, the list has no slot for the element handed over. -/
def StarvedWithin (memory : Memory) : List (Pull α) → LinkedList α → Prop
  | [], _ => False
  | pull :: pulls, list =>
      ∃ x, pull.handed = .ok x ∧ (Starved memory list
        ∨ (list.append memory .tail x).result = .ok ()
          ∧ StarvedWithin memory pulls (list.append memory .tail x).state)

instance decidableStarvedWithin (memory : Memory) :
    (pulls : List (Pull α)) → (list : LinkedList α) → Decidable (StarvedWithin memory pulls list)
  | [], _ => inferInstanceAs (Decidable False)
  | pull :: pulls, _ =>
      have := decidableStarvedWithin memory pulls
      inferInstanceAs (Decidable (∃ x, pull.handed = .ok x ∧ (_ ∨ _)))

theorem Ahead.appendAll {pulls : List (Pull α)} (h : list.Ahead other)
    (hroom : ¬StarvedWithin memory pulls list) (hroom' : ¬StarvedWithin memory pulls other) :
    Outcome.Paired Eq (fun state state' => state.1.Ahead state'.1 ∧ state.2 = state'.2)
      (list.appendAll memory pulls) (other.appendAll memory pulls) := by
  induction pulls generalizing list other with
  | nil => exact Outcome.paired_leaving _ ⟨h, rfl⟩
  | cons pull pulls ih =>
      rw [LinkedList.appendAll, LinkedList.appendAll, pull.yield_eq]
      cases hhanded : pull.handed with
      | error panic => exact .panicked panic _ ⟨h, rfl⟩
      | ok x =>
          obtain ⟨htaken, hlater⟩ := not_or.mp fun hstarved => hroom ⟨x, hhanded, hstarved⟩
          obtain ⟨htaken', hlater'⟩ := not_or.mp fun hstarved => hroom' ⟨x, hhanded, hstarved⟩
          have happend := h.append htaken htaken' .tail x
          rw [Traced.leaving_mk, Traced.leaving_mk, Outcome.bind_ok, Outcome.bind_ok]
          generalize list.append memory .tail x = call at happend hlater ⊢
          generalize other.append memory .tail x = call' at happend hlater' ⊢
          cases happend with
          | panicked panic trace hahead => exact .panicked panic _ ⟨hahead, rfl⟩
          | answered trace _ hahead =>
              exact (ih hahead (fun hrest => hlater ⟨rfl, hrest⟩)
                fun hrest => hlater' ⟨rfl, hrest⟩).after _

/-- What an operation asks of the storage is more than it has. -/
def Starves (list : LinkedList α) : Operation α → Prop
  | .append memory _ _ => Starved memory list
  | .tryAppend memory _ _ => Starved memory list
  | .reserve additional => Exceeds additional list
  | .extend memory source =>
      Exceeds source.hint list ∨ ∃ list', list.reserve source.hint = .ok list'
        ∧ StarvedWithin memory source.pulls list'
  | _ => False

instance (list : LinkedList α) : DecidablePred list.Starves
  | .append memory _ _ => inferInstanceAs (Decidable (Starved memory list))
  | .tryAppend memory _ _ => inferInstanceAs (Decidable (Starved memory list))
  | .reserve additional => inferInstanceAs (Decidable (Exceeds additional list))
  | .extend memory source =>
      inferInstanceAs (Decidable (_ ∨ ∃ list', list.reserve source.hint = .ok list'
        ∧ StarvedWithin memory source.pulls list'))
  | .len | .isEmpty | .outermost _ | .contents _ | .delete _ _ | .find _ _ | .clear
  | .iterate _ => isFalse id

theorem Ahead.extend {source : Source α} (h : list.Ahead other)
    (hroom : ¬list.Starves (.extend memory source))
    (hroom' : ¬other.Starves (.extend memory source)) :
    Outcome.Paired Eq Ahead (list.extend memory source) (other.extend memory source) := by
  obtain ⟨hfits, hpulls⟩ := not_or.mp hroom
  obtain ⟨hfits', hpulls'⟩ := not_or.mp hroom'
  obtain ⟨list', other', hreserve, hreserve', hahead⟩ := h.reserve hfits hfits'
  have happended := hahead.appendAll (fun hstarved => hpulls ⟨list', hreserve, hstarved⟩)
    (fun hstarved => hpulls' ⟨other', hreserve', hstarved⟩)
  rw [LinkedList.extend, LinkedList.extend, hreserve, hreserve']
  simp only
  rw [happended.state.2]
  exact (happended.onPanic _).within fun _ _ hstates => hstates.1

/-! ## Deleting -/

omit [Element α] in
theorem ahead_relink (h : nodes.Ahead nodes') (link : Option Slot) (f : Node α → Node α) :
    Matched Pool.Ahead (relink link f nodes) (relink link f nodes') := by
  cases link with
  | none => exact .ok h
  | some slot => exact h.modify slot f

omit [Element α] in
theorem ahead_release (h : nodes.Ahead nodes') (slot : Slot) :
    Matched (fun released released' => released.1 = released'.1 ∧ released.2.Ahead released'.2)
      (release slot nodes) (release slot nodes') := by
  rw [release, release]
  rcases h.vacate slot with ⟨hvacate, hvacate'⟩ | ⟨node, hvacate, hvacate', hreclaimed⟩
  · rw [hvacate, hvacate']
    exact .error _
  · rw [hvacate, hvacate']
    exact .ok ⟨rfl, hreclaimed⟩

omit [Element α] in
theorem Ahead.unlink (h : list.Ahead other) (slot : Slot) :
    Matched (fun unlinked unlinked' => unlinked.1 = unlinked'.1 ∧ unlinked.2.Ahead unlinked'.2)
      (list.unlink slot) (other.unlink slot) := by
  have hhead : list.head = other.head := h.slotAt .head
  have htail : list.tail = other.tail := h.slotAt .tail
  rw [LinkedList.unlink, LinkedList.unlink, ← h.nodes.get, hhead, htail]
  cases list.nodes.get slot with
  | error panic => exact .error panic
  | ok node =>
      refine (ahead_relink h.nodes node.next _).bind ?_
      intro nodes nodes' hnodes
      refine (ahead_relink hnodes node.prev _).bind ?_
      intro nodes nodes' hnodes
      exact .ok ⟨rfl, rfl, hnodes⟩

theorem Ahead.remove (h : list.Ahead other) (slot : Slot) :
    Outcome.Paired Eq Ahead (list.remove slot) (other.remove slot) := by
  have hunlinked := h.unlink slot
  rw [LinkedList.remove, LinkedList.remove]
  generalize list.unlink slot = unlinked at hunlinked ⊢
  generalize other.unlink slot = unlinked' at hunlinked ⊢
  cases hunlinked with
  | error panic => exact Outcome.paired_leaving _ h
  | @ok done done' related =>
      obtain ⟨node, list'⟩ := done
      obtain ⟨node', other'⟩ := done'
      obtain ⟨rfl, hahead⟩ := related
      refine (Outcome.paired_leaving _ hahead).bind ?_
      rintro list' other' - - hahead -
      have hreleased := ahead_release hahead.nodes slot
      generalize release slot list'.nodes = released at hreleased ⊢
      generalize release slot other'.nodes = released' at hreleased ⊢
      cases hreleased with
      | error panic => exact Outcome.paired_leaving _ hahead
      | @ok done done' related =>
          obtain ⟨node, nodes⟩ := done
          obtain ⟨node', nodes'⟩ := done'
          obtain ⟨rfl, hnodes⟩ := related
          exact Outcome.paired_leaving _ (hahead.withNodes hnodes)

/-- However many steps the walk is given, it takes the same. -/
theorem Ahead.locate (h : list.Ahead other) (hholds : list.Holds content) (e : End) (value : α) :
    list.locate e value = other.locate e value := by
  cases content with
  | linked xs =>
      obtain ⟨cells, free, hlinked, -⟩ := hholds.linked_from e
      obtain ⟨free', hlinked'⟩ := h.linked hlinked
      rw [hlinked.locate, hlinked'.locate]
  | detached xs => rw [hholds.1.locate, (h.detached hholds.1).locate]

theorem Ahead.delete (h : list.Ahead other) (hholds : list.Holds content) (e : End) (value : α) :
    Outcome.Paired Eq Ahead (list.delete e value) (other.delete e value) := by
  rw [LinkedList.delete, LinkedList.delete, ← h.locate hholds]
  refine (Outcome.paired_leaving _ h).bind ?_
  rintro list' other' found found' hahead rfl
  cases found with
  | none => exact Outcome.paired_leaving _ hahead
  | some slot => exact (hahead.remove slot).map_eq _

/-! ## Clearing -/

theorem ahead_releaseWithin {fuel fuel' : Nat} (h : nodes.Ahead nodes') (htrail : Trail nodes cells)
    (hdistinct : cells.slots.Nodup) (hfuel : cells.length ≤ fuel) (hfuel' : cells.length ≤ fuel') :
    Outcome.Paired Eq Pool.Ahead (releaseWithin fuel (firstSlot cells) nodes)
      (releaseWithin fuel' (firstSlot cells) nodes') := by
  induction cells generalizing fuel fuel' nodes nodes' with
  | nil =>
      have hdone : Outcome.Paired Eq Pool.Ahead
          ((Traced.answer 0 : Traced α Nat).leaving nodes) ((Traced.answer 0).leaving nodes') :=
        Outcome.paired_leaving _ h
      cases fuel <;> cases fuel' <;> exact hdone
  | cons cell cells ih =>
      obtain ⟨slot, x⟩ := cell
      obtain ⟨fuel, rfl⟩ := Nat.exists_eq_add_one.mpr
        (Nat.lt_of_lt_of_le (Nat.succ_pos cells.length) hfuel)
      obtain ⟨fuel', rfl⟩ := Nat.exists_eq_add_one.mpr
        (Nat.lt_of_lt_of_le (Nat.succ_pos cells.length) hfuel')
      obtain ⟨⟨node, hnode, rfl, hnext⟩, htrail⟩ := htrail
      obtain ⟨hslot, hcells⟩ := List.nodup_cons.mp hdistinct
      have hnode' : nodes'.get? slot = some node := h.view ▸ hnode
      have hreclaimed := h.reclaim hnode
      obtain ⟨extra, free, hleads⟩ := h
      rw [firstSlot_cons, releaseWithin, releaseWithin, release_eq hleads.valid hnode,
        release_eq hleads.behind hnode']
      simp only
      rcases discard_cases node.element with ⟨-, hdrop⟩ | ⟨panic, -, hdrop⟩
      · have hrest := ih hreclaimed (htrail.reclaim hslot hnode) hcells
          (Nat.le_of_succ_le_succ hfuel) (Nat.le_of_succ_le_succ hfuel')
        rw [hdrop, hnext]
        exact (hrest.map_eq _).after _
      · rw [hdrop]
        exact .panicked panic _ hreclaimed

omit [Element α] in
/-- The way from the head along the links, if there is a head. -/
theorem Holds.trail (h : list.Holds content) :
    ∃ cells : Cells α, list.head = firstSlot cells ∧ Trail list.nodes cells ∧ cells.slots.Nodup
      ∧ cells.length ≤ list.len := by
  cases content with
  | linked xs =>
      obtain ⟨cells, free, hlinked, -⟩ := h
      exact ⟨cells, hlinked.near, hlinked.trail (List.nil_append cells).symm, hlinked.distinct,
        Nat.le_of_eq hlinked.count.symm⟩
  | detached xs => exact ⟨[], h.1.head, trivial, .nil, Nat.zero_le _⟩

theorem ahead_clear_of_isEmpty (h : nodes.Ahead nodes') (hempty : nodes.isEmpty = true) :
    Outcome.Paired Eq Pool.Ahead nodes.clear nodes'.clear := by
  have hcleared := h.cleared
  have hlen : nodes.len = 0 := beq_iff_eq.mp hempty
  have hlen' : nodes'.len = 0 := h.len.symm.trans hlen
  obtain ⟨extra, free, hleads⟩ := h
  rw [Pool.clear_of_len_eq_zero hleads.valid hlen, Pool.clear_of_len_eq_zero hleads.behind hlen']
  exact .answered [] rfl hcleared

theorem Ahead.clear (h : list.Ahead other) (hholds : list.Holds content) :
    Outcome.Paired Eq Ahead list.clear other.clear := by
  obtain ⟨cells, hhead, htrail, hdistinct, hlength⟩ := hholds.trail
  have hhead' : other.head = firstSlot cells := (h.slotAt .head).symm.trans hhead
  have hfuel : cells.length ≤ list.nodes.slots + 1 := by
    obtain ⟨free, hvalid⟩ := hholds.valid
    exact (hlength.trans hvalid.len_le_slots).trans (Nat.le_succ _)
  have hfuel' : cells.length ≤ other.nodes.slots + 1 := by
    obtain ⟨free, hvalid⟩ := (h.holds hholds).valid
    exact ((h.len ▸ hlength).trans hvalid.len_le_slots).trans (Nat.le_succ _)
  rw [LinkedList.clear, LinkedList.clear, hhead, hhead']
  have hreleased := ahead_releaseWithin h.nodes htrail hdistinct hfuel hfuel'
  have hleft (nodes nodes' : Pool (Node α)) (hnodes : nodes.Ahead nodes') :
      Ahead { Ends.none with nodes } { Ends.none with nodes := nodes' } := ⟨rfl, hnodes⟩
  refine (hreleased.within hleft).bind ?_
  rintro list' other' released released' hahead rfl
  rw [← hahead.nodes.isEmpty]
  split
  · rename_i hempty
    refine (((ahead_clear_of_isEmpty hahead.nodes hempty).relabel Node.element).within
      fun _ _ => hahead.withNodes).bind ?_
    rintro list' other' - - hahead -
    exact Outcome.paired_leaving _ hahead
  · exact Outcome.paired_leaving _ hahead

theorem Ahead.clone (h : list.Ahead other) : Traced.Paired Ahead list.clone other.clone :=
  (h.nodes.clone.relabel Node.element).bind fun _ _ hnodes =>
    Traced.paired_answer (h.withNodes hnodes)

theorem Ahead.discard (h : list.Ahead other) : list.discard = other.discard := by
  rw [LinkedList.discard, LinkedList.discard, h.stored]

theorem Ahead.destroy (h : list.Ahead other) (hholds : list.Holds content) :
    list.destroy = other.destroy := by
  have hcleared := h.clear hholds
  unfold LinkedList.destroy
  generalize list.clear = cleared at hcleared ⊢
  generalize other.clear = cleared' at hcleared ⊢
  cases hcleared with
  | answered trace related hahead => exact congrArg (Traced.after trace) hahead.discard
  | panicked panic trace hahead =>
      show Traced.onPanic _ _ = Traced.onPanic _ _
      rw [hahead.stored]

/-! ## Looking -/

theorem Ahead.find (h : list.Ahead other) (hholds : list.Holds content) (e : End) (value : α) :
    list.find e value = other.find e value := by
  rw [hholds.find_eq, (h.holds hholds).find_eq, h.len]

theorem Ahead.run (h : list.Ahead other) (hholds : list.Holds content)
    (script : List (Cursor.Command α)) :
    list.cursor.run script = other.cursor.run script := by
  rw [(hholds.yields .head).run_eq, ((h.holds hholds).yields .head).run_eq]

theorem Ahead.equals {first first' second second' : LinkedList α} {content' : Content α}
    (h : first.Ahead first') (h' : second.Ahead second') (hholds : first.Holds content)
    (hholds' : second.Holds content') : first.equals second = first'.equals second' := by
  rw [hholds.equals hholds', (h.holds hholds).equals (h'.holds hholds')]

/-- An operation that the storage has room for does the same to both. -/
theorem Ahead.perform (h : list.Ahead other) (hholds : list.Holds content)
    (operation : Operation α) (hroom : ¬list.Starves operation)
    (hroom' : ¬other.Starves operation) :
    Outcome.Paired Eq Ahead (list.perform operation) (other.perform operation) := by
  have hholds' := h.holds hholds
  cases operation with
  | len =>
      rw [LinkedList.perform, LinkedList.perform, h.len]
      exact Outcome.paired_leaving _ h
  | isEmpty =>
      rw [LinkedList.perform, LinkedList.perform, hholds.isEmpty, hholds'.isEmpty]
      exact Outcome.paired_leaving _ h
  | outermost e =>
      rw [LinkedList.perform, LinkedList.perform, hholds.outermost?, hholds'.outermost?]
      exact (Outcome.paired_leaving _ h).map_eq _
  | contents e =>
      rw [LinkedList.perform, LinkedList.perform, hholds.contents, hholds'.contents]
      exact (Outcome.paired_leaving _ h).map_eq _
  | append memory e x => exact (h.append hroom hroom' e x).map_eq _
  | tryAppend memory e x => exact (h.tryAppend hroom hroom' e x).map_eq _
  | delete e value => exact (h.delete hholds e value).map_eq _
  | find e value =>
      rw [LinkedList.perform, LinkedList.perform, h.find hholds]
      exact (Outcome.paired_leaving _ h).map_eq _
  | clear => exact (h.clear hholds).map_eq _
  | reserve additional =>
      obtain ⟨list', other', hreserve, hreserve', hahead⟩ := h.reserve hroom hroom'
      rw [LinkedList.perform, LinkedList.perform, hreserve, hreserve']
      exact Outcome.paired_leaving _ hahead
  | extend memory source => exact (h.extend hroom hroom').map_eq _
  | iterate script =>
      rw [LinkedList.perform, LinkedList.perform, h.run hholds]
      exact (Outcome.paired_leaving _ h).map_eq _

end LinkedPool.LinkedList
