import LinkedPool.Element.Tracked
import LinkedPool.Proofs.LinkedList.Ledger

/-!
# In which order a list is taken apart

Clearing a list drops its elements in their order, dropping a list does so in
the order of its slots (`storedAt`), and destroying it does the one and then
the other. A drop that panics cuts a clear short: what is behind that element
stays where it was (`CutShort`), and a destruction then comes to it in the
order of the slots. Whichever way a list goes, and whatever panics, each of
its elements is dropped once (`teardown_order`).

A walk that vacates the slots it comes from leaves the others alone, and no
slot but those of the list holds anything (`Linked.get?_eq_none`); from these
two it is known what every slot holds after the walk.
-/

namespace LinkedPool

namespace Element

variable {α : Type} [Element α] {front front' back back' : List α} {x x' : α}
  {panic panic' : Panic}

/-- There is one first element that panics when it is dropped. -/
theorem Calm.split_unique (h : front ++ x :: back = front' ++ x' :: back') (hcalm : Calm front)
    (hcalm' : Calm front') (hdrop : dropPanic x = some panic)
    (hdrop' : dropPanic x' = some panic') :
    front = front' ∧ x = x' ∧ back = back' := by
  induction front generalizing front' with
  | nil =>
      cases front' with
      | nil =>
          obtain ⟨rfl, rfl⟩ := List.cons.inj h
          exact ⟨rfl, rfl, rfl⟩
      | cons y front' =>
          obtain ⟨rfl, -⟩ := List.cons.inj h
          exact absurd hdrop (hcalm'.not_panics (List.mem_cons_self ..))
  | cons y front ih =>
      cases front' with
      | nil =>
          obtain ⟨rfl, -⟩ := List.cons.inj h
          exact absurd hdrop' (hcalm.not_panics (List.mem_cons_self ..))
      | cons y' front' =>
          obtain ⟨rfl, hrest⟩ := List.cons.inj h
          obtain ⟨-, hcalm⟩ := List.forall_mem_cons.mp hcalm
          obtain ⟨-, hcalm'⟩ := List.forall_mem_cons.mp hcalm'
          obtain ⟨rfl, rfl, rfl⟩ := ih hrest hcalm hcalm'
          exact ⟨rfl, rfl, rfl⟩

/-- If one of the elements panics, all are dropped, and a panic is raised. -/
theorem discardAll_of_mem {xs : List α} (hx : x ∈ xs) (hdrop : dropPanic x = some panic) :
    ∃ first, xs.findSome? dropPanic = some first
      ∧ discardAll xs = ⟨.error first, departures xs⟩ := by
  cases hfirst : xs.findSome? dropPanic with
  | none =>
      rw [List.findSome?_eq_none_iff] at hfirst
      cases (hfirst x hx).symm.trans hdrop
  | some first =>
      refine ⟨first, rfl, ?_⟩
      rw [discardAll, hfirst]
      rfl

end Element

namespace LinkedList

open Cells Element

variable {α : Type} {e : End} {list list' : LinkedList α} {cells gone rest : Cells α}
  {free slots : List Slot} {slot : Slot} {nodes' : Pool (Node α)} {xs front back : List α}
  {x : α} {panic : Panic}

/-! ## Elements in the order of their slots -/

/-- The elements in some of the slots of a list, in ascending order of the slots. -/
def storedAt (slots : List Slot) (list : LinkedList α) : List α :=
  (List.range list.nodes.slots).filterMap fun slot =>
    if slot ∈ slots then (list.nodes.get? slot).map Node.element else none

theorem stored_eq_filterMap_range (list : LinkedList α) :
    list.stored
      = (List.range list.nodes.slots).filterMap fun slot =>
          (list.nodes.get? slot).map Node.element := by
  rw [stored, Pool.live_eq_filterMap_range (Nat.le_refl _), List.map_filterMap]

/-- Only the slots of its cells hold anything in a linked list. -/
theorem Linked.get?_eq_none (h : Linked e list cells free) (hslot : slot ∉ cells.slots) :
    list.nodes.get? slot = none := by
  by_contra hsome
  have hheld : ∀ other ∈ slot :: cells.slots, (list.nodes.get? other).isSome := by
    intro other hother
    rcases List.mem_cons.mp hother with rfl | hother
    · exact Option.isSome_iff_ne_none.mpr hsome
    · obtain ⟨node, hnode⟩ := h.get?_of_mem hother
      rw [hnode]
      rfl
  have hsubset : slot :: cells.slots ⊆ List.range list.nodes.slots := by
    intro other hother
    obtain ⟨node, hnode⟩ := Option.isSome_iff_exists.mp (hheld other hother)
    exact List.mem_range.mpr (Pool.lt_slots_of_get? hnode)
  obtain ⟨ordered, hperm, hsublist⟩ :=
    List.subperm_of_subset (List.nodup_cons.mpr ⟨hslot, h.distinct⟩) hsubset
  have hle := (hsublist.filterMap list.nodes.get?).length_le
  rw [← Pool.live_eq_filterMap_range (Nat.le_refl _), ← h.valid.count,
    (hperm.filterMap _).length_eq, List.filterMap_length_eq_length.mpr hheld, List.length_cons,
    Cells.slots, List.length_map] at hle
  have hcount : list.nodes.len = cells.length := h.count
  omega

theorem Linked.storedAt_slots (h : Linked e list cells free) :
    list.storedAt cells.slots = list.stored := by
  rw [stored_eq_filterMap_range, storedAt]
  refine List.filterMap_congr ?_
  intro slot _
  by_cases hslot : slot ∈ cells.slots
  · rw [if_pos hslot]
  · rw [if_neg hslot, h.get?_eq_none hslot]
    rfl

/-! ## A clear that is cut short -/

/-- `list'` is `list`, which ran through `slots`, after the first `k` of its
nodes were released: it has no ends, and the others are where they were. -/
structure CutShort (list : LinkedList α) (slots free : List Slot) (k : Nat)
    (list' : LinkedList α) : Prop where
  head : list'.head = none
  tail : list'.tail = none
  len : list'.len = slots.length - k
  left : ∀ slot, list'.nodes.get? slot
    = if slot ∈ slots.drop k then list.nodes.get? slot else none
  valid : list'.nodes.Valid ((slots.take k).reverse ++ free)
  slots : list'.nodes.slots = list.nodes.slots
  capacity : list'.nodes.capacity = list.nodes.capacity

theorem Released.cutShort (h : Linked .head list (gone ++ rest) free)
    (hreleased : Released list.nodes free gone nodes') :
    CutShort list (gone ++ rest).slots free gone.length { Ends.none with nodes := nodes' } := by
  have hlength : gone.slots.length = gone.length := List.length_map _
  have htake : (gone ++ rest).slots.take gone.length = gone.slots := by
    rw [slots_append, ← hlength, List.take_left]
  have hdrop : (gone ++ rest).slots.drop gone.length = rest.slots := by
    rw [slots_append, ← hlength, List.drop_left]
  have hdistinct := h.distinct
  rw [slots_append, List.nodup_append] at hdistinct
  refine ⟨rfl, rfl, ?_, ?_, ?_, hreleased.slots, hreleased.capacity⟩
  · have hlen := hreleased.len
    have hcount : list.nodes.len = (gone ++ rest).length := h.count
    show nodes'.len = ((gone ++ rest).map Prod.fst).length - gone.length
    rw [List.length_map]
    omega
  · intro slot
    rw [hdrop]
    show nodes'.get? slot = _
    rw [hreleased.view]
    by_cases hgone : slot ∈ gone.slots
    · rw [if_pos hgone, if_neg fun hrest => hdistinct.2.2 slot hgone slot hrest rfl]
    · rw [if_neg hgone]
      by_cases hrest : slot ∈ rest.slots
      · rw [if_pos hrest]
      · rw [if_neg hrest]
        refine h.get?_eq_none ?_
        rw [slots_append, List.mem_append]
        exact fun hslot => hslot.elim hgone hrest
  · rw [htake]
    exact hreleased.valid

theorem CutShort.stored {k : Nat} (h : CutShort list slots free k list') :
    list'.stored = list.storedAt (slots.drop k) := by
  rw [stored_eq_filterMap_range, storedAt, h.slots]
  refine List.filterMap_congr ?_
  intro slot _
  rw [h.left]
  split <;> rfl

/-- If all nodes were released before the panic got out, the list is empty. -/
theorem CutShort.linked (h : CutShort list slots free slots.length list') :
    Linked e list' ([] : Cells α) (slots.reverse ++ free) := by
  have hvalid := h.valid
  have hlen := h.len
  rw [List.take_length] at hvalid
  rw [Nat.sub_self] at hlen
  have hends : list' = { Ends.none with nodes := list'.nodes } := by
    obtain ⟨⟨head, tail⟩, nodes⟩ := list'
    obtain rfl : head = none := h.head
    obtain rfl : tail = none := h.tail
    rfl
  rw [hends]
  exact linked_none hvalid hlen

variable [Element α]

/-- A clear stops at the first element whose drop panics. -/
theorem Linked.clear_of_panic (h : Linked .head list cells free)
    (hsplit : cells.elements = front ++ x :: back) (hcalm : Calm front)
    (hdrop : dropPanic x = some panic) :
    ∃ list', list.clear = ⟨⟨.error panic, departures (front ++ [x])⟩, list'⟩
      ∧ CutShort list cells.slots free (front.length + 1) list' := by
  rcases h.clear_cases with
    ⟨hall, -⟩ | ⟨before, slot, y, behind, panic', nodes', rfl, hbefore, hy, hreleased, hclear⟩
  · have hx : x ∈ cells.elements := by
      rw [hsplit]
      exact List.mem_append_right _ (List.mem_cons_self ..)
    exact absurd hdrop (hall.not_panics hx)
  · rw [elements_append, elements_cons] at hsplit
    obtain ⟨rfl, rfl, rfl⟩ := Calm.split_unique hsplit hbefore hcalm hy hdrop
    obtain rfl := Option.some.inj (hy.symm.trans hdrop)
    have hcells : before ++ (slot, y) :: behind = (before ++ [(slot, y)]) ++ behind := by
      rw [List.append_assoc, List.singleton_append]
    have hlength : (before ++ [(slot, y)]).length = (elements before).length + 1 := by
      rw [List.length_append, elements, List.length_map]
      rfl
    rw [hcells] at h ⊢
    refine ⟨_, hclear, ?_⟩
    rw [← hlength]
    exact hreleased.cutShort h

/-- A list that is empty and has vacant slots takes an element without memory. -/
theorem Linked.append_of_vacant (h : Linked e list ([] : Cells α) free) (hvacant : free ≠ [])
    (memory : Memory) (x : α) : (list.append memory e x).result = .ok () := by
  rcases h.append_cases memory x with ⟨refusal, hnil, -⟩ | ⟨slot, list', free', happend, -⟩
  · exact absurd hnil hvacant
  · rw [happend]

/-- A list all of whose nodes were released may be used again, in their slots. -/
theorem CutShort.usable (h : CutShort list slots free slots.length list') (hslots : slots ≠ []) :
    list'.Healthy []
      ∧ ∀ (memory : Memory) (e : End) (x : α), (list'.append memory e x).result = .ok () := by
  refine ⟨(h.linked (e := .head)).healthy, ?_⟩
  intro memory e x
  refine h.linked.append_of_vacant ?_ memory x
  intro hvacant
  exact hslots (List.reverse_eq_nil_iff.mp (List.append_eq_nil_iff.mp hvacant).1)

/-! ## The three ways -/

theorem destroy_of_clear_error {events : List (Event α)}
    (h : list.clear = ⟨⟨.error panic, events⟩, list'⟩) :
    list.destroy = ⟨.error panic, events ++ departures list'.stored⟩ := by
  rw [destroy, h]
  rfl

theorem Linked.destroy_of_calm (h : Linked .head list cells free) (hcalm : Calm cells.elements) :
    list.destroy
      = ⟨.ok (), departures cells.elements ++ [.logged (.cleared cells.length)]⟩ := by
  rw [destroy, h.clear_of_calm hcalm]
  show Traced.after _ ⟨.ok (), []⟩ = _
  rw [Traced.after_mk, List.append_nil]

theorem Linked.discard_of_calm (h : Linked e list cells free) (hcalm : Calm cells.elements) :
    list.discard = ⟨.ok (), departures list.stored⟩ :=
  discardAll_of_calm fun x hx => hcalm x (h.stored_perm.mem_iff.mp hx)

/-- A call that keeps nothing, and copies nothing, drops what there was. -/
theorem dropsIn_perm_of_accounted {trace : List (Event α)} (haccounted : Accounted xs [] [] trace)
    (hcopies : copiesIn trace = []) : (dropsIn trace).Perm xs := by
  rw [Accounted, hcopies, List.append_nil, List.append_nil, List.nil_append] at haccounted
  exact haccounted

theorem Linked.drops_destroy (h : Linked .head list cells free) :
    (dropsIn list.destroy.trace).Perm cells.elements := by
  refine dropsIn_perm_of_accounted h.holds.destroy_accounted ?_
  rcases h.clear_cases with ⟨hcalm, -⟩ | ⟨front, slot, x, back, panic, nodes', -, -, -, -, hclear⟩
  · rw [h.destroy_of_calm hcalm, copiesIn_append, copiesIn_departures]
    rfl
  · rw [destroy_of_clear_error hclear, copiesIn_append, copiesIn_departures, copiesIn_departures]
    rfl

theorem Linked.drops_discard (h : Linked .head list cells free) :
    (dropsIn list.discard.trace).Perm cells.elements :=
  dropsIn_perm_of_accounted h.holds.discard_accounted (copiesIn_departures _)

/-- What a destruction comes to after a drop has panicked. -/
theorem Linked.destroy_of_panic (h : Linked .head list cells free)
    (hsplit : cells.elements = front ++ x :: back) (hcalm : Calm front)
    (hdrop : dropPanic x = some panic) :
    list.destroy
        = ⟨.error panic,
            departures (front ++ x :: list.storedAt (cells.slots.drop (front.length + 1)))⟩
      ∧ (list.storedAt (cells.slots.drop (front.length + 1))).Perm back := by
  obtain ⟨list', hclear, hcut⟩ := h.clear_of_panic hsplit hcalm hdrop
  have hdestroy : list.destroy
      = ⟨.error panic,
          departures (front ++ x :: list.storedAt (cells.slots.drop (front.length + 1)))⟩ := by
    rw [destroy_of_clear_error hclear, hcut.stored, departures, departures, departures,
      ← List.map_append, List.append_assoc, List.singleton_append]
  have hdrops := h.drops_destroy
  rw [hdestroy, dropsIn_departures, hsplit, List.perm_append_left_iff, List.perm_cons] at hdrops
  exact ⟨hdestroy, hdrops⟩

/-- If no drop panics, a list is cleared and destroyed in its order, and
dropped in the order of its slots; a clear leaves no slots and as much memory
as before. If one does, the first of the list among these cuts a clear short,
with nothing logged; a destruction goes on in the order of the slots, and the
drop of the list is not cut short at all. Each element is dropped once. -/
theorem teardown_order (hhealthy : list.Healthy slots) (hvalid : list.nodes.Valid free)
    (hcontents : list.contents .head = .ok xs) :
    (list.stored = list.storedAt slots ∧ list.stored.Perm xs)
      ∧ (Calm xs →
        list.clear
            = ⟨⟨.ok (), departures xs ++ [.logged (.cleared xs.length)]⟩,
                { Ends.none with nodes := list.nodes.cleared }⟩
          ∧ list.clear.state.Healthy [] ∧ list.clear.state.nodes.slots = 0
          ∧ list.clear.state.nodes.capacity = list.nodes.capacity
          ∧ list.destroy = ⟨.ok (), departures xs ++ [.logged (.cleared xs.length)]⟩
          ∧ list.discard = ⟨.ok (), departures list.stored⟩)
      ∧ (∀ (front : List α) (x : α) (back : List α) (panic : Panic), xs = front ++ x :: back →
        Calm front → dropPanic x = some panic →
        list.clear.toTraced = ⟨.error panic, departures (front ++ [x])⟩
          ∧ CutShort list slots free (front.length + 1) list.clear.state
          ∧ (back = [] → list.clear.state.Healthy []
            ∧ ∀ (memory : Memory) (e : End) (y : α),
              (list.clear.state.append memory e y).result = .ok ())
          ∧ list.destroy
            = ⟨.error panic,
                departures (front ++ x :: list.storedAt (slots.drop (front.length + 1)))⟩
          ∧ (list.storedAt (slots.drop (front.length + 1))).Perm back
          ∧ ∃ first, list.stored.findSome? dropPanic = some first
            ∧ list.discard = ⟨.error first, departures list.stored⟩)
      ∧ (dropsIn list.destroy.trace).Perm xs ∧ (dropsIn list.discard.trace).Perm xs := by
  obtain ⟨cells, hlinked, rfl⟩ := hhealthy.linked hvalid
  obtain rfl : cells.elements = xs :=
    Except.ok.inj ((hlinked.holds.contents .head).symm.trans hcontents)
  have hlength : cells.elements.length = cells.length := List.length_map _
  refine ⟨⟨hlinked.storedAt_slots.symm, hlinked.stored_perm⟩, ?_, ?_, hlinked.drops_destroy,
    hlinked.drops_discard⟩
  · intro hcalm
    have hclear := hlinked.clear_of_calm hcalm
    have hempty : Linked .head { Ends.none with nodes := list.nodes.cleared } ([] : Cells α) [] :=
      linked_none hvalid.cleared rfl
    rw [hlength, hclear]
    exact ⟨rfl, hempty.healthy, rfl, rfl, hlinked.destroy_of_calm hcalm,
      hlinked.discard_of_calm hcalm⟩
  · intro front x back panic hsplit hcalm hdrop
    obtain ⟨list', hclear, hcut⟩ := hlinked.clear_of_panic hsplit hcalm hdrop
    obtain ⟨hdestroy, hrest⟩ := hlinked.destroy_of_panic hsplit hcalm hdrop
    have hx : x ∈ list.stored := by
      rw [hlinked.stored_perm.mem_iff, hsplit]
      exact List.mem_append_right _ (List.mem_cons_self ..)
    rw [hclear]
    refine ⟨rfl, hcut, ?_, hdestroy, hrest, discardAll_of_mem hx hdrop⟩
    rintro rfl
    have hall : front.length + 1 = cells.slots.length := by
      have hcells := congrArg List.length hsplit
      rw [hlength, List.length_append] at hcells
      rw [Cells.slots, List.length_map]
      exact hcells.symm
    rw [hall] at hcut
    exact hcut.usable (List.ne_nil_of_length_eq_add_one hall.symm)

/-- Four elements in slots out of order; two of them panic when they are dropped. -/
def mined : LinkedList Tracked where
  head := some 2
  tail := some 0
  nodes :=
    { storage :=
        #[.used ⟨none, some 1, ⟨4, "z", some .dropping⟩⟩, .used ⟨some 0, some 3, ⟨3, "y", none⟩⟩,
          .used ⟨some 3, none, ⟨1, "w", none⟩⟩, .used ⟨some 1, some 2, ⟨2, "x", some .dropping⟩⟩,
          .vacant none]
      firstFree := some 4
      len := 4
      capacity := 5 }

theorem mined_teardown_order :
    mined.Healthy [2, 3, 1, 0] ∧ mined.nodes.Valid [4]
      ∧ mined.contents .head
        = .ok [⟨1, "w", none⟩, ⟨2, "x", some .dropping⟩, ⟨3, "y", none⟩,
          ⟨4, "z", some .dropping⟩]
      ∧ mined.clear.toTraced
        = ⟨.error (.element "drop bomb 2:x"),
            departures [⟨1, "w", none⟩, ⟨2, "x", some .dropping⟩]⟩
      ∧ CutShort mined [2, 3, 1, 0] [4] 2 mined.clear.state
      ∧ mined.destroy
        = ⟨.error (.element "drop bomb 2:x"),
            departures [⟨1, "w", none⟩, ⟨2, "x", some .dropping⟩, ⟨4, "z", some .dropping⟩,
              ⟨3, "y", none⟩]⟩
      ∧ mined.discard.result = .error (.element "drop bomb 4:z") := by
  have hhealthy : mined.Healthy [2, 3, 1, 0] := by
    refine ⟨⟨rfl, _, rfl, rfl, _, rfl, rfl, _, rfl, rfl, _, rfl, rfl⟩,
      ⟨rfl, _, rfl, rfl, _, rfl, rfl, _, rfl, rfl, _, rfl, rfl⟩, by decide, rfl, ⟨rfl, rfl⟩, ?_⟩
    intro front slot next back hsplit
    rcases front with _ | ⟨first, _ | ⟨second, _ | ⟨third, front⟩⟩⟩
    · cases hsplit
      exact ⟨⟨_, rfl, rfl⟩, ⟨_, rfl, rfl⟩⟩
    · cases hsplit
      exact ⟨⟨_, rfl, rfl⟩, ⟨_, rfl, rfl⟩⟩
    · cases hsplit
      exact ⟨⟨_, rfl, rfl⟩, ⟨_, rfl, rfl⟩⟩
    · have hlength := congrArg List.length hsplit
      simp only [List.length_cons, List.length_append, List.length_nil] at hlength
      omega
  have hvalid : mined.nodes.Valid [4] := by
    refine ⟨⟨rfl, none, rfl, rfl⟩, by decide, ?_, by decide, by decide, by decide⟩
    intro slot next hslot
    have hlt : slot < 5 := (Array.getElem?_eq_some_iff.mp hslot).1
    match slot, hlt with
    | 0, _ | 1, _ | 2, _ | 3, _ => cases hslot
    | 4, _ => exact List.mem_cons_self ..
  have hcontents : mined.contents .head
      = .ok [⟨1, "w", none⟩, ⟨2, "x", some .dropping⟩, ⟨3, "y", none⟩,
        ⟨4, "z", some .dropping⟩] := by
    decide
  obtain ⟨-, -, hpanics, -⟩ := teardown_order hhealthy hvalid hcontents
  obtain ⟨hclear, hcut, -, hdestroy, -, first, hfirst, hdiscard⟩ :=
    hpanics [⟨1, "w", none⟩] _ _ _ rfl (by decide) rfl
  refine ⟨hhealthy, hvalid, hcontents, hclear, hcut, hdestroy, ?_⟩
  rw [hdiscard]
  exact congrArg _ (Option.some.inj (hfirst.symm.trans rfl))

end LinkedList

end LinkedPool
