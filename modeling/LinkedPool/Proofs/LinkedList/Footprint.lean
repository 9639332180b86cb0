import LinkedPool.Proofs.LinkedList.Inert
import LinkedPool.Proofs.LinkedList.RoundTrip

/-!
# What operations write to

An element stays in its slot, and an operation that adds or removes elements
writes to few of the other nodes. Appending gives the outermost node a new
link outward (`Extended`). Deleting joins the neighbours of the node that
goes, by the `next` of the one before it and the `prev` of the one behind it
(`Spliced`). The other operations write to no node at all.

A linked list is known by its cells (`Linked.unique`), so what an operation
writes to follows from the cells before and after it, and the code that did
the writing need not be looked at again.
-/

namespace LinkedPool

open Cells Element

namespace Cells

variable {α : Type} {cells : Cells α} {slot : Slot}

theorem split_of_getElem? {i : Nat} (h : cells.slots[i]? = some slot) :
    ∃ (front : Cells α) (x : α) (back : Cells α),
      cells = front ++ (slot, x) :: back ∧ front.length = i := by
  rw [slots, List.getElem?_map, Option.map_eq_some_iff] at h
  obtain ⟨⟨slot, x⟩, hcell, rfl⟩ := h
  obtain ⟨hi, hcell⟩ := List.getElem?_eq_some_iff.mp hcell
  refine ⟨cells.take i, x, cells.drop (i + 1), ?_, ?_⟩
  · rw [← hcell, ← List.drop_eq_getElem_cons hi, List.take_append_drop]
  · rw [List.length_take]
    omega

theorem lastSlot_append_cons (front back : Cells α) (cell : Slot × α) :
    lastSlot (front ++ cell :: back) = lastSlot (cell :: back) := by
  simp [lastSlot, List.getLast?_append, List.getLast?_cons]

end Cells

/-- The operation neither adds elements to a list nor removes any. -/
def Operation.Inspects {α : Type} : Operation α → Prop
  | .append .. => False
  | .tryAppend .. => False
  | .delete .. => False
  | .clear => False
  | .extend .. => False
  | _ => True

namespace LinkedList

variable {α : Type} {e : End} {list list' : LinkedList α} {cells front back : Cells α}
  {slots free free' : List Slot} {slot other : Slot} {x : α} {xs : List α} {memory : Memory}

/-! ## Slots beyond an end -/

/-- `list'` is `list`, which ran through `slots`, with the slots `more` beyond
its end `e`, each beyond the one before. Of the nodes there were, the
outermost links to the first of these, and the others are as they were. -/
structure Extended (e : End) (list : LinkedList α) (slots more : List Slot)
    (list' : LinkedList α) : Prop where
  healthy : list'.Healthy (e.listed (more.reverse ++ e.listed slots))
  fresh : ∀ slot ∈ more, list.nodes.get? slot = none
  kept : ∀ slot ∈ slots, list'.nodes.get? slot = (list.nodes.get? slot).map fun node =>
    if list.slotAt e = some slot then node.setOutward e more.head? else node

theorem Linked.slotAt_ne (h : Linked e list (front ++ (slot, x) :: back) free)
    (hfront : front ≠ []) : list.slotAt e ≠ some slot := by
  intro hnear
  rw [h.near] at hnear
  obtain ⟨cell, front, rfl⟩ := List.exists_cons_of_ne_nil hfront
  obtain rfl := Option.some.inj hnear
  exact h.apart.1 (List.mem_cons_self ..)

theorem Appended.extended (h : Appended e list cells free xs list')
    (hlinked : Linked e list cells free) :
    Extended e list (e.listed cells.slots)
      (Pool.upcoming free list.nodes.slots xs.length) list' := by
  have hmore := slots_zip_upcoming free list.nodes.slots xs
  have hslots := h.linked
  generalize (Pool.upcoming free list.nodes.slots xs.length).zip xs = added at hmore hslots
  refine ⟨?_, ?_, ?_⟩
  · have hhealthy := hslots.healthy_listed
    rwa [slots_append, slots_reverse, hmore, ← e.listed_listed (Cells.slots cells)] at hhealthy
  · intro slot hslot
    have hdistinct := hslots.distinct
    rw [slots_append, slots_reverse, hmore, List.nodup_append] at hdistinct
    exact hlinked.get?_eq_none fun hold =>
      hdistinct.2.2 slot (List.mem_reverse.mpr hslot) slot hold rfl
  · intro slot hslot
    rw [End.mem_listed] at hslot
    obtain ⟨⟨slot, y⟩, hmem, rfl⟩ := List.mem_map.mp hslot
    obtain ⟨front, back, rfl⟩ := List.append_of_mem hmem
    have hnew := hslots.node (added.reverse ++ front) slot y back (by rw [List.append_assoc])
    rw [hnew, hlinked.node front slot y back rfl, Option.map_some]
    cases front with
    | nil =>
        have hnear : list.slotAt e = some slot := hlinked.near
        rw [if_pos hnear, Node.setOutward_between, List.append_nil, lastSlot_reverse, ← hmore,
          firstSlot, Cells.slots, List.head?_map]
    | cons cell front =>
        rw [if_neg (hlinked.slotAt_ne (List.cons_ne_nil _ _)), lastSlot_append_cons]

/-! ## A slot taken out -/

/-- `list'` is `list`, which ran through `slots`, without the node in the
`i`th of them. The node before it links on to the one behind it, and that
one back; the others are as they were. -/
structure Spliced (list : LinkedList α) (slots : List Slot) (i : Nat)
    (list' : LinkedList α) : Prop where
  healthy : list'.Healthy (slots.eraseIdx i)
  vacated : ∀ slot, slots[i]? = some slot → list'.nodes.get? slot = none
  kept : ∀ j slot, j ≠ i → slots[j]? = some slot →
    list'.nodes.get? slot = (list.nodes.get? slot).map fun node =>
      { node with
        next := if j + 1 = i then slots[i + 1]? else node.next
        prev := if j = i + 1 then (slots.take i).getLast? else node.prev }

/-- Of the nodes before the one that goes, only the last linked to it. -/
theorem Linked.kept_before {j : Nat} (h : Linked .head list (front ++ (slot, x) :: back) free)
    (h' : Linked .head list' (front ++ back) free') (hother : front.slots[j]? = some other) :
    list'.nodes.get? other = (list.nodes.get? other).map fun node =>
      { node with next := if j + 1 = front.length then firstSlot back else node.next } := by
  obtain ⟨before, y, middle, rfl, rfl⟩ := split_of_getElem? hother
  have hold := h.node before other y (middle ++ (slot, x) :: back) (by simp)
  have hnew := h'.node before other y (middle ++ back) (by simp)
  rw [hold, hnew, Option.map_some]
  cases middle with
  | nil =>
      rw [if_pos (by simp)]
      rfl
  | cons cell middle =>
      rw [if_neg (by simp only [List.length_append, List.length_cons]; omega)]
      rfl

/-- Of the nodes behind it, only the first linked back to it. -/
theorem Linked.kept_behind {j : Nat} (h : Linked .head list (front ++ (slot, x) :: back) free)
    (h' : Linked .head list' (front ++ back) free') (hother : back.slots[j]? = some other) :
    list'.nodes.get? other = (list.nodes.get? other).map fun node =>
      { node with prev := if j = 0 then lastSlot front else node.prev } := by
  obtain ⟨middle, y, behind, rfl, rfl⟩ := split_of_getElem? hother
  have hold := h.node (front ++ (slot, x) :: middle) other y behind (by simp)
  have hnew := h'.node (front ++ middle) other y behind (by simp)
  rw [hold, hnew, Option.map_some]
  cases middle with
  | nil =>
      rw [if_pos List.length_nil, List.append_nil]
      rfl
  | cons cell middle =>
      rw [if_neg (by simp), lastSlot_append_cons, lastSlot_append_cons, lastSlot_cons_cons]

theorem Linked.spliced (h : Linked .head list (front ++ (slot, x) :: back) free)
    (h' : Linked .head list' (front ++ back) free') :
    Spliced list (front ++ (slot, x) :: back).slots front.length list' := by
  have hlength : front.slots.length = front.length := List.length_map _
  have hsplit : (front ++ (slot, x) :: back).slots = front.slots ++ slot :: back.slots :=
    slots_append ..
  have hnext : (front.slots ++ slot :: back.slots)[front.length + 1]? = firstSlot back := by
    rw [← hlength, List.getElem?_append_right (Nat.le_succ _), Nat.succ_sub (Nat.le_refl _),
      Nat.sub_self, List.getElem?_cons_succ, ← List.head?_eq_getElem?, firstSlot, Cells.slots,
      List.head?_map]
  have hprev : ((front.slots ++ slot :: back.slots).take front.length).getLast?
      = lastSlot front := by
    rw [← hlength, List.take_left, lastSlot, Cells.slots, List.getLast?_map]
  obtain ⟨hfront, hback, -, -⟩ := h.apart
  rw [hsplit]
  refine ⟨?_, ?_, ?_⟩
  · rw [← hlength, List.eraseIdx_append_of_length_le (Nat.le_refl _), Nat.sub_self,
      List.eraseIdx_cons_zero, ← slots_append]
    exact h'.healthy
  · intro other hother
    rw [← hlength, List.getElem?_append_right (Nat.le_refl _), Nat.sub_self] at hother
    obtain rfl := Option.some.inj hother
    refine h'.get?_eq_none ?_
    rw [slots_append, List.mem_append]
    exact fun hmem => hmem.elim hfront hback
  · intro j other hj hother
    rw [hnext, hprev]
    rcases Nat.lt_or_gt_of_ne hj with hlt | hgt
    · have hbehind : ¬j = front.length + 1 := by omega
      rw [List.getElem?_append_left (hlength ▸ hlt)] at hother
      rw [h.kept_before h' hother]
      simp only [if_neg hbehind]
    · obtain ⟨k, rfl⟩ : ∃ k, j = front.length + (k + 1) := ⟨j - front.length - 1, by omega⟩
      have hbefore : ¬front.length + (k + 1) + 1 = front.length := by omega
      have hfirst : front.length + (k + 1) = front.length + 1 ↔ k = 0 := by omega
      rw [← hlength, List.getElem?_append_right (Nat.le_add_right _ _), Nat.add_sub_cancel_left,
        List.getElem?_cons_succ] at hother
      rw [h.kept_behind h' hother]
      simp only [if_neg hbefore, hfirst]

/-! ## The operations -/

variable [Element α]

theorem Linked.append_extended (h : Linked .head list cells free) (memory : Memory) (e : End)
    (x : α) :
    Declines memory e x list
      ∨ ∃ capacity, Takes memory e x list capacity
        ∧ Extended e list cells.slots [free.head?.getD list.nodes.slots]
            (list.append memory e x).state
        ∧ (list.append memory e x).state.nodes.get? (free.head?.getD list.nodes.slots)
          = some (.outermost e (list.slotAt e) x) := by
  obtain ⟨listed, hlisted, hslots, -⟩ := h.from_end e
  rcases hlisted.insertion_appended memory x with hdeclines | ⟨capacity, htakes, happended⟩
  · exact .inl hdeclines
  · have hextended := happended.extended hlisted
    have hlinked := happended.linked
    rw [List.length_singleton, Pool.upcoming_one] at hextended hlinked
    rw [hslots] at hextended
    have hnew := hlinked.node [] _ x listed rfl
    refine .inr ⟨capacity, htakes, hextended, ?_⟩
    rw [hnew, Node.outermost_eq, hlisted.near]
    rfl

theorem Linked.find_of_denied {value : α} (h : Linked e list (front ++ (slot, x) :: back) free)
    (hdenied : Denied value front.elements) (hsame : equal x value = .ok true) :
    (list.find e value).result = .ok (Cursor.stepsFromFront e list.len front.length) := by
  have hlength : front.elements.length = front.length := List.length_map _
  have hlt : front.length < list.len := by
    rw [h.count, List.length_append, List.length_cons]
    omega
  have hsplit : (front ++ (slot, x) :: back).elements = front.elements ++ x :: back.elements :=
    elements_append ..
  rw [h.holds.find_eq, Content.reached, End.listed_listed, hsplit,
    (Searched.found _ x _ rfl hdenied hsame).search_eq, Traced.bind_ok, hlength]
  simp only [End.position_eq e hlt]
  rfl

theorem Linked.delete_spliced (h : Linked .head list cells free) (e : End) (value : α) :
    ((list.delete e value).state = list ∧ (list.delete e value).result ≠ .ok true)
      ∨ ∃ i < list.len, (list.find e value).result = .ok i
        ∧ Spliced list cells.slots i (list.delete e value).state := by
  obtain ⟨listed, hlisted, hslots, -⟩ := h.from_end e
  rcases hlisted.delete_cases value with
    ⟨front, slot, x, back, list', rfl, hdenied, hsame, -⟩ | ⟨-, hdelete⟩ |
    ⟨front, slot, x, back, panic, -, -, -, hdelete⟩
  · obtain ⟨list', hdelete, hlinked, -⟩ := hlisted.delete_of_denied hdenied hsame
    have hcount := hlisted.count
    rw [List.length_append, List.length_cons] at hcount
    refine .inr ⟨_, ?_, hlisted.find_of_denied hdenied hsame, ?_⟩
    · cases e <;> simp only [Cursor.stepsFromFront] <;> omega
    · rw [hdelete]
      cases e with
      | head =>
          rw [← hslots]
          exact hlisted.spliced hlinked
      | tail =>
          -- The same cells from the head, and what was before the node is behind it.
          have hflip := hlisted.flip
          have hflip' := hlinked.flip
          simp only [List.reverse_append, List.reverse_cons, List.append_assoc,
            List.singleton_append] at hflip hflip'
          have hspliced := Linked.spliced hflip hflip'
          have hindex : Cursor.stepsFromFront .tail list.len front.length
              = back.reverse.length := by
            rw [List.length_reverse]
            simp only [Cursor.stepsFromFront]
            omega
          rw [hindex, ← hslots]
          simpa [End.listed] using hspliced
  · rw [hdelete]
    exact .inl ⟨rfl, by simp⟩
  · rw [hdelete]
    exact .inl ⟨rfl, by simp⟩

theorem Linked.extend_extended (h : Linked .tail list cells free) (memory : Memory)
    (source : Source α) :
    ∃ n, Extended .tail list cells.slots.reverse (Pool.upcoming free list.nodes.slots n)
      (list.extend memory source).state := by
  rcases h.reserve_cases source.hint with
    ⟨capacity, hreserve, hlinked, -, -⟩ | ⟨hreserve, -⟩
  · obtain ⟨xs, happended⟩ := hlinked.appendAll_appended memory source.pulls
    rw [extend_of_reserve source hreserve rfl]
    exact ⟨xs.length, Appended.extended ⟨happended.linked, happended.slots⟩ h⟩
  · rw [LinkedList.extend, hreserve]
    exact ⟨0, Appended.extended (appended_nil h) h⟩

/-- An operation that adds and removes nothing may change the memory. -/
theorem inspect_grown (hvalid : list.nodes.Valid free) :
    ∀ operation : Operation α, operation.Inspects → Grown list (list.perform operation).state
  | .len, _ => .refl list
  | .isEmpty, _ => .refl list
  | .outermost _, _ => .refl list
  | .contents _, _ => .refl list
  | .find .., _ => .refl list
  | .iterate _, _ => .refl list
  | .reserve additional, _ => by
      rw [LinkedList.perform]
      rcases reserve_grown hvalid additional with
        ⟨-, list', hreserve, hgrown, -⟩ | ⟨-, hreserve⟩
      · rw [hreserve]
        exact hgrown
      · rw [hreserve]
        exact .refl list

/-- What the operations write to in a list through `slots` with the vacant slots `free`. -/
structure Footprint (list : LinkedList α) (slots free : List Slot) : Prop where
  /-- An append puts a node in one slot, and changes one link of one other. -/
  append : ∀ memory e x, (list.append memory e x).result = .ok () →
    Extended e list slots [free.head?.getD list.nodes.slots] (list.append memory e x).state
      ∧ (list.append memory e x).state.nodes.get? (free.head?.getD list.nodes.slots)
        = some (.outermost e (list.slotAt e) x)
  append_failed : ∀ memory e x, (list.append memory e x).result ≠ .ok () →
    (list.append memory e x).state = list
  tryAppend : ∀ memory e x,
    ((list.tryAppend memory e x).result = .ok (.ok ()) ↔ (list.append memory e x).result = .ok ())
      ∧ (list.tryAppend memory e x).state = (list.append memory e x).state
  /-- A deletion takes out the node that would be found, or changes nothing. -/
  delete : ∀ e value,
    ((list.delete e value).state = list ∧ (list.delete e value).result ≠ .ok true)
      ∨ ∃ i < list.len, (list.find e value).result = .ok i
        ∧ Spliced list slots i (list.delete e value).state
  /-- An extension does what appends at the tail do. -/
  extend : ∀ memory source, ∃ n,
    Extended .tail list slots (Pool.upcoming free list.nodes.slots n)
      (list.extend memory source).state
  others : ∀ operation, operation.Inspects → Grown list (list.perform operation).state

theorem Linked.footprint (h : Linked .head list cells free) :
    Footprint list cells.slots free := by
  refine ⟨?_, ?_, ?_, h.delete_spliced, ?_, inspect_grown h.valid⟩
  · intro memory e x hok
    rcases h.append_extended memory e x with hdeclines | ⟨capacity, -, hextended, hnew⟩
    · exact absurd hok hdeclines.append
    · exact ⟨hextended, hnew⟩
  · intro memory e x hfailed
    rcases h.append_extended memory e x with hdeclines | ⟨capacity, htakes, -⟩
    · exact hdeclines.unchanged
    · exact absurd htakes.append hfailed
  · intro memory e x
    rcases h.append_extended memory e x with hdeclines | ⟨capacity, htakes, -⟩
    · exact ⟨⟨fun hok => absurd hok hdeclines.tryAppend, fun hok => absurd hok hdeclines.append⟩,
        hdeclines.unchanged'.trans hdeclines.unchanged.symm⟩
    · exact ⟨⟨fun _ => htakes.append, fun _ => htakes.tryAppend⟩, htakes.appended.symm⟩
  · intro memory source
    have hextended := h.flip.extend_extended memory source
    rwa [slots_reverse, List.reverse_reverse] at hextended

/-- An extension is not among the operations that write to no node. -/
theorem extension_relinks_tail :
    ¬∀ (list : LinkedList Tracked) (slots free : List Slot) (operation : Operation Tracked),
      list.Healthy slots → list.nodes.Valid free →
      (∀ memory e x, operation ≠ .append memory e x) →
      (∀ memory e x, operation ≠ .tryAppend memory e x) →
      (∀ e value, operation ≠ .delete e value) → operation ≠ .clear →
      ∀ slot ∈ slots, (list.perform operation).state.nodes.get? slot = list.nodes.get? slot := by
  intro hclaim
  have hsame := hclaim gapped [2, 0] [1] (.extend .ample (.ofList 1 [⟨3, "z", none⟩]))
    gapped_healthy gapped_valid nofun nofun nofun nofun 0 (by decide)
  revert hsame
  decide

end LinkedList

end LinkedPool
