import LinkedPool.Element.Keyed
import LinkedPool.Proofs.Element.Equivalence
import LinkedPool.Proofs.LinkedList.RoundTrip
import LinkedPool.Proofs.LinkedList.Stay

/-!
# Draining a list

If equality is an equivalence, a list is drained by deleting elements equal to
those it holds, in any order and from either end. The element that goes need
not be the one that was named, only one that equals it; so what stays the same
throughout is that for each value as many elements that equal it are left as
are still to be named (`Balanced`). Each deletion is a `Removal`, and puts the
slot it vacates on top of the chain (`Linked.drains`).

The slots are taken again from the top of the chain, so in the reverse of the
order in which they were vacated, and no append needs memory before all of
them are in use (`Linked.refills`).
-/

namespace LinkedPool

open Element

namespace Element

variable {α : Type} [Element α] {x y : α} {xs ys front back : List α}

/-- For each value, as many elements of one sequence equal it as of the other. -/
def Balanced (xs ys : List α) : Prop :=
  ∀ value, xs.countP (same · value) = ys.countP (same · value)

theorem balanced_of_perm (h : xs.Perm ys) : Balanced xs ys :=
  fun _ => h.countP_eq _

/-- Elements that equal each other are taken away on both sides. -/
theorem Balanced.remove (hlaw : LawfulEquality α) (h : Balanced (front ++ x :: back) (y :: ys))
    (hsame : Same x y) : Balanced (front ++ back) ys := by
  intro value
  have hcount := h value
  have hxy : same x value = same y value := hlaw.same_congr hsame (hlaw.refl value)
  rw [List.countP_append, List.countP_cons, List.countP_cons, hxy] at hcount
  rw [List.countP_append]
  omega

theorem Balanced.exists_same (hlaw : LawfulEquality α) (h : Balanced xs (y :: ys)) :
    ∃ x ∈ xs, Same x y := by
  have hpos : 0 < (y :: ys).countP (same · y) :=
    List.countP_pos_iff.mpr ⟨y, List.mem_cons_self, same_eq_true_iff.mpr (hlaw.refl y)⟩
  obtain ⟨x, hx, hsame⟩ := List.countP_pos_iff.mp ((h y).symm ▸ hpos)
  exact ⟨x, hx, same_eq_true_iff.mp hsame⟩

theorem Balanced.eq_nil (hlaw : LawfulEquality α) (h : Balanced xs []) : xs = [] := by
  cases xs with
  | nil => rfl
  | cons x xs =>
      have hnone := List.countP_eq_zero.mp (h x) x List.mem_cons_self
      exact absurd (same_eq_true_iff.mpr (hlaw.refl x)) hnone

end Element

namespace LinkedList

open Cells

variable {α : Type} {d e : End} {list list' last : LinkedList α} {cells : Cells α}
  {slots free vacated : List Slot} {slot : Slot} {x y : α} {xs ys : List α}

/-- A list that is linked from one end is linked from each. -/
theorem Linked.turned (h : Linked d list cells free) (e : End) :
    ∃ turned : Cells α, Linked e list turned free ∧ turned.Perm cells := by
  by_cases hd : d = e
  · exact ⟨cells, hd ▸ h, .refl cells⟩
  · obtain rfl : d = e.opposite := End.eq_opposite_of_ne hd
    exact ⟨cells.reverse, linked_flip_iff.mp h, cells.reverse_perm⟩

variable [Element α]

/-! ## Taking elements out -/

/-- The deletion of `y` from the end `e` takes `x`, which equals it, out of
`slot`, and leaves `list'`. -/
structure Removal (list : LinkedList α) (e : End) (y x : α) (slot : Slot)
    (list' : LinkedList α) : Prop where
  result : (list.delete e y).result = (dropPanic x).elim (.ok true) .error
  state : (list.delete e y).state = list'
  same : Same x y
  houses : list.Houses slot x
  vacated : list'.nodes.get? slot = none
  contents : ∃ front back, list.contents .head = .ok (front ++ x :: back)
    ∧ list'.contents .head = .ok (front ++ back)
  len : list'.len + 1 = list.len
  healthy : ∃ slots, list'.Healthy slots
  slots : list'.nodes.slots = list.nodes.slots
  capacity : list'.nodes.capacity = list.nodes.capacity

/-- Deleting the elements of `drains` one after the other, each from its end,
vacates the slots `vacated` in this order, and leaves the list `last`. -/
inductive Drains : (list : LinkedList α) → (drains : List (End × α)) → (vacated : List Slot) →
    (last : LinkedList α) → Prop
  | nil {list : LinkedList α} : Drains list [] [] list
  | cons {list list' last : LinkedList α} {e : End} {y x : α} {slot : Slot}
      {drains : List (End × α)} {vacated : List Slot} (removal : Removal list e y x slot list')
      (rest : Drains list' drains vacated last) :
      Drains list ((e, y) :: drains) (slot :: vacated) last

/-- If some element equals `y`, one that does is deleted. -/
theorem Linked.removal (hlaw : LawfulEquality α) (h : Linked e list cells free)
    (hy : ∃ x ∈ cells.elements, Same x y) :
    ∃ (front : Cells α) (slot : Slot) (x : α) (back : Cells α) (list' : LinkedList α),
      cells = front ++ (slot, x) :: back ∧ Removal list e y x slot list'
        ∧ Linked e list' (front ++ back) (slot :: free) := by
  rcases h.delete_cases y with
    ⟨front, slot, x, back, -, rfl, hdenied, hsame, -⟩ | ⟨hdenied, -⟩ |
    ⟨front, slot, x, back, panic, -, -, hpanic, -⟩
  · obtain ⟨list', hdelete, hlinked, hslots, hcapacity⟩ := h.delete_of_denied hdenied hsame
    refine ⟨front, slot, x, back, list', rfl, ?_, hlinked⟩
    have hcontents := h.holds.contents .head
    have hcontents' := hlinked.holds.contents .head
    have hcount := h.count
    rw [List.length_append, List.length_cons] at hcount
    refine ⟨by rw [hdelete], by rw [hdelete], hsame, ?_, ?_, ?_, ?_, ⟨_, hlinked.healthy_listed⟩,
      hslots, hcapacity⟩
    · exact h.houses_iff.mpr (List.mem_append_right _ List.mem_cons_self)
    · obtain ⟨hfront, hback, -, -⟩ := h.apart
      refine hlinked.get?_eq_none ?_
      rw [slots_append, List.mem_append]
      exact fun hmem => hmem.elim hfront hback
    · rw [elements_append, elements_cons] at hcontents
      rw [elements_append] at hcontents'
      cases e with
      | head => exact ⟨_, _, hcontents, hcontents'⟩
      | tail =>
          refine ⟨back.elements.reverse, front.elements.reverse, ?_, ?_⟩
          · rw [hcontents]
            simp [End.listed, Content.reached]
          · rw [hcontents']
            simp [End.listed, Content.reached]
    · rw [hlinked.count, hcount, List.length_append]
      omega
  · obtain ⟨x, hx, hsame⟩ := hy
    cases (hdenied x hx).symm.trans hsame
  · exact absurd hpanic (hlaw.not_panics x y panic)

theorem Linked.drains (hlaw : LawfulEquality α) (h : Linked d list cells free)
    (drains : List (End × α)) (hbalanced : Balanced cells.elements (drains.map Prod.snd)) :
    ∃ vacated last, Drains list drains vacated last ∧ vacated.Perm cells.slots
      ∧ Linked .head last ([] : Cells α) (vacated.reverse ++ free)
      ∧ last.nodes.slots = list.nodes.slots ∧ last.nodes.capacity = list.nodes.capacity := by
  induction drains generalizing d list cells free with
  | nil =>
      obtain rfl : cells = [] := List.map_eq_nil_iff.mp (hbalanced.eq_nil hlaw)
      obtain ⟨turned, hlinked, hperm⟩ := h.turned .head
      obtain rfl := hperm.eq_nil
      exact ⟨[], list, .nil, .refl [], hlinked, rfl, rfl⟩
  | cons drain drains ih =>
      obtain ⟨e, y⟩ := drain
      obtain ⟨turned, hlinked, hperm⟩ := h.turned e
      have hturned : Balanced turned.elements (y :: drains.map Prod.snd) := fun value =>
        ((hperm.map Prod.snd).countP_eq _).trans (hbalanced value)
      obtain ⟨front, slot, x, back, list', rfl, hremoval, hlinked'⟩ :=
        hlinked.removal hlaw (hturned.exists_same hlaw)
      rw [elements_append, elements_cons] at hturned
      have hrest := hturned.remove hlaw hremoval.same
      rw [← elements_append] at hrest
      obtain ⟨vacated, last, hdrains, hvacated, hlast, hslots, hcapacity⟩ := ih hlinked' hrest
      refine ⟨slot :: vacated, last, .cons hremoval hdrains, ?_, ?_, hslots.trans hremoval.slots,
        hcapacity.trans hremoval.capacity⟩
      · refine (hvacated.cons slot).trans (.trans ?_ (hperm.map Prod.fst))
        rw [slots_append, List.map_append, List.map_cons]
        exact List.perm_middle.symm
      · rw [List.reverse_cons, List.append_assoc]
        exact hlast

/-! ## Putting elements in again -/

/-- Appending the elements of `refills` one after the other, each to its end,
takes the vacant slots `taken` in this order, whatever memory there is, and
leaves the list `full`; no slots are added, and no memory. -/
inductive Refills : (list : LinkedList α) → (refills : List (Memory × End × α)) →
    (taken : List Slot) → (full : LinkedList α) → Prop
  | nil {list : LinkedList α} : Refills list [] [] list
  | cons {list list' full : LinkedList α} {memory : Memory} {e : End} {x : α} {slot : Slot}
      {refills : List (Memory × End × α)} {taken : List Slot}
      (takes : Takes memory e x list list.nodes.capacity)
      (state : (list.append memory e x).state = list') (vacant : list.nodes.get? slot = none)
      (houses : list'.Houses slot x) (slots : list'.nodes.slots = list.nodes.slots)
      (rest : Refills list' refills taken full) :
      Refills list ((memory, e, x) :: refills) (slot :: taken) full

/-- An append takes the slot on top of the chain, if there is one. -/
theorem Linked.append_vacant (h : Linked e list cells (slot :: free)) (memory : Memory) (x : α) :
    ∃ list', Takes memory e x list list.nodes.capacity ∧ (list.append memory e x).state = list'
      ∧ Linked e list' ((slot, x) :: cells) free ∧ list'.nodes.slots = list.nodes.slots := by
  have hlen : list.len ≠ list.nodes.capacity := by
    have hslots := h.valid.len_add_length
    have hfits := h.valid.fits
    have hcount : list.len = list.nodes.len := rfl
    rw [List.length_cons] at hslots
    omega
  rcases h.append_cases memory x with
    ⟨refusal, hfree, -⟩ | ⟨slot', list', free', happend, hlinked, hslot⟩
  · cases hfree
  · cases hslot with
    | vacant slots capacity =>
        exact ⟨list', h.takes memory x hlen, by rw [happend], hlinked, slots⟩

theorem Linked.refills (h : Linked d list cells free) (refills : List (Memory × End × α))
    (hlength : refills.length ≤ free.length) :
    ∃ full, Refills list refills (free.take refills.length) full := by
  induction refills generalizing d list cells free with
  | nil => exact ⟨list, .nil⟩
  | cons refill refills ih =>
      obtain ⟨memory, e, x⟩ := refill
      cases free with
      | nil => cases hlength
      | cons slot free =>
          obtain ⟨turned, hlinked, -⟩ := h.turned e
          obtain ⟨list', htakes, hstate, hlinked', hslots⟩ := hlinked.append_vacant memory x
          obtain ⟨full, hrest⟩ := ih hlinked' (Nat.le_of_succ_le_succ hlength)
          have hvacant : list.nodes.get? slot = none :=
            h.valid.get?_eq_none List.mem_cons_self
          have hhouses : list'.Houses slot x := hlinked'.houses_iff.mpr List.mem_cons_self
          exact ⟨full, .cons htakes hstate hvacant hhouses hslots hrest⟩

/-! ## The drained list -/

/-- `last` is empty, with the slots and the memory of `list`; its slots are all
vacant, and the next elements go into those of `chain`, in this order. -/
structure Drained (list : LinkedList α) (chain : List Slot) (last : LinkedList α) : Prop where
  ends : last.head = none ∧ last.tail = none
  healthy : last.Healthy []
  len : last.len = 0
  slots : last.nodes.slots = list.nodes.slots
  capacity : last.nodes.capacity = list.nodes.capacity
  vacant : ∀ slot, last.nodes.get? slot = none
  all : chain.length = last.nodes.slots
  valid : last.nodes.Valid chain
  /-- There is nothing left to delete. -/
  delete : ∀ e value, last.delete e value = ⟨⟨.ok false, []⟩, last⟩
  refills : ∀ refills : List (Memory × End × α), refills.length ≤ last.nodes.slots →
    ∃ full, Refills last refills (chain.take refills.length) full

theorem Linked.drained (h : Linked .head last ([] : Cells α) free)
    (hslots : last.nodes.slots = list.nodes.slots)
    (hcapacity : last.nodes.capacity = list.nodes.capacity) : Drained list free last := by
  have hlen : last.len = 0 := h.count
  have hall : free.length = last.nodes.slots := by
    have hlength := h.valid.len_add_length
    have hcount : last.len = last.nodes.len := rfl
    omega
  refine ⟨⟨h.near, h.far⟩, h.healthy, hlen, hslots, hcapacity, ?_, hall, h.valid, ?_, ?_⟩
  · intro slot
    exact h.get?_eq_none List.not_mem_nil
  · intro e value
    obtain ⟨turned, hlinked, hperm⟩ := h.turned e
    obtain rfl := hperm.eq_nil
    rcases hlinked.delete_cases value with
      ⟨front, slot, x, back, list', hnil, -⟩ | ⟨-, hdelete⟩ |
      ⟨front, slot, x, back, panic, hnil, -⟩
    · cases front <;> cases hnil
    · exact hdelete
    · cases front <;> cases hnil
  · intro refills hlength
    exact h.refills refills (hall ▸ hlength)

/-- Deleting elements in the order of any rearrangement of a list, each from
either end, takes out an element that equals the one named each time, and in
the end the list is empty. A deletion answers with yes unless the drop of the
element that it took out panics; the element is gone then all the same. -/
theorem drained_in_any_order (hlaw : LawfulEquality α) (hhealthy : list.Healthy slots)
    (hvalid : list.nodes.Valid free) (hcontents : list.contents .head = .ok xs)
    (drains : List (End × α)) (hperm : (drains.map Prod.snd).Perm xs) :
    ∃ vacated last, Drains list drains vacated last ∧ vacated.Perm slots
      ∧ Drained list (vacated.reverse ++ free) last := by
  obtain ⟨cells, hlinked, rfl⟩ := hhealthy.linked hvalid
  obtain rfl : cells.elements = xs :=
    Except.ok.inj ((hlinked.holds.contents .head).symm.trans hcontents)
  obtain ⟨vacated, last, hdrains, hvacated, hlast, hslots, hcapacity⟩ :=
    hlinked.drains hlaw drains (balanced_of_perm hperm.symm)
  exact ⟨vacated, last, hdrains, hvacated, hlast.drained hslots hcapacity⟩

/-! ## Elements that break -/

theorem same_brittle_iff {x y : Brittle} : Same x y ↔ x.key = y.key := by
  simp [Same, equal]

theorem lawfulEquality_brittle : LawfulEquality Brittle where
  total _ _ := ⟨_, rfl⟩
  refl _ := same_brittle_iff.mpr rfl
  symm h := same_brittle_iff.mpr (same_brittle_iff.mp h).symm
  trans h h' := same_brittle_iff.mpr ((same_brittle_iff.mp h).trans (same_brittle_iff.mp h'))

/-- Three elements in slots out of order, two of which are equal; of these the
last one breaks. -/
def crumbling : LinkedList Brittle where
  head := some 2
  tail := some 3
  nodes :=
    { storage :=
        #[.used ⟨some 3, some 2, ⟨2, false⟩⟩, .vacant none, .used ⟨some 0, none, ⟨1, false⟩⟩,
          .used ⟨none, some 0, ⟨1, true⟩⟩]
      firstFree := some 1
      len := 3
      capacity := 4 }

theorem crumbling_healthy : crumbling.Healthy [2, 0, 3] := by
  refine ⟨⟨rfl, _, rfl, rfl, _, rfl, rfl, _, rfl, rfl⟩,
    ⟨rfl, _, rfl, rfl, _, rfl, rfl, _, rfl, rfl⟩, by decide, rfl, ⟨rfl, rfl⟩, ?_⟩
  intro front slot next back hsplit
  rcases front with _ | ⟨first, _ | ⟨second, front⟩⟩
  · cases hsplit
    exact ⟨⟨_, rfl, rfl⟩, ⟨_, rfl, rfl⟩⟩
  · cases hsplit
    exact ⟨⟨_, rfl, rfl⟩, ⟨_, rfl, rfl⟩⟩
  · have hlength := congrArg List.length hsplit
    simp only [List.length_cons, List.length_append, List.length_nil] at hlength
    omega

theorem crumbling_valid : crumbling.nodes.Valid [1] := by
  refine ⟨⟨rfl, none, rfl, rfl⟩, by decide, ?_, by decide, by decide, by decide⟩
  intro slot next hslot
  have hlt : slot < 4 := (Array.getElem?_eq_some_iff.mp hslot).1
  match slot, hlt with
  | 0, _ | 2, _ | 3, _ => cases hslot
  | 1, _ => exact List.mem_cons_self ..

/-- The element that goes first is not the one that is named, but it equals it,
and breaks. -/
theorem crumbling_drained_in_any_order :
    LawfulEquality Brittle ∧ crumbling.Healthy [2, 0, 3] ∧ crumbling.nodes.Valid [1]
      ∧ crumbling.contents .head = .ok [⟨1, false⟩, ⟨2, false⟩, ⟨1, true⟩]
      ∧ (crumbling.delete .tail ⟨1, false⟩).result = .error (.element "broken")
      ∧ ∃ vacated last,
        Drains crumbling [(.tail, ⟨1, false⟩), (.head, ⟨1, true⟩), (.tail, ⟨2, false⟩)] vacated last
          ∧ vacated.Perm [2, 0, 3] ∧ Drained crumbling (vacated.reverse ++ [1]) last :=
  ⟨lawfulEquality_brittle, crumbling_healthy, crumbling_valid, rfl, rfl,
    drained_in_any_order lawfulEquality_brittle crumbling_healthy crumbling_valid rfl
      [(.tail, ⟨1, false⟩), (.head, ⟨1, true⟩), (.tail, ⟨2, false⟩)] (by decide)⟩

/-- That all elements of a list can be deleted does not mean that it is answered. -/
theorem crumbling_unanswered :
    ¬∀ (list : LinkedList Brittle) (slots free : List Slot) (xs : List Brittle) (e : End)
      (y : Brittle) (ys : List Brittle), LawfulEquality Brittle → list.Healthy slots →
      list.nodes.Valid free → list.contents .head = .ok xs → (y :: ys).Perm xs →
      (list.delete e y).result = .ok true := by
  intro hclaim
  have hanswers := hclaim crumbling [2, 0, 3] [1] _ .tail ⟨1, false⟩ [⟨2, false⟩, ⟨1, true⟩]
    lawfulEquality_brittle crumbling_healthy crumbling_valid rfl (.refl _)
  cases hanswers

end LinkedList

end LinkedPool
