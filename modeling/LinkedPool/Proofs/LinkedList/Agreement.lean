import LinkedPool.Proofs.LinkedList.Ledger
import LinkedPool.Proofs.LinkedList.Search

/-!
# Finding and deleting are one search

Finding an element steps a cursor that counts what remains, and deleting one
walks along the links of the nodes until there are no more. Both come to the
elements of the list in the same order and ask them the same question, so they
end alike (`Holds.agreement`): with the same element, with none, or with the
panic of the same comparison. What equality says does not matter, as the
search stops wherever the first element does not deny.

The elements asked are then known from the sequence alone (`consulted`), and
what is found from the two ends can be compared.
-/

namespace LinkedPool

namespace End

theorem listed_nil {α : Type} (e : End) : e.listed ([] : List α) = [] := by
  cases e <;> rfl

/-- Of two positions, the first is nearer to the end. -/
def Nearer : End → Nat → Nat → Prop
  | .head, k, i => k < i
  | .tail, k, i => i < k

end End

namespace Element

variable {α : Type}

/-- The questions asked in a call, in order: who was asked, and about what. -/
def comparisonsIn (trace : List (Event α)) : List (α × α) :=
  trace.filterMap fun
    | .compared left right => some (left, right)
    | _ => none

@[simp] theorem comparisonsIn_append (first second : List (Event α)) :
    comparisonsIn (first ++ second) = comparisonsIn first ++ comparisonsIn second :=
  List.filterMap_append

@[simp] theorem comparisonsIn_asked (value : α) (xs : List α) :
    comparisonsIn (asked value xs) = xs.map (·, value) := by
  rw [comparisonsIn, asked, List.filterMap_map]
  exact congrFun List.filterMap_eq_map' xs

@[simp] theorem comparisonsIn_removal (line : LogLine) (x : α) :
    comparisonsIn [.logged line, .dropped x] = [] := rfl

variable [Element α] {value x : α} {xs front back : List α}

/-- The elements that are asked when `xs` are searched for `value`: those up
to the first that does not deny that it equals the value. -/
def consulted (value : α) : List α → List α
  | [] => []
  | x :: xs =>
      x :: match equal x value with
        | .ok false => consulted value xs
        | _ => []

/-- Elements that deny are passed by. -/
theorem Denied.search_append (h : Denied value front) (xs : List α) :
    search value (front ++ xs)
      = ((search value xs).bind fun steps => .answer (steps.map (front.length + ·))).after
          (asked value front) := by
  induction front with
  | nil => simp [asked]
  | cons y front ih =>
      obtain ⟨hy, hfront⟩ := List.forall_mem_cons.mp h
      have hlength (steps : Option Nat) :
          (steps.map (front.length + ·)).map (· + 1) = steps.map ((y :: front).length + ·) := by
        cases steps with
        | none => rfl
        | some steps =>
            rw [Option.map_some, Option.map_some, Option.map_some, List.length_cons,
              Nat.add_right_comm]
      rw [List.cons_append, search, Element.compare, hy, Traced.bind_ok, ih hfront]
      simp only [Bool.false_eq_true, if_false, Traced.after_bind, Traced.bind_assoc,
        Traced.answer_bind, hlength, Traced.after_after]
      rfl

/-- A search has but one end. -/
theorem Searched.search_eq {call : Traced α (Option Nat)} (h : Searched value xs call) :
    search value xs = call := by
  cases h with
  | found front x back split denied same =>
      rw [split, denied.search_append, search, Element.compare, same]
      simp [asked, Traced.answer]
  | absent denied =>
      have hnil := denied.search_append []
      rw [List.append_nil] at hnil
      rw [hnil]
      simp [search, Traced.answer]
  | panicked front x back panic split denied same =>
      rw [split, denied.search_append, search, Element.compare, same]
      simp [asked]

theorem Denied.consulted (h : Denied value xs) : consulted value xs = xs := by
  induction xs with
  | nil => rfl
  | cons x xs ih =>
      obtain ⟨hx, hxs⟩ := List.forall_mem_cons.mp h
      rw [Element.consulted, hx, ih hxs]

theorem Denied.consulted_append (h : Denied value front) (hx : equal x value ≠ .ok false) :
    Element.consulted value (front ++ x :: back) = front ++ [x] := by
  induction front with
  | nil =>
      rw [List.nil_append, Element.consulted]
      split
      · exact absurd ‹_› hx
      · rfl
  | cons y front ih =>
      obtain ⟨hy, hfront⟩ := List.forall_mem_cons.mp h
      rw [List.cons_append, Element.consulted, hy, ih hfront, List.cons_append]

end Element

open Element

namespace Sequence

variable {α : Type} {e : End} {xs front back : List α} {x : α}

/-- An element that is come to from an end is at the position it has from there. -/
theorem stepsFromFront_lt (h : e.listed xs = front ++ x :: back) :
    Cursor.stepsFromFront e xs.length front.length < xs.length := by
  have hlen := congrArg List.length h
  rw [End.length_listed, List.length_append, List.length_cons] at hlen
  cases e <;> simp only [Cursor.stepsFromFront] <;> omega

theorem getElem?_of_listed (h : e.listed xs = front ++ x :: back) :
    xs[Cursor.stepsFromFront e xs.length front.length]? = some x := by
  have hlen := congrArg List.length h
  rw [End.length_listed, List.length_append, List.length_cons] at hlen
  rw [getElem?_stepsFromFront e (by omega), h, List.getElem?_append_right (Nat.le_refl _),
    Nat.sub_self, List.getElem?_cons_zero]

/-- The elements that are nearer to an end come from there before the others. -/
theorem mem_front_of_nearer {k : Nat} {y : α} (h : e.listed xs = front ++ x :: back)
    (hget : xs[k]? = some y)
    (hnearer : e.Nearer k (Cursor.stepsFromFront e xs.length front.length)) : y ∈ front := by
  have hk := (List.getElem?_eq_some_iff.mp hget).1
  have hlen := congrArg List.length h
  rw [End.length_listed, List.length_append, List.length_cons] at hlen
  have hsteps : Cursor.stepsFromFront e xs.length (Cursor.stepsFromFront e xs.length k) = k
      ∧ Cursor.stepsFromFront e xs.length k < front.length := by
    cases e with
    | head => exact ⟨rfl, hnearer⟩
    | tail =>
        simp only [Cursor.stepsFromFront, End.Nearer] at hnearer ⊢
        omega
  have hfront : front.length ≤ xs.length := by omega
  have hlisted := getElem?_stepsFromFront e (Nat.lt_of_lt_of_le hsteps.2 hfront)
  rw [hsteps.1, hget, h, List.getElem?_append_left hsteps.2] at hlisted
  exact List.mem_of_getElem? hlisted.symm

end Sequence

/-- A drop that does not panic is all that is needed for an answer. -/
theorem elim_eq_ok_iff {panic? : Option Panic} :
    panic?.elim (Except.ok true) .error = .ok true ↔ panic? = none := by
  cases panic? <;> simp

namespace LinkedList

open Cells

variable {α : Type} [Element α] {e : End} {value x : α} {list : LinkedList α}
  {content : Content α} {xs : List α}

/-- A call that finds `value` in a list that shows `xs` and one that deletes
it, from the same end, did the same search and ended accordingly. -/
inductive Agreement (list : LinkedList α) (e : End) (value : α) (xs : List α) :
    Traced α Nat → Outcome α (LinkedList α) Bool → Prop
  | found (front : List α) (x : α) (back : List α) (line : LogLine) (list' : LinkedList α)
      (split : e.listed xs = front ++ x :: back) (denied : Denied value front)
      (same : equal x value = .ok true)
      (left : list'.Holds (.linked (xs.eraseIdx
        (Cursor.stepsFromFront e xs.length front.length)))) :
      Agreement list e value xs
        ⟨.ok (Cursor.stepsFromFront e xs.length front.length), asked value (front ++ [x])⟩
        ⟨⟨(dropPanic x).elim (.ok true) .error,
          asked value (front ++ [x]) ++ [.logged line, .dropped x]⟩, list'⟩
  | absent (denied : Denied value xs) :
      Agreement list e value xs ⟨.ok list.len, asked value (e.listed xs)⟩
        ⟨⟨.ok false, asked value (e.listed xs)⟩, list⟩
  | panicked (front : List α) (x : α) (back : List α) (panic : Panic)
      (split : e.listed xs = front ++ x :: back) (denied : Denied value front)
      (same : equal x value = .error panic) :
      Agreement list e value xs ⟨.error panic, asked value (front ++ [x])⟩
        ⟨⟨.error panic, asked value (front ++ [x])⟩, list⟩

theorem Detached.agreement (h : list.Detached) (e : End) (value : α) :
    Agreement list e value []
      ((search value (e.listed [])).bind fun
        | none => .answer list.len
        | some steps => .ofExcept (e.position list.len steps)) (list.delete e value) := by
  have hagreed : Agreement list e value [] ⟨.ok list.len, asked value (e.listed [])⟩
      ⟨⟨.ok false, asked value (e.listed [])⟩, list⟩ := .absent (List.forall_mem_nil _)
  rw [e.listed_nil] at hagreed ⊢
  rw [h.delete]
  exact hagreed

/-- Whichever way a search of a list ends, so does a deletion from it. -/
theorem Holds.agreement (h : list.Holds content) (e : End) (value : α) :
    Agreement list e value content.reached (list.find e value) (list.delete e value) := by
  rw [h.find_eq]
  cases content with
  | detached xs => exact h.1.agreement e value
  | linked xs =>
      obtain ⟨cells, free, hlinked, hcells⟩ := h.linked_from e
      have hlen : list.len = xs.length := h.len
      rw [Content.reached, ← hcells]
      rcases hlinked.delete_cases value with
        ⟨front, slot, x, back, list', rfl, hdenied, hsame, hdelete, hlinked', -⟩
        | ⟨hdenied, hdelete⟩
        | ⟨front, slot, x, back, panic, rfl, hdenied, hsame, hdelete⟩
      · have hsplit : e.listed xs = front.elements ++ x :: back.elements := by
          rw [← hcells, Cells.elements_append, elements_cons]
        have hleft := hlinked'.holds
        rw [Cells.elements_append, ← Sequence.eraseIdx_stepsFromFront hsplit] at hleft
        have hsteps : front.elements.length < list.len := by
          rw [hlen, ← e.length_listed xs, hsplit, List.length_append, List.length_cons]
          omega
        have hagreed : Agreement list e value xs _ _ := .found front.elements x back.elements
          (removalLine e (lastSlot front) slot (firstSlot back) x) list' hsplit hdenied hsame hleft
        rw [hcells, (Searched.found _ x _ hsplit hdenied hsame).search_eq, hdelete]
        simp only [Traced.bind_ok, End.position_eq e hsteps, Traced.ofExcept_ok]
        rcases discard_cases x with ⟨hdrop, hdiscard⟩ | ⟨panic, hdrop, hdiscard⟩
        · rw [hdrop] at hagreed
          rw [hdiscard, hlen]
          simpa [Traced.answer] using hagreed
        · rw [hdrop] at hagreed
          rw [hdiscard, hlen]
          simpa [Traced.answer] using hagreed
      · rw [(Searched.absent hdenied).search_eq, hdelete, hcells]
        have habsent : Denied value xs := fun x hx => hdenied x (hcells ▸ e.mem_listed xs |>.mpr hx)
        simpa [Traced.answer] using Agreement.absent habsent
      · have hsplit : e.listed xs = front.elements ++ x :: back.elements := by
          rw [← hcells, Cells.elements_append, elements_cons]
        rw [hcells, (Searched.panicked _ x _ panic hsplit hdenied hsame).search_eq, hdelete]
        exact .panicked front.elements x back.elements panic hsplit hdenied hsame

/-! ## What a search tells of a deletion -/

/-- How finding `value` from the end `e` of a list that shows `xs`, and
deleting it from there, go together. -/
structure Concordant (list : LinkedList α) (e : End) (value : α) (xs : List α)
    (found : Traced α Nat) (deleted : Outcome α (LinkedList α) Bool) : Prop where
  /-- Finding does nothing but ask the elements in turn, as far as it has to. -/
  asks : found.trace = asked value (consulted value (e.listed xs))
  /-- Deleting makes the same comparisons. -/
  same_comparisons : comparisonsIn deleted.trace = comparisonsIn found.trace
  /-- Finding panics if a comparison does, and for no other reason. -/
  panics : ∀ panic, found.result = .error panic
    ↔ ∃ x ∈ consulted value (e.listed xs), equal x value = .error panic
  of_panic : ∀ panic, found.result = .error panic →
    deleted.result = .error panic ∧ deleted.state = list
  bounded : ∀ i, found.result = .ok i → i ≤ list.len
  absent : found.result = .ok list.len ↔ Denied value xs
  of_absent : found.result = .ok list.len → deleted.result = .ok false ∧ deleted.state = list
  /-- No element nearer to the end is equal to the value. -/
  nearest : ∀ i k x, found.result = .ok i → xs[k]? = some x → e.Nearer k i →
    equal x value = .ok false
  /-- What is found is removed and dropped, and nothing else is. -/
  of_found : ∀ i < list.len, found.result = .ok i →
    ∃ x, xs[i]? = some x ∧ equal x value = .ok true
      ∧ deleted.result = (dropPanic x).elim (.ok true) .error
      ∧ dropsIn deleted.trace = [x]
      ∧ deleted.state.contents .head = .ok (xs.eraseIdx i)
  answers_true : deleted.result = .ok true ↔
    ∃ i < list.len, found.result = .ok i ∧ ∀ x, xs[i]? = some x → dropPanic x = none

section Agreement

variable {found : Traced α Nat} {deleted : Outcome α (LinkedList α) Bool} {panic : Panic}
  {i k : Nat}

theorem Agreement.asks (h : Agreement list e value xs found deleted) :
    found.trace = asked value (consulted value (e.listed xs)) := by
  cases h with
  | found front x back line list' split denied same left =>
      rw [split, denied.consulted_append (by rw [same]; nofun)]
  | absent denied =>
      have hlisted : Denied value (e.listed xs) := fun x hx => denied x (e.mem_listed xs |>.mp hx)
      rw [hlisted.consulted]
  | panicked front x back panic split denied same =>
      rw [split, denied.consulted_append (by rw [same]; nofun)]

theorem Agreement.same_comparisons (h : Agreement list e value xs found deleted) :
    comparisonsIn deleted.trace = comparisonsIn found.trace := by
  cases h with
  | found front x back line list' split denied same left =>
      rw [comparisonsIn_append, comparisonsIn_removal, List.append_nil]
  | absent denied => rfl
  | panicked front x back panic split denied same => rfl

theorem Agreement.panics_iff (h : Agreement list e value xs found deleted) :
    found.result = .error panic
      ↔ ∃ x ∈ consulted value (e.listed xs), equal x value = .error panic := by
  cases h with
  | found front x back line list' split denied same left =>
      rw [split, denied.consulted_append (by rw [same]; nofun)]
      refine ⟨nofun, ?_⟩
      rintro ⟨y, hy, herror⟩
      rcases List.mem_append.mp hy with hy | hy
      · cases (denied y hy).symm.trans herror
      · rw [List.mem_singleton.mp hy, same] at herror
        cases herror
  | absent denied =>
      have hlisted : Denied value (e.listed xs) := fun x hx => denied x (e.mem_listed xs |>.mp hx)
      rw [hlisted.consulted]
      refine ⟨nofun, ?_⟩
      rintro ⟨y, hy, herror⟩
      cases (hlisted y hy).symm.trans herror
  | panicked front x back panic' split denied same =>
      rw [split, denied.consulted_append (by rw [same]; nofun)]
      constructor
      · intro hpanic
        cases hpanic
        exact ⟨x, List.mem_append_right _ (List.mem_singleton_self x), same⟩
      · rintro ⟨y, hy, herror⟩
        rcases List.mem_append.mp hy with hy | hy
        · cases (denied y hy).symm.trans herror
        · rw [List.mem_singleton.mp hy, same] at herror
          exact congrArg Except.error (Except.error.inj herror)

theorem Agreement.of_panic (h : Agreement list e value xs found deleted)
    (hpanic : found.result = .error panic) :
    deleted.result = .error panic ∧ deleted.state = list := by
  cases h with
  | found front x back line list' split denied same left => cases hpanic
  | absent denied => cases hpanic
  | panicked front x back panic' split denied same =>
      cases hpanic
      exact ⟨rfl, rfl⟩

theorem Agreement.absent_iff (h : Agreement list e value xs found deleted)
    (hlen : xs.length ≤ list.len) : found.result = .ok list.len ↔ Denied value xs := by
  cases h with
  | found front x back line list' split denied same left =>
      have hlt := Sequence.stepsFromFront_lt split
      constructor
      · intro hresult
        have heq := Except.ok.inj hresult
        omega
      · intro hdenied
        have hx := hdenied x (List.mem_of_getElem? (Sequence.getElem?_of_listed split))
        cases hx.symm.trans same
  | absent denied => exact ⟨fun _ => denied, fun _ => rfl⟩
  | panicked front x back panic split denied same =>
      refine ⟨nofun, ?_⟩
      intro hdenied
      have hx := hdenied x (List.mem_of_getElem? (Sequence.getElem?_of_listed split))
      cases hx.symm.trans same

theorem Agreement.bounded (h : Agreement list e value xs found deleted)
    (hlen : xs.length ≤ list.len) (hfound : found.result = .ok i) : i ≤ list.len := by
  cases h with
  | found front x back line list' split denied same left =>
      have hlt := Sequence.stepsFromFront_lt split
      rw [← Except.ok.inj hfound]
      omega
  | absent denied => exact Nat.le_of_eq (Except.ok.inj hfound).symm
  | panicked front x back panic split denied same => cases hfound

theorem Agreement.of_absent (h : Agreement list e value xs found deleted)
    (hlen : xs.length ≤ list.len) (hfound : found.result = .ok list.len) :
    deleted.result = .ok false ∧ deleted.state = list := by
  cases h with
  | found front x back line list' split denied same left =>
      have hlt := Sequence.stepsFromFront_lt split
      have heq := Except.ok.inj hfound
      omega
  | absent denied => exact ⟨rfl, rfl⟩
  | panicked front x back panic split denied same => cases hfound

theorem Agreement.nearest (h : Agreement list e value xs found deleted) {y : α}
    (hfound : found.result = .ok i) (hget : xs[k]? = some y) (hnearer : e.Nearer k i) :
    equal y value = .ok false := by
  cases h with
  | found front x back line list' split denied same left =>
      cases hfound
      exact denied y (Sequence.mem_front_of_nearer split hget hnearer)
  | absent denied => exact denied y (List.mem_of_getElem? hget)
  | panicked front x back panic split denied same => cases hfound

theorem Agreement.of_found (h : Agreement list e value xs found deleted) (hi : i < list.len)
    (hfound : found.result = .ok i) :
    ∃ x, xs[i]? = some x ∧ equal x value = .ok true
      ∧ deleted.result = (dropPanic x).elim (.ok true) .error
      ∧ dropsIn deleted.trace = [x]
      ∧ deleted.state.contents .head = .ok (xs.eraseIdx i) := by
  cases h with
  | found front x back line list' split denied same left =>
      cases hfound
      refine ⟨x, Sequence.getElem?_of_listed split, same, rfl, ?_, left.contents .head⟩
      rw [dropsIn_append, (comparing_asked value _).dropsIn, List.nil_append]
      rfl
  | absent denied => exact absurd (Except.ok.inj hfound).symm (Nat.ne_of_lt hi)
  | panicked front x back panic split denied same => cases hfound

/-- A deletion answers that it found the element, unless the drop of the
element panics. -/
theorem Agreement.answers_true_iff (h : Agreement list e value xs found deleted)
    (hlen : xs.length ≤ list.len) :
    deleted.result = .ok true
      ↔ ∃ i < list.len, found.result = .ok i ∧ ∀ x, xs[i]? = some x → dropPanic x = none := by
  cases h with
  | found front x back line list' split denied same left =>
      have hget := Sequence.getElem?_of_listed split
      have hlt := Sequence.stepsFromFront_lt split
      constructor
      · intro hresult
        refine ⟨_, Nat.lt_of_lt_of_le hlt hlen, rfl, ?_⟩
        intro y hy
        obtain rfl := Option.some.inj (hget.symm.trans hy)
        exact elim_eq_ok_iff.mp hresult
      · rintro ⟨i, -, hfound, hcalm⟩
        cases hfound
        exact elim_eq_ok_iff.mpr (hcalm x hget)
  | absent denied =>
      refine ⟨nofun, ?_⟩
      rintro ⟨i, hi, hfound, -⟩
      exact absurd (Except.ok.inj hfound).symm (Nat.ne_of_lt hi)
  | panicked front x back panic split denied same =>
      refine ⟨nofun, ?_⟩
      rintro ⟨i, -, hfound, -⟩
      cases hfound

end Agreement

theorem Holds.concordant (h : list.Holds content) (e : End) (value : α) :
    Concordant list e value content.reached (list.find e value) (list.delete e value) := by
  have hagreed := h.agreement e value
  have hlen : content.reached.length ≤ list.len := h.len ▸ content.length_reached_le
  exact {
    asks := hagreed.asks
    same_comparisons := hagreed.same_comparisons
    panics := fun panic => hagreed.panics_iff
    of_panic := fun panic => hagreed.of_panic
    bounded := fun i => hagreed.bounded hlen
    absent := hagreed.absent_iff hlen
    of_absent := hagreed.of_absent hlen
    nearest := fun i k x => hagreed.nearest
    of_found := fun i => hagreed.of_found
    answers_true := hagreed.answers_true_iff hlen }

/-! ## Searches from both ends -/

variable {found found' : Traced α Nat} {deleted deleted' : Outcome α (LinkedList α) Bool}
  {i j : Nat}

/-- What is nowhere from one end is nowhere from the other. -/
theorem Concordant.absent_iff (h : Concordant list .head value xs found deleted)
    (h' : Concordant list .tail value xs found' deleted') :
    found.result = .ok list.len ↔ found'.result = .ok list.len :=
  h.absent.trans h'.absent.symm

/-- The first match comes no later than the last. -/
theorem Concordant.le (h : Concordant list .head value xs found deleted)
    (h' : Concordant list .tail value xs found' deleted') (hi : found.result = .ok i)
    (hj : found'.result = .ok j) (hlt : i < list.len) : i ≤ j ∧ j < list.len := by
  have hj_lt : j < list.len := by
    refine Nat.lt_of_le_of_ne (h'.bounded j hj) ?_
    rintro rfl
    have hnowhere := (h.absent_iff h').mpr hj
    exact Nat.ne_of_lt hlt (Except.ok.inj (hi.symm.trans hnowhere))
  refine ⟨?_, hj_lt⟩
  by_contra hnot
  obtain ⟨x, hget, hsame, -⟩ := h'.of_found j hj_lt hj
  have hdenied := h.nearest i j x hi hget (Nat.lt_of_not_le hnot)
  cases hdenied.symm.trans hsame

end LinkedList

end LinkedPool
