import LinkedPool.Proofs.LinkedList.Search
import LinkedPool.Proofs.Sequence.Model

/-!
# Scripts on sequences

The position of an element is the same whether it is looked for step by step
or told from the sequence as a whole (`index_eq`). With that, a family of
cursors carries out a command as the family of what the cursors yield does
(`Shows.perform`), and so a whole script. Only the numbers differ if
elements of the list are lost, for the cursors count these too.
-/

namespace LinkedPool

open Element

namespace Sequence

variable {α : Type}

/-! ## Positions -/

theorem find?_range (p : α → Bool) (xs : List α) :
    (List.range xs.length).find? (fun i => xs[i]?.any p) = xs.findIdx? p := by
  induction xs with
  | nil => rfl
  | cons x xs ih =>
      rw [List.length_cons, List.range_succ_eq_map, List.find?_cons, List.findIdx?_cons]
      cases hx : p x with
      | true => simp [hx]
      | false =>
          have hshift : (fun i => (x :: xs)[i]?.any p) ∘ Nat.succ = fun i => xs[i]?.any p := rfl
          rw [← ih, List.find?_map, hshift]
          simp [hx]

/-- The positions in the order in which they are come to from an end. -/
theorem listed_range (e : End) (n : Nat) :
    e.listed (List.range n) = (List.range n).map (Cursor.stepsFromFront e n) := by
  cases e with
  | head => exact (List.map_id _).symm
  | tail =>
      rw [End.listed, List.range_eq_range', List.reverse_range']
      simp [Cursor.stepsFromFront, List.range_eq_range']

theorem getElem?_stepsFromFront (e : End) {xs : List α} {steps : Nat} (h : steps < xs.length) :
    xs[Cursor.stepsFromFront e xs.length steps]? = (e.listed xs)[steps]? := by
  cases e with
  | head => rfl
  | tail => exact (List.getElem?_reverse h).symm

theorem index_eq [Element α] (e : End) (value : α) (xs : List α) :
    index e value xs
      = ((e.listed xs).findIdx? (same · value)).map (Cursor.stepsFromFront e xs.length) := by
  have hrange : (List.range xs.length).find?
        (fun steps => xs[Cursor.stepsFromFront e xs.length steps]?.any (same · value))
      = (List.range xs.length).find? (fun steps => (e.listed xs)[steps]?.any (same · value)) := by
    rw [← List.head?_filter, ← List.head?_filter]
    congr 1
    refine List.filter_congr ?_
    intro steps hsteps
    rw [getElem?_stepsFromFront e (List.mem_range.mp hsteps)]
  rw [index, listed_range, List.find?_map, ← find?_range, End.length_listed, ← hrange]
  rfl

theorem listed_drop (e : End) (xs : List α) (steps : Nat) :
    e.listed ((e.listed xs).drop (steps + 1))
      = match e with
        | .head => xs.drop (Cursor.stepsFromFront e xs.length steps + 1)
        | .tail => xs.take (Cursor.stepsFromFront e xs.length steps) := by
  cases e with
  | head => rfl
  | tail =>
      simp only [End.listed, List.drop_reverse, List.reverse_reverse, Cursor.stepsFromFront]
      rw [Nat.sub_sub, Nat.add_comm 1 steps]

theorem head?_listed (e : End) (xs : List α) :
    (e.listed xs).head? = match e with | .head => xs.head? | .tail => xs.getLast? := by
  cases e with
  | head => rfl
  | tail => exact List.head?_reverse

end Sequence

open Sequence

namespace Cursor

variable {α : Type} {lost : Nat} {family : Family α} {windows : Windows α}

/-- Place by place, the cursors yield the windows. -/
structure YieldAll (lost : Nat) (cursors : Array (Cursor α)) (windows : Array (List α)) : Prop where
  size : cursors.size = windows.size
  yields : ∀ (i : Nat) (cursor : Cursor α) (window : List α), cursors[i]? = some cursor →
    windows[i]? = some window → Yields .head lost cursor window

namespace YieldAll

variable {cursors : Array (Cursor α)} {windows : Array (List α)} {cursor : Cursor α} {xs : List α}

theorem push (h : YieldAll lost cursors windows) (hcursor : Yields .head lost cursor xs) :
    YieldAll lost (cursors.push cursor) (windows.push xs) where
  size := by rw [Array.size_push, Array.size_push, h.size]
  yields i cursor' window hget hget' := by
    rw [Array.getElem?_push, h.size] at hget
    rw [Array.getElem?_push] at hget'
    by_cases hi : i = windows.size
    · rw [if_pos hi] at hget hget'
      obtain rfl := Option.some.inj hget
      obtain rfl := Option.some.inj hget'
      exact hcursor
    · rw [if_neg hi] at hget hget'
      exact h.yields i cursor' window hget hget'

theorem setIfInBounds (h : YieldAll lost cursors windows) (number : Nat)
    (hcursor : Yields .head lost cursor xs) :
    YieldAll lost (cursors.setIfInBounds number cursor) (windows.setIfInBounds number xs) where
  size := by rw [Array.size_setIfInBounds, Array.size_setIfInBounds, h.size]
  yields i cursor' window hget hget' := by
    by_cases hi : number = i
    · obtain ⟨hlt, -⟩ := Array.getElem?_eq_some_iff.mp hget
      rw [Array.size_setIfInBounds] at hlt
      subst hi
      rw [Array.getElem?_setIfInBounds_self_of_lt hlt] at hget
      rw [Array.getElem?_setIfInBounds_self_of_lt (h.size ▸ hlt)] at hget'
      obtain rfl := Option.some.inj hget
      obtain rfl := Option.some.inj hget'
      exact hcursor
    · rw [Array.getElem?_setIfInBounds_ne hi] at hget hget'
      exact h.yields i cursor' window hget hget'

theorem get (h : YieldAll lost cursors windows) (i : Nat) :
    (cursors[i]? = none ∧ windows[i]? = none)
      ∨ ∃ cursor window, cursors[i]? = some cursor ∧ windows[i]? = some window
        ∧ Yields .head lost cursor window := by
  by_cases hi : i < cursors.size
  · have hcursor := Array.getElem?_eq_getElem hi
    have hwindow := Array.getElem?_eq_getElem (h.size ▸ hi)
    exact .inr ⟨_, _, hcursor, hwindow, h.yields i _ _ hcursor hwindow⟩
  · have hle : cursors.size ≤ i := Nat.le_of_not_lt hi
    exact .inl ⟨Array.getElem?_eq_none hle, Array.getElem?_eq_none (h.size ▸ hle)⟩

end YieldAll

/-- The cursors of the family yield the windows, number by number. -/
structure Shows (lost : Nat) (family : Family α) (windows : Windows α) : Prop where
  inUse : Yields .head lost family.inUse windows.inUse
  number : family.number = windows.number
  members : YieldAll lost family.members windows.members

theorem shows_ofCursor {cursor : Cursor α} {xs : List α} (h : Yields .head lost cursor xs) :
    Shows lost (.ofCursor cursor) (.ofSequence xs) := by
  have hnone : YieldAll lost (#[] : Array (Cursor α)) #[] :=
    ⟨rfl, fun _ _ _ hcursor => by cases hcursor⟩
  exact ⟨h, rfl, hnone.push h⟩

theorem Shows.withInUse (h : Shows lost family windows) {cursor : Cursor α} {xs : List α}
    (hcursor : Yields .head lost cursor xs) :
    Shows lost { family with inUse := cursor } { windows with inUse := xs } :=
  ⟨hcursor, h.number, h.members⟩

theorem Shows.fork (h : Shows lost family windows) :
    Shows lost family.fork { windows with members := windows.members.push windows.inUse } :=
  ⟨h.inUse, h.number, h.members.push h.inUse⟩

theorem Shows.use (h : Shows lost family windows) (number : Nat) :
    Shows lost (family.use number) (windows.use number) := by
  have hmembers := h.members.setIfInBounds windows.number h.inUse
  unfold Family.use Windows.use
  rw [h.number]
  simp only
  rcases hmembers.get number with ⟨hcursor, hwindow⟩ | ⟨cursor, window, hcursor, hwindow, hyields⟩
  · rw [hcursor, hwindow]
    exact h
  · rw [hcursor, hwindow]
    exact ⟨hyields, rfl, hmembers⟩

theorem Shows.remaining (h : Shows lost family windows) (hlost : lost = 0) :
    family.inUse.remaining = windows.inUse.length := by
  rw [h.inUse.remaining, hlost, Nat.add_zero]

theorem Shows.yields (h : Shows lost family windows) (e : End) :
    Yields e lost family.inUse (e.listed windows.inUse) :=
  yields_listed.mpr h.inUse

variable [Element α]

theorem Shows.position (h : Shows lost family windows) (e : End) (value : α) :
    Inquiry (fun (answer, family') =>
        Shows lost family' (windows.perform (.position e value)).2
          ∧ (lost = 0 → answer = (windows.perform (.position e value)).1))
      (family.perform (.position e value)) := by
  obtain ⟨after, hseek, hnone, hsome⟩ := (h.yields e).seek value
  rw [Family.perform, Traced.bind_eq, hseek, Traced.bind_assoc]
  refine (inquiry_search value _).bind ?_
  intro steps hsteps
  rw [Windows.perform, index_eq, ← hsteps]
  cases steps with
  | none =>
      have hyields : Yields e lost (after none) (e.listed []) := by
        cases e <;> exact hnone
      exact inquiry_answer ⟨h.withInUse (yields_listed.mp hyields), fun _ => rfl⟩
  | some steps =>
      have hyields := hsome steps
      rw [← e.listed_listed ((e.listed windows.inUse).drop (steps + 1)), listed_drop] at hyields
      refine inquiry_answer ⟨h.withInUse (yields_listed.mp hyields), ?_⟩
      intro hlost
      rw [h.remaining hlost]
      rfl

/-- A command is carried out on the windows; only a comparison can panic in
it, and only the lost elements can make its answer differ. -/
theorem Shows.perform (h : Shows lost family windows) (command : Command α) :
    Inquiry (fun (answer, family') => Shows lost family' (windows.perform command).2
        ∧ (lost = 0 → answer = (windows.perform command).1))
      (family.perform command) := by
  cases command with
  | next e =>
      obtain ⟨cursor, hnext, hyields⟩ := (h.yields e).next
      rw [← e.listed_listed (e.listed windows.inUse).tail] at hyields
      rw [Family.perform, hnext]
      exact inquiry_answer ⟨h.withInUse (yields_listed.mp hyields), fun _ => rfl⟩
  | nth e k =>
      obtain ⟨cursor, hnth, hyields⟩ := (h.yields e).nth k
      rw [← e.listed_listed ((e.listed windows.inUse).drop (k + 1))] at hyields
      rw [Family.perform, hnth]
      exact inquiry_answer ⟨h.withInUse (yields_listed.mp hyields), fun _ => rfl⟩
  | len =>
      refine inquiry_answer ⟨h, ?_⟩
      intro hlost
      rw [h.remaining hlost]
      rfl
  | sizeHint =>
      refine inquiry_answer ⟨h, ?_⟩
      intro hlost
      rw [h.remaining hlost]
      rfl
  | describe =>
      refine inquiry_answer ⟨h, ?_⟩
      intro hlost
      rw [document, h.remaining hlost]
      rfl
  | last =>
      obtain ⟨cursor, hnext, -⟩ := (h.yields .tail).next
      rw [head?_listed] at hnext
      rw [Family.perform, last, hnext]
      exact inquiry_answer ⟨h, fun _ => rfl⟩
  | count =>
      rw [Family.perform, h.inUse.rest]
      exact inquiry_answer ⟨h, fun _ => rfl⟩
  | rest e =>
      rw [Family.perform, (h.yields e).rest]
      exact inquiry_answer ⟨h, fun _ => rfl⟩
  | position e value => exact h.position e value
  | fork => exact inquiry_answer ⟨h.fork, fun _ => congrArg _ h.members.size⟩
  | use number => exact inquiry_answer ⟨h.use number, fun _ => rfl⟩

theorem Shows.performAll (h : Shows lost family windows) (script : List (Command α)) :
    Inquiry (fun answers => lost = 0 → answers = windows.performAll script)
      (family.performAll script) := by
  induction script generalizing family windows with
  | nil =>
      refine inquiry_answer ?_
      intro _
      rfl
  | cons command script ih =>
      refine (h.perform command).bind ?_
      intro (answer, family') ⟨hshows, hanswer⟩
      refine (ih hshows).bind ?_
      intro answers hanswers
      refine inquiry_answer ?_
      intro hlost
      rw [hanswer hlost, hanswers hlost]
      rfl

end Cursor

end LinkedPool
