import LinkedPool.Element.Plain
import LinkedPool.Proofs.Paired
import LinkedPool.Proofs.Sequence.Script

/-!
# Cursors as frames

A cursor on a list that holds `xs` is a frame on `xs`: the places from `lo`
to before `hi`. What is taken from the head moves `lo` up, what is taken from
the tail moves `hi` down, and neither passes the other. There are no slots
and no links in this.

Each command to a family of cursors has the answer, the comparisons and the
panic that it has for the frames (`Framed.perform`), and so has each script
(`run_eq_frames`). Elements that are lost to a list without ends are counted
and never come to.
-/

namespace LinkedPool.Cursor

open Element LinkedList Sequence

variable {α : Type} {n : Nat} {lost : Nat} {xs : List α} {e : End}

/-- The places from `lo` to before `hi` in a sequence of `n` elements. -/
structure Frame (n : Nat) where
  lo : Nat
  hi : Nat
  ordered : lo ≤ hi
  bounded : hi ≤ n

namespace Frame

/-- All places. -/
def whole (n : Nat) : Frame n := ⟨0, n, Nat.zero_le n, Nat.le_refl n⟩

def size (frame : Frame n) : Nat := frame.hi - frame.lo

/-- The place that comes after `steps` others from the end `e`. -/
def place (e : End) (steps : Nat) (frame : Frame n) : Nat :=
  match e with
  | .head => frame.lo + steps
  | .tail => frame.hi - 1 - steps

/-- The element that comes after `steps` others from the end `e`. -/
def item? (xs : List α) (e : End) (steps : Nat) (frame : Frame n) : Option α :=
  if steps < frame.size then xs[frame.place e steps]? else none

/-- The frame without the first `k` places from the end `e`, or without any
if it has no more than these. -/
def drop (e : End) (k : Nat) (frame : Frame n) : Frame n :=
  match e with
  | .head => ⟨min (frame.lo + k) frame.hi, frame.hi, Nat.min_le_right .., frame.bounded⟩
  | .tail =>
      ⟨frame.lo, max frame.lo (frame.hi - k), Nat.le_max_left ..,
        Nat.max_le.mpr ⟨frame.ordered.trans frame.bounded,
          (Nat.sub_le ..).trans frame.bounded⟩⟩

/-- The elements in the frame. -/
def shown (xs : List α) (frame : Frame n) : List α := (xs.drop frame.lo).take frame.size

theorem shown_whole (xs : List α) : (whole xs.length).shown xs = xs := List.take_length

theorem length_shown (frame : Frame xs.length) : (frame.shown xs).length = frame.size := by
  have hbounded := frame.bounded
  rw [shown, List.length_take, List.length_drop, size]
  omega

theorem item?_eq (e : End) (steps : Nat) (frame : Frame xs.length) :
    frame.item? xs e steps = (e.listed (frame.shown xs))[steps]? := by
  have hlength := frame.length_shown
  rw [item?]
  split
  · rename_i hsteps
    cases e with
    | head =>
        rw [End.listed, shown, List.getElem?_take_of_lt hsteps, List.getElem?_drop]
        rfl
    | tail =>
        have hplace : frame.size - 1 - steps < frame.size := by omega
        rw [End.listed, List.getElem?_reverse (hlength ▸ hsteps), hlength, shown,
          List.getElem?_take_of_lt hplace, List.getElem?_drop]
        congr 1
        have hordered := frame.ordered
        simp only [place, size] at *
        omega
  · rename_i hsteps
    refine (List.getElem?_eq_none ?_).symm
    rw [End.length_listed, hlength]
    exact Nat.le_of_not_lt hsteps

theorem shown_drop (e : End) (k : Nat) (frame : Frame xs.length) :
    (frame.drop e k).shown xs = e.listed ((e.listed (frame.shown xs)).drop k) := by
  have hordered := frame.ordered
  cases e with
  | head =>
      show (xs.drop (min (frame.lo + k) frame.hi)).take (frame.hi - min (frame.lo + k) frame.hi)
        = ((xs.drop frame.lo).take frame.size).drop k
      rw [List.drop_take, List.drop_drop, size]
      rcases Nat.le_total (frame.lo + k) frame.hi with hle | hle
      · rw [Nat.min_eq_left hle, Nat.sub_sub]
      · rw [Nat.min_eq_right hle, Nat.sub_self, Nat.sub_sub, Nat.sub_eq_zero_of_le hle,
          List.take_zero, List.take_zero]
  | tail =>
      have hlength := frame.length_shown
      simp only [End.listed, List.drop_reverse, List.reverse_reverse, hlength]
      show (xs.drop frame.lo).take (max frame.lo (frame.hi - k) - frame.lo)
        = ((xs.drop frame.lo).take frame.size).take (frame.size - k)
      rw [List.take_take, size]
      congr 1
      omega

end Frame

/-- Numbered frames on one sequence. -/
structure Frames (n : Nat) where
  inUse : Frame n
  number : Nat
  members : Array (Frame n)

namespace Frames

def whole (n : Nat) : Frames n := ⟨.whole n, 0, #[.whole n]⟩

/-- Puts another frame into use; a number that no frame has changes nothing. -/
def use (number : Nat) (frames : Frames n) : Frames n :=
  let members := frames.members.setIfInBounds frames.number frames.inUse
  match members[number]? with
  | some inUse => { inUse, number, members }
  | none => frames

/-- What each frame shows. -/
def windows (xs : List α) (frames : Frames n) : Windows α :=
  ⟨frames.inUse.shown xs, frames.number, frames.members.map (Frame.shown xs)⟩

theorem windows_use (xs : List α) (number : Nat) (frames : Frames n) :
    (frames.use number).windows xs = (frames.windows xs).use number := by
  unfold use Windows.use
  simp only [windows, ← Array.map_setIfInBounds, Array.getElem?_map]
  cases (frames.members.setIfInBounds frames.number frames.inUse)[number]? <;> rfl

variable [Element α]

/-- What a command comes to on frames; `lost` elements are counted besides
those in the frame. -/
def perform (xs : List α) (lost : Nat) (frames : Frames xs.length) :
    Command α → Traced α (Answer α × Frames xs.length)
  | .next e =>
      .answer (.item (frames.inUse.item? xs e 0),
        { frames with inUse := frames.inUse.drop e 1 })
  | .nth e k =>
      .answer (.item (frames.inUse.item? xs e k),
        { frames with inUse := frames.inUse.drop e (k + 1) })
  | .len => .answer (.number (frames.inUse.size + lost), frames)
  | .sizeHint =>
      .answer (.bounds (frames.inUse.size + lost) (frames.inUse.size + lost), frames)
  | .describe =>
      .answer (.text (Document.applied "Iter" (.count (frames.inUse.size + lost))).inline, frames)
  | .last => .answer (.item (frames.inUse.shown xs).getLast?, frames)
  | .count => .answer (.number frames.inUse.size, frames)
  | .rest e => .answer (.items (e.listed (frames.inUse.shown xs)), frames)
  | .position e value =>
      (search value (e.listed (frames.inUse.shown xs))).bind fun
        | none =>
            .answer (.position none,
              { frames with inUse := frames.inUse.drop e frames.inUse.size })
        | some steps =>
            .answer (.position (some (frames.inUse.place e steps - frames.inUse.lo)),
              { frames with inUse := frames.inUse.drop e (steps + 1) })
  | .fork =>
      .answer (.number frames.members.size,
        { frames with members := frames.members.push frames.inUse })
  | .use number => .answer (.number number, frames.use number)

def performAll (xs : List α) (lost : Nat) :
    List (Command α) → Frames xs.length → Traced α (List (Answer α))
  | [], _ => .answer []
  | command :: script, frames =>
      (frames.perform xs lost command).bind fun (answer, frames) =>
        (performAll xs lost script frames).bind fun answers => .answer (answer :: answers)

end Frames

/-! ## Commands -/

variable {cursor : Cursor α} {family : Family α} {frames : Frames xs.length}

theorem yields_drop {frame : Frame xs.length} {k : Nat}
    (h : Yields e lost cursor ((e.listed (frame.shown xs)).drop k)) :
    Yields .head lost cursor ((frame.drop e k).shown xs) := by
  rw [Frame.shown_drop, ← yields_listed (e := e), e.listed_listed]
  exact h

theorem paired_search [Element α] (value : α) (xs : List α) :
    Traced.Paired (fun steps steps' => steps = steps' ∧ ∀ i, steps = some i → i < xs.length)
      (search value xs) (search value xs) := by
  have hsearch := inquiry_search value xs
  generalize search value xs = call at hsearch ⊢
  cases hsearch with
  | answered steps trace comparing holds =>
      refine .answered trace ⟨rfl, ?_⟩
      intro i hi
      exact (List.findIdx?_eq_some_iff_getElem.mp (holds.symm.trans hi)).1
  | panicked x y panic trace comparing asked refused => exact .panicked panic trace

theorem stepsFromFront_eq (e : End) (frame : Frame n) (steps : Nat) :
    stepsFromFront e frame.size steps = frame.place e steps - frame.lo := by
  cases e with
  | head => exact (Nat.add_sub_cancel_left ..).symm
  | tail =>
      simp only [stepsFromFront, Frame.place, Frame.size] at *
      omega

/-- The cursors of the family yield what the frames show, number by number. -/
def Framed (lost : Nat) (family : Family α) (frames : Frames xs.length) : Prop :=
  Shows lost family (frames.windows xs)

namespace Framed

theorem yields (h : Framed lost family frames) (e : End) :
    Yields e lost family.inUse (e.listed (frames.inUse.shown xs)) :=
  Shows.yields h e

theorem withInUse {frame : Frame xs.length} (h : Framed lost family frames)
    (hcursor : Yields .head lost cursor (frame.shown xs)) :
    Framed lost { family with inUse := cursor } { frames with inUse := frame } :=
  Shows.withInUse h hcursor

theorem remaining (h : Framed lost family frames) :
    family.inUse.remaining = frames.inUse.size + lost := by
  rw [h.inUse.remaining]
  exact congrArg (· + lost) frames.inUse.length_shown

/-- Where there is something to see, nothing is lost. -/
theorem lost_eq_zero (h : Framed lost family frames) (hsize : 0 < frames.inUse.size) :
    lost = 0 := by
  rcases h.inUse with ⟨hlost, -⟩ | ⟨hnil, -⟩
  · exact hlost
  · have hlength : frames.inUse.size = 0 := by
      rw [← Frame.length_shown]
      exact congrArg List.length hnil
    omega

theorem fork (h : Framed lost family frames) :
    Framed lost family.fork { frames with members := frames.members.push frames.inUse } := by
  have hfork := Shows.fork h
  simp only [Frames.windows, ← Array.map_push] at hfork
  exact hfork

theorem use (h : Framed lost family frames) (number : Nat) :
    Framed lost (family.use number) (frames.use number) := by
  rw [Framed, Frames.windows_use]
  exact Shows.use h number

variable [Element α]

theorem position (h : Framed lost family frames) (e : End) (value : α) :
    Traced.Paired (fun done done' => done.1 = done'.1 ∧ Framed lost done.2 done'.2)
      (family.perform (.position e value)) (frames.perform xs lost (.position e value)) := by
  obtain ⟨after, hseek, hnone, hsome⟩ := (h.yields e).seek value
  rw [Family.perform, Traced.bind_eq, hseek, Traced.bind_assoc, Frames.perform]
  refine (paired_search value _).bind ?_
  rintro steps steps' ⟨rfl, hsteps⟩
  cases steps with
  | none =>
      refine Traced.paired_answer ⟨rfl, h.withInUse (yields_drop ?_)⟩
      rw [List.drop_eq_nil_of_le (Nat.le_of_eq ?_)]
      · exact hnone
      · rw [End.length_listed, Frame.length_shown]
  | some steps =>
      have hlt := hsteps steps rfl
      rw [End.length_listed, Frame.length_shown] at hlt
      refine Traced.paired_answer ⟨?_, h.withInUse (yields_drop (hsome steps))⟩
      rw [h.remaining, h.lost_eq_zero (Nat.zero_lt_of_lt hlt), Nat.add_zero, Option.map_some,
        stepsFromFront_eq]

/-- A command does to the cursors what it does to the frames. -/
theorem perform (h : Framed lost family frames) (command : Command α) :
    Traced.Paired (fun done done' => done.1 = done'.1 ∧ Framed lost done.2 done'.2)
      (family.perform command) (frames.perform xs lost command) := by
  cases command with
  | next e =>
      obtain ⟨cursor, hnext, hyields⟩ := (h.yields e).next
      rw [Family.perform, hnext, Frames.perform, Frame.item?_eq, ← List.head?_eq_getElem?]
      rw [← List.drop_one] at hyields
      exact Traced.paired_answer ⟨rfl, h.withInUse (yields_drop hyields)⟩
  | nth e k =>
      obtain ⟨cursor, hnth, hyields⟩ := (h.yields e).nth k
      rw [Family.perform, hnth, Frames.perform, Frame.item?_eq]
      exact Traced.paired_answer ⟨rfl, h.withInUse (yields_drop hyields)⟩
  | len =>
      rw [Family.perform, h.remaining]
      exact Traced.paired_answer ⟨rfl, h⟩
  | sizeHint =>
      rw [Family.perform, h.remaining]
      exact Traced.paired_answer ⟨rfl, h⟩
  | describe =>
      rw [Family.perform, document, h.remaining]
      exact Traced.paired_answer ⟨rfl, h⟩
  | last =>
      obtain ⟨cursor, hnext, -⟩ := (h.yields .tail).next
      rw [head?_listed] at hnext
      rw [Family.perform, last, hnext]
      exact Traced.paired_answer ⟨rfl, h⟩
  | count =>
      rw [Family.perform, h.inUse.rest]
      exact Traced.paired_answer ⟨congrArg _ frames.inUse.length_shown, h⟩
  | rest e =>
      rw [Family.perform, (h.yields e).rest]
      exact Traced.paired_answer ⟨rfl, h⟩
  | position e value => exact h.position e value
  | fork =>
      have hsize : family.members.size = frames.members.size := h.members.size.trans Array.size_map
      rw [Family.perform, hsize]
      exact Traced.paired_answer ⟨rfl, h.fork⟩
  | use number => exact Traced.paired_answer ⟨rfl, h.use number⟩

theorem performAll (h : Framed lost family frames) (script : List (Command α)) :
    family.performAll script = frames.performAll xs lost script := by
  refine Traced.Paired.eq ?_
  induction script generalizing family frames with
  | nil => exact Traced.paired_answer rfl
  | cons command script ih =>
      refine (h.perform command).bind ?_
      rintro ⟨answer, family'⟩ ⟨answer', frames'⟩ ⟨rfl, hframed⟩
      refine (ih hframed).bind ?_
      rintro answers answers' rfl
      exact Traced.paired_answer rfl

end Framed

/-! ## Taking from both ends -/

/-- The elements among those gotten that came from the end `e`, when the
first came from the first of `ends`, and so on. -/
def taken (e : End) (ends : List End) (gotten : List α) : List α :=
  ((ends.zip gotten).filter fun taking => taking.1 = e).map Prod.snd

/-- One more element, taken from the end `e` before the others. -/
theorem taken_cons {ends : List End} {gotten middle rest : List α} (x : α)
    (h : taken .head ends gotten ++ middle ++ (taken .tail ends gotten).reverse = e.listed rest) :
    taken .head (e :: ends) (x :: gotten) ++ middle
        ++ (taken .tail (e :: ends) (x :: gotten)).reverse
      = e.listed (x :: rest) := by
  cases e with
  | head => exact congrArg (x :: ·) h
  | tail =>
      show taken .head ends gotten ++ middle ++ (x :: taken .tail ends gotten).reverse
        = (x :: rest).reverse
      rw [List.reverse_cons, List.reverse_cons, ← List.append_assoc]
      exact congrArg (· ++ [x]) h

/-- Taken from the two ends in any order, the elements come one after the
other until none is left; those not taken are still in their places. -/
theorem Frames.taken_rest [Element α] (lost : Nat) (ends : List End) (frames : Frames xs.length) :
    ∃ (gotten : List α) (idle : Nat) (middle : List α),
      frames.performAll xs lost (ends.map .next ++ [.rest .head])
          = .answer (gotten.map (fun x => .item (some x)) ++ List.replicate idle (.item none)
            ++ [.items middle])
        ∧ gotten.length + idle = ends.length
        ∧ taken .head ends gotten ++ middle ++ (taken .tail ends gotten).reverse
          = frames.inUse.shown xs
        ∧ gotten.length + middle.length = (frames.inUse.shown xs).length
        ∧ (0 < idle → middle = []) := by
  induction ends generalizing frames with
  | nil =>
      exact ⟨[], 0, frames.inUse.shown xs, rfl, rfl, List.append_nil _, Nat.zero_add _, nofun⟩
  | cons e ends ih =>
      obtain ⟨gotten, idle, middle, hanswers, hlength, hshown, hcount, hmiddle⟩ :=
        ih { frames with inUse := frames.inUse.drop e 1 }
      obtain ⟨seen, hseen⟩ : ∃ seen, e.listed (frames.inUse.shown xs) = seen := ⟨_, rfl⟩
      have hxs : frames.inUse.shown xs = e.listed seen := by rw [← hseen, e.listed_listed]
      have hitem : frames.inUse.item? xs e 0 = seen.head? := by
        rw [Frame.item?_eq, hseen, List.head?_eq_getElem?]
      rw [Frame.shown_drop, List.drop_one, hseen] at hshown hcount
      rw [End.length_listed] at hcount
      rw [hxs, End.length_listed, List.map_cons, List.cons_append, performAll, perform,
        Traced.answer_bind, hitem]
      simp only [hanswers, Traced.answer_bind]
      cases seen with
      | nil =>
          obtain ⟨hgotten, hnone⟩ := Nat.add_eq_zero_iff.mp hcount
          obtain rfl := List.length_eq_zero_iff.mp hgotten
          obtain rfl := List.length_eq_zero_iff.mp hnone
          refine ⟨[], idle + 1, [], rfl, congrArg (· + 1) hlength, ?_, rfl, fun _ => rfl⟩
          cases e <;> rfl
      | cons x rest =>
          rw [List.tail_cons] at hcount
          refine ⟨x :: gotten, idle, middle, rfl, ?_, taken_cons x hshown, ?_, hmiddle⟩
          · rw [List.length_cons, List.length_cons]
            omega
          · rw [List.length_cons, List.length_cons]
            omega

/-! ## Cursors on lists -/

variable {list : LinkedList α}

theorem Healthy.yields {slots : List Slot} (h : list.Healthy slots)
    (hcontents : slots.map (fun slot => (list.nodes.get? slot).map Node.element) = xs.map some) :
    Yields .head 0 list.cursor xs := by
  obtain ⟨cells, hlaid, rfl, rfl⟩ := h.laid hcontents
  refine .inl ⟨rfl, [], cells, [], ?_, ?_, rfl, fun _ => ?_⟩
  · rw [List.nil_append, List.append_nil]
    exact hlaid
  · exact h.count.trans (List.length_map _)
  · refine ⟨h.ends.1.trans ?_, h.ends.2.trans ?_⟩
    · exact List.head?_map
    · exact List.getLast?_map

theorem Detached.yields (h : list.Detached) : Yields .head list.len list.cursor ([] : List α) :=
  .inr ⟨rfl, rfl, h.slotAt⟩

variable [Element α]

theorem Yields.run_eq (h : Yields .head lost cursor xs) (script : List (Command α)) :
    cursor.run script = (Frames.whole xs.length).performAll xs lost script := by
  have hwindows : (Frames.whole xs.length).windows xs = .ofSequence xs := by
    simp [Frames.windows, Frames.whole, Windows.ofSequence, Frame.shown_whole]
  have hframed : Framed lost (.ofCursor cursor) (Frames.whole xs.length) := by
    rw [Framed, hwindows]
    exact shows_ofCursor h
  exact hframed.performAll script

/-- The cursors on a healthy list that holds `xs` answer every script as
frames on `xs` do. However one takes from the two ends in turn, each element
is taken from one of them or left in the middle, in its place. Cursors on a
detached list are on no elements, and count those that were lost. -/
theorem run_eq_frames (list : LinkedList α) :
    (∀ (slots : List Slot) (xs : List α), list.Healthy slots →
      slots.map (fun slot => (list.nodes.get? slot).map Node.element) = xs.map some →
      (∀ script, list.cursor.run script = (Frames.whole xs.length).performAll xs 0 script)
        ∧ ∀ ends : List End, ∃ (gotten : List α) (idle : Nat) (middle : List α),
          list.cursor.run (ends.map .next ++ [.rest .head])
              = .answer (gotten.map (fun x => .item (some x))
                ++ List.replicate idle (.item none) ++ [.items middle])
            ∧ gotten.length + idle = ends.length
            ∧ taken .head ends gotten ++ middle ++ (taken .tail ends gotten).reverse = xs
            ∧ (0 < idle → middle = []))
      ∧ (list.Detached → ∀ script,
        list.cursor.run script = (Frames.whole 0).performAll [] list.len script) := by
  refine ⟨?_, fun h script => (Detached.yields h).run_eq script⟩
  intro slots xs h hcontents
  have hyields := Healthy.yields h hcontents
  refine ⟨hyields.run_eq, ?_⟩
  intro ends
  obtain ⟨gotten, idle, middle, hanswers, hlength, hshown, -, hmiddle⟩ :=
    Frames.taken_rest 0 ends (Frames.whole xs.length)
  rw [← hyields.run_eq] at hanswers
  exact ⟨gotten, idle, middle, hanswers, hlength, hshown.trans (Frame.shown_whole xs), hmiddle⟩

/-- Three elements in slots out of order. -/
def trio : LinkedList Int where
  head := some 2
  tail := some 1
  nodes :=
    { storage := #[.used ⟨some 1, some 2, 20⟩, .used ⟨none, some 0, 10⟩, .used ⟨some 0, none, 10⟩]
      firstFree := none
      len := 3
      capacity := 4 }

/-- Two cursors that go past each other, one from either end. -/
def crossing : List (Command Int) :=
  [.fork, .position .tail 20, .len, .use 1, .next .head, .nth .tail 1, .next .head, .last, .use 0,
    .rest .tail]

theorem trio_eq_frames :
    trio.cursor.run crossing = (Frames.whole 3).performAll [10, 20, 10] 0 crossing
      ∧ (trio.cursor.run crossing).result
        = .ok [.number 1, .position (some 1), .number 1, .number 1, .item (some 10),
          .item (some 20), .item none, .item none, .number 0, .items [10]] := by
  have hhealthy : trio.Healthy [2, 0, 1] := by
    refine ⟨⟨rfl, _, rfl, rfl, _, rfl, rfl, _, rfl, rfl⟩,
      ⟨rfl, _, rfl, rfl, _, rfl, rfl, _, rfl, rfl⟩, by decide, rfl, ⟨rfl, rfl⟩, ?_⟩
    rintro (_ | ⟨first, _ | ⟨second, front⟩⟩) slot next back hsplit
    · cases hsplit
      exact ⟨⟨_, rfl, rfl⟩, ⟨_, rfl, rfl⟩⟩
    · cases hsplit
      exact ⟨⟨_, rfl, rfl⟩, ⟨_, rfl, rfl⟩⟩
    · have hlength := congrArg List.length hsplit
      simp only [List.length_cons, List.length_append, List.length_nil] at hlength
      omega
  obtain ⟨hrun, -⟩ := (run_eq_frames trio).1 [2, 0, 1] [10, 20, 10] hhealthy rfl
  exact ⟨hrun crossing, rfl⟩

end LinkedPool.Cursor
