import LinkedPool.Proofs.Cursor.Frame
import LinkedPool.Proofs.LinkedList.Clone
import LinkedPool.Proofs.LinkedList.Rejection

/-!
# Detached lists are inert

A detached list counts elements that nothing comes to any more. What is
asked of its ends or its links is answered as by an empty list, and what
depends on the count is refused: it takes no element and is not cleared. So
every operation is `futile`. It tells the list nothing but its length, and
leaves it as it was, except that room may be made (`Detached.perform`). A
copy of the list is detached like it, and its elements go when it is dropped
(`Detached.inert`).
-/

namespace LinkedPool

open Element

/-! ## Cursors on no elements -/

namespace Cursor

variable {α : Type}

/-- How many cursors a command adds. -/
def Command.forks : Command α → Nat
  | .fork => 1
  | _ => 0

/-- What a command is answered where there is no element to come to, when
`len` elements are counted and there are `members` cursors. -/
def Command.fruitless (len members : Nat) : Command α → Answer α
  | .next _ => .item none
  | .nth _ _ => .item none
  | .len => .number len
  | .sizeHint => .bounds len len
  | .describe => .text (Document.applied "Iter" (.count len)).inline
  | .last => .item none
  | .count => .number 0
  | .rest _ => .items []
  | .position _ _ => .position none
  | .fork => .number members
  | .use number => .number number

def fruitless (len : Nat) : (members : Nat) → List (Command α) → List (Answer α)
  | _, [] => []
  | members, command :: script =>
      command.fruitless len members :: fruitless len (members + command.forks) script

theorem Frame.size_eq_zero (frame : Frame 0) : frame.size = 0 := by
  have hbounded := frame.bounded
  rw [Frame.size]
  omega

theorem Frame.shown_nil {n : Nat} (frame : Frame n) : frame.shown ([] : List α) = [] := by
  simp [Frame.shown]

theorem Frame.item?_nil {n : Nat} (e : End) (steps : Nat) (frame : Frame n) :
    frame.item? ([] : List α) e steps = none := by
  simp [Frame.item?]

theorem Frames.size_members_use {n : Nat} (number : Nat) (frames : Frames n) :
    (frames.use number).members.size = frames.members.size := by
  unfold Frames.use
  simp only
  cases (frames.members.setIfInBounds frames.number frames.inUse)[number]? <;> simp

variable [Element α]

theorem Frames.perform_nil (len : Nat) (frames : Frames ([] : List α).length)
    (command : Command α) :
    ∃ frames', frames.perform [] len command
        = .answer (command.fruitless len frames.members.size, frames')
      ∧ frames'.members.size = frames.members.size + command.forks := by
  have hsize : frames.inUse.size = 0 := frames.inUse.size_eq_zero
  have hshown := frames.inUse.shown_nil (α := α)
  cases command with
  | next e =>
      refine ⟨{ frames with inUse := frames.inUse.drop e 1 }, ?_, rfl⟩
      rw [Frames.perform, Frame.item?_nil]
      rfl
  | nth e k =>
      refine ⟨{ frames with inUse := frames.inUse.drop e (k + 1) }, ?_, rfl⟩
      rw [Frames.perform, Frame.item?_nil]
      rfl
  | len =>
      refine ⟨frames, ?_, rfl⟩
      rw [Frames.perform, hsize, Nat.zero_add]
      rfl
  | sizeHint =>
      refine ⟨frames, ?_, rfl⟩
      rw [Frames.perform, hsize, Nat.zero_add]
      rfl
  | describe =>
      refine ⟨frames, ?_, rfl⟩
      rw [Frames.perform, hsize, Nat.zero_add]
      rfl
  | last =>
      refine ⟨frames, ?_, rfl⟩
      rw [Frames.perform, hshown]
      rfl
  | count =>
      refine ⟨frames, ?_, rfl⟩
      rw [Frames.perform, hsize]
      rfl
  | rest e =>
      refine ⟨frames, ?_, rfl⟩
      rw [Frames.perform, hshown]
      cases e <;> rfl
  | position e value =>
      refine ⟨{ frames with inUse := frames.inUse.drop e frames.inUse.size }, ?_, rfl⟩
      rw [Frames.perform, hshown]
      cases e <;> rfl
  | fork => exact ⟨_, rfl, Array.size_push ..⟩
  | use number => exact ⟨_, rfl, Frames.size_members_use number frames⟩

theorem Frames.performAll_nil (len : Nat) (script : List (Command α))
    (frames : Frames ([] : List α).length) :
    Frames.performAll [] len script frames
      = .answer (fruitless len frames.members.size script) := by
  induction script generalizing frames with
  | nil => rfl
  | cons command script ih =>
      obtain ⟨frames', hperform, hmembers⟩ := frames.perform_nil len command
      rw [Frames.performAll, hperform]
      simp only [Traced.answer_bind, ih, hmembers]
      rfl

end Cursor

namespace LinkedList

variable {α : Type} {list list' list'' other : LinkedList α} {free : List Slot}

/-! ## More memory and nothing else -/

/-- The list has more memory, or as much; nothing else is different. -/
def Grown (list list' : LinkedList α) : Prop :=
  ∃ capacity, list.nodes.capacity ≤ capacity
    ∧ list' = { list with nodes := { list.nodes with capacity } }

theorem Grown.refl (list : LinkedList α) : Grown list list :=
  ⟨list.nodes.capacity, Nat.le_refl _, rfl⟩

theorem Grown.trans (h : Grown list list') (h' : Grown list' list'') : Grown list list'' := by
  obtain ⟨capacity, hle, rfl⟩ := h
  obtain ⟨capacity', hle', rfl⟩ := h'
  exact ⟨capacity', hle.trans hle', rfl⟩

theorem Grown.detached (h : Grown list list') (hdetached : list.Detached) : list'.Detached := by
  obtain ⟨capacity, -, rfl⟩ := h
  exact ⟨hdetached.head, hdetached.tail, hdetached.left⟩

variable [Element α]

theorem reserve_grown (hvalid : list.nodes.Valid free) (additional : Nat) :
    (¬Exceeds additional list ∧ ∃ list', list.reserve additional = .ok list'
        ∧ Grown list list' ∧ list'.nodes.Valid free)
      ∨ (Exceeds additional list ∧ list.reserve additional = .error .capacityOverflow) := by
  rcases Pool.reserve_cases hvalid additional with
    ⟨capacity, hreserve, hroom, hgrow⟩ | ⟨hreserve, hexceeds⟩
  · refine .inl ⟨not_exceeds hgrow, { list with nodes := { list.nodes with capacity } }, ?_,
      ⟨capacity, Capacity.le_of_grow hgrow, rfl⟩, hroom⟩
    rw [reserve, hreserve]
    rfl
  · refine .inr ⟨hexceeds, ?_⟩
    rw [reserve, hreserve]
    rfl

/-! ## Operations -/

/-- Dropping an element that a list refuses since it holds others, and
panicking for this reason unless the drop does. -/
def spurn (list : LinkedList α) (x : α) : Traced α (Reply α) :=
  ⟨.error ((dropPanic x).getD (.insertion (.notEmpty list.len))),
    [.logged (.refusedFirst list.len), .dropped x]⟩

/-- What an operation comes to on a list that counts elements and has no ends. -/
def futile (list : LinkedList α) : Operation α → Traced α (Reply α)
  | .len => .answer (.count list.len)
  | .isEmpty => .answer (.flag true)
  | .outermost _ => .answer (.item none)
  | .contents _ => .answer (.items [])
  | .append _ _ x => list.spurn x
  | .tryAppend _ _ x =>
      ⟨(dropPanic x).elim (.ok (.insertion (.error (.notEmpty list.len)))) .error,
        [.logged (.refusedFirst list.len), .dropped x]⟩
  | .delete _ _ => .answer (.flag false)
  | .find _ _ => .answer (.count list.len)
  | .clear => .raise .nodesLeft
  | .reserve additional =>
      if Exceeds additional list then .raise .capacityOverflow else .answer .done
  | .extend _ source =>
      if Exceeds source.hint list then
        (Traced.raise .capacityOverflow).onPanic (Source.leftovers source.pulls)
      else
        match source.pulls with
        | [] => .answer .done
        | pull :: rest => (pull.yield.bind list.spurn).onPanic (Source.leftovers rest)
  | .iterate script => .answer (.script (Cursor.fruitless list.len 1 script))

theorem Detached.run (h : list.Detached) (script : List (Cursor.Command α)) :
    list.cursor.run script = .answer (Cursor.fruitless list.len 1 script) := by
  rw [(Cursor.Detached.yields h).run_eq script]
  exact Cursor.Frames.performAll_nil list.len script _

/-- The first element that is handed over is refused, and no other is asked for. -/
theorem Detached.appendAll (h : list.Detached) (memory : Memory) (pull : Pull α)
    (pulls : List (Pull α)) :
    ∃ panic events, pull.yield.bind list.spurn = ⟨.error panic, events⟩
      ∧ list.appendAll memory (pull :: pulls) = ⟨⟨.error panic, events⟩, (list, pulls)⟩ := by
  rw [LinkedList.appendAll, pull.yield_eq]
  cases pull.handed with
  | error panic => exact ⟨panic, pull.asks, rfl, rfl⟩
  | ok x =>
      refine ⟨_, _, rfl, ?_⟩
      rw [Traced.leaving_mk, Outcome.bind_ok, h.append, rejecting_eq]
      rfl

theorem Detached.extend (h : list.Detached) (hvalid : list.nodes.Valid free) (memory : Memory)
    (source : Source α) :
    ∃ list', list.perform (.extend memory source)
        = (list.futile (.extend memory source)).leaving list'
      ∧ Grown list list' ∧ list'.nodes.Valid free := by
  obtain ⟨hint, pulls⟩ := source
  rcases reserve_grown hvalid hint with
    ⟨hfits, list', hreserve, hgrown, hvalid'⟩ | ⟨hexceeds, hreserve⟩
  · refine ⟨list', ?_, hgrown, hvalid'⟩
    rw [perform, LinkedList.extend, hreserve, futile, if_neg hfits]
    cases pulls with
    | nil => rfl
    | cons pull pulls =>
        obtain ⟨panic, events, hspurn, happend⟩ :=
          (hgrown.detached h).appendAll memory pull pulls
        -- The list that refuses is the one with more memory, of the same length.
        obtain ⟨capacity, -, rfl⟩ := hgrown
        simp only [happend]
        show _ = ((pull.yield.bind (spurn
          { list with nodes := { list.nodes with capacity } })).onPanic
            (Source.leftovers pulls)).leaving _
        rw [hspurn]
        rfl
  · refine ⟨list, ?_, .refl list, hvalid⟩
    rw [perform, LinkedList.extend, hreserve, futile, if_pos hexceeds]
    rfl

omit [Element α] in
theorem Detached.holds (h : list.Detached) (hvalid : list.nodes.Valid free) :
    list.Holds (.detached list.stored) :=
  ⟨h, ⟨free, hvalid⟩, .refl _⟩

/-- Every operation is futile, and leaves the list as it was but for its memory. -/
theorem Detached.perform (h : list.Detached) (hvalid : list.nodes.Valid free)
    (operation : Operation α) :
    ∃ list', list.perform operation = (list.futile operation).leaving list'
      ∧ Grown list list' ∧ list'.nodes.Valid free := by
  have hholds := h.holds hvalid
  have hsame {operation : Operation α}
      (hperform : list.perform operation = (list.futile operation).leaving list) :
      ∃ list', list.perform operation = (list.futile operation).leaving list'
        ∧ Grown list list' ∧ list'.nodes.Valid free := ⟨list, hperform, .refl list, hvalid⟩
  cases operation with
  | len => exact hsame rfl
  | isEmpty =>
      refine hsame ?_
      rw [LinkedList.perform, hholds.isEmpty]
      rfl
  | outermost e =>
      refine hsame ?_
      rw [LinkedList.perform, hholds.outermost?]
      cases e <;> rfl
  | contents e =>
      refine hsame ?_
      rw [LinkedList.perform, hholds.contents]
      cases e <;> rfl
  | append memory e x =>
      refine hsame ?_
      rw [LinkedList.perform, h.append, rejecting_eq]
      rfl
  | tryAppend memory e x =>
      refine hsame ?_
      rw [LinkedList.perform, h.tryAppend, refusing_eq, futile]
      cases dropPanic x <;> rfl
  | delete e value =>
      refine hsame ?_
      rw [LinkedList.perform, h.delete]
      rfl
  | find e value =>
      refine hsame ?_
      rw [LinkedList.perform, hholds.find_eq]
      cases e <;> rfl
  | clear =>
      refine hsame ?_
      rw [LinkedList.perform, h.clear]
      rfl
  | reserve additional =>
      rcases reserve_grown hvalid additional with
        ⟨hfits, list', hreserve, hgrown, hvalid'⟩ | ⟨hexceeds, hreserve⟩
      · refine ⟨list', ?_, hgrown, hvalid'⟩
        rw [LinkedList.perform, hreserve, futile, if_neg hfits]
      · refine hsame ?_
        rw [LinkedList.perform, hreserve, futile, if_pos hexceeds]
  | extend memory source => exact h.extend hvalid memory source
  | iterate script =>
      refine hsame ?_
      rw [LinkedList.perform, h.run]
      rfl

/-! ## Comparing -/

omit [Element α] in
theorem Detached.next (h : list.Detached) :
    list.cursor.next .head = .ok (none, list.cursor) :=
  (Cursor.Detached.yields h).next_nil

/-- A comparison with a detached list on the left ends before its first element. -/
theorem Detached.agreesWithin (h : list.Detached) (n : Nat) (cursor : Cursor α) :
    (list.cursor.agreesWithin n cursor).trace = [] := by
  cases n with
  | zero => exact Traced.trace_ofExcept_bind fun _ _ => rfl
  | succ n =>
      rw [Cursor.agreesWithin, h.next]
      refine Traced.trace_ofExcept_bind ?_
      intro value hvalue
      obtain rfl := Except.ok.inj hvalue
      exact Traced.trace_ofExcept_bind fun _ _ => rfl

theorem Detached.agreesWithin_right (h : list.Detached) (n : Nat) (cursor : Cursor α) :
    (cursor.agreesWithin n list.cursor).trace = [] := by
  cases n with
  | zero => exact Traced.trace_ofExcept_bind fun _ _ => rfl
  | succ n =>
      -- The list on the left may be broken; then it panics, but asks nothing.
      rw [Cursor.agreesWithin, h.next]
      refine Traced.trace_ofExcept_bind ?_
      rintro ⟨left, cursor⟩ -
      cases left with
      | none => rfl
      | some left => rfl

theorem Detached.equals (h : list.Detached) (other : LinkedList α) :
    (list.equals other).trace = [] ∧ (other.equals list).trace = [] := by
  constructor
  · rw [LinkedList.equals]
    split
    · exact h.agreesWithin _ _
    · rfl
  · rw [LinkedList.equals]
    split
    · exact h.agreesWithin_right _ _
    · rfl

theorem trace_differs (list other : LinkedList α) :
    (list.differs other).trace = (list.equals other).trace := by
  rw [differs, Traced.bind_eq, Traced.bind]
  cases (list.equals other).result with
  | error panic => rfl
  | ok answer => exact List.append_nil _

/-! ## Copying and dropping -/

theorem Detached.clone (h : list.Detached) (hvalid : list.nodes.Valid free)
    {copy : LinkedList α} (hcopy : list.clone.result = .ok copy) :
    copy.Detached ∧ copy.nodes.Valid free ∧ copy.len = list.len
      ∧ copy.stored = list.stored.map twin := by
  rcases list.clone_cases with ⟨-, hclone⟩ | ⟨front, x, back, panic, -, -, -, hclone⟩
  · rw [hclone] at hcopy
    obtain rfl := Except.ok.inj hcopy
    exact ⟨⟨h.head, h.tail, h.left⟩, hvalid.image twin, rfl, stored_image list⟩
  · rw [hclone] at hcopy
    cases hcopy

theorem Detached.destroy (h : list.Detached) :
    list.destroy = ⟨.error .nodesLeft, departures list.stored⟩ := by
  rw [LinkedList.destroy, h.clear]
  rfl

/-- Whatever is done with the list, its elements stay in their slots and
nothing comes to them, until it is dropped. -/
structure Inert (free : List Slot) (list : LinkedList α) : Prop where
  detached : list.Detached
  valid : list.nodes.Valid free
  count : list.stored.length = list.len
  futile : ∀ operation, ∃ list', list.perform operation = (list.futile operation).leaving list'
    ∧ Grown list list'
  compared : ∀ other, (list.equals other).trace = [] ∧ (other.equals list).trace = []
    ∧ (list.differs other).trace = [] ∧ (other.differs list).trace = []
  copied : Copied list.stored → ∃ copy, list.clone = ⟨.ok copy, copying list.stored⟩
  copies : ∀ copy, list.clone.result = .ok copy → copy.Detached ∧ copy.nodes.Valid free
    ∧ copy.len = list.len ∧ copy.stored = list.stored.map twin
  discarded : list.discard.trace = departures list.stored
  destroyed : list.destroy = ⟨.error .nodesLeft, departures list.stored⟩

theorem Detached.inert (h : list.Detached) (hvalid : list.nodes.Valid free) :
    list.Inert free where
  detached := h
  valid := hvalid
  count := (h.holds hvalid).len.symm
  futile operation := by
    obtain ⟨list', hperform, hgrown, -⟩ := h.perform hvalid operation
    exact ⟨list', hperform, hgrown⟩
  compared other := by
    rw [trace_differs, trace_differs]
    exact ⟨(h.equals other).1, (h.equals other).2, (h.equals other).1, (h.equals other).2⟩
  copied hcopied := ⟨_, clone_of_copied hcopied⟩
  copies _ hcopy := h.clone hvalid hcopy
  discarded := rfl
  destroyed := h.destroy

end LinkedList

end LinkedPool
