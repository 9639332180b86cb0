import LinkedPool.Proofs.LinkedList.Inert
import LinkedPool.Proofs.LinkedList.Placement

/-!
# Extending is appending one by one

What a source has to give is known before any list is there to take it: it
delivers elements until it has no more or panics (`deliver`). An extension
asks for them one at a time, and appends each before it asks for the next.
If the memory for that can be had (`Capacity.Affords`), the list ends as if
the delivered elements had been appended one after the other, and neither
the hint nor the memory shows in it except in its capacity (`Succession`).
A hint that was large enough leaves nothing to be had any more.
-/

namespace LinkedPool

namespace Capacity

variable {β : Type} [Stored β] {memory : Memory} {total capacity capacity' slots len : Nat}

/-- Memory for `total` slots can be had one slot at a time: whenever the
storage is full before that, its growth by one slot is granted. -/
inductive Affords (β : Type) [Stored β] (memory : Memory) (total : Nat) : (capacity : Nat) → Prop
  | enough {capacity : Nat} (fits : total ≤ capacity) : Affords β memory total capacity
  | grown {capacity more : Nat} (granted : grow β memory capacity (capacity + 1) = .ok more)
      (rest : Affords β memory total more) : Affords β memory total capacity

/-- While slots are missing, none is refused. -/
theorem Affords.granted (h : Affords β memory total capacity) (hslots : slots ≤ capacity)
    (hlt : slots < total) : ∃ more, grow β memory capacity (slots + 1) = .ok more := by
  by_cases hroom : slots + 1 ≤ capacity
  · exact ⟨capacity, grow_of_le memory hroom⟩
  · obtain rfl : slots = capacity := by omega
    cases h with
    | enough fits => omega
    | grown granted rest => exact ⟨_, granted⟩

theorem Affords.mono {total' : Nat} (h : Affords β memory total capacity) (hle : total' ≤ total) :
    Affords β memory total' capacity := by
  induction h with
  | enough fits => exact .enough (hle.trans fits)
  | grown granted rest ih => exact .grown granted ih

/-- What could be had before an element was taken can be had after it. -/
theorem Affords.after (h : Affords β memory total capacity) (hlt : len < total)
    (hcapacity : (len ≠ capacity ∧ capacity' = capacity)
      ∨ len = capacity ∧ grow β memory capacity (capacity + 1) = .ok capacity') :
    Affords β memory total capacity' := by
  rcases hcapacity with ⟨-, rfl⟩ | ⟨rfl, hgrow⟩
  · exact h
  · cases h with
    | enough fits => omega
    | grown granted rest =>
        obtain rfl := Except.ok.inj (hgrow.symm.trans granted)
        exact rest

end Capacity

open Element

variable {α : Type}

/-! ## What a source delivers -/

/-- What comes of asking a source for its elements, one after the other: the
pulls that were asked, the elements they handed over, the panic that the last
of them ended in, if it did, and the pulls that were not asked any more. -/
structure Delivery (α : Type) where
  asked : List (Pull α)
  items : List α
  panic? : Option Panic
  unasked : List (Pull α)

namespace Delivery

def result (delivery : Delivery α) : Except Panic Unit := delivery.panic?.elim (.ok ()) .error

/-- The events of the requests, with `lines` logged after the first of them. -/
def trace (lines : List LogLine) (delivery : Delivery α) : List (Event α) :=
  (delivery.asked.take 1).flatMap Pull.asks ++ lines.map .logged
    ++ (delivery.asked.drop 1).flatMap Pull.asks

theorem trace_nil (delivery : Delivery α) :
    delivery.trace [] = delivery.asked.flatMap Pull.asks := by
  rw [trace, List.map_nil, List.append_nil, ← List.flatMap_append, List.take_append_drop]

theorem lines_asks (pulls : List (Pull α)) :
    (pulls.flatMap Pull.asks).filterMap Event.line? = [] := by
  rw [List.filterMap_eq_nil_iff]
  intro event hevent
  obtain ⟨pull, -, hasked⟩ := List.mem_flatMap.mp hevent
  cases pull with
  | copy model =>
      obtain rfl := List.mem_singleton.mp hasked
      rfl
  | give x => cases hasked
  | fail => cases hasked

end Delivery

/-- Nothing is logged while a source is dropped. -/
theorem Source.lines_leftovers (pulls : List (Pull α)) :
    (Source.leftovers pulls).filterMap Event.line? = [] := by
  simp [Source.leftovers, departures, Event.line?]

@[simp] theorem Delivery.lines_trace (lines : List LogLine) (delivery : Delivery α)
    (pulls : List (Pull α)) :
    (delivery.trace lines ++ Source.leftovers pulls).filterMap Event.line? = lines := by
  have hlines : (lines.map (Event.logged (α := α))).filterMap Event.line? = lines := by
    rw [List.filterMap_map]
    exact List.filterMap_some
  rw [Delivery.trace, List.filterMap_append, List.filterMap_append, List.filterMap_append,
    lines_asks, lines_asks, hlines, Source.lines_leftovers, List.nil_append, List.append_nil,
    List.append_nil]

variable [Element α]

/-- Asks for one element after the other until there are none or one panics. -/
def deliver : List (Pull α) → Delivery α
  | [] => ⟨[], [], none, []⟩
  | pull :: pulls =>
      match pull.handed with
      | .error panic => ⟨[pull], [], some panic, pulls⟩
      | .ok x =>
          let rest := deliver pulls
          ⟨pull :: rest.asked, x :: rest.items, rest.panic?, rest.unasked⟩

theorem deliver_of_ok {pull : Pull α} {x : α} (h : pull.handed = .ok x) (pulls : List (Pull α)) :
    deliver (pull :: pulls)
      = ⟨pull :: (deliver pulls).asked, x :: (deliver pulls).items, (deliver pulls).panic?,
          (deliver pulls).unasked⟩ := by
  rw [deliver, h]

theorem deliver_of_error {pull : Pull α} {panic : Panic} (h : pull.handed = .error panic)
    (pulls : List (Pull α)) : deliver (pull :: pulls) = ⟨[pull], [], some panic, pulls⟩ := by
  rw [deliver, h]

theorem deliver_give (xs : List α) :
    deliver (xs.map .give) = ⟨xs.map .give, xs, none, []⟩ := by
  induction xs with
  | nil => rfl
  | cons x xs ih => rw [List.map_cons, deliver_of_ok rfl, ih]

theorem deliver_append {taken : List (Pull α)} (h : (deliver taken).panic? = none)
    (rest : List (Pull α)) :
    (deliver (taken ++ rest)).items = (deliver taken).items ++ (deliver rest).items := by
  induction taken with
  | nil => rfl
  | cons pull taken ih =>
      cases hhanded : pull.handed with
      | error panic =>
          rw [deliver_of_error hhanded] at h
          cases h
      | ok x =>
          rw [deliver_of_ok hhanded] at h ⊢
          rw [List.cons_append, deliver_of_ok hhanded, ih h, List.cons_append]

/-- A source that does not panic is asked to its end. -/
theorem unasked_of_no_panic {pulls : List (Pull α)} (h : (deliver pulls).panic? = none) :
    (deliver pulls).unasked = [] := by
  induction pulls with
  | nil => rfl
  | cons pull pulls ih =>
      cases hhanded : pull.handed with
      | error panic =>
          rw [deliver_of_error hhanded] at h
          cases h
      | ok x =>
          rw [deliver_of_ok hhanded] at h ⊢
          exact ih h

namespace LinkedList

open Cells Capacity

variable {e : End} {list list' : LinkedList α} {cells : Cells α} {slots free : List Slot}
  {slot : Slot} {x : α} {xs : List α} {memory : Memory} {pulls : List (Pull α)}
  {source : Source α} {capacity : Nat}

/-- Appends `xs` at the tail, one after the other. -/
def appendEach (memory : Memory) : List α → LinkedList α → Outcome α (LinkedList α) Unit
  | [], list => (Traced.answer ()).leaving list
  | x :: xs, list => (list.append memory .tail x).bind fun list _ => list.appendEach memory xs

/-- The lines of appending to a list that holds `held` elements that go into
`slots`: only the first element of a list is worth one. -/
def openingLines {β : Type} (held : List β) (slots : List Slot) : List LogLine :=
  if held.isEmpty then (slots.take 1).map .insertedFirst else []

omit [Element α] in
theorem insertionLines_eq (slot : Slot) (cells : Cells α) (slots : List Slot) :
    insertionLines slot cells = (openingLines cells (slot :: slots)).map .logged := by
  cases cells <;> rfl

/-! ## Appending what is delivered -/

/-- An append to a linked list of fewer elements than can be had memory for. -/
theorem Linked.append_of_affords (h : Linked e list cells free) {total : Nat}
    (hafford : Affords (Node α) memory total list.nodes.capacity) (hlt : list.len < total) (x : α) :
    ∃ slot list' free', list.append memory e x = ⟨⟨.ok (), insertionLines slot cells⟩, list'⟩
      ∧ Linked e list' ((slot, x) :: cells) free'
      ∧ Pool.Obtained memory list.nodes free slot list'.nodes free'
      ∧ Affords (Node α) memory total list'.nodes.capacity
      ∧ (total ≤ list.nodes.capacity → list'.nodes.capacity = list.nodes.capacity) := by
  rcases h.append_cases memory x with
    ⟨refusal, rfl, hgrow, -⟩ | ⟨slot, list', free', happend, hlinked, hslot⟩
  · have hslots : list.nodes.len + 0 = list.nodes.slots := h.valid.len_add_length
    have hlen : list.nodes.slots < total := hslots ▸ hlt
    obtain ⟨more, hmore⟩ := hafford.granted h.valid.fits hlen
    cases hgrow.symm.trans hmore
  · have hcapacity := hslot.capacity_eq h.valid
    refine ⟨slot, list', free', happend, hlinked, hslot, hafford.after hlt hcapacity, ?_⟩
    intro hroom
    rcases hcapacity with ⟨-, hsame⟩ | ⟨hfull, -⟩
    · exact hsame
    · have hlen : list.nodes.len = list.len := rfl
      omega

/-- With memory for what is delivered, all of it is appended, each element
before the next is asked for. -/
theorem Linked.appendAll_of_affords (h : Linked .tail list cells free)
    (hafford : Affords (Node α) memory (list.len + (deliver pulls).items.length)
      list.nodes.capacity) :
    ∃ list', list.appendAll memory pulls
        = ⟨⟨(deliver pulls).result, (deliver pulls).trace (openingLines cells
              (Pool.upcoming free list.nodes.slots (deliver pulls).items.length))⟩,
            (list', (deliver pulls).unasked)⟩
      ∧ Appended .tail list cells free (deliver pulls).items list'
      ∧ (list.len + (deliver pulls).items.length ≤ list.nodes.capacity →
        list'.nodes.capacity = list.nodes.capacity) := by
  have hnone {β : Type} (held : List β) : openingLines held [] = [] := by
    cases held <;> rfl
  induction pulls generalizing list cells free with
  | nil =>
      refine ⟨list, ?_, appended_nil h, fun _ => rfl⟩
      simp only [deliver, List.length_nil, Pool.upcoming_zero, hnone]
      rfl
  | cons pull pulls ih =>
      cases hhanded : pull.handed with
      | error panic =>
          rw [deliver_of_error hhanded]
          refine ⟨list, ?_, appended_nil h, fun _ => rfl⟩
          rw [appendAll, pull.yield_eq, hhanded, List.length_nil, Pool.upcoming_zero, hnone,
            Delivery.trace_nil, List.flatMap_singleton]
          rfl
      | ok x =>
          rw [deliver_of_ok hhanded] at hafford ⊢
          rw [List.length_cons] at hafford ⊢
          obtain ⟨slot, list', free', happend, hlinked, hslot, hafford', hroom⟩ :=
            h.append_of_affords hafford (by omega) x
          have hlen : list'.len = list.len + 1 := by
            rw [hlinked.count, h.count, List.length_cons]
          have htotal : list.len + ((deliver pulls).items.length + 1)
              = list'.len + (deliver pulls).items.length := by omega
          rw [htotal] at hafford' hroom ⊢
          obtain ⟨list'', hall, happended, hsame⟩ := ih hlinked hafford'
          obtain ⟨hslots, -, -⟩ := hslot.upcoming_eq (deliver pulls).items.length
          refine ⟨list'', ?_, happended.cons hslot, ?_⟩
          · rw [insertionLines_eq slot cells
              (Pool.upcoming free' list'.nodes.slots (deliver pulls).items.length)] at happend
            rw [appendAll_cons hhanded happend, hall, Outcome.after_mk, hslots,
              show openingLines ((slot, x) :: cells) _ = [] from rfl, Delivery.trace_nil]
            simp [Delivery.trace, Delivery.result]
          · intro hfits
            have hcapacity := hroom hfits
            rw [hsame (hcapacity ▸ hfits), hcapacity]

/-- Appending given elements is appending what a source of them hands over. -/
theorem appendEach_eq (memory : Memory) (xs : List α) (list : LinkedList α) :
    list.appendEach memory xs = (list.appendAll memory (xs.map .give)).within Prod.fst := by
  induction xs generalizing list with
  | nil => rfl
  | cons x xs ih =>
      rw [appendEach, List.map_cons, appendAll]
      show _ = Outcome.within _ (Outcome.bind (Outcome.within _
        (Outcome.bind ((Traced.answer x).leaving list) _)) _)
      rw [Outcome.answer_bind]
      generalize list.append memory .tail x = call
      obtain ⟨⟨result, trace⟩, state⟩ := call
      cases result with
      | error panic => rfl
      | ok _ =>
          rw [Outcome.bind_ok, ih]
          rfl

theorem Linked.appendEach_of_affords (h : Linked .tail list cells free)
    (hafford : Affords (Node α) memory (list.len + xs.length) list.nodes.capacity) :
    ∃ list', list.appendEach memory xs
        = ⟨⟨.ok (), (openingLines cells (Pool.upcoming free list.nodes.slots xs.length)).map
            .logged⟩, list'⟩
      ∧ Appended .tail list cells free xs list' := by
  have hgiven : Affords (Node α) memory (list.len + (deliver (xs.map .give)).items.length)
      list.nodes.capacity := by
    rwa [deliver_give]
  obtain ⟨list', hall, happended, -⟩ := h.appendAll_of_affords hgiven
  rw [deliver_give] at hall happended
  refine ⟨list', ?_, happended⟩
  have hasks (given : List α) :
      (given.map Pull.give).flatMap Pull.asks = ([] : List (Event α)) := by
    simp [List.flatMap_map, Pull.asks]
  rw [appendEach_eq, hall, Delivery.trace, ← List.map_take, ← List.map_drop, hasks, hasks,
    List.nil_append, List.append_nil]
  rfl

/-- What is appended in two parts. -/
theorem appendAll_append {taken : List (Pull α)} {trace : List (Event α)}
    (h : list.appendAll memory taken = ⟨⟨.ok (), trace⟩, (list', [])⟩) (rest : List (Pull α)) :
    list.appendAll memory (taken ++ rest) = (list'.appendAll memory rest).after trace := by
  induction taken generalizing list trace with
  | nil =>
      cases h
      rfl
  | cons pull taken ih =>
      rw [appendAll] at h
      rw [List.cons_append, appendAll]
      generalize (pull.yield.leaving list).bind (fun list x => list.append memory .tail x) = call
        at h ⊢
      obtain ⟨⟨result, asked⟩, middle⟩ := call
      cases result with
      | error panic => cases h
      | ok _ =>
          rw [Outcome.within_mk, Outcome.bind_ok] at h ⊢
          generalize hcall : middle.appendAll memory taken = call at h
          obtain ⟨⟨result, trace'⟩, left⟩ := call
          cases h
          rw [ih hcall]
          simp [Outcome.after]

omit [Element α] in
theorem after_onPanic {σ ρ : Type} (first added : List (Event α)) (call : Outcome α σ ρ) :
    (call.after first).onPanic added = (call.onPanic added).after first := by
  obtain ⟨⟨result, trace⟩, state⟩ := call
  cases result <;> simp [Outcome.onPanic, Outcome.after, Traced.onPanic, Traced.leaving]

/-! ## Extending -/

theorem Linked.extend_of_affords (h : Linked .tail (list.withMemory capacity) cells free)
    (source : Source α) (hreserve : list.reserve source.hint = .ok (list.withMemory capacity))
    (hafford : Affords (Node α) memory (list.len + (deliver source.pulls).items.length) capacity) :
    ∃ list', list.extend memory source
        = ⟨⟨(deliver source.pulls).result, (deliver source.pulls).trace (openingLines cells
              (Pool.upcoming free list.nodes.slots (deliver source.pulls).items.length))
            ++ Source.leftovers (deliver source.pulls).unasked⟩, list'⟩
      ∧ Appended .tail list cells free (deliver source.pulls).items list'
      ∧ (list.len + (deliver source.pulls).items.length ≤ capacity →
        list'.nodes.capacity = capacity) := by
  obtain ⟨list', hall, happended, hsame⟩ := h.appendAll_of_affords hafford
  refine ⟨list', ?_, ⟨happended.linked, happended.slots⟩, hsame⟩
  rw [extend_of_reserve source hreserve hall]
  show Outcome.within Prod.fst (Outcome.onPanic _ ⟨⟨Delivery.result _, _⟩, (_, _)⟩) = _
  cases hpanic : (deliver source.pulls).panic? with
  | some panic =>
      rw [Delivery.result, hpanic]
      rfl
  | none =>
      rw [Delivery.result, hpanic, unasked_of_no_panic hpanic,
        show Source.leftovers ([] : List (Pull α)) = [] from rfl, List.append_nil]
      rfl

/-- What a source hands over first is in the list before the rest is asked for. -/
theorem Linked.extend_append (h : Linked .tail (list.withMemory capacity) cells free)
    {hint : Nat} (hreserve : list.reserve hint = .ok (list.withMemory capacity))
    {taken rest : List (Pull α)} (hpanic : (deliver taken).panic? = none)
    (hafford : Affords (Node α) memory (list.len + (deliver taken).items.length) capacity) :
    list.extend memory ⟨hint, taken ++ rest⟩
      = (list.extend memory ⟨hint, taken⟩).bind fun list _ => list.extend memory ⟨0, rest⟩ := by
  obtain ⟨list', hall, happended, -⟩ := h.appendAll_of_affords hafford
  rw [Delivery.result, hpanic, unasked_of_no_panic hpanic] at hall
  have hreserve' : list'.reserve 0 = .ok list' := by
    have hroom : list'.len + 0 ≤ list'.nodes.capacity :=
      happended.linked.valid.len_le_slots.trans happended.linked.valid.fits
    rw [happended.linked.holds.reserve_eq, if_pos hroom]
  rw [extend_of_reserve ⟨hint, taken ++ rest⟩ hreserve (appendAll_append hall rest),
    extend_of_reserve ⟨hint, taken⟩ hreserve hall, after_onPanic]
  show _ = Outcome.bind ⟨⟨.ok (), _⟩, list'⟩ _
  rw [Outcome.bind_ok, extend_of_reserve ⟨0, rest⟩ hreserve' rfl]
  rfl

/-- How the list `list` through `slots`, with the elements `xs` and the vacant
slots `free`, is extended by what a source delivers to the list `list'`, when
there was room for `capacity` slots after the hint was heeded. -/
structure Succession (memory : Memory) (list : LinkedList α) (slots free : List Slot) (xs : List α)
    (source : Source α) (capacity : Nat) (list' : LinkedList α) : Prop where
  /-- The extension ends as the source does, and asks for one element after
  the other; what it did not come to ask for is dropped. -/
  extend : list.extend memory source
    = ⟨⟨(deliver source.pulls).result, (deliver source.pulls).trace (openingLines xs
          (Pool.upcoming free list.nodes.slots (deliver source.pulls).items.length))
        ++ Source.leftovers (deliver source.pulls).unasked⟩, list'⟩
  healthy : list'.Healthy
    (slots ++ Pool.upcoming free list.nodes.slots (deliver source.pulls).items.length)
  contents : list'.contents .head = .ok (xs ++ (deliver source.pulls).items)
  vacant : list'.nodes.Valid (free.drop (deliver source.pulls).items.length)
  /-- Appending the elements one by one comes to the same list, but for its
  memory, and logs the same. -/
  one_by_one : ∀ memory',
    Affords (Node α) memory' (list.len + (deliver source.pulls).items.length) list.nodes.capacity →
      (list.appendEach memory' (deliver source.pulls).items).result = .ok ()
        ∧ list' = (list.appendEach memory' (deliver source.pulls).items).state.withMemory
          list'.nodes.capacity
        ∧ (list.extend memory source).trace.filterMap Event.line?
          = (list.appendEach memory' (deliver source.pulls).items).trace.filterMap Event.line?
  /-- So does any other hint. -/
  hint_immaterial : ∀ memory' hint capacity',
    list.reserve hint = .ok (list.withMemory capacity') →
    Affords (Node α) memory' (list.len + (deliver source.pulls).items.length) capacity' →
      ∃ capacity'', list.extend memory' ⟨hint, source.pulls⟩
        = (list.extend memory source).toTraced.leaving (list'.withMemory capacity'')
  /-- When the rest is asked for, what came before is in the list. -/
  in_turn : ∀ taken rest, source.pulls = taken ++ rest → (deliver taken).panic? = none →
    list.extend memory source
      = (list.extend memory ⟨source.hint, taken⟩).bind fun list _ => list.extend memory ⟨0, rest⟩
  /-- A hint that was large enough leaves no growth to the appends. -/
  hint_enough : (deliver source.pulls).items.length ≤ source.hint → list'.nodes.capacity = capacity

theorem Linked.succession (h : Linked .tail list cells free)
    (hroom : Linked .tail (list.withMemory capacity) cells free)
    (hreserve : list.reserve source.hint = .ok (list.withMemory capacity))
    (hfits : list.len + source.hint ≤ capacity)
    (hafford : Affords (Node α) memory (list.len + (deliver source.pulls).items.length) capacity) :
    ∃ list', Appended .tail list cells free (deliver source.pulls).items list'
      ∧ Succession memory list cells.slots.reverse free cells.elements.reverse source
        capacity list' := by
  obtain ⟨list', hextend, happended, hsame⟩ := hroom.extend_of_affords source hreserve hafford
  have hopening (slots : List Slot) :
      openingLines cells.elements.reverse slots = openingLines cells slots := by
    cases cells <;> simp [openingLines, elements]
  rw [← hopening] at hextend
  obtain ⟨hhealthy, hcontents⟩ := happended.healthy
  refine ⟨list', happended, hextend, hhealthy, hcontents, happended.linked.valid, ?_, ?_, ?_, ?_⟩
  · intro memory' hafford'
    obtain ⟨list'', heach, happended'⟩ := h.appendEach_of_affords hafford'
    refine ⟨by rw [heach], ?_, ?_⟩
    · rw [heach]
      exact happended'.eq_withMemory happended
    · rw [hextend, heach, Delivery.lines_trace, hopening, List.filterMap_map]
      exact List.filterMap_some.symm
  · intro memory' hint capacity' hreserve' hafford'
    have hroom' : Linked .tail (list.withMemory capacity') cells free := by
      rcases h.reserve_cases hint with ⟨found, hfound, hlinked, -, -⟩ | ⟨hfound, -⟩
      · rw [← Except.ok.inj (hfound.symm.trans hreserve')]
        exact hlinked
      · cases hfound.symm.trans hreserve'
    obtain ⟨list'', hextend', happended', -⟩ :=
      hroom'.extend_of_affords ⟨hint, source.pulls⟩ hreserve' hafford'
    refine ⟨list''.nodes.capacity, ?_⟩
    rw [← happended.eq_withMemory happended', hextend', hextend, hopening]
    rfl
  · intro taken rest hsplit hpanic
    have hfewer : Affords (Node α) memory (list.len + (deliver taken).items.length) capacity := by
      refine hafford.mono ?_
      rw [hsplit, deliver_append hpanic, List.length_append]
      omega
    obtain ⟨hint, pulls⟩ := source
    obtain rfl : pulls = taken ++ rest := hsplit
    exact hroom.extend_append hreserve hpanic hfewer
  · intro henough
    exact hsame (by omega)

/-! ## New lists -/

omit [Element α] in
/-- The elements of a list whose slots are numbered as they come. -/
theorem element_of_linked_range
    (h : Linked .head list ((List.range xs.length).zip xs) free)
    (hslots : list.nodes.slots = xs.length) (i : Nat) :
    (list.nodes.get? i).map Node.element = xs[i]? := by
  by_cases hi : i < xs.length
  · have hmem : (i, xs[i]) ∈ (List.range xs.length).zip xs := by
      refine List.mem_iff_getElem?.mpr ⟨i, ?_⟩
      rw [List.getElem?_zip_eq_some]
      exact ⟨List.getElem?_range hi, List.getElem?_eq_getElem hi⟩
    obtain ⟨front, back, hsplit⟩ := List.append_of_mem hmem
    rw [h.node front i xs[i] back hsplit, Option.map_some, Node.element_between,
      List.getElem?_eq_getElem hi]
  · have hle : xs.length ≤ i := Nat.le_of_not_lt hi
    rw [Pool.get?_eq_none_of_le (hslots ▸ hle), List.getElem?_eq_none hle]
    rfl

/-- A list made of a source has its elements in the slots of their numbers;
one that is not finished is dropped. -/
structure MadeInOrder (memory : Memory) (source : Source α) (list' : LinkedList α) : Prop where
  healthy : list'.Healthy (List.range (deliver source.pulls).items.length)
  placed : ∀ i, (list'.nodes.get? i).map Node.element = (deliver source.pulls).items[i]?
  made : (deliver source.pulls).panic? = none →
    ofSource memory source = ⟨.ok list', ((empty : LinkedList α).extend memory source).trace⟩
  unfinished : ∀ panic, (deliver source.pulls).panic? = some panic →
    ofSource memory source
      = ⟨.error panic, ((empty : LinkedList α).extend memory source).trace
          ++ departures (deliver source.pulls).items⟩

theorem Succession.madeInOrder
    (h : Succession memory .empty [] [] [] source capacity list')
    (happended : Appended .tail (empty : LinkedList α) [] [] (deliver source.pulls).items list') :
    MadeInOrder memory source list' := by
  have hrange : Pool.upcoming [] (empty : LinkedList α).nodes.slots
        (deliver source.pulls).items.length
      = List.range (deliver source.pulls).items.length := by
    rw [List.range_eq_range', Pool.upcoming, List.take_nil, List.nil_append, List.length_nil,
      Nat.sub_zero]
    rfl
  have hhealthy := h.healthy
  have hlinked := happended.linked.flip
  have hslots : list'.nodes.slots = (deliver source.pulls).items.length := by
    rw [happended.slots, List.length_nil, Nat.sub_zero]
    exact Nat.zero_add _
  rw [hrange, List.nil_append] at hhealthy
  rw [hrange, List.append_nil, List.reverse_reverse] at hlinked
  have hplaced := element_of_linked_range hlinked hslots
  refine ⟨hhealthy, hplaced, ?_, ?_⟩
  · intro hpanic
    rw [ofSource, h.extend, Delivery.result, hpanic]
    simp [Traced.answer]
  · intro panic hpanic
    have hstored : list'.stored = (deliver source.pulls).items := by
      rw [stored_eq_filterMap_range, hslots]
      simp only [hplaced]
      have hall := Pool.filterMap_eq_filterMap_range some (deliver source.pulls).items
      simpa using hall.symm
    rw [ofSource, h.extend, Delivery.result, hpanic]
    simp [hstored]

/-- An extension for which no room can be made leaves the list as it is and
takes nothing from the source. Otherwise it appends what the source delivers
one by one, and so does the making of a new list, if the memory for that can
be had; after a large enough hint, none is needed any more. -/
theorem extension_in_succession (hhealthy : list.Healthy slots) (hvalid : list.nodes.Valid free)
    (hcontents : list.contents .head = .ok xs) (memory : Memory) (source : Source α) :
    (Exceeds source.hint list →
      list.extend memory source
        = ⟨⟨.error .capacityOverflow, Source.leftovers source.pulls⟩, list⟩)
      ∧ (¬Exceeds source.hint list →
        ∃ capacity, list.reserve source.hint = .ok (list.withMemory capacity)
          ∧ ((deliver source.pulls).items.length ≤ source.hint → ∀ memory,
            Affords (Node α) memory (list.len + (deliver source.pulls).items.length) capacity)
          ∧ (Affords (Node α) memory (list.len + (deliver source.pulls).items.length) capacity →
            ∃ list', Succession memory list slots free xs source capacity list'))
      ∧ (Exceeds source.hint (empty : LinkedList α) →
        ofSource memory source = ⟨.error .capacityOverflow, Source.leftovers source.pulls⟩)
      ∧ (¬Exceeds source.hint (empty : LinkedList α) →
        ∃ capacity,
          (empty : LinkedList α).reserve source.hint = .ok (empty.withMemory capacity)
          ∧ ((deliver source.pulls).items.length ≤ source.hint → ∀ memory,
            Affords (Node α) memory (deliver source.pulls).items.length capacity)
          ∧ (Affords (Node α) memory (deliver source.pulls).items.length capacity →
            ∃ list', Succession memory .empty [] [] [] source capacity list'
              ∧ MadeInOrder memory source list')) := by
  obtain ⟨cells, hlinked, rfl⟩ := hhealthy.linked hvalid
  obtain rfl : cells.elements = xs :=
    Except.ok.inj ((hlinked.holds.contents .head).symm.trans hcontents)
  have htail : Linked .tail list cells.reverse free := hlinked.flip
  have hempty : Linked .tail (empty : LinkedList α) [] [] := linked_empty
  refine ⟨?_, ?_, ?_, ?_⟩
  · intro hexceeds
    rcases htail.reserve_cases source.hint with ⟨capacity, -, -, -, hfits⟩ | ⟨hreserve, -⟩
    · exact absurd hexceeds hfits
    · rw [LinkedList.extend, hreserve]
      rfl
  · intro hfits
    rcases htail.reserve_cases source.hint with
      ⟨capacity, hreserve, hroom, henough, -⟩ | ⟨-, hexceeds⟩
    · refine ⟨capacity, hreserve, fun hhint memory => .enough (by omega), ?_⟩
      intro hafford
      obtain ⟨list', -, hsuccession⟩ := htail.succession hroom hreserve henough hafford
      rw [slots_reverse, elements_reverse, List.reverse_reverse, List.reverse_reverse]
        at hsuccession
      exact ⟨list', hsuccession⟩
    · exact absurd hexceeds hfits
  · intro hexceeds
    rcases hempty.reserve_cases source.hint with ⟨capacity, -, -, -, hfits⟩ | ⟨hreserve, -⟩
    · exact absurd hexceeds hfits
    · rw [ofSource, LinkedList.extend, hreserve]
      simp [Traced.raise, LinkedList.stored, LinkedList.empty, Pool.live, Pool.empty, departures]
  · intro hfits
    rcases hempty.reserve_cases source.hint with
      ⟨capacity, hreserve, hroom, henough, -⟩ | ⟨-, hexceeds⟩
    · have hlen : (empty : LinkedList α).len = 0 := rfl
      refine ⟨capacity, hreserve, fun hhint memory => .enough (by omega), ?_⟩
      intro hafford
      rw [← Nat.zero_add (deliver source.pulls).items.length, ← hlen] at hafford
      obtain ⟨list', happended, hsuccession⟩ :=
        hempty.succession hroom hreserve henough hafford
      exact ⟨list', hsuccession, hsuccession.madeInOrder happended⟩
    · exact absurd hexceeds hfits

/-- A source that promises five elements, and panics in the third of four. -/
def faulty : Source Tracked :=
  ⟨5, [.give ⟨3, "z", none⟩, .copy ⟨4, "w", none⟩, .copy ⟨5, "v", some .copying⟩,
    .give ⟨6, "u", some .dropping⟩]⟩

theorem gapped_extension_in_succession :
    gapped.Healthy [2, 0] ∧ gapped.nodes.Valid [1]
      ∧ gapped.contents .head = .ok [⟨1, "x", none⟩, ⟨2, "y", none⟩]
      ∧ (gapped.extend .exhausted faulty).toTraced
        = ⟨.error (.element "clone bomb 5:v"),
            [.cloned ⟨4, "w", none⟩, .cloned ⟨5, "v", some .copying⟩,
              .dropped ⟨6, "u", some .dropping⟩]⟩
      ∧ (gapped.extend .exhausted faulty).state.Healthy [2, 0, 1, 3]
      ∧ (gapped.extend .exhausted faulty).state.contents .head
        = .ok [⟨1, "x", none⟩, ⟨2, "y", none⟩, ⟨3, "z", none⟩, ⟨4, "w\x27", none⟩]
      ∧ (gapped.extend .exhausted faulty).state.nodes.capacity = 7
      ∧ (ofSource .exhausted faulty).result = .error (.element "clone bomb 5:v") := by
  have hcontents : gapped.contents .head = .ok [⟨1, "x", none⟩, ⟨2, "y", none⟩] := rfl
  obtain ⟨-, hextend, -, hmake⟩ :=
    extension_in_succession gapped_healthy gapped_valid hcontents .exhausted faulty
  obtain ⟨capacity, hreserve, henough, hsuccession⟩ := hextend (by decide)
  obtain ⟨list', h⟩ := hsuccession (henough (by decide) .exhausted)
  obtain ⟨_, -, henough', hmade⟩ := hmake (by decide)
  obtain ⟨made, -, hinOrder⟩ := hmade (henough' (by decide) .exhausted)
  have hcapacity : list'.nodes.capacity = 7 := by
    rw [h.hint_enough (by decide)]
    exact congrArg (fun list => list.nodes.capacity) (Except.ok.inj hreserve).symm
  rw [h.extend, hinOrder.unfinished _ rfl]
  exact ⟨gapped_healthy, gapped_valid, hcontents, rfl, h.healthy, h.contents, hcapacity, rfl⟩

end LinkedList

end LinkedPool
