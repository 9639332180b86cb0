import LinkedPool.Proofs.LinkedList.Agreement
import LinkedPool.Proofs.LinkedList.Footprint
import LinkedPool.Proofs.LinkedList.Succession

/-!
# What a list logs

The lines of a call are what its trace has of them (`linesIn`). An operation
logs when the list gets its first element (`Opened`), when an element leaves
it (`Struck`), when it was emptied (`Emptied`), and when it turns out that the
list has lost its elements; all else is silent. What is said in a line is true
of the list: the slots in it are those of the element, and of its neighbours
before they were joined.

An extension logs what its appends log, which is a line at most: after the
first element, the list is not empty any more (`Linked.linesIn_appendEach`).
-/

namespace LinkedPool

open Element

/-- What is passed on the way from an end to an element, of what is before
it and what is behind it in a sequence. -/
def End.passed {β : Type} : End → (front back : List β) → List β
  | .head, front, _ => front
  | .tail, _, back => back

/-! ## Lines -/

namespace LogLine

theorem inline_document (slot : Slot) :
    slot.document.inline = "NodePtr(" ++ toString slot ++ ")" := by
  have hinline : slot.document.inline
      = "NodePtr" ++ "(" ++ ", ".intercalate [toString slot] ++ ")" := by
    simp [Slot.document, Document.applied, Document.inline, Document.inlineAll, Document.count,
      Bracket.opening, Bracket.closing]
  rw [hinline]
  rfl

theorem linkText_none : linkText none = "None" := rfl

theorem linkText_some (slot : Slot) :
    linkText (some slot) = "Some(NodePtr(" ++ toString slot ++ "))" := by
  have hinline : linkText (some slot)
      = "Some" ++ "(" ++ ", ".intercalate [slot.document.inline] ++ ")" := by
    simp [linkText, Document.optional, Document.applied, Document.inline, Document.inlineAll,
      Bracket.opening, Bracket.closing]
  have hopening : "Some" ++ "(" ++ "NodePtr(" = "Some(NodePtr(" := by decide
  have hclosing : ")" ++ ")" = "))" := by decide
  rw [hinline, show ", ".intercalate [slot.document.inline] = slot.document.inline from rfl,
    inline_document, ← String.append_assoc, ← String.append_assoc, hopening, String.append_assoc,
    hclosing]

theorem text_insertedFirst (slot : Slot) :
    (insertedFirst slot).text = "TRACE insert_into_empty: NodePtr(" ++ toString slot ++ ")" := by
  have htext : (insertedFirst slot).text
      = "TRACE" ++ " " ++ ("insert_into_empty: " ++ slot.document.inline) := rfl
  have hopening : "TRACE" ++ " " ++ "insert_into_empty: " ++ "NodePtr("
      = "TRACE insert_into_empty: NodePtr(" := by decide
  rw [htext, inline_document, ← String.append_assoc, ← String.append_assoc,
    ← String.append_assoc, hopening]

theorem text_refusedFirst (len : Nat) :
    (refusedFirst len).text
      = "DEBUG insert_into_empty: the list already has " ++ toString len ++ " element(s)" := by
  have htext : (refusedFirst len).text
      = "DEBUG" ++ " " ++ ("insert_into_empty: the list already has " ++ toString len
        ++ " element(s)") := rfl
  have hopening : "DEBUG" ++ " " ++ "insert_into_empty: the list already has "
      = "DEBUG insert_into_empty: the list already has " := by decide
  rw [htext, ← String.append_assoc, ← String.append_assoc, hopening]

theorem text_removed (slot : Slot) (prev next : Option Slot) :
    (removed slot prev next).text
      = "TRACE remove_node: NodePtr(" ++ toString slot ++ ") (prev = " ++ linkText prev
        ++ ", next = " ++ linkText next ++ ")" := by
  have htext : (removed slot prev next).text
      = "TRACE" ++ " " ++ ("remove_node: " ++ slot.document.inline ++ " (prev = "
        ++ linkText prev ++ ", next = " ++ linkText next ++ ")") := rfl
  have hopening :
      "TRACE" ++ " " ++ "remove_node: " ++ "NodePtr(" = "TRACE remove_node: NodePtr(" := by
    decide
  have hclosing : ")" ++ " (prev = " = ") (prev = " := by decide
  rw [htext, inline_document, ← hopening, ← hclosing]
  simp only [String.append_assoc]

theorem text_cleared (released : Nat) :
    (cleared released).text = "TRACE clear: released " ++ toString released ++ " node(s)" := by
  have htext : (cleared released).text
      = "TRACE" ++ " " ++ ("clear: released " ++ toString released ++ " node(s)") := rfl
  have hopening : "TRACE" ++ " " ++ "clear: released " = "TRACE clear: released " := by decide
  rw [htext, ← String.append_assoc, ← String.append_assoc, hopening]

end LogLine

namespace Element

variable {α : Type} {trace : List (Event α)}

/-- The lines that were logged in a call, in order. -/
def linesIn (trace : List (Event α)) : List LogLine := trace.filterMap Event.line?

@[simp] theorem linesIn_append (first second : List (Event α)) :
    linesIn (first ++ second) = linesIn first ++ linesIn second :=
  List.filterMap_append

@[simp] theorem linesIn_logged (line : LogLine) :
    linesIn [Event.logged (α := α) line] = [line] := rfl

@[simp] theorem linesIn_departures (xs : List α) : linesIn (departures xs) = [] := by
  simp [linesIn, departures, Event.line?]

@[simp] theorem linesIn_copying (xs : List α) : linesIn (copying xs) = [] := by
  simp [linesIn, copying, Event.line?]

@[simp] theorem linesIn_asks (pull : Pull α) : linesIn pull.asks = [] := by
  cases pull <;> rfl

@[simp] theorem linesIn_leftovers (pulls : List (Pull α)) :
    linesIn (Source.leftovers pulls) = [] :=
  Source.lines_leftovers pulls

theorem Comparing.linesIn (h : Comparing trace) : linesIn trace = [] := by
  rw [Element.linesIn, List.filterMap_eq_nil_iff]
  intro event hevent
  obtain ⟨left, right, rfl⟩ := h event hevent
  rfl

@[simp] theorem linesIn_asked (value : α) (xs : List α) : linesIn (asked value xs) = [] :=
  (comparing_asked value xs).linesIn

@[simp] theorem linesIn_removal (line : LogLine) (x : α) :
    linesIn [.logged line, .dropped x] = [line] := rfl

variable [Element α] {value : α} {xs : List α}

theorem Denied.listed (h : Denied value xs) (e : End) : Denied value (e.listed xs) :=
  fun x hx => h x ((e.mem_listed xs).mp hx)

/-- From either end, what comes before an element is what is passed on the way to it. -/
theorem Denied.exists_split {front : List α} (h : Denied value front) (e : End) (x : α)
    (back : List α) :
    ∃ before behind, e.listed (front ++ x :: back) = before ++ x :: behind
      ∧ Denied value (e.passed before behind) := by
  cases e with
  | head => exact ⟨front, back, rfl, h⟩
  | tail => exact ⟨back.reverse, front.reverse, by simp [End.listed], h.listed .tail⟩

end Element

namespace LinkedList

open Cells

variable {α : Type} [Element α] {e : End} {list list' : LinkedList α} {cells : Cells α}
  {slots free : List Slot} {slot : Slot} {x value : α} {xs : List α} {memory : Memory}

/-! ## Appending -/

/-- What an append to a list through `slots` logs, which leaves the list
`list'`: a line for the first element of a list, and none for another. -/
inductive Opened (slots : List Slot) (x : α) (succeeded : Prop) (list' : LinkedList α) :
    List LogLine → Prop
  | first (slot : Slot) (empty : slots = []) (success : succeeded)
      (healthy : list'.Healthy [slot]) (contents : list'.contents .head = .ok [x]) :
      Opened slots x succeeded list' [.insertedFirst slot]
  | further (nonempty : slots ≠ []) : Opened slots x succeeded list' []
  | failed (failure : ¬succeeded) : Opened slots x succeeded list' []

omit [Element α] in
theorem Linked.opened {free' : List Slot} (h : Linked e list' ((slot, x) :: cells) free')
    {succeeded : Prop} (hsucceeded : succeeded) :
    Opened (e.listed cells.slots) x succeeded list' (linesIn (insertionLines slot cells)) := by
  cases cells with
  | nil =>
      have hhealthy := h.healthy_listed
      have hcontents := h.holds.contents .head
      refine .first slot (End.listed_nil e) hsucceeded ?_ ?_
      · cases e <;> exact hhealthy
      · cases e <;> exact hcontents
  | cons cell cells =>
      refine .further ?_
      intro hnil
      have hlength := congrArg List.length hnil
      rw [End.length_listed] at hlength
      cases hlength

theorem Linked.tryAppend_opened (h : Linked e list cells free) (memory : Memory) (x : α) :
    Opened (e.listed cells.slots) x ((list.tryAppend memory e x).result = .ok (.ok ()))
      (list.tryAppend memory e x).state (linesIn (list.tryAppend memory e x).trace) := by
  rcases h.tryAppend_cases memory x with
    ⟨refusal, -, -, htry⟩ | ⟨slot, list', free', htry, hlinked, -⟩
  · rw [htry]
    refine .failed ?_
    rcases discard_cases x with ⟨-, hdrop⟩ | ⟨panic, -, hdrop⟩ <;> rw [hdrop] <;> simp
  · rw [htry]
    exact hlinked.opened rfl

theorem Linked.append_opened (h : Linked e list cells free) (memory : Memory) (x : α) :
    Opened (e.listed cells.slots) x ((list.append memory e x).result = .ok ())
      (list.append memory e x).state (linesIn (list.append memory e x).trace) := by
  rcases h.append_cases memory x with
    ⟨refusal, -, -, happend⟩ | ⟨slot, list', free', happend, hlinked, -⟩
  · rw [happend, rejecting_eq]
    exact .failed nofun
  · rw [happend]
    exact hlinked.opened rfl

/-! ## Deleting -/

/-- How a deletion of `value` from the end `e` ends, and what it logs, in a
list of the elements `xs` in `slots`: a line if an element is taken out, with
its slot and those of its neighbours, whether or not its drop panics. -/
inductive Struck (e : End) (value : α) (slots : List Slot) (xs : List α) :
    Except Panic Bool → List LogLine → Prop
  | found (before : List Slot) (slot : Slot) (behind : List Slot) (front : List α) (x : α)
      (back : List α) (houses : slots = before ++ slot :: behind) (split : xs = front ++ x :: back)
      (place : before.length = front.length) (denied : Denied value (e.passed front back))
      (same : equal x value = .ok true) :
      Struck e value slots xs ((dropPanic x).elim (.ok true) .error)
        [.removed slot before.getLast? behind.head?]
  | absent (denied : Denied value xs) : Struck e value slots xs (.ok false) []
  | panicked (front : List α) (x : α) (back : List α) (panic : Panic)
      (split : xs = front ++ x :: back) (denied : Denied value (e.passed front back))
      (refused : equal x value = .error panic) :
      Struck e value slots xs (.error panic) []

theorem Linked.delete_struck (h : Linked e list cells free) (value : α) :
    Struck e value (e.listed cells.slots) (e.listed cells.elements)
      (list.delete e value).result (linesIn (list.delete e value).trace) := by
  rcases h.delete_cases value with
    ⟨front, slot, x, back, list', rfl, hdenied, hsame, hdelete, -⟩ | ⟨hdenied, hdelete⟩ |
    ⟨front, slot, x, back, panic, rfl, hdenied, hsame, hdelete⟩
  · have hcall : (list.delete e value).result = (dropPanic x).elim (.ok true) .error
        ∧ linesIn (list.delete e value).trace
          = [removalLine e (lastSlot front) slot (firstSlot back) x] := by
      rw [hdelete]
      rcases discard_cases x with ⟨hnone, hdrop⟩ | ⟨panic, hsome, hdrop⟩
      · simp [hdrop, hnone]
      · simp [hdrop, hsome]
    rw [hcall.1, hcall.2]
    cases e with
    | head =>
        have hlines : removalLine .head (lastSlot front) slot (firstSlot back) x
            = .removed slot front.slots.getLast? back.slots.head? := by
          simp [removalLine, Node.between, lastSlot, firstSlot, slots]
        rw [hlines]
        exact .found _ slot _ front.elements x back.elements (slots_append ..)
          (elements_append ..) (by simp [slots, elements]) hdenied hsame
    | tail =>
        have hlines : removalLine .tail (lastSlot front) slot (firstSlot back) x
            = .removed slot back.slots.reverse.getLast? front.slots.reverse.head? := by
          simp [removalLine, Node.between, lastSlot, firstSlot, slots]
        rw [hlines]
        exact .found _ slot _ back.elements.reverse x front.elements.reverse
          (by simp [End.listed]) (by simp [End.listed]) (by simp [slots, elements])
          (hdenied.listed .tail) hsame
  · rw [hdelete, linesIn_asked]
    exact .absent (hdenied.listed e)
  · rw [hdelete, linesIn_asked]
    obtain ⟨before, behind, hsplit, hpassed⟩ := hdenied.exists_split e x back.elements
    refine .panicked before x behind panic ?_ hpassed hsame
    rw [elements_append, elements_cons, hsplit]

/-! ## Taking a list apart -/

/-- How emptying a list of `xs` ends, and what it logs: their number, unless
the drop of one of them panics. -/
inductive Emptied (xs : List α) (len : Nat) : Except Panic Unit → List LogLine → Prop
  | completed (calm : Calm xs) : Emptied xs len (.ok ()) [.cleared len]
  | panicked (front : List α) (x : α) (back : List α) (panic : Panic)
      (split : xs = front ++ x :: back) (calm : Calm front) (drop : dropPanic x = some panic) :
      Emptied xs len (.error panic) []

theorem Linked.clear_emptied (h : Linked .head list cells free) :
    Emptied cells.elements list.len list.clear.result (linesIn list.clear.trace)
      ∧ Emptied cells.elements list.len list.destroy.result (linesIn list.destroy.trace) := by
  rcases h.clear_cases with
    ⟨hcalm, hclear⟩ | ⟨front, slot, x, back, panic, nodes', rfl, hcalm, hdrop, -, hclear⟩
  · rw [hclear, h.destroy_of_calm hcalm, linesIn_append, linesIn_departures, List.nil_append,
      linesIn_logged, ← h.count]
    exact ⟨.completed hcalm, .completed hcalm⟩
  · have hsplit : elements (front ++ (slot, x) :: back)
        = front.elements ++ x :: back.elements := elements_append ..
    rw [destroy_of_clear_error hclear, hclear, linesIn_append, linesIn_departures,
      linesIn_departures]
    exact ⟨.panicked _ x _ panic hsplit hcalm hdrop, .panicked _ x _ panic hsplit hcalm hdrop⟩

theorem Detached.destroy_eq (h : list.Detached) :
    list.destroy = ⟨.error .nodesLeft, departures list.stored⟩ :=
  destroy_of_clear_error h.clear

theorem linesIn_discard (list : LinkedList α) : linesIn list.discard.trace = [] :=
  linesIn_departures list.stored

theorem linesIn_clone (list : LinkedList α) : linesIn list.clone.trace = [] := by
  rcases list.clone_cases with ⟨-, hclone⟩ | ⟨front, x, back, panic, -, -, -, hclone⟩
  · rw [hclone, linesIn_copying]
  · rw [hclone, linesIn_append, linesIn_copying, linesIn_departures, List.nil_append]

/-! ## Extending -/

theorem appendAll_of_error {pull : Pull α} {panic : Panic} (hhanded : pull.handed = .error panic)
    (pulls : List (Pull α)) :
    list.appendAll memory (pull :: pulls) = ⟨⟨.error panic, pull.asks⟩, (list, pulls)⟩ := by
  rw [appendAll, pull.yield_eq, hhanded]
  rfl

/-- The lines of taking elements from pulls are those of appending what is
delivered, one after the other. -/
theorem linesIn_appendAll (memory : Memory) (pulls : List (Pull α)) (list : LinkedList α) :
    linesIn (list.appendAll memory pulls).trace
        = linesIn (list.appendEach memory (deliver pulls).items).trace
      ∧ (list.appendAll memory pulls).state.1
        = (list.appendEach memory (deliver pulls).items).state := by
  induction pulls generalizing list with
  | nil => exact ⟨rfl, rfl⟩
  | cons pull pulls ih =>
      cases hhanded : pull.handed with
      | error panic =>
          rw [appendAll_of_error hhanded, deliver_of_error hhanded, linesIn_asks]
          exact ⟨rfl, rfl⟩
      | ok x =>
          rw [deliver_of_ok hhanded, appendEach, appendAll, pull.yield_eq, hhanded]
          generalize hcall : list.append memory .tail x = call
          obtain ⟨⟨result, trace⟩, list'⟩ := call
          cases result with
          | error panic => simp [hcall]
          | ok _ => simp [hcall, Outcome.after, ih list']

/-- Appending to a list that has elements is silent, and its head stays. -/
theorem Linked.appendEach_of_ne_nil (h : Linked .tail list cells free) (hcells : cells ≠ [])
    (memory : Memory) (xs : List α) :
    linesIn (list.appendEach memory xs).trace = []
      ∧ (list.appendEach memory xs).state.head = list.head := by
  induction xs generalizing list cells free with
  | nil => exact ⟨rfl, rfl⟩
  | cons x xs ih =>
      rw [appendEach]
      rcases h.append_cases memory x with
        ⟨refusal, -, -, happend⟩ | ⟨slot, list', free', happend, hlinked, -⟩
      · rw [happend, rejecting_eq]
        exact ⟨rfl, rfl⟩
      · obtain ⟨cell, rest, rfl⟩ := List.exists_cons_of_ne_nil hcells
        obtain ⟨hlines, hhead⟩ := ih hlinked (List.cons_ne_nil _ _)
        have hsame : list'.head = list.head := by
          have hfar : list'.head = lastSlot ((slot, x) :: cell :: rest) := hlinked.far
          rw [hfar, lastSlot_cons_cons]
          exact h.far.symm
        rw [happend]
        exact ⟨hlines, hhead.trans hsame⟩

/-- Of elements appended one after the other the first is worth a line, if
the list had none. -/
theorem Linked.linesIn_appendEach (h : Linked .tail list cells free) (memory : Memory)
    (xs : List α) :
    linesIn (list.appendEach memory xs).trace
      = if cells = [] then (list.appendEach memory xs).state.head.toList.map .insertedFirst
        else [] := by
  by_cases hcells : cells = []
  · subst hcells
    have hhead : list.head = none := h.far
    rw [if_pos rfl]
    cases xs with
    | nil =>
        show [] = list.head.toList.map _
        rw [hhead]
        rfl
    | cons x xs =>
        rw [appendEach]
        rcases h.append_cases memory x with
          ⟨refusal, -, -, happend⟩ | ⟨slot, list', free', happend, hlinked, -⟩
        · rw [happend, rejecting_eq]
          show [] = list.head.toList.map _
          rw [hhead]
          rfl
        · obtain ⟨hlines, hsame⟩ := hlinked.appendEach_of_ne_nil (List.cons_ne_nil _ _) memory xs
          have hslot : list'.head = some slot := hlinked.far
          rw [happend]
          show linesIn (insertionLines slot [] ++ (list'.appendEach memory xs).trace)
            = (list'.appendEach memory xs).state.head.toList.map .insertedFirst
          rw [linesIn_append, hlines, hsame, hslot]
          rfl
  · rw [if_neg hcells]
    exact (h.appendEach_of_ne_nil hcells memory xs).1

theorem Detached.linesIn_appendEach (h : list.Detached) (memory : Memory) (xs : List α) :
    linesIn (list.appendEach memory xs).trace
      = if xs = [] then [] else [.refusedFirst list.len] := by
  cases xs with
  | nil => rfl
  | cons x xs =>
      rw [appendEach, h.append, rejecting_eq, if_neg (List.cons_ne_nil x xs)]
      rfl

/-- What an extension logs: what its appends log, which is a line at most. -/
structure Relayed (memory : Memory) (source : Source α) (list : LinkedList α) : Prop where
  refused : ∀ panic, list.reserve source.hint = .error panic →
    linesIn (list.extend memory source).trace = []
  appends : ∀ reserved, list.reserve source.hint = .ok reserved →
    linesIn (list.extend memory source).trace
      = linesIn (reserved.appendEach memory (deliver source.pulls).items).trace
  at_most_one : (linesIn (list.extend memory source).trace).length ≤ 1

theorem extend_of_error {panic : Panic} {source : Source α}
    (h : list.reserve source.hint = .error panic) :
    list.extend memory source = ⟨⟨.error panic, Source.leftovers source.pulls⟩, list⟩ := by
  rw [extend, h]
  rfl

theorem linesIn_extend_of_ok (memory : Memory) {reserved : LinkedList α} {source : Source α}
    (h : list.reserve source.hint = .ok reserved) :
    linesIn (list.extend memory source).trace
        = linesIn (reserved.appendEach memory (deliver source.pulls).items).trace
      ∧ (list.extend memory source).state
        = (reserved.appendEach memory (deliver source.pulls).items).state := by
  obtain ⟨hlines, hstate⟩ := linesIn_appendAll memory source.pulls reserved
  rw [← hlines, ← hstate, extend_of_reserve source h rfl]
  generalize reserved.appendAll memory source.pulls = call
  obtain ⟨⟨result, trace⟩, state⟩ := call
  cases result with
  | error panic =>
      refine ⟨?_, rfl⟩
      rw [Outcome.onPanic_error, Outcome.within_mk, linesIn_append, linesIn_leftovers,
        List.append_nil]
  | ok _ => exact ⟨rfl, rfl⟩

/-- Making a list of a source logs what extending an empty list by it does. -/
theorem linesIn_ofSource (memory : Memory) (source : Source α) :
    linesIn (ofSource memory source).trace
      = linesIn ((empty : LinkedList α).extend memory source).trace := by
  unfold ofSource
  generalize (empty : LinkedList α).extend memory source = call
  obtain ⟨⟨result, trace⟩, state⟩ := call
  cases result with
  | error panic =>
      show linesIn (trace ++ departures state.stored) = linesIn trace
      rw [linesIn_append, linesIn_departures, List.append_nil]
  | ok _ =>
      show linesIn (trace ++ []) = linesIn trace
      rw [List.append_nil]

/-! ## Healthy lists and detached ones -/

/-- What a healthy list logs that has the elements `xs` in `slots`. -/
structure HealthyLog (list : LinkedList α) (slots : List Slot) (xs : List α) : Prop where
  append : ∀ memory e x, Opened slots x ((list.append memory e x).result = .ok ())
    (list.append memory e x).state (linesIn (list.append memory e x).trace)
  tryAppend : ∀ memory e x, Opened slots x ((list.tryAppend memory e x).result = .ok (.ok ()))
    (list.tryAppend memory e x).state (linesIn (list.tryAppend memory e x).trace)
  delete : ∀ e value, Struck e value slots xs (list.delete e value).result
    (linesIn (list.delete e value).trace)
  clear : Emptied xs list.len list.clear.result (linesIn list.clear.trace)
  destroy : Emptied xs list.len list.destroy.result (linesIn list.destroy.trace)
  /-- The head of a list that was empty is its first element, if it got any. -/
  extend : ∀ memory source, linesIn (list.extend memory source).trace
    = if slots = [] then (list.extend memory source).state.head.toList.map .insertedFirst else []

/-- What a detached list logs. -/
structure DetachedLog (list : LinkedList α) : Prop where
  append : ∀ memory e x, linesIn (list.append memory e x).trace = [.refusedFirst list.len]
  tryAppend : ∀ memory e x, linesIn (list.tryAppend memory e x).trace = [.refusedFirst list.len]
  delete : ∀ e value, linesIn (list.delete e value).trace = []
  clear : list.clear.result = .error .nodesLeft ∧ linesIn list.clear.trace = []
  destroy : list.destroy.result = .error .nodesLeft ∧ linesIn list.destroy.trace = []
  /-- The first element that is handed over is refused, if it comes to that. -/
  extend : ∀ memory source, linesIn (list.extend memory source).trace
    = if Exceeds source.hint list ∨ (deliver source.pulls).items = [] then []
      else [.refusedFirst list.len]

/-- What every list logs. -/
structure PlainLog (list : LinkedList α) : Prop where
  extend : ∀ memory source, Relayed memory source list
  inspect : ∀ operation : Operation α, operation.Inspects →
    linesIn (list.perform operation).trace = []
  discard : linesIn list.discard.trace = []
  clone : linesIn list.clone.trace = []

theorem Linked.healthyLog (h : Linked .head list cells free) :
    HealthyLog list cells.slots cells.elements := by
  refine ⟨?_, ?_, ?_, h.clear_emptied.1, h.clear_emptied.2, ?_⟩
  · intro memory e x
    obtain ⟨listed, hlisted, hslots, -⟩ := h.from_end e
    exact hslots ▸ hlisted.append_opened memory x
  · intro memory e x
    obtain ⟨listed, hlisted, hslots, -⟩ := h.from_end e
    exact hslots ▸ hlisted.tryAppend_opened memory x
  · intro e value
    obtain ⟨listed, hlisted, hslots, helements⟩ := h.from_end e
    have hstruck := hlisted.delete_struck value
    rwa [hslots, helements, End.listed_listed] at hstruck
  · intro memory source
    have hempty : cells.slots = [] ↔ cells.reverse = [] := by
      rw [slots, List.map_eq_nil_iff, List.reverse_eq_nil_iff]
    rcases h.flip.reserve_cases source.hint with
      ⟨capacity, hreserve, hlinked, -, -⟩ | ⟨hreserve, -⟩
    · obtain ⟨hlines, hstate⟩ := linesIn_extend_of_ok memory hreserve
      rw [hlines, hstate, hlinked.linesIn_appendEach]
      simp only [hempty]
    · rw [extend_of_error hreserve, linesIn_leftovers]
      split
      · have hhead : list.head = none := by
          have hnear : list.head = firstSlot cells := h.near
          rw [hnear, ← lastSlot_reverse, hempty.mp ‹_›]
          rfl
        rw [hhead]
        rfl
      · rfl

theorem Detached.detachedLog (h : list.Detached) (hvalid : list.nodes.Valid free) :
    DetachedLog list := by
  refine ⟨?_, ?_, ?_, ?_, ?_, ?_⟩
  · intro memory e x
    rw [h.append, rejecting_eq]
    rfl
  · intro memory e x
    rw [h.tryAppend]
    rfl
  · intro e value
    rw [h.delete]
    rfl
  · rw [h.clear]
    exact ⟨rfl, rfl⟩
  · rw [h.destroy_eq]
    exact ⟨rfl, linesIn_departures _⟩
  · intro memory source
    rcases reserve_grown hvalid source.hint with
      ⟨hfits, list', hreserve, hgrown, -⟩ | ⟨hexceeds, hreserve⟩
    · have hlen : list'.len = list.len := by
        obtain ⟨capacity, -, rfl⟩ := hgrown
        rfl
      rw [(linesIn_extend_of_ok memory hreserve).1, (hgrown.detached h).linesIn_appendEach, hlen]
      simp only [hfits, false_or]
    · rw [extend_of_error hreserve, linesIn_leftovers, if_pos (.inl hexceeds)]

theorem Holds.relayed {content : Content α} (h : list.Holds content) (memory : Memory)
    (source : Source α) : Relayed memory source list := by
  refine ⟨?_, fun _ hreserve => (linesIn_extend_of_ok memory hreserve).1, ?_⟩
  · intro panic hreserve
    rw [extend_of_error hreserve]
    exact linesIn_leftovers _
  · cases content with
    | linked xs =>
        obtain ⟨cells, free, hlinked, -⟩ := h
        rw [hlinked.healthyLog.extend]
        cases (list.extend memory source).state.head <;> split <;> simp
    | detached xs =>
        obtain ⟨hdetached, ⟨free, hvalid⟩, -⟩ := h
        rw [(hdetached.detachedLog hvalid).extend]
        split <;> simp

theorem Holds.plainLog {content : Content α} (h : list.Holds content) : PlainLog list := by
  refine ⟨h.relayed, ?_, list.linesIn_discard, list.linesIn_clone⟩
  intro operation hinspects
  cases operation with
  | len => rfl
  | isEmpty => rfl
  | outermost e =>
      rw [perform]
      cases list.outermost? e <;> rfl
  | contents e =>
      rw [perform]
      cases list.contents e <;> rfl
  | find e value => exact (h.find e value).comparing.linesIn
  | iterate script => exact (h.iterate script).comparing.linesIn
  | reserve additional =>
      rw [perform]
      cases list.reserve additional <;> rfl
  | append | tryAppend | delete | clear | extend => exact hinspects.elim

end LinkedList

end LinkedPool
