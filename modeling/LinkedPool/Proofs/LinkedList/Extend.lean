import LinkedPool.LinkedList.Extend
import LinkedPool.Proofs.LinkedList.Effects

/-!
# Extending a list by a source

Taking elements from a source goes well for some of its pulls, which hand
their elements over to the tail of the list (`Handed`), and then either
none is left or the next pull stops it (`Interrupted`): it panics itself,
or its element is refused. So an extension ends in one of three ways
(`extend_cases`), the third of which is that room is refused beforehand.
-/

namespace LinkedPool

open Element

namespace Pull

variable {α : Type} [Element α]

/-- The element that is handed over, or the panic instead of it. -/
def handed : Pull α → Except Panic α
  | .give x => .ok x
  | .copy model => clone model
  | .fail => .error .source

omit [Element α] in
def asks : Pull α → List (Event α)
  | .copy model => [.cloned model]
  | _ => []

theorem yield_eq (pull : Pull α) : pull.yield = ⟨pull.handed, pull.asks⟩ := by
  cases pull <;> rfl

end Pull

namespace LinkedList

variable {α : Type} {list : LinkedList α} {content : Content α} [Element α]

inductive Handed : (pulls : List (Pull α)) → (xs : List α) → (trace : List (Event α)) → Prop
  | nil : Handed [] [] []
  | cons {pull : Pull α} {pulls : List (Pull α)} {x : α} {xs : List α} {trace : List (Event α)}
      (lines : List LogLine) (handed : pull.handed = .ok x) (rest : Handed pulls xs trace) :
      Handed (pull :: pulls) (x :: xs) (pull.asks ++ lines.map .logged ++ trace)

/-- How a pull stops the extension of a list. -/
inductive Interrupted (memory : Memory) (list : LinkedList α) :
    (pull : Pull α) → (panic : Panic) → (events : List (Event α)) → Prop
  | broken {pull : Pull α} {panic : Panic} (handed : pull.handed = .error panic) :
      Interrupted memory list pull panic pull.asks
  | refused {pull : Pull α} {x : α} {error : InsertError} (lines : List LogLine)
      (handed : pull.handed = .ok x) (refuses : Refuses memory list error) :
      Interrupted memory list pull ((dropPanic x).getD (.insertion error))
        (pull.asks ++ lines.map .logged ++ [.dropped x])

/-- How it ends to take elements from the pulls. A list that is stopped is
what the pulls before the one that stops it make of it. -/
inductive Appending (memory : Memory) (content : Content α) (list : LinkedList α)
    (pulls : List (Pull α)) : Outcome α (LinkedList α × List (Pull α)) Unit → Prop
  | done (xs : List α) (trace : List (Event α)) (list' : LinkedList α)
      (handed : Handed pulls xs trace) (holds : list'.Holds (content.append xs)) :
      Appending memory content list pulls ⟨⟨.ok (), trace⟩, (list', [])⟩
  | stopped (taken : List (Pull α)) (pull : Pull α) (rest : List (Pull α)) (xs : List α)
      (trace events : List (Event α)) (list' : LinkedList α) (panic : Panic)
      (split : pulls = taken ++ pull :: rest) (handed : Handed taken xs trace)
      (holds : list'.Holds (content.append xs)) (none_taken : content.IsDetached → xs = [])
      (interrupted : Interrupted memory list' pull panic events)
      (taking : list.appendAll memory taken = ⟨⟨.ok (), trace⟩, (list', [])⟩) :
      Appending memory content list pulls ⟨⟨.error panic, trace ++ events⟩, (list', rest)⟩

inductive Extending (memory : Memory) (content : Content α) (source : Source α)
    (list : LinkedList α) : Outcome α (LinkedList α) Unit → Prop
  | exceeding (exceeds : Exceeds source.hint list) (holds : list.Holds content) :
      Extending memory content source list
        ⟨⟨.error .capacityOverflow, Source.leftovers source.pulls⟩, list⟩
  | done (xs : List α) (trace : List (Event α)) (list' : LinkedList α)
      (handed : Handed source.pulls xs trace) (holds : list'.Holds (content.append xs)) :
      Extending memory content source list ⟨⟨.ok (), trace⟩, list'⟩
  | stopped (taken : List (Pull α)) (pull : Pull α) (rest : List (Pull α)) (xs : List α)
      (trace events : List (Event α)) (list' : LinkedList α) (panic : Panic)
      (split : source.pulls = taken ++ pull :: rest) (handed : Handed taken xs trace)
      (holds : list'.Holds (content.append xs)) (none_taken : content.IsDetached → xs = [])
      (interrupted : Interrupted memory list' pull panic events)
      (taking : list.extend memory ⟨source.hint, taken⟩ = ⟨⟨.ok (), trace⟩, list'⟩) :
      Extending memory content source list
        ⟨⟨.error panic, trace ++ events ++ Source.leftovers rest⟩, list'⟩

theorem rejecting_eq (error : InsertError) (x : α) (list : LinkedList α) :
    rejecting error x list
      = ⟨⟨.error ((dropPanic x).getD (.insertion error)), [.dropped x]⟩, list⟩ := by
  unfold rejecting
  cases hdrop : dropPanic x with
  | none =>
      rw [discard_of_none hdrop]
      rfl
  | some panic =>
      rw [discard_of_some hdrop]
      rfl

theorem appendAll_cons {memory : Memory} {pull : Pull α} {x : α} {lines : List LogLine}
    {list' : LinkedList α} (handed : pull.handed = .ok x)
    (happend : list.append memory .tail x = ⟨⟨.ok (), lines.map .logged⟩, list'⟩)
    (pulls : List (Pull α)) :
    list.appendAll memory (pull :: pulls)
      = (list'.appendAll memory pulls).after (pull.asks ++ lines.map .logged) := by
  rw [appendAll, pull.yield_eq, handed, Traced.leaving_mk, Outcome.bind_ok, happend]
  rfl

/-- One more element taken by a linked list, and then the rest. -/
theorem Appending.cons {memory : Memory} {pull : Pull α} {pulls : List (Pull α)} {x : α}
    {old : List α} {list' : LinkedList α} {lines : List LogLine}
    (handed : pull.handed = .ok x)
    (happend : list.append memory .tail x = ⟨⟨.ok (), lines.map .logged⟩, list'⟩)
    (h : Appending memory (.linked (old ++ [x])) list' pulls (list'.appendAll memory pulls)) :
    Appending memory (.linked old) list (pull :: pulls)
      (list.appendAll memory (pull :: pulls)) := by
  have hcontent (xs : List α) :
      (Content.linked (old ++ [x])).append xs = (Content.linked old).append (x :: xs) := by
    simp [Content.append]
  rw [appendAll_cons handed happend]
  generalize list'.appendAll memory pulls = call at h ⊢
  cases h with
  | done xs trace list' hxs holds =>
      rw [hcontent] at holds
      exact .done (x :: xs) _ list' (.cons lines handed hxs) holds
  | stopped taken pull' rest xs trace events list' panic split hxs holds none_taken interrupted
      taking =>
      rw [hcontent] at holds
      rw [Outcome.after_mk, ← List.append_assoc]
      refine .stopped (pull :: taken) pull' rest (x :: xs) _ events list' panic
        (congrArg (pull :: ·) split) (.cons lines handed hxs) holds False.elim interrupted ?_
      rw [appendAll_cons handed happend, taking, Outcome.after_mk]

theorem Holds.appendAll_cases (h : list.Holds content) (memory : Memory)
    (pulls : List (Pull α)) :
    Appending memory content list pulls (list.appendAll memory pulls) := by
  induction pulls generalizing list content with
  | nil =>
      rw [← content.append_nil] at h
      exact .done [] [] list .nil h
  | cons pull pulls ih =>
      have hstop {panic : Panic} {events : List (Event α)}
          (hinterrupted : Interrupted memory list pull panic events) :
          Appending memory content list (pull :: pulls)
            ⟨⟨.error panic, events⟩, (list, pulls)⟩ :=
        .stopped [] pull pulls [] [] events list panic rfl .nil (by rwa [content.append_nil])
          (fun _ => rfl) hinterrupted rfl
      cases hhanded : pull.handed with
      | error panic =>
          rw [appendAll, pull.yield_eq, hhanded]
          exact hstop (.broken hhanded)
      | ok x =>
          rcases h.append_cases memory .tail x with
            ⟨xs, list', lines, rfl, hholds, happend⟩ | ⟨error, lines, hrefuses, happend⟩
          · have hxs : End.tail.listed (x :: End.tail.listed xs) = xs ++ [x] := by
              simp [End.listed]
            rw [hxs] at hholds
            exact .cons hhanded happend (ih hholds)
          · have hrefused := hstop (.refused lines hhanded hrefuses)
            rw [appendAll, pull.yield_eq, hhanded, Traced.leaving_mk, Outcome.bind_ok, happend,
              rejecting_eq]
            simpa using hrefused

theorem Holds.extend_cases (h : list.Holds content) (memory : Memory) (source : Source α) :
    Extending memory content source list (list.extend memory source) := by
  unfold extend
  rcases h.reserve_cases source.hint with
    ⟨capacity, hreserve, hroom⟩ | ⟨hreserve, hexceeds⟩
  · rw [hreserve]
    have happend := hroom.appendAll_cases memory source.pulls
    simp only
    generalize appendAll memory source.pulls
      { list with nodes := { list.nodes with capacity } } = call at happend ⊢
    cases happend with
    | done xs trace list' handed holds => exact .done xs trace list' handed holds
    | stopped taken pull rest xs trace events list' panic split handed holds none_taken interrupted
        taking =>
        refine .stopped taken pull rest xs trace events list' panic split handed holds none_taken
          interrupted ?_
        rw [extend, hreserve]
        simp only [taking]
        rfl
  · rw [hreserve]
    exact .exceeding hexceeds h

end LinkedList

end LinkedPool
