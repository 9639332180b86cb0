import LinkedPool.Element.Tracked
import LinkedPool.Proofs.LinkedList.Log
import LinkedPool.Proofs.Session.Integrity

/-!
# What a session logs

The lines that the steps of a session log are those of what they do with one
list (`recorded`). What these are can be told from that list, whatever became
of it before (`log_tells_what_happened`): the list is healthy or detached, and
in either case each of its operations logs what `HealthyLog` or `DetachedLog`
says, and nothing else.
-/

namespace LinkedPool.Session.Lists

open Element LinkedList

variable {α : Type} [Element α] {lists : Store (LinkedList α)}

/-- The lines of a step: those of the operation that it carries out, of the
list that it makes of a source, or of the list that it destroys. -/
def recorded (lists : Store (LinkedList α)) : Step α → List LogLine
  | .create _ (.ofSource memory source) =>
      linesIn ((empty : LinkedList α).extend memory source).trace
  | .destroy name => linesIn (listAt name lists).destroy.trace
  | .operate name operation => linesIn ((listAt name lists).perform operation).trace
  | .extendFrom memory name other e =>
      match Source.copies e (listAt other lists) with
      | .ok source => linesIn ((listAt name lists).extend memory source).trace
      | .error _ => []
  | _ => []

theorem linesIn_replace (name : String) (list : LinkedList α) (lists : Store (LinkedList α)) :
    linesIn (replace name list lists).trace = [] := by
  unfold replace
  cases lists.find? name with
  | none => rfl
  | some old => exact old.linesIn_discard

theorem linesIn_create (lists : Store (LinkedList α)) (name : String) (origin : Origin α) :
    linesIn (perform lists (.create name origin)).trace
      = linesIn (origin.build (origin.prepare lists)).trace := by
  rw [perform]
  generalize origin.prepare lists = prepared
  generalize origin.build prepared = made
  obtain ⟨result, trace⟩ := made
  cases result with
  | error panic => rfl
  | ok list =>
      show linesIn (trace ++ (replace name list prepared).trace) = linesIn trace
      rw [linesIn_append, linesIn_replace, List.append_nil]

theorem Sound.linesIn_perform (h : Sound lists) (step : Step α) :
    linesIn (perform lists step).trace = recorded lists step := by
  cases step with
  | create name origin =>
      rw [linesIn_create]
      cases origin with
      | empty => rfl
      | withCapacity n => rfl
      | ofSource memory source => exact linesIn_ofSource memory source
      | cloneOf other => exact linesIn_clone _
  | destroy name => rfl
  | discard name => exact (listAt name lists).linesIn_discard
  | operate name operation => rfl
  | extendFrom memory name other e =>
      rw [perform, recorded, listAt_ensure]
      cases Source.copies e (listAt other lists) with
      | error panic => rfl
      | ok source =>
          show linesIn (operate name (.extend memory source) (lists.ensure other .empty)).trace = _
          rw [operate, listAt_ensure]
          rfl
  | equals name other => exact (h.inquiry_equals name other).comparing.linesIn
  | differs name other => exact (h.inquiry_differs name other).comparing.linesIn

/-- What a list logs, whatever its links: an operation has a line for the first
element, for one that is taken out, for a list that was emptied and for an
element that a list without ends refuses, and no step logs anything else. The
lines read as they should, and what they say is true of the list. -/
theorem log_tells_what_happened :
    (∀ list : LinkedList α, list.Reachable →
        PlainLog list
          ∧ (∀ slots, list.Healthy slots →
            ∃ xs, list.contents .head = .ok xs ∧ HealthyLog list slots xs)
          ∧ (list.Detached → DetachedLog list)
          ∧ ((∃ slots, list.Healthy slots) ∨ list.Detached))
      ∧ (∀ (history : List (Step α)) (step : Step α),
        linesIn (perform (final .empty history) step).trace
          = recorded (final .empty history) step)
      ∧ (∀ (slot len : Nat) (prev next : Option Slot),
        (LogLine.insertedFirst slot).text
            = "TRACE insert_into_empty: NodePtr(" ++ toString slot ++ ")"
          ∧ (LogLine.refusedFirst len).text
            = "DEBUG insert_into_empty: the list already has " ++ toString len ++ " element(s)"
          ∧ (LogLine.removed slot prev next).text
            = "TRACE remove_node: NodePtr(" ++ toString slot ++ ") (prev = "
              ++ LogLine.linkText prev ++ ", next = " ++ LogLine.linkText next ++ ")"
          ∧ (LogLine.cleared len).text
            = "TRACE clear: released " ++ toString len ++ " node(s)"
          ∧ LogLine.linkText none = "None"
          ∧ LogLine.linkText (some slot) = "Some(NodePtr(" ++ toString slot ++ "))") := by
  refine ⟨?_, fun history => (sound_empty.final_sound history).linesIn_perform, ?_⟩
  · intro list hreachable
    obtain ⟨content, hholds⟩ := hreachable.holds
    refine ⟨hholds.plainLog, ?_, ?_, hholds.intact.links⟩
    · intro slots hhealthy
      obtain ⟨free, hvalid⟩ := hholds.valid
      obtain ⟨cells, hlinked, rfl⟩ := hhealthy.linked hvalid
      exact ⟨cells.elements, hlinked.holds.contents .head, hlinked.healthyLog⟩
    · intro hdetached
      obtain ⟨free, hvalid⟩ := hholds.valid
      exact hdetached.detachedLog hvalid
  · intro slot len prev next
    exact ⟨LogLine.text_insertedFirst slot, LogLine.text_refusedFirst len,
      LogLine.text_removed slot prev next, LogLine.text_cleared len, LogLine.linkText_none,
      LogLine.linkText_some slot⟩

/-- Three elements out of the order of their slots, the middle one of which
panics when it is dropped; and a list that lost an element in a clear. -/
def talkative : List (Step Tracked) :=
  [.operate "a" (.append .ample .tail ⟨1, "x", some .dropping⟩),
    .operate "a" (.append .ample .tail ⟨2, "y", none⟩),
    .operate "a" (.append .ample .head ⟨3, "z", none⟩),
    .operate "b" (.append .ample .tail ⟨4, "v", some .dropping⟩),
    .operate "b" (.append .ample .tail ⟨5, "w", none⟩), .operate "b" .clear]

theorem talkative_log_tells_what_happened :
    (listAt "a" (final .empty talkative)).Reachable
      ∧ (∃ slots, (listAt "a" (final .empty talkative)).Healthy slots
        ∧ HealthyLog (listAt "a" (final .empty talkative)) slots
          [⟨3, "z", none⟩, ⟨1, "x", some .dropping⟩, ⟨2, "y", none⟩])
      ∧ ((listAt "a" (final .empty talkative)).delete .tail ⟨1, "", none⟩).result
        = .error (.element "drop bomb 1:x")
      ∧ linesIn ((listAt "a" (final .empty talkative)).delete .tail ⟨1, "", none⟩).trace
        = [.removed 0 (some 2) (some 1)]
      ∧ linesIn (listAt "a" (final .empty talkative)).clear.trace = []
      ∧ (listAt "b" (final .empty talkative)).Detached
      ∧ DetachedLog (listAt "b" (final .empty talkative))
      ∧ linesIn (perform (final .empty talkative)
          (.extendFrom .ample "b" "a" .tail)).trace = [.refusedFirst 1]
      ∧ ∀ step, linesIn (perform (final .empty talkative) step).trace
        = recorded (final .empty talkative) step := by
  obtain ⟨hlists, hsteps, -⟩ := log_tells_what_happened (α := Tracked)
  have ha : (listAt "a" (final .empty talkative)).Reachable := ⟨talkative, "a", rfl⟩
  have hb : (listAt "b" (final .empty talkative)).Reachable := ⟨talkative, "b", rfl⟩
  obtain ⟨-, hhealthyLog, -, hlinks⟩ := hlists _ ha
  obtain ⟨slots, hhealthy⟩ := hlinks.resolve_right fun h => by cases h.head
  obtain ⟨xs, hxs, hlog⟩ := hhealthyLog slots hhealthy
  obtain rfl := Except.ok.inj hxs
  obtain ⟨-, -, hdetachedLog, -⟩ := hlists _ hb
  have hdetached : (listAt "b" (final .empty talkative)).Detached :=
    ⟨by decide, by decide, by decide⟩
  exact ⟨ha, ⟨slots, hhealthy, hlog⟩, rfl, rfl, rfl, hdetached, hdetachedLog hdetached, rfl,
    hsteps talkative⟩

end LinkedPool.Session.Lists
