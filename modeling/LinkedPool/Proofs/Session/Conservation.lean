import LinkedPool.Element.Tracked
import LinkedPool.Proofs.Session.Sound

/-!
# Every element is dropped exactly once

A session keeps an account of its elements: those given to its steps and
the copies made in them are in the lists or were dropped (`run_accounted`).
When the lists are dropped at the end, nothing is left to drop. With
elements that can be told from each other, each of them is at every moment
either in one slot of one list or dropped once, and never both.

What a source owns is given with it. It drops what it was not asked for
itself, so that these elements are accounted for as well.
-/

namespace LinkedPool.Session.Lists

open Element LinkedList

variable {α : Type} [Element α]

/-- All that was given to the steps for good. -/
def givenIn (steps : List (Step α)) : List α := steps.flatMap Step.given

def traceOf (lists : Store (LinkedList α)) (steps : List (Step α)) : List (Event α) :=
  (run lists steps).flatMap fun outcome => outcome.trace

/-- All elements that there were in a session: those given to its steps, and
the copies that were made in them. -/
def madeIn (steps : List (Step α)) : List α :=
  givenIn steps ++ copiesIn (traceOf .empty steps)

def closing (lists : Store (LinkedList α)) : List (Event α) :=
  (close lists).flatMap fun call => call.trace

theorem run_accounted {lists : Store (LinkedList α)} (h : Sound lists) (steps : List (Step α)) :
    Accounted (storedIn lists) (givenIn steps) (storedIn (final lists steps))
      (traceOf lists steps) := by
  induction steps generalizing lists with
  | nil => exact comparing_nil.accounted _
  | cons step steps ih =>
      have hstep := h.perform_advances step
      exact hstep.accounted.trans (ih hstep.sound)

theorem dropsIn_closing (lists : Store (LinkedList α)) :
    dropsIn (closing lists) = storedIn lists := by
  rw [closing, close, storedIn, Store.values]
  induction lists.entries with
  | nil => rfl
  | cons entry entries ih =>
      have hdrops : dropsIn entry.2.discard.trace = entry.2.stored :=
        dropsIn_departures entry.2.stored
      rw [List.map_cons, List.flatMap_cons, dropsIn_append, ih, hdrops]
      rfl

omit [Element α] in
/-- Places for elements, none of which is used twice. -/
theorem once_of_nodup {made stored dropped : List α} (hperm : (stored ++ dropped).Perm made)
    (hdistinct : made.Nodup) {x : α} (hx : x ∈ made) :
    (x ∈ stored ∧ x ∉ dropped) ∨ (x ∈ dropped ∧ x ∉ stored) := by
  have hnodup := List.nodup_append.mp (hperm.nodup_iff.mpr hdistinct)
  rcases List.mem_append.mp (hperm.mem_iff.mpr hx) with hstored | hdropped
  · exact .inl ⟨hstored, fun hdropped => hnodup.2.2 x hstored x hdropped rfl⟩
  · exact .inr ⟨hdropped, fun hstored => hnodup.2.2 x hstored x hdropped rfl⟩

/-- At every moment of a session, what is in its lists and what was dropped
are together what was given and copied, and when the lists are dropped as
well, all of that was dropped. Nothing else ever is, such as a value that
was only looked for. Of distinct elements, each is in one slot of one list
or was dropped once, and once only when all is over. -/
theorem dropped_once (history : List (Step α)) :
    (storedIn (final .empty history) ++ dropsIn (traceOf .empty history)).Perm (madeIn history)
      ∧ (dropsIn (traceOf .empty history ++ closing (final .empty history))).Perm
        (madeIn history)
      ∧ (∀ x, x ∉ madeIn history →
        x ∉ dropsIn (traceOf .empty history ++ closing (final .empty history)))
      ∧ ((madeIn history).Nodup →
        (storedIn (final .empty history)).Nodup
          ∧ (dropsIn (traceOf .empty history ++ closing (final .empty history))).Nodup
          ∧ ∀ x ∈ madeIn history,
            (x ∈ storedIn (final .empty history) ∧ x ∉ dropsIn (traceOf .empty history))
              ∨ (x ∈ dropsIn (traceOf .empty history) ∧ x ∉ storedIn (final .empty history))) := by
  have hperm : (storedIn (final .empty history) ++ dropsIn (traceOf .empty history)).Perm
      (madeIn history) := run_accounted sound_empty history
  have hclosed : (dropsIn (traceOf .empty history ++ closing (final .empty history))).Perm
      (madeIn history) := by
    rw [dropsIn_append, dropsIn_closing]
    exact List.perm_append_comm.trans hperm
  refine ⟨hperm, hclosed, fun x hx hdropped => hx (hclosed.mem_iff.mp hdropped), ?_⟩
  intro hdistinct
  have hnodup := List.nodup_append.mp (hperm.nodup_iff.mpr hdistinct)
  exact ⟨hnodup.1, hclosed.nodup_iff.mpr hdistinct, fun x hx => once_of_nodup hperm hdistinct hx⟩

/-- A copy that panics half-way, a source that does, an element that is
deleted and one that is refused. -/
def eventful : List (Step Tracked) :=
  [.operate "a" (.append .ample .tail ⟨1, "x", none⟩),
    .operate "a" (.append .ample .tail ⟨2, "y", some .copying⟩),
    .create "b" (.cloneOf "a"),
    .operate "b" (.extend .ample (.failingAt 1 0 [⟨1, "z", none⟩, ⟨2, "w", none⟩])),
    .operate "a" (.delete .tail ⟨1, "v", none⟩),
    .operate "c" (.append .exhausted .head ⟨4, "u", none⟩)]

theorem eventful_dropped_once :
    (dropsIn (traceOf .empty eventful ++ closing (final .empty eventful))).Perm (madeIn eventful)
      ∧ (⟨1, "v", none⟩ : Tracked)
        ∉ dropsIn (traceOf .empty eventful ++ closing (final .empty eventful))
      ∧ (madeIn eventful).Nodup
      ∧ ∀ x ∈ madeIn eventful,
        (x ∈ storedIn (final .empty eventful) ∧ x ∉ dropsIn (traceOf .empty eventful))
          ∨ (x ∈ dropsIn (traceOf .empty eventful) ∧ x ∉ storedIn (final .empty eventful)) := by
  obtain ⟨-, hclosed, hnothing, honce⟩ := dropped_once eventful
  have hdistinct : (madeIn eventful).Nodup := by decide
  exact ⟨hclosed, hnothing _ (by decide), hdistinct, (honce hdistinct).2.2⟩

end LinkedPool.Session.Lists
