import Mathlib.Data.List.Perm.Basic
import LinkedPool.Proofs.Element.Search
import LinkedPool.Proofs.Pool.Clone

/-!
# What becomes of elements

The trace of a call tells which elements it dropped and which copies it
made. The elements are `Accounted` for if those held after the call, with
those dropped in it, are those held before it, with those given to it and
the copies made in it: none gets lost on the way, and none is dropped while
it is still held or more than once.
-/

namespace LinkedPool.Element

variable {α : Type} {xs : List α} {trace : List (Event α)}

/-- The elements that were dropped in a call, in order. -/
def dropsIn (trace : List (Event α)) : List α :=
  trace.filterMap fun
    | .dropped x => some x
    | _ => none

@[simp] theorem dropsIn_append (first second : List (Event α)) :
    dropsIn (first ++ second) = dropsIn first ++ dropsIn second :=
  List.filterMap_append

@[simp] theorem dropsIn_departures (xs : List α) : dropsIn (departures xs) = xs := by
  simp [dropsIn, departures, List.filterMap_map]

@[simp] theorem dropsIn_dropped (x : α) : dropsIn [Event.dropped x] = [x] := rfl

@[simp] theorem dropsIn_copying (xs : List α) : dropsIn (copying xs) = [] := by
  simp [dropsIn, copying]

@[simp] theorem dropsIn_lines (lines : List LogLine) :
    dropsIn (lines.map .logged : List (Event α)) = [] := by
  simp [dropsIn]

theorem Comparing.dropsIn (h : Comparing trace) : dropsIn trace = [] := by
  rw [Element.dropsIn, List.filterMap_eq_nil_iff]
  intro event hevent
  obtain ⟨left, right, rfl⟩ := h event hevent
  rfl

theorem comparing_asked (value : α) (xs : List α) : Comparing (asked value xs) := by
  intro event hevent
  obtain ⟨x, -, rfl⟩ := List.mem_map.mp hevent
  exact ⟨x, value, rfl⟩

variable [Element α]

@[simp] theorem copiesIn_departures (xs : List α) : copiesIn (departures xs) = [] := by
  simp [copiesIn, departures]

@[simp] theorem copiesIn_dropped (x : α) : copiesIn [Event.dropped x] = [] := rfl

@[simp] theorem copiesIn_lines (lines : List LogLine) :
    copiesIn (lines.map .logged : List (Event α)) = [] := by
  simp [copiesIn]

theorem Comparing.copiesIn (h : Comparing trace) : copiesIn trace = [] := by
  rw [Element.copiesIn, List.filterMap_eq_nil_iff]
  intro event hevent
  obtain ⟨left, right, rfl⟩ := h event hevent
  rfl

/-- The elements held after a call and dropped in it are those held before,
given to it and made in it. -/
def Accounted (before given after : List α) (trace : List (Event α)) : Prop :=
  (after ++ dropsIn trace).Perm (before ++ given ++ copiesIn trace)

variable {before before' given given' after after' : List α} {trace' : List (Event α)}

theorem accounted_iff [DecidableEq α] :
    Accounted before given after trace ↔ ∀ x, after.count x + (dropsIn trace).count x
      = before.count x + given.count x + (copiesIn trace).count x := by
  simp only [Accounted, List.perm_iff_count, List.count_append]

theorem Accounted.trans (h : Accounted before given after trace)
    (h' : Accounted after given' after' trace') :
    Accounted before (given ++ given') after' (trace ++ trace') := by
  classical
  rw [accounted_iff] at h h' ⊢
  intro x
  have hfirst := h x
  have hsecond := h' x
  simp only [dropsIn_append, copiesIn_append, List.count_append]
  omega

/-- What a call holds may be told in any order. -/
theorem Accounted.congr (h : Accounted before given after trace) (hbefore : before.Perm before')
    (hafter : after.Perm after') : Accounted before' given after' trace :=
  ((hafter.symm.append_right _).trans h).trans
    ((hbefore.append_right _).append_right _)

/-- What a call makes takes the place of what is then dropped. -/
theorem Accounted.replace (h : Accounted [] given after trace)
    (h' : Accounted before [] [] trace') :
    Accounted before given after (trace ++ trace') := by
  classical
  rw [accounted_iff] at h h' ⊢
  intro x
  have hmade := h x
  have hdropped := h' x
  simp only [dropsIn_append, copiesIn_append, List.count_append, List.count_nil] at *
  omega

/-- What a call does to a part, it does to the whole. -/
theorem Accounted.exchange {total total' : List α} (h : Accounted before given after trace)
    (hperm : (before ++ total').Perm (after ++ total)) : Accounted total given total' trace := by
  classical
  rw [accounted_iff] at h ⊢
  intro x
  have hpart := h x
  have hcount := hperm.count_eq x
  simp only [List.count_append] at hcount
  omega

/-- A call that only asks keeps what it holds. -/
theorem Comparing.accounted (h : Comparing trace) (held : List α) :
    Accounted held [] held trace := by
  rw [Accounted, h.dropsIn, h.copiesIn, List.append_nil, List.append_nil]

end LinkedPool.Element
