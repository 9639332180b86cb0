import LinkedPool.Element.Tracked
import LinkedPool.Proofs.LinkedList.Inert
import LinkedPool.Proofs.Session.Sound

/-!
# Detached lists in sessions

A step of a session changes the list under one name, and this one only if the
list is not detached: of a detached list, what a step asks is futile. So the
list is there after every session that does not drop it, with its elements in
their slots (`detached_inert`), whatever panics on the way.
-/

namespace LinkedPool.Session.Lists

open Element LinkedList

variable {α : Type} {lists lists' : Store (LinkedList α)} {name : String} {list : LinkedList α}
  {free : List Slot}

/-- The step neither drops nor destroys the list under a name, nor puts another in its place. -/
def Step.Spares (name : String) : Step α → Prop
  | .create target _ => target ≠ name
  | .destroy target => target ≠ name
  | .discard target => target ≠ name
  | _ => True

/-- The list is under its name, with more memory perhaps. -/
def Preserved (name : String) (list : LinkedList α) (free : List Slot)
    (lists : Store (LinkedList α)) : Prop :=
  ∃ list', lists.find? name = some list' ∧ Grown list list' ∧ list'.nodes.Valid free

namespace Preserved

theorem of_find? (h : Preserved name list free lists)
    (hsame : ∀ list', lists.find? name = some list' → lists'.find? name = some list') :
    Preserved name list free lists' := by
  obtain ⟨list', hfind, hlist'⟩ := h
  exact ⟨list', hsame list' hfind, hlist'⟩

theorem put_of_ne (h : Preserved name list free lists) {target : String} (hne : target ≠ name)
    (new : LinkedList α) : Preserved name list free (lists.put target new) :=
  h.of_find? fun _ hfind => (Store.find?_put_of_ne hne new lists).trans hfind

theorem erase_of_ne (h : Preserved name list free lists) {target : String}
    (hne : target ≠ name) : Preserved name list free (lists.erase target) :=
  h.of_find? fun _ hfind => (Store.find?_erase_of_ne hne lists).trans hfind

theorem ensure (h : Preserved name list free lists) (target : String) :
    Preserved name list free (lists.ensure target .empty) :=
  h.of_find? fun _ hfind => Store.find?_ensure_of_some hfind target .empty

theorem prepare (h : Preserved name list free lists) (origin : Origin α) :
    Preserved name list free (origin.prepare lists) := by
  cases origin with
  | cloneOf other => exact h.ensure other
  | empty => exact h
  | withCapacity n => exact h
  | ofSource memory source => exact h

variable [Element α]

/-- An operation on the list itself is futile; one on another list is none of its business. -/
theorem operate (h : Preserved name list free lists) (hdetached : list.Detached)
    (target : String) (operation : Operation α) :
    Preserved name list free (operate target operation lists).state
      ∧ (target = name → ∃ list', Grown list list'
        ∧ (Lists.operate target operation lists).toTraced = list'.futile operation) := by
  by_cases hname : target = name
  · subst hname
    obtain ⟨list', hfind, hgrown, hvalid⟩ := h
    obtain ⟨list'', hperform, hmore, hvalid'⟩ :=
      (hgrown.detached hdetached).perform hvalid operation
    have hat : listAt target lists = list' := by
      rw [listAt, hfind]
      rfl
    rw [Lists.operate, hat, hperform]
    exact ⟨⟨list'', Store.find?_put_self .., hgrown.trans hmore, hvalid'⟩,
      fun _ => ⟨list', hgrown, rfl⟩⟩
  · exact ⟨h.put_of_ne hname _, fun heq => absurd heq hname⟩

theorem perform (h : Preserved name list free lists) (hdetached : list.Detached)
    {step : Step α} (hspares : step.Spares name) :
    Preserved name list free (perform lists step).state := by
  cases step with
  | create target origin =>
      have hprepared := h.prepare origin
      rw [Lists.perform]
      generalize origin.prepare lists = prepared at hprepared ⊢
      generalize origin.build prepared = made
      obtain ⟨result, trace⟩ := made
      cases result with
      | error panic => exact hprepared
      | ok new =>
          obtain ⟨call, hreplace⟩ := replace_eq_leaving target new prepared
          rw [Traced.leaving_mk, Outcome.bind_ok, hreplace]
          exact hprepared.put_of_ne hspares new
  | destroy target => exact h.erase_of_ne hspares
  | discard target => exact h.erase_of_ne hspares
  | operate target operation => exact (h.operate hdetached target operation).1
  | extendFrom memory target other e =>
      have hensured := h.ensure other
      rw [Lists.perform]
      cases Source.copies e (listAt other (lists.ensure other .empty)) with
      | error panic => exact hensured
      | ok source => exact (hensured.operate hdetached target (.extend memory source)).1
  | equals target other => exact (h.ensure target).ensure other
  | differs target other => exact (h.ensure target).ensure other

theorem final (h : Preserved name list free lists) (hdetached : list.Detached)
    {steps : List (Step α)} (hspares : ∀ step ∈ steps, step.Spares name) :
    Preserved name list free (final lists steps)
      ∧ ∀ step ∈ steps.zip (run lists steps), ∀ operation, step.1 = .operate name operation →
        ∃ list', Grown list list' ∧ step.2.toTraced = list'.futile operation := by
  induction steps generalizing lists with
  | nil => exact ⟨h, fun _ hstep => absurd hstep List.not_mem_nil⟩
  | cons step steps ih =>
      have hnext := h.perform hdetached (hspares step (List.mem_cons_self ..))
      obtain ⟨hfinal, hrest⟩ :=
        ih hnext fun step hstep => hspares step (List.mem_cons_of_mem _ hstep)
      refine ⟨hfinal, ?_⟩
      intro answered hanswered operation hoperation
      rw [run, List.zip_cons_cons] at hanswered
      rcases List.mem_cons.mp hanswered with rfl | hlater
      · obtain rfl : step = .operate name operation := hoperation
        exact (h.operate hdetached name operation).2 rfl
      · exact hrest answered hlater operation hoperation

end Preserved

variable [Element α]

/-- A detached list is there, with its elements in their slots, after every
session that spares it; each operation on it was futile, and so are those to
come. -/
theorem detached_inert (hfind : lists.find? name = some list) (hdetached : list.Detached)
    (hvalid : list.nodes.Valid free) {steps : List (Step α)}
    (hspares : ∀ step ∈ steps, step.Spares name) :
    (∃ list', (final lists steps).find? name = some list' ∧ Grown list list'
        ∧ list'.Inert free)
      ∧ ∀ step ∈ steps.zip (run lists steps), ∀ operation, step.1 = .operate name operation →
        ∃ list', Grown list list' ∧ step.2.toTraced = list'.futile operation := by
  obtain ⟨⟨list', hfind', hgrown, hvalid'⟩, hanswers⟩ :=
    Preserved.final ⟨list, hfind, .refl list, hvalid⟩ hdetached hspares
  exact ⟨⟨list', hfind', hgrown, (hgrown.detached hdetached).inert hvalid'⟩, hanswers⟩

/-- A list is cleared of the first of three elements, whose drop panics. -/
def marooned : List (Step Tracked) :=
  [.operate "a" (.append .ample .tail ⟨1, "x", some .dropping⟩),
    .operate "a" (.append .ample .tail ⟨2, "y", none⟩),
    .operate "a" (.append .ample .tail ⟨3, "z", none⟩), .operate "a" .clear]

/-- Elements are offered to it, by a source that panics as well, room is made
in it, and it is copied, compared with its copy and cleared again. -/
def solicited : List (Step Tracked) :=
  [.operate "a" (.tryAppend .exhausted .head ⟨4, "v", some .dropping⟩),
    .operate "a" (.extend .ample ⟨9, [.copy ⟨5, "w", some .copying⟩, .give ⟨6, "u", none⟩]⟩),
    .create "b" (.cloneOf "a"), .extendFrom .ample "a" "b" .head, .equals "a" "b",
    .operate "a" (.delete .tail ⟨2, "", none⟩), .operate "a" (.iterate [.fork, .next .tail, .fork]),
    .operate "a" .clear]

theorem marooned_inert :
    (final .empty marooned).find? "a" = some (listAt "a" (final .empty marooned))
      ∧ (listAt "a" (final .empty marooned)).Detached
      ∧ (∀ step ∈ solicited, step.Spares "a")
      ∧ ∃ free list', (listAt "a" (final .empty marooned)).nodes.Valid free
        ∧ (final (final .empty marooned) solicited).find? "a" = some list'
        ∧ Grown (listAt "a" (final .empty marooned)) list' ∧ list'.Inert free := by
  have hfind : (final .empty marooned).find? "a"
      = some (listAt "a" (final .empty marooned)) := rfl
  have hdetached : (listAt "a" (final .empty marooned)).Detached :=
    ⟨by decide, by decide, by decide⟩
  have hspares : ∀ step ∈ solicited, step.Spares "a" := by
    simp [solicited, Step.Spares]
  obtain ⟨content, hholds⟩ := (sound_empty.final_sound marooned).holds_at "a"
  obtain ⟨free, hvalid⟩ := hholds.valid
  obtain ⟨⟨list', hinert⟩, -⟩ := detached_inert hfind hdetached hvalid hspares
  exact ⟨hfind, hdetached, hspares, free, list', hvalid, hinert⟩

end LinkedPool.Session.Lists
