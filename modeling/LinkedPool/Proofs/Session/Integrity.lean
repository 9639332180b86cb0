import LinkedPool.Element.Tracked
import LinkedPool.Proofs.Session.Sound

/-!
# The lists of a session stay intact

Whatever was done in a session, and whatever panicked in it, the lists that
are left are intact: the pool of each is valid, and its links are healthy
or, if it is detached, gone. A step detaches a list in one way only, by a
clear in which the drop of an element panics that is not the last one; a
copy of a detached list is detached from the start (`Sound.detachment`).
-/

namespace LinkedPool

open Element

namespace LinkedList

variable {α : Type} {list : LinkedList α} {content : Content α}

/-- The pool is valid; the list is healthy or detached. -/
structure Intact (list : LinkedList α) : Prop where
  pool : ∃ free, list.nodes.Valid free
  links : (∃ slots, list.Healthy slots) ∨ list.Detached

theorem Holds.intact (h : list.Holds content) : list.Intact := by
  refine ⟨h.valid, ?_⟩
  cases content with
  | linked xs =>
      obtain ⟨cells, free, hlinked, -⟩ := h
      exact .inl ⟨_, hlinked.healthy⟩
  | detached xs => exact .inr h.1

theorem empty_not_detached : ¬(empty : LinkedList α).Detached :=
  fun h => Nat.lt_irrefl 0 h.left

end LinkedList

namespace Session.Lists

open LinkedList

variable {α : Type} [Element α] {lists : Store (LinkedList α)} {name name' other : String}

/-- Why a list is detached after a step that ended with `result`. -/
inductive Detachment (lists : Store (LinkedList α)) (step : Step α)
    (result : Except Panic (Reply α)) (name : String) : Prop
  /-- It was detached before. -/
  | remained (detached : (listAt name lists).Detached)
  /-- It was cleared, and an element `x` panicked that was not the last. -/
  | cleared (front : List α) (x : α) (back : List α) (panic : Panic)
      (clear : step = .operate name .clear)
      (contents : (listAt name lists).contents .head = .ok (front ++ x :: back))
      (calm : Calm front) (drop : dropPanic x = some panic) (left : back ≠ [])
      (panicked : result = .error panic)
  /-- It is a copy of a list that was detached. -/
  | copied (other : String) (clone : step = .create name (.cloneOf other))
      (detached : (listAt other lists).Detached)

theorem Sound.detached_operate (h : Sound lists) {operation : Operation α}
    (hdetached : (listAt other (operate name operation lists).state).Detached) :
    (listAt other lists).Detached
      ∨ other = name ∧ operation = .clear
        ∧ ∃ (front : List α) (x : α) (back : List α) (panic : Panic),
          (listAt name lists).contents .head = .ok (front ++ x :: back) ∧ Calm front
            ∧ dropPanic x = some panic ∧ back ≠ []
            ∧ (operate name operation lists).result = .error panic := by
  by_cases hname : name = other
  · subst hname
    obtain ⟨content, hholds⟩ := h.holds_at name
    obtain ⟨content', ⟨hholds', -⟩, hlost⟩ := hholds.perform_kept operation
    have hnew : ((listAt name lists).perform operation).state.Detached := by
      rwa [operate, Outcome.within, listAt_put_self] at hdetached
    rcases hlost (hholds'.detached_iff.mp hnew) with hbefore | ⟨rfl, hclear⟩
    · exact .inl (hholds.detached_iff.mpr hbefore)
    · obtain ⟨front, x, back, panic, rfl, hback, hcalm, hdrop, hresult⟩ := hclear
      exact .inr ⟨rfl, rfl, front, x, back, panic, hholds.contents .head, hcalm, hdrop, hback,
        hresult⟩
  · rw [operate, Outcome.within, listAt_put_of_ne hname] at hdetached
    exact .inl hdetached

theorem Sound.detached_create (h : Sound lists) {origin : Origin α}
    (hdetached : (listAt other (perform lists (.create name origin)).state).Detached) :
    (listAt other lists).Detached
      ∨ other = name ∧ ∃ model, origin = .cloneOf model ∧ (listAt model lists).Detached := by
  obtain ⟨hsound, -, hsame⟩ := h.prepare origin
  have hbuild := hsound.build origin
  rw [← hsame other]
  rw [perform] at hdetached
  generalize origin.prepare lists = prepared at hsame hbuild hdetached ⊢
  generalize origin.build prepared = call at hbuild hdetached
  cases hbuild with
  | failed panic trace accounted => exact .inl hdetached
  | built list content trace holds accounted detached =>
      obtain ⟨call, hreplace⟩ := replace_eq_leaving name list prepared
      have hnew : (listAt other (replace name list prepared).state).Detached := hdetached
      rw [hreplace, Traced.leaving] at hnew
      by_cases hname : name = other
      · subst hname
        rw [listAt_put_self] at hnew
        obtain ⟨model, horigin, hmodel⟩ := detached (holds.detached_iff.mp hnew)
        exact .inr ⟨rfl, model, horigin, hsame model ▸ hmodel⟩
      · rw [listAt_put_of_ne hname] at hnew
        exact .inl hnew

omit [Element α] in
theorem detached_of_erase (h : (listAt other (lists.erase name)).Detached) :
    (listAt other lists).Detached := by
  by_cases hname : name = other
  · subst hname
    rw [listAt, Store.find?_erase_self] at h
    exact absurd h empty_not_detached
  · rwa [listAt, Store.find?_erase_of_ne hname] at h

omit [Element α] in
theorem detached_of_ask (h : (listAt other
    ((lists.ensure name .empty).ensure name' .empty)).Detached) :
    (listAt other lists).Detached := by
  rwa [listAt_ensure, listAt_ensure] at h

theorem Sound.detachment (h : Sound lists) {step : Step α}
    (hdetached : (listAt name (perform lists step).state).Detached) :
    Detachment lists step (perform lists step).result name := by
  cases step with
  | create target origin =>
      rcases h.detached_create hdetached with hbefore | ⟨rfl, model, rfl, hmodel⟩
      · exact .remained hbefore
      · exact .copied model rfl hmodel
  | destroy target => exact .remained (detached_of_erase hdetached)
  | discard target => exact .remained (detached_of_erase hdetached)
  | operate target operation =>
      rcases h.detached_operate hdetached with
        hbefore | ⟨rfl, rfl, front, x, back, panic, hcontents, hcalm, hdrop, hback, hresult⟩
      · exact .remained hbefore
      · exact .cleared front x back panic rfl hcontents hcalm hdrop hback hresult
  | extendFrom memory target model e =>
      have hsound := h.ensure model
      obtain ⟨content, hholds⟩ := hsound.holds_at model
      rw [perform, hholds.copies e] at hdetached
      rcases hsound.detached_operate hdetached with hbefore | ⟨-, hclear, -⟩
      · exact .remained (listAt_ensure model name lists ▸ hbefore)
      · cases hclear
  | equals target model => exact .remained (detached_of_ask hdetached)
  | differs target model => exact .remained (detached_of_ask hdetached)

/-- After any session that began with no lists, every list is intact, and
only a panicking clear can detach one in the next step. -/
theorem intact_final (history : List (Step α)) :
    (∀ list ∈ (final .empty history).values, list.Intact)
      ∧ ∀ (step : Step α) (name : String),
        (∀ list ∈ (perform (final .empty history) step).state.values, list.Intact)
          ∧ ((listAt name (perform (final .empty history) step).state).Detached →
            Detachment (final .empty history) step
              (perform (final .empty history) step).result name) := by
  have hintact {lists : Store (LinkedList α)} (h : Sound lists) :
      ∀ list ∈ lists.values, list.Intact := by
    intro list hlist
    obtain ⟨name, hfind⟩ := h.sorted.exists_of_mem_values hlist
    obtain ⟨content, hholds⟩ := h.holds name list hfind
    exact hholds.intact
  have hsound : Sound (final .empty history : Store (LinkedList α)) :=
    sound_empty.final_sound history
  exact ⟨hintact hsound, fun step name =>
    ⟨hintact (hsound.perform_advances step).sound, fun hdetached => hsound.detachment hdetached⟩⟩

/-- Three elements, the second of which panics when it is dropped. -/
def armed : List (Step Tracked) :=
  [.operate "a" (.append .ample .tail ⟨1, "x", none⟩),
    .operate "a" (.append .ample .tail ⟨2, "y", some .dropping⟩),
    .operate "a" (.append .ample .tail ⟨3, "z", none⟩)]

theorem armed_detached_by_clear :
    (listAt "a" (final .empty armed)).Intact
      ∧ (listAt "a" (perform (final .empty armed) (.operate "a" .clear)).state).Intact
      ∧ (listAt "a" (perform (final .empty armed) (.operate "a" .clear)).state).Detached
      ∧ Detachment (final .empty armed) (.operate "a" .clear)
        (perform (final .empty armed) (.operate "a" .clear)).result "a" := by
  obtain ⟨hbefore, hnext⟩ := intact_final armed
  obtain ⟨hafter, hdetachment⟩ := hnext (.operate "a" .clear) "a"
  have hdetached :
      (listAt "a" (perform (final .empty armed) (.operate "a" .clear)).state).Detached :=
    ⟨by decide, by decide, by decide⟩
  exact ⟨hbefore _ (by decide), hafter _ (by decide), hdetached, hdetachment hdetached⟩

end Session.Lists

end LinkedPool
