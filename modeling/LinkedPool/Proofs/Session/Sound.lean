import LinkedPool.Session.Lists
import LinkedPool.Proofs.LinkedList.Ledger
import LinkedPool.Proofs.Store

/-!
# Sessions keep lists sound

A session is `Sound` if its names are in order and each of its lists is as
it should be. A step of a session changes the list under one name; so what
an operation says of one list is said of all of them together: a step
`Advances` the session if it leaves it sound and keeps its elements, those
in all lists taken together. Every step does (`Sound.perform_advances`).
-/

namespace LinkedPool.Session.Lists

open Element LinkedList

variable {α : Type} {lists : Store (LinkedList α)} {name other : String}
  {list : LinkedList α} {content : Content α}

/-- The names are in order, and every list is as it should be. -/
structure Sound (lists : Store (LinkedList α)) : Prop where
  sorted : lists.Sorted
  holds : ∀ name list, lists.find? name = some list → ∃ content, list.Holds content

def storedIn (lists : Store (LinkedList α)) : List α := lists.values.flatMap LinkedList.stored

theorem sound_empty : Sound (.empty : Store (LinkedList α)) :=
  ⟨.nil, fun _ _ h => by cases h⟩

namespace Sound

theorem holds_at (h : Sound lists) (name : String) :
    ∃ content, (listAt name lists).Holds content := by
  unfold listAt
  cases hfind : lists.find? name with
  | none => exact ⟨_, holds_empty⟩
  | some list => exact h.holds name list hfind

theorem put (h : Sound lists) (name : String) (hlist : list.Holds content) :
    Sound (lists.put name list) := by
  refine ⟨h.sorted.put name list, ?_⟩
  intro name' list' hfind
  by_cases heq : name = name'
  · subst heq
    rw [Store.find?_put_self] at hfind
    exact ⟨content, Option.some.inj hfind ▸ hlist⟩
  · rw [Store.find?_put_of_ne heq] at hfind
    exact h.holds name' list' hfind

theorem erase (h : Sound lists) (name : String) : Sound (lists.erase name) := by
  refine ⟨h.sorted.erase name, ?_⟩
  intro name' list' hfind
  by_cases heq : name = name'
  · subst heq
    rw [Store.find?_erase_self] at hfind
    cases hfind
  · rw [Store.find?_erase_of_ne heq] at hfind
    exact h.holds name' list' hfind

theorem ensure (h : Sound lists) (name : String) : Sound (lists.ensure name .empty) := by
  rcases lists.ensure_cases name .empty with ⟨-, hensure⟩ | ⟨-, hensure⟩
  · rwa [hensure]
  · rw [hensure]
    exact h.put name holds_empty

end Sound

theorem listAt_put_self (name : String) (list : LinkedList α) (lists : Store (LinkedList α)) :
    listAt name (lists.put name list) = list := by
  rw [listAt, Store.find?_put_self]
  rfl

theorem listAt_put_of_ne (h : name ≠ other) (list : LinkedList α)
    (lists : Store (LinkedList α)) : listAt other (lists.put name list) = listAt other lists := by
  rw [listAt, Store.find?_put_of_ne h, listAt]

/-- A name that is used for the first time stands for the empty list before and after. -/
theorem listAt_ensure (name other : String) (lists : Store (LinkedList α)) :
    listAt other (lists.ensure name .empty) = listAt other lists := by
  rcases lists.ensure_cases name .empty with ⟨-, hensure⟩ | ⟨hnone, hensure⟩
  · rw [hensure]
  · rw [hensure]
    by_cases heq : name = other
    · subst heq
      rw [listAt_put_self, listAt, hnone]
      rfl
    · exact listAt_put_of_ne heq .empty lists

/-! ## What is stored in all lists -/

theorem stored_find? (name : String) (lists : Store (LinkedList α)) :
    (lists.find? name).toList.flatMap LinkedList.stored = (listAt name lists).stored := by
  unfold listAt
  cases lists.find? name with
  | none => rfl
  | some list => exact List.append_nil _

namespace Sound

theorem stored_put (h : Sound lists) (name : String) (list : LinkedList α) :
    ((listAt name lists).stored ++ storedIn (lists.put name list)).Perm
      (list.stored ++ storedIn lists) := by
  have hvalues := (h.sorted.values_put name list).flatMap_right LinkedList.stored
  rwa [List.flatMap_append, stored_find?, List.flatMap_cons] at hvalues

theorem stored_erase (h : Sound lists) (name : String) :
    ((listAt name lists).stored ++ storedIn (lists.erase name)).Perm (storedIn lists) := by
  have hvalues := (h.sorted.values_erase name).flatMap_right LinkedList.stored
  rwa [List.flatMap_append, stored_find?] at hvalues

theorem stored_ensure (h : Sound lists) (name : String) :
    (storedIn (lists.ensure name .empty)).Perm (storedIn lists) := by
  rcases lists.ensure_cases name .empty with ⟨-, hensure⟩ | ⟨hnone, hensure⟩
  · rw [hensure]
  · have hput := h.stored_put name .empty
    rw [listAt, hnone] at hput
    rwa [hensure]

end Sound

/-! ## Steps -/

variable [Element α] {ρ : Type}

def Origin.given : Origin α → List α
  | .ofSource _ source => source.owned
  | _ => []

/-- The elements that are given to a step for good. -/
def Step.given : Step α → List α
  | .create _ origin => origin.given
  | .operate _ operation => operation.given
  | _ => []

/-- The step leaves the session sound and keeps its elements. -/
structure Advances (lists : Store (LinkedList α)) (given : List α)
    (outcome : Outcome α (Store (LinkedList α)) ρ) : Prop where
  sound : Sound outcome.state
  accounted : Accounted (storedIn lists) given (storedIn outcome.state) outcome.trace

theorem Advances.map {τ : Type} {f : ρ → τ} {given : List α}
    {outcome : Outcome α (Store (LinkedList α)) ρ} (h : Advances lists given outcome) :
    Advances lists given (outcome.map f) :=
  ⟨h.sound, h.accounted⟩

/-- The list that is replaced is dropped when the new one is in its place. -/
theorem replace_eq_leaving (name : String) (list : LinkedList α) (lists : Store (LinkedList α)) :
    ∃ call : Traced α Unit, replace name list lists = call.leaving (lists.put name list) := by
  unfold replace
  cases lists.find? name with
  | none => exact ⟨_, rfl⟩
  | some old => exact ⟨_, rfl⟩

namespace Sound

theorem operate_advances (h : Sound lists) (name : String) (operation : Operation α) :
    Advances lists operation.given (operate name operation lists) := by
  obtain ⟨content, hholds⟩ := h.holds_at name
  obtain ⟨content', ⟨hholds', haccounted⟩, -⟩ := hholds.perform_kept operation
  have hlist := haccounted.congr hholds.stored_perm.symm hholds'.stored_perm.symm
  exact ⟨h.put name hholds', hlist.exchange (h.stored_put name _)⟩

omit [Element α] in
theorem prepare (h : Sound lists) (origin : Origin α) :
    Sound (origin.prepare lists) ∧ (storedIn (origin.prepare lists)).Perm (storedIn lists)
      ∧ ∀ name, listAt name (origin.prepare lists) = listAt name lists := by
  cases origin with
  | cloneOf other =>
      exact ⟨h.ensure other, h.stored_ensure other, fun name => listAt_ensure other name lists⟩
  | empty => exact ⟨h, .refl _, fun _ => rfl⟩
  | withCapacity n => exact ⟨h, .refl _, fun _ => rfl⟩
  | ofSource memory source => exact ⟨h, .refl _, fun _ => rfl⟩

/-- A new list is detached only if it is the copy of a list that is. -/
theorem build (h : Sound lists) (origin : Origin α) :
    Builds origin.given
      (fun content => content.IsDetached →
        ∃ other, origin = .cloneOf other ∧ (listAt other lists).Detached)
      (origin.build lists) := by
  cases origin with
  | empty =>
      exact .built .empty (.linked []) [] holds_empty (comparing_nil.accounted []) False.elim
  | withCapacity n => exact (withCapacity_builds n).imp fun _ hcontent => hcontent ▸ False.elim
  | ofSource memory source =>
      exact (ofSource_builds memory source).imp fun _ hcontent => hcontent ▸ False.elim
  | cloneOf other =>
      obtain ⟨content, hholds⟩ := h.holds_at other
      refine hholds.clone_builds.imp fun content' hcontent hdetached => ⟨other, rfl, ?_⟩
      rw [hholds.detached_iff]
      rw [hcontent] at hdetached
      cases content <;> exact hdetached

theorem replace_advances (h : Sound lists) (name : String) (hlist : list.Holds content)
    {given : List α} {trace : List (Event α)}
    (haccounted : Accounted [] given content.elements trace) :
    Advances lists given ((replace name list lists).after trace) := by
  have hstored := h.stored_put name list
  have hmade := haccounted.congr (.refl _) hlist.stored_perm.symm
  unfold replace
  cases hfind : lists.find? name with
  | none =>
      rw [listAt, hfind] at hstored
      refine ⟨h.put name hlist, ?_⟩
      show Accounted _ given _ (trace ++ [])
      rw [List.append_nil]
      exact hmade.exchange hstored
  | some old =>
      rw [listAt, hfind] at hstored
      obtain ⟨content', hold⟩ := h.holds name old hfind
      have hdropped := hold.discard_accounted.congr hold.stored_perm.symm (.refl _)
      exact ⟨h.put name hlist, (hmade.replace hdropped).exchange hstored⟩

theorem create_advances (h : Sound lists) (name : String) (origin : Origin α) :
    Advances lists origin.given (perform lists (.create name origin)) := by
  obtain ⟨hsound, hperm, -⟩ := h.prepare origin
  have hbuild := hsound.build origin
  rw [perform]
  generalize origin.prepare lists = prepared at hsound hperm hbuild ⊢
  generalize origin.build prepared = call at hbuild ⊢
  cases hbuild with
  | built list content trace holds accounted satisfies =>
      have hreplace := hsound.replace_advances name holds accounted
      exact Advances.map ⟨hreplace.sound, hreplace.accounted.congr hperm (.refl _)⟩
  | failed panic trace accounted =>
      exact Advances.map ⟨hsound, accounted.exchange hperm⟩

theorem extendFrom_advances (h : Sound lists) (memory : Memory) (name other : String) (e : End) :
    Advances lists [] (perform lists (.extendFrom memory name other e)) := by
  have hsound := h.ensure other
  obtain ⟨content, hholds⟩ := hsound.holds_at other
  have hadvances := hsound.operate_advances name (.extend memory
    ⟨(listAt other (lists.ensure other .empty)).len, (e.listed content.reached).map .copy⟩)
  have hgiven (xs : List α) : (xs.map Pull.copy).filterMap Pull.owned? = [] := by
    simp [List.filterMap_map, Pull.owned?]
  rw [Operation.given, Source.owned, hgiven] at hadvances
  rw [perform, hholds.copies e]
  exact ⟨hadvances.sound, hadvances.accounted.congr (h.stored_ensure other) (.refl _)⟩

theorem ask_advances (h : Sound lists) (name other : String) {call : Traced α ρ}
    (hcall : Comparing call.trace) :
    Advances lists [] (call.leaving ((lists.ensure name .empty).ensure other .empty)) := by
  have hsound := h.ensure name
  have hperm := (hsound.stored_ensure other).trans (h.stored_ensure name)
  exact ⟨hsound.ensure other, (hcall.accounted _).congr (.refl _) hperm.symm⟩

theorem inquiry_equals (h : Sound lists) (name other : String) :
    Inquiry (fun _ => True) ((listAt name lists).equals (listAt other lists)) := by
  obtain ⟨content, hholds⟩ := h.holds_at name
  obtain ⟨content', hholds'⟩ := h.holds_at other
  rw [hholds.equals hholds']
  split
  · exact (inquiry_agree _ _).imp fun _ _ => trivial
  · exact inquiry_answer trivial

theorem inquiry_differs (h : Sound lists) (name other : String) :
    Inquiry (fun _ => True) ((listAt name lists).differs (listAt other lists)) :=
  (h.inquiry_equals name other).bind fun _ _ => inquiry_answer trivial

theorem remove_advances (h : Sound lists) (name : String) {trace : List (Event α)}
    {result : Except Panic ρ}
    (haccounted : ∀ content, (listAt name lists).Holds content →
      Accounted content.elements [] [] trace) :
    Advances lists [] ⟨⟨result, trace⟩, lists.erase name⟩ := by
  obtain ⟨content, hholds⟩ := h.holds_at name
  have hlist := (haccounted content hholds).congr hholds.stored_perm.symm (.refl _)
  exact ⟨h.erase name, hlist.exchange (h.stored_erase name)⟩

/-- Every step leaves a sound session sound and keeps its elements. -/
theorem perform_advances (h : Sound lists) : ∀ step, Advances lists step.given (perform lists step)
  | .create name origin => h.create_advances name origin
  | .destroy name => (h.remove_advances name fun _ hholds => hholds.destroy_accounted).map
  | .discard name => (h.remove_advances name fun _ hholds => hholds.discard_accounted).map
  | .operate name operation => h.operate_advances name operation
  | .extendFrom memory name other e => h.extendFrom_advances memory name other e
  | .equals name other => (h.ask_advances name other (h.inquiry_equals name other).comparing).map
  | .differs name other => (h.ask_advances name other (h.inquiry_differs name other).comparing).map

end Sound

theorem Sound.final_sound (h : Sound lists) (steps : List (Step α)) :
    Sound (final lists steps) := by
  induction steps generalizing lists with
  | nil => exact h
  | cons step steps ih => exact ih (h.perform_advances step).sound

end LinkedPool.Session.Lists

/-! ## Reachable lists -/

namespace LinkedPool.LinkedList

open Session.Lists

variable {α : Type} {list : LinkedList α}

/-- Some session that began with no lists has the list under some name. -/
def Reachable [Element α] (list : LinkedList α) : Prop :=
  ∃ (history : List (Step α)) (name : String), listAt name (final .empty history) = list

theorem Reachable.holds [Element α] (h : list.Reachable) : ∃ content, list.Holds content := by
  obtain ⟨history, name, rfl⟩ := h
  exact (sound_empty.final_sound history).holds_at name

end LinkedPool.LinkedList
