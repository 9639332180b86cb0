import LinkedPool.Element.Tracked
import LinkedPool.Proofs.LinkedList.Ahead
import LinkedPool.Proofs.Session.Sound

/-!
# Room made in advance is not seen

A session in which a list is made with room goes on like one in which it is
made without, and so do all lists that come of it, by copying or otherwise:
under each name there are lists that are alike but for slots in advance
(`Ahead`), and a step does the same to both sessions (`Ahead.perform`). This
holds whatever panics. Only a step for which a storage would have to grow and
does not tells the two apart; a session without such a step is `Roomy`.
-/

namespace LinkedPool.Session.Lists

open LinkedList

variable {α : Type} {lists others : Store (LinkedList α)} {name other : String}
  {list list' : LinkedList α}

/-- Under the same names, lists that are alike but for slots in advance. -/
def Ahead (lists others : Store (LinkedList α)) : Prop := lists.Pointwise LinkedList.Ahead others

theorem ahead_empty : (empty : LinkedList α).Ahead empty := holds_empty.ahead

theorem Sound.ahead (h : Sound lists) : Ahead lists lists := by
  refine List.forall₂_same.mpr ?_
  intro entry hentry
  obtain ⟨name, hfind⟩ := h.sorted.exists_of_mem_values (List.mem_map.mpr ⟨entry, hentry, rfl⟩)
  obtain ⟨content, hholds⟩ := h.holds name entry.2 hfind
  exact ⟨rfl, hholds.ahead⟩

namespace Ahead

theorem listAt (h : Ahead lists others) (name : String) :
    (listAt name lists).Ahead (listAt name others) := by
  unfold Lists.listAt
  rcases h.find? name with ⟨hnone, hnone'⟩ | ⟨list, list', hfind, hfind', hlist⟩
  · rw [hnone, hnone']
    exact ahead_empty
  · rw [hfind, hfind']
    exact hlist

theorem put (h : Ahead lists others) (name : String) (hlist : list.Ahead list') :
    Ahead (lists.put name list) (others.put name list') :=
  Store.Pointwise.put h name hlist

theorem erase (h : Ahead lists others) (name : String) :
    Ahead (lists.erase name) (others.erase name) :=
  Store.Pointwise.erase h name

theorem ensure (h : Ahead lists others) (name : String) :
    Ahead (lists.ensure name .empty) (others.ensure name .empty) :=
  Store.Pointwise.ensure h name ahead_empty

end Ahead

variable [Element α]

/-- What a step asks of a storage is more than it has. -/
def Starves (lists : Store (LinkedList α)) : Step α → Prop
  | .operate name operation => (listAt name lists).Starves operation
  | .extendFrom memory name other e =>
      ∃ source, Source.copies e (listAt other lists) = .ok source
        ∧ (listAt name lists).Starves (.extend memory source)
  | _ => False

instance (lists : Store (LinkedList α)) : DecidablePred (Starves lists)
  | .operate name operation => inferInstanceAs (Decidable ((listAt name lists).Starves operation))
  | .extendFrom memory name other e =>
      inferInstanceAs (Decidable (∃ source, Source.copies e (listAt other lists) = .ok source
        ∧ (listAt name lists).Starves (.extend memory source)))
  | .create _ _ | .destroy _ | .discard _ | .equals _ _ | .differs _ _ => isFalse id

/-- None of the steps asks of a storage more than it has. -/
def Roomy (lists : Store (LinkedList α)) : List (Step α) → Prop
  | [] => True
  | step :: steps => ¬Starves lists step ∧ Roomy (perform lists step).state steps

instance decidableRoomy :
    (lists : Store (LinkedList α)) → (steps : List (Step α)) → Decidable (Roomy lists steps)
  | _, [] => inferInstanceAs (Decidable True)
  | lists, step :: steps =>
      have := decidableRoomy (perform lists step).state steps
      inferInstanceAs (Decidable (¬Starves lists step ∧ _))

namespace Ahead

theorem replace (h : Ahead lists others) (name : String) (hlist : list.Ahead list') :
    Outcome.Paired Eq Ahead (replace name list lists) (replace name list' others) := by
  unfold Lists.replace
  rcases h.find? name with ⟨hnone, hnone'⟩ | ⟨old, old', hfind, hfind', hold⟩
  · rw [hnone, hnone']
    exact Outcome.paired_leaving _ (h.put name hlist)
  · rw [hfind, hfind']
    simp only [hold.discard]
    exact Outcome.paired_leaving _ (h.put name hlist)

theorem operate (h : Ahead lists others) (hsound : Sound lists) (name : String)
    (operation : Operation α) (hroom : ¬(Lists.listAt name lists).Starves operation)
    (hroom' : ¬(Lists.listAt name others).Starves operation) :
    Outcome.Paired Eq Ahead (operate name operation lists) (operate name operation others) := by
  obtain ⟨content, hholds⟩ := hsound.holds_at name
  exact ((h.listAt name).perform hholds operation hroom hroom').within fun _ _ => h.put name

omit [Element α] in
theorem prepare (h : Ahead lists others) (origin : Origin α) :
    Ahead (origin.prepare lists) (origin.prepare others) := by
  cases origin with
  | cloneOf other => exact h.ensure other
  | empty => exact h
  | withCapacity n => exact h
  | ofSource memory source => exact h

theorem build (h : Ahead lists others) (hsound : Sound lists) (origin : Origin α) :
    Traced.Paired LinkedList.Ahead (origin.build lists) (origin.build others) := by
  have hself : Traced.Paired LinkedList.Ahead (origin.build lists) (origin.build lists) := by
    have hbuild := hsound.build origin
    generalize origin.build lists = call at hbuild ⊢
    cases hbuild with
    | built list content trace holds accounted satisfies => exact .answered trace holds.ahead
    | failed panic trace accounted => exact .panicked panic trace
  cases origin with
  | empty => exact hself
  | withCapacity n => exact hself
  | ofSource memory source => exact hself
  | cloneOf other => exact (h.listAt other).clone

theorem create (h : Ahead lists others) (hsound : Sound lists) (name : String)
    (origin : Origin α) :
    Outcome.Paired Eq Ahead (Lists.perform lists (.create name origin))
      (Lists.perform others (.create name origin)) := by
  have hprepared := h.prepare origin
  have hbuild := hprepared.build (hsound.prepare origin).1 origin
  refine ((hbuild.leaving hprepared).bind ?_).map_eq _
  intro lists' others' list list' hahead hlist
  exact hahead.replace name hlist

theorem extendFrom (h : Ahead lists others) (hsound : Sound lists) (memory : Memory)
    (name other : String) (e : End) (hroom : ¬Starves lists (.extendFrom memory name other e))
    (hroom' : ¬Starves others (.extendFrom memory name other e)) :
    Outcome.Paired Eq Ahead (Lists.perform lists (.extendFrom memory name other e))
      (Lists.perform others (.extendFrom memory name other e)) := by
  have hensured := h.ensure other
  have hsound' := hsound.ensure other
  obtain ⟨content, hholds⟩ := hsound'.holds_at other
  have hother := hensured.listAt other
  have hcopies := hholds.copies e
  have hcopies' := (hother.holds hholds).copies e
  rw [← hother.len] at hcopies'
  rw [Lists.perform, Lists.perform, hcopies, hcopies']
  refine hensured.operate hsound' name _ ?_ ?_
  · simp only [listAt_ensure] at hcopies ⊢
    exact fun hstarves => hroom ⟨_, hcopies, hstarves⟩
  · simp only [listAt_ensure] at hcopies' ⊢
    exact fun hstarves => hroom' ⟨_, hcopies', hstarves⟩

theorem equals (h : Ahead lists others) (hsound : Sound lists) (name other : String) :
    (Lists.listAt name lists).equals (Lists.listAt other lists)
      = (Lists.listAt name others).equals (Lists.listAt other others) := by
  obtain ⟨content, hholds⟩ := hsound.holds_at name
  obtain ⟨content', hholds'⟩ := hsound.holds_at other
  exact (h.listAt name).equals (h.listAt other) hholds hholds'

/-- A step that the storages have room for does the same to both sessions. -/
theorem perform (h : Ahead lists others) (hsound : Sound lists) (step : Step α)
    (hroom : ¬Starves lists step) (hroom' : ¬Starves others step) :
    Outcome.Paired Eq Ahead (Lists.perform lists step) (Lists.perform others step) := by
  cases step with
  | create name origin => exact h.create hsound name origin
  | destroy name =>
      obtain ⟨content, hholds⟩ := hsound.holds_at name
      rw [Lists.perform, Lists.perform, (h.listAt name).destroy hholds]
      exact (Outcome.paired_leaving _ (h.erase name)).map_eq _
  | discard name =>
      rw [Lists.perform, Lists.perform, (h.listAt name).discard]
      exact (Outcome.paired_leaving _ (h.erase name)).map_eq _
  | operate name operation => exact h.operate hsound name operation hroom hroom'
  | extendFrom memory name other e => exact h.extendFrom hsound memory name other e hroom hroom'
  | equals name other =>
      rw [Lists.perform, Lists.perform, h.equals hsound]
      exact (Outcome.paired_leaving _ ((h.ensure name).ensure other)).map_eq _
  | differs name other =>
      rw [Lists.perform, Lists.perform, LinkedList.differs, LinkedList.differs, h.equals hsound]
      exact (Outcome.paired_leaving _ ((h.ensure name).ensure other)).map_eq _

theorem run (h : Ahead lists others) (hsound : Sound lists) (steps : List (Step α))
    (hroom : Roomy lists steps) (hroom' : Roomy others steps) :
    (run lists steps).map (·.toTraced) = (run others steps).map (·.toTraced)
      ∧ Ahead (final lists steps) (final others steps) := by
  induction steps generalizing lists others with
  | nil => exact ⟨rfl, h⟩
  | cons step steps ih =>
      have hpaired := h.perform hsound step hroom.1 hroom'.1
      obtain ⟨hrun, hfinal⟩ :=
        ih hpaired.state (hsound.perform_advances step).sound hroom.2 hroom'.2
      exact ⟨congrArg₂ List.cons hpaired.toTraced.eq hrun, hfinal⟩

end Ahead

/-! ## A list made with room -/

theorem ahead_create {n : Nat} (hmade : (withCapacity n : Except Panic (LinkedList α)) = .ok list)
    (hsound : Sound lists) (name : String) :
    Outcome.Paired Eq Ahead (perform lists (.create name (.withCapacity n)))
      (perform lists (.create name .empty)) := by
  have hbuilt : Traced.Paired LinkedList.Ahead (Origin.build lists (.withCapacity n))
      (Origin.build lists .empty) := by
    have hbuild : Origin.build lists (.withCapacity n) = .answer list := by
      rw [Origin.build, hmade]
      rfl
    rw [hbuild]
    exact Traced.paired_answer (ahead_withCapacity hmade)
  refine ((hbuilt.leaving hsound.ahead).bind ?_).map_eq _
  intro lists' others' list list' hahead hlist
  exact hahead.replace name hlist

/-- From the creation of a list on, made with room or without. -/
theorem run_create {n : Nat} (hmade : (withCapacity n : Except Panic (LinkedList α)) = .ok list)
    (hsound : Sound lists) (before : List (Step α)) (name : String) (steps : List (Step α))
    (hroom : Roomy lists (before ++ .create name (.withCapacity n) :: steps))
    (hroom' : Roomy lists (before ++ .create name .empty :: steps)) :
    (run lists (before ++ .create name (.withCapacity n) :: steps)).map (·.toTraced)
        = (run lists (before ++ .create name .empty :: steps)).map (·.toTraced)
      ∧ Ahead (final lists (before ++ .create name (.withCapacity n) :: steps))
        (final lists (before ++ .create name .empty :: steps)) := by
  induction before generalizing lists with
  | nil =>
      have hcreated := ahead_create hmade hsound name
      obtain ⟨hrun, hfinal⟩ := hcreated.state.run (hsound.perform_advances _).sound steps hroom.2
        hroom'.2
      exact ⟨congrArg₂ List.cons hcreated.toTraced.eq hrun, hfinal⟩
  | cons step before ih =>
      obtain ⟨hrun, hfinal⟩ := ih (hsound.perform_advances step).sound hroom.2 hroom'.2
      exact ⟨congrArg (List.cons _) hrun, hfinal⟩

omit [Element α] in
theorem Ahead.contents (h : Ahead lists others) (hsound : Sound lists) (name : String) (e : End) :
    (Lists.listAt name lists).contents e = (Lists.listAt name others).contents e := by
  obtain ⟨content, hholds⟩ := hsound.holds_at name
  rw [hholds.contents, ((h.listAt name).holds hholds).contents]

theorem Ahead.close (h : Ahead lists others) : close lists = close others := by
  unfold Ahead Store.Pointwise at h
  unfold Lists.close
  generalize lists.entries = entries at h ⊢
  generalize others.entries = entries' at h ⊢
  induction h with
  | nil => rfl
  | cons hentry hrest ih => exact congrArg₂ List.cons hentry.2.discard ih

/-- Room made in advance is not seen. A list is made with room, or without,
in a session in which anything may panic, but no storage fails to grow: the
replies and all that happens are the same from then on, and so are the
contents of all lists and what dropping them comes to. Of pools the same is
true as long as no drop panics. -/
theorem preallocation_unseen {β : Type} [Element β] (n : Nat) :
    (∀ list : LinkedList α, withCapacity n = .ok list →
      ∀ (before : List (Step α)) (name : String) (steps : List (Step α)),
      Roomy .empty (before ++ .create name (.withCapacity n) :: steps) →
      Roomy .empty (before ++ .create name .empty :: steps) →
      (run .empty (before ++ .create name (.withCapacity n) :: steps)).map (·.toTraced)
          = (run .empty (before ++ .create name .empty :: steps)).map (·.toTraced)
        ∧ (∀ other e,
          (listAt other
              (final .empty (before ++ .create name (.withCapacity n) :: steps))).contents e
            = (listAt other (final .empty (before ++ .create name .empty :: steps))).contents e)
        ∧ close (final .empty (before ++ .create name (.withCapacity n) :: steps))
          = close (final .empty (before ++ .create name .empty :: steps)))
      ∧ ∀ pool : Pool β, Pool.withCapacity n = .ok pool → ∀ operations : List (Pool.Operation β),
        (∀ outcome ∈ pool.performAll operations, Pool.Smooth outcome) →
        (∀ outcome ∈ (Pool.empty : Pool β).performAll operations, Pool.Smooth outcome) →
        (pool.performAll operations).map (·.toTraced)
          = ((Pool.empty : Pool β).performAll operations).map (·.toTraced) := by
  refine ⟨?_, ?_⟩
  · intro list hmade before name steps hroom hroom'
    obtain ⟨hrun, hfinal⟩ := run_create hmade sound_empty before name steps hroom hroom'
    have hsound := sound_empty.final_sound (before ++ .create name (.withCapacity n) :: steps)
    exact ⟨hrun, hfinal.contents hsound, hfinal.close⟩
  · intro pool hmade operations hsmooth hsmooth'
    have hahead : pool.Ahead Pool.empty := (Pool.Begun.withCapacity hmade).ahead
    exact hahead.performAll operations hsmooth hsmooth'

/-- More elements than there is room for, a slot used again, a copy, and a
list left behind by a drop that panics. -/
def crowded : List (Step Tracked) :=
  [.operate "a" (.append .ample .tail ⟨1, "x", none⟩),
    .operate "a" (.append .ample .head ⟨2, "y", some .dropping⟩),
    .operate "a" (.append .ample .tail ⟨3, "z", none⟩),
    .operate "a" (.delete .head ⟨1, "w", none⟩),
    .operate "a" (.extend .ample ⟨2, [.give ⟨4, "v", none⟩, .give ⟨5, "u", none⟩]⟩),
    .create "b" (.cloneOf "a"),
    .equals "a" "b",
    .operate "a" .clear]

theorem crowded_preallocation_unseen :
    (run .empty (.create "a" (.withCapacity 2) :: crowded)).map (·.toTraced)
        = (run .empty (.create "a" .empty :: crowded)).map (·.toTraced)
      ∧ close (final .empty (.create "a" (.withCapacity 2) :: crowded))
        = close (final .empty (.create "a" .empty :: crowded))
      ∧ ∃ pool : Pool Int, Pool.withCapacity 2 = .ok pool
        ∧ (pool.performAll Pool.recycled).map (·.toTraced)
          = ((Pool.empty : Pool Int).performAll Pool.recycled).map (·.toTraced) := by
  have hnodes : Pool.withCapacity 2
      = .ok (⟨#[.vacant (some 1), .vacant none], some 0, 0, 2⟩ : Pool (Node Tracked)) := by
    decide +kernel
  have hlist : withCapacity 2
      = .ok (⟨.none, ⟨#[.vacant (some 1), .vacant none], some 0, 0, 2⟩⟩ : LinkedList Tracked) := by
    rw [withCapacity, hnodes]
    rfl
  have hpool : Pool.withCapacity 2
      = .ok (⟨#[.vacant (some 1), .vacant none], some 0, 0, 2⟩ : Pool Int) := by
    decide +kernel
  obtain ⟨hlists, hpools⟩ := preallocation_unseen (α := Tracked) (β := Int) 2
  obtain ⟨hrun, -, hclose⟩ :=
    hlists _ hlist [] "a" crowded (by decide +kernel) (by decide +kernel)
  exact ⟨hrun, hclose, _, hpool, hpools _ hpool _ (by decide +kernel) (by decide +kernel)⟩

end LinkedPool.Session.Lists
