import LinkedPool.Proofs.Session.Inert

/-!
# What a step does to one list

Seen from the list under one name, a step of a session does one of three
things: it leaves that list alone, it is an operation on it, or it puts an
end to it and drops all its elements (`Sound.affected`). Only a step that
names the list does one of the last two, and only a clear of it clears it.
-/

namespace LinkedPool.Session.Lists

open Element LinkedList

variable {α : Type} [Element α] {lists : Store (LinkedList α)} {name target : String}

/-- The step is no operation on the list under a name, and puts no end to it;
it may look at the list. -/
def Step.PassesBy (name : String) : Step α → Prop
  | .operate target _ => target ≠ name
  | .extendFrom _ target _ _ => target ≠ name
  | step => step.Spares name

/-- What `step` does to the list under `name` when it comes to `outcome`. -/
inductive Affected (name : String) (lists : Store (LinkedList α)) (step : Step α)
    (outcome : Outcome α (Store (LinkedList α)) (Reply α)) : Prop
  | unchanged (same : listAt name outcome.state = listAt name lists)
  | operated (operation : Operation α)
      (state : listAt name outcome.state = ((listAt name lists).perform operation).state)
      (trace : outcome.trace = ((listAt name lists).perform operation).trace)
      (clears : operation = .clear → step = .operate name .clear)
      (named : ¬step.PassesBy name)
  | ended (named : ¬step.Spares name)
      (dropped : ∀ x ∈ (listAt name lists).stored, .dropped x ∈ outcome.trace)

omit [Element α] in
theorem Step.PassesBy.spares {step : Step α} (h : step.PassesBy name) : step.Spares name := by
  cases step with
  | operate target operation => trivial
  | extendFrom memory target other e => trivial
  | _ => exact h

theorem dropped_of_accounted {content : Content α} {list : LinkedList α} {trace : List (Event α)}
    (h : list.Holds content) (haccounted : Accounted content.elements [] [] trace) :
    ∀ x ∈ list.stored, .dropped x ∈ trace := by
  intro x hx
  have hdrops : x ∈ dropsIn trace := by
    rw [Accounted, List.nil_append, List.append_nil] at haccounted
    rw [haccounted.mem_iff]
    exact List.mem_append_left _ (h.stored_perm.mem_iff.mp hx)
  obtain ⟨event, hevent, heq⟩ := List.mem_filterMap.mp hdrops
  cases event with
  | dropped y =>
      obtain rfl := Option.some.inj heq
      exact hevent
  | compared left right => cases heq
  | cloned source => cases heq
  | logged line => cases heq

theorem operate_affected (name target : String) (operation : Operation α)
    (lists : Store (LinkedList α)) (step : Step α)
    (hclears : operation = .clear → step = .operate target .clear)
    (hnamed : ¬step.PassesBy target) :
    Affected name lists step (operate target operation lists) := by
  by_cases hname : target = name
  · subst hname
    exact .operated operation (listAt_put_self ..) rfl hclears hnamed
  · exact .unchanged (listAt_put_of_ne hname ..)

namespace Sound

theorem create_affected (h : Sound lists) (name target : String) (origin : Origin α) :
    Affected name lists (.create target origin) (perform lists (.create target origin)) := by
  obtain ⟨hsound, -, hsame⟩ := h.prepare origin
  rw [perform]
  generalize origin.prepare lists = prepared at hsound hsame ⊢
  generalize origin.build prepared = made
  obtain ⟨result, trace⟩ := made
  cases result with
  | error panic => exact .unchanged (hsame name)
  | ok new =>
      rw [Traced.leaving_mk, Outcome.bind_ok]
      by_cases hname : target = name
      · subst hname
        refine .ended (fun hspares => hspares rfl) ?_
        rw [← hsame target]
        intro x hx
        unfold replace
        cases hfind : prepared.find? target with
        | none =>
            rw [listAt, hfind] at hx
            cases hx
        | some old =>
            rw [listAt, hfind] at hx
            exact List.mem_append_right _ (List.mem_map.mpr ⟨x, hx, rfl⟩)
      · obtain ⟨call, hreplace⟩ := replace_eq_leaving target new prepared
        rw [hreplace]
        exact .unchanged ((listAt_put_of_ne hname ..).trans (hsame name))

theorem erase_affected (h : Sound lists) (name target : String) {step : Step α}
    {trace : List (Event α)} {result : Except Panic (Reply α)} (hnamed : ¬step.Spares target)
    (haccounted : ∀ content, (listAt target lists).Holds content →
      Accounted content.elements [] [] trace) :
    Affected name lists step ⟨⟨result, trace⟩, lists.erase target⟩ := by
  by_cases hname : target = name
  · subst hname
    obtain ⟨content, hholds⟩ := h.holds_at target
    exact .ended hnamed (dropped_of_accounted hholds (haccounted content hholds))
  · refine .unchanged ?_
    rw [listAt, Store.find?_erase_of_ne hname, listAt]

theorem affected (h : Sound lists) (name : String) :
    ∀ step, Affected name lists step (perform lists step)
  | .create target origin => h.create_affected name target origin
  | .destroy target =>
      h.erase_affected name target (fun hspares => hspares rfl) fun _ hholds =>
        hholds.destroy_accounted
  | .discard target =>
      h.erase_affected name target (fun hspares => hspares rfl) fun _ hholds =>
        hholds.discard_accounted
  | .operate target operation =>
      operate_affected name target operation lists _ (fun hclear => hclear ▸ rfl)
        fun hpasses => hpasses rfl
  | .extendFrom memory target other e => by
      obtain ⟨content, hholds⟩ := (h.ensure other).holds_at other
      rw [perform, hholds.copies e]
      have hsame := listAt_ensure other name lists
      cases operate_affected name target (.extend memory _) (lists.ensure other .empty)
          (.extendFrom memory target other e) (fun hclear => by cases hclear)
          (fun hpasses => hpasses rfl) with
      | unchanged same => exact .unchanged (same.trans hsame)
      | operated operation state trace clears named =>
          rw [hsame] at state trace
          exact .operated operation state trace clears named
      | ended named dropped => exact absurd trivial named
  | .equals target other => .unchanged (by
      rw [perform]
      exact (listAt_ensure other name _).trans (listAt_ensure target name lists))
  | .differs target other => .unchanged (by
      rw [perform]
      exact (listAt_ensure other name _).trans (listAt_ensure target name lists))

theorem perform_of_passesBy (h : Sound lists) {step : Step α} (hpasses : step.PassesBy name) :
    listAt name (perform lists step).state = listAt name lists := by
  cases h.affected name step with
  | unchanged same => exact same
  | operated operation state trace clears named => exact absurd hpasses named
  | ended named dropped => exact absurd hpasses.spares named

end Sound

end LinkedPool.Session.Lists
