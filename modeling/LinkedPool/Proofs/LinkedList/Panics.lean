import LinkedPool.LinkedList.Operation
import LinkedPool.Proofs.Sequence.Operation

/-!
# What makes an operation panic

A panic of an operation is that of an element (`Raised`), or it has a cause
that the operation and the list name between them (`Cause`): storage that
is not to be had, a source that panics, or a list that is detached. There is
nothing else, since a list that is as it should be has a node wherever it
links to and counts that fit (`Holds.perform_excused`). A list with its links
has none of these causes if storage and sources give what is asked of them
(`Supplies.not_cause`).
-/

namespace LinkedPool

/-- The panics that report a structure that is not as its operations keep it. -/
def Panic.Structural : Panic → Prop
  | .dangling | .outOfBounds .. | .slotInUse | .slotVacant _ => True
  | .subtractOverflow | .addOverflow | .endlessWalk => True
  | .element _ | .source | .insertion _ | .capacityOverflow | .nodesLeft => False

/-! ## Panics of elements -/

namespace Element

variable {α ρ τ : Type} [Element α] {trace trace' : List (Event α)} {panic : Panic}
  {cause cause' : Panic → Prop}

/-- In these events an element panicked, as it was compared, copied or dropped. -/
inductive Raised (trace : List (Event α)) (panic : Panic) : Prop
  | compared (x y : α) (event : .compared x y ∈ trace) (raises : equal x y = .error panic)
  | cloned (x : α) (event : .cloned x ∈ trace) (raises : clone x = .error panic)
  | dropped (x : α) (event : .dropped x ∈ trace) (raises : dropPanic x = some panic)

theorem Raised.mono (h : Raised trace panic) (hsubset : trace ⊆ trace') : Raised trace' panic := by
  cases h with
  | compared x y event raises => exact .compared x y (hsubset event) raises
  | cloned x event raises => exact .cloned x (hsubset event) raises
  | dropped x event raises => exact .dropped x (hsubset event) raises

def Excused (cause : Panic → Prop) (call : Traced α ρ) : Prop :=
  ∀ panic, call.result = .error panic → Raised call.trace panic ∨ cause panic

theorem excused_ok {value : ρ} : Excused cause (⟨.ok value, trace⟩ : Traced α ρ) :=
  fun _ h => by cases h

theorem excused_error (h : Raised trace panic ∨ cause panic) :
    Excused cause (⟨.error panic, trace⟩ : Traced α ρ) := by
  intro panic' hpanic
  exact Except.error.inj hpanic ▸ h

theorem Excused.imp {call : Traced α ρ} (h : Excused cause call)
    (himp : ∀ panic, cause panic → cause' panic) : Excused cause' call :=
  fun panic hpanic => (h panic hpanic).imp id (himp panic)

/-- The state that is left, and what is made of the answer, are of no matter. -/
theorem Excused.map {σ : Type} {f : ρ → τ} {outcome : Outcome α σ ρ}
    (h : Excused cause outcome.toTraced) : Excused cause (outcome.map f).toTraced := by
  obtain ⟨⟨result, trace⟩, state⟩ := outcome
  cases result with
  | ok value => exact excused_ok
  | error panic => exact excused_error (h panic rfl)

theorem Excused.after {call : Traced α ρ} (h : Excused cause call) (events : List (Event α)) :
    Excused cause (call.after events) :=
  fun panic hpanic =>
    (h panic hpanic).imp (fun hraised => hraised.mono (List.subset_append_right ..)) id

theorem Inquiry.excused {P : ρ → Prop} {call : Traced α ρ} (h : Inquiry P call) :
    Excused cause call := by
  cases h with
  | answered value trace comparing holds => exact excused_ok
  | panicked x y panic trace comparing asked refused =>
      exact excused_error (.inl (.compared x y asked refused))

theorem excused_discardAll (xs : List α) : Excused cause (discardAll xs) := by
  unfold discardAll
  cases hfind : xs.findSome? dropPanic with
  | none => exact excused_ok
  | some panic =>
      obtain ⟨x, hx, hdrop⟩ := List.exists_of_findSome?_eq_some hfind
      exact excused_error (.inl (.dropped x (List.mem_map_of_mem hx) hdrop))

end Element

open Element

namespace LinkedList

variable {α : Type} [Element α] {list : LinkedList α} {content : Content α} {xs : List α}
  {memory : Memory} {error : InsertError}

/-! ## Causes -/

/-- What makes an operation on a list panic, other than its elements. -/
inductive Cause (list : LinkedList α) : Operation α → Panic → Prop
  /-- The list takes no element, and the operation has no answer for that. -/
  | refused (memory : Memory) (e : End) (x : α) (error : InsertError)
      (refuses : Refuses memory list error) : Cause list (.append memory e x) (.insertion error)
  | exceeding (additional : Nat) (exceeds : Exceeds additional list) :
      Cause list (.reserve additional) .capacityOverflow
  | stranded (detached : list.Detached) : Cause list .clear .nodesLeft
  /-- No storage has the room that the source hints at. -/
  | hinted (memory : Memory) (source : Source α) (exceeds : Exceeds source.hint list) :
      Cause list (.extend memory source) .capacityOverflow
  | broken (memory : Memory) (source : Source α) (fails : .fail ∈ source.pulls) :
      Cause list (.extend memory source) .source
  /-- There is no memory for one more element when the first were taken. -/
  | full (memory : Memory) (source : Source α) (taken : List (Pull α)) (pull : Pull α)
      (rest : List (Pull α)) (refusal : GrowthError) (split : source.pulls = taken ++ pull :: rest)
      (refuses : Refuses memory (list.extend memory ⟨source.hint, taken⟩).state
        (.outOfMemory refusal)) :
      Cause list (.extend memory source) (.insertion (.outOfMemory refusal))
  /-- The list takes none of the elements that the source has. -/
  | detached (memory : Memory) (source : Source α) (pending : source.pulls ≠ [])
      (detached : list.Detached) :
      Cause list (.extend memory source) (.insertion (.notEmpty list.len))

theorem Refuses.detached_of_notEmpty {len : Nat} (h : Refuses memory list (.notEmpty len)) :
    len = list.len ∧ list.Detached := by
  cases h with
  | notEmpty detached => exact ⟨rfl, detached⟩

/-- The operation gets what it needs: slots for its elements, room that is not
out of reach, and a source that does not panic. -/
def Supplies (list : LinkedList α) : Operation α → Prop
  | .append memory _ _ => ¬list.nodes.Full memory
  | .tryAppend memory _ _ => ¬list.nodes.Full memory
  | .reserve additional => ¬Exceeds additional list
  | .extend memory source =>
      ¬Exceeds source.hint list ∧ .fail ∉ source.pulls ∧ ∀ i < source.pulls.length,
        ¬(list.extend memory ⟨source.hint, source.pulls.take i⟩).state.nodes.Full memory
  | _ => True

instance [DecidableEq α] (list : LinkedList α) : DecidablePred list.Supplies
  | .append memory _ _ => inferInstanceAs (Decidable (¬list.nodes.Full memory))
  | .tryAppend memory _ _ => inferInstanceAs (Decidable (¬list.nodes.Full memory))
  | .reserve additional => inferInstanceAs (Decidable (¬Exceeds additional list))
  | .extend memory source =>
      inferInstanceAs (Decidable (¬Exceeds source.hint list ∧ .fail ∉ source.pulls
        ∧ ∀ i < source.pulls.length,
          ¬(list.extend memory ⟨source.hint, source.pulls.take i⟩).state.nodes.Full memory))
  | .len | .isEmpty | .outermost _ | .contents _ | .delete _ _ | .find _ _ | .clear
  | .iterate _ => isTrue trivial

/-- A list that has its links has no other cause to fail an operation. -/
theorem Supplies.not_cause {operation : Operation α} {panic : Panic}
    (h : list.Supplies operation) (hlist : list.Holds (.linked xs)) :
    ¬Cause list operation panic := by
  intro hcause
  cases hcause with
  | refused memory e x error refuses =>
      cases refuses with
      | outOfMemory full growth => exact h ⟨full, _, growth⟩
      | notEmpty detached => exact hlist.not_detached detached
  | exceeding additional exceeds => exact h exceeds
  | stranded detached => exact hlist.not_detached detached
  | hinted memory source exceeds => exact h.1 exceeds
  | broken memory source fails => exact h.2.1 fails
  | full memory source taken pull rest refusal split refuses =>
      have hlt : taken.length < source.pulls.length := by simp [split]
      have htaken : source.pulls.take taken.length = taken := by simp [split]
      have hroom := h.2.2 taken.length hlt
      rw [htaken] at hroom
      cases refuses with
      | outOfMemory full growth => exact hroom ⟨full, _, growth⟩
  | detached memory source pending detached => exact hlist.not_detached detached

omit [Element α] in
theorem isDetached_append : (content.append xs).IsDetached ↔ content.IsDetached := by
  cases content <;> exact Iff.rfl

theorem Holds.cause_of_refuses (h : list.Holds content) {source : Source α}
    {taken rest : List (Pull α)} {pull : Pull α} (hsplit : source.pulls = taken ++ pull :: rest)
    (h' : (list.extend memory ⟨source.hint, taken⟩).state.Holds (content.append xs))
    (hnone : content.IsDetached → xs = [])
    (hrefuses : Refuses memory (list.extend memory ⟨source.hint, taken⟩).state error) :
    Cause list (.extend memory source) (.insertion error) := by
  cases error with
  | outOfMemory refusal => exact .full memory source taken pull rest refusal hsplit hrefuses
  | notEmpty len =>
      obtain ⟨hlen, hstate⟩ := hrefuses.detached_of_notEmpty
      have hdetached : content.IsDetached := isDetached_append.mp (h'.detached_iff.mp hstate)
      rw [h'.len, hnone hdetached, Content.append_nil, ← h.len] at hlen
      rw [hlen]
      refine .detached memory source ?_ (h.detached_iff.mpr hdetached)
      intro hnil
      rw [hsplit] at hnil
      exact absurd hnil (List.append_ne_nil_of_right_ne_nil taken (List.cons_ne_nil pull rest))

theorem raised_or_refused {trace : List (Event α)} {x : α} (hdropped : .dropped x ∈ trace)
    (error : InsertError) :
    Raised trace ((dropPanic x).getD (.insertion error))
      ∨ (dropPanic x).getD (.insertion error) = .insertion error := by
  cases hdrop : dropPanic x with
  | none => exact .inr rfl
  | some panic => exact .inl (.dropped x hdropped hdrop)

theorem Interrupted.raised_or {pull : Pull α} {panic : Panic} {events : List (Event α)}
    (h : Interrupted memory list pull panic events) :
    Raised events panic ∨ (pull = .fail ∧ panic = .source)
      ∨ ∃ error, Refuses memory list error ∧ panic = .insertion error := by
  cases h with
  | broken handed =>
      cases pull with
      | give x => cases handed
      | copy model => exact .inl (.cloned model (List.mem_singleton_self _) handed)
      | fail => exact .inr (.inl ⟨rfl, (Except.error.inj handed).symm⟩)
  | @refused x error lines handed refuses =>
      have hdropped : Event.dropped x ∈ pull.asks ++ lines.map .logged ++ [.dropped x] :=
        List.mem_append_right _ (List.mem_singleton_self _)
      exact (raised_or_refused hdropped error).imp id fun hpanic => .inr ⟨error, refuses, hpanic⟩

/-! ## Operations -/

theorem Holds.append_excused (h : list.Holds content) (memory : Memory) (e : End) (x : α) :
    Excused (Cause list (.append memory e x)) (list.append memory e x).toTraced := by
  rcases h.append_cases memory e x with
    ⟨xs, list', lines, -, -, happend⟩ | ⟨error, lines, hrefuses, happend⟩
  · rw [happend]
    exact excused_ok
  · rw [happend, rejecting_eq]
    refine excused_error ?_
    rcases raised_or_refused (List.mem_append_right (lines.map .logged)
      (List.mem_singleton_self (Event.dropped x))) error with hraised | hpanic
    · exact .inl hraised
    · rw [hpanic]
      exact .inr (.refused memory e x error hrefuses)

theorem Holds.tryAppend_excused (h : list.Holds content) (memory : Memory) (e : End) (x : α) :
    Excused (Cause list (.tryAppend memory e x)) (list.tryAppend memory e x).toTraced := by
  rcases h.tryAppend_cases memory e x with
    ⟨xs, list', lines, -, -, htry⟩ | ⟨error, lines, -, htry⟩
  · rw [htry]
    exact excused_ok
  · rw [htry]
    have hdiscard : Excused (Cause list (.tryAppend memory e x))
        ((Element.discard x).leaving list).toTraced := excused_discardAll [x]
    exact hdiscard.map.after (lines.map .logged)

theorem Holds.delete_excused (h : list.Holds content) (e : End) (value : α) :
    Excused (Cause list (.delete e value)) (list.delete e value).toTraced := by
  rcases h.delete_cases e value with
    ⟨xs, front, x, back, list', lines, -, -, -, -, -, hdelete⟩ |
    ⟨-, hdelete⟩ | ⟨xs, front, x, back, panic, -, -, hrefused, hdelete⟩
  · rw [hdelete]
    have hdiscard : Excused (Cause list (.delete e value))
        ((Element.discard x).leaving list').toTraced := excused_discardAll [x]
    exact hdiscard.map.after (asked value (front ++ [x]) ++ lines.map .logged)
  · rw [hdelete]
    exact excused_ok
  · rw [hdelete]
    have hasked : Event.compared x value ∈ asked value (front ++ [x]) :=
      List.mem_map.mpr ⟨x, List.mem_append_right _ (List.mem_singleton_self x), rfl⟩
    exact excused_error (.inl (.compared x value hasked hrefused))

theorem Holds.clear_excused (h : list.Holds content) :
    Excused (Cause list .clear) list.clear.toTraced := by
  rcases h.clear_cases with ⟨xs, list', line, -, -, -, hclear⟩ |
    ⟨front, x, back, panic, list', -, -, hdrop, -, hclear⟩ | ⟨hdetached, hclear⟩
  · rw [hclear]
    exact excused_ok
  · rw [hclear]
    have hdropped : Event.dropped x ∈ departures (front ++ [x]) :=
      List.mem_map_of_mem (List.mem_append_right _ (List.mem_singleton_self x))
    exact excused_error (.inl (.dropped x hdropped hdrop))
  · rw [hclear]
    exact excused_error (.inr (.stranded hdetached))

theorem Holds.extend_excused (h : list.Holds content) (memory : Memory) (source : Source α) :
    Excused (Cause list (.extend memory source)) (list.extend memory source).toTraced := by
  have hextend := h.extend_cases memory source
  generalize list.extend memory source = call at hextend ⊢
  cases hextend with
  | exceeding exceeds holds => exact excused_error (.inr (.hinted memory source exceeds))
  | done xs trace list' handed holds => exact excused_ok
  | stopped taken pull rest xs trace events list' panic split handed holds none_taken interrupted
      taking =>
      refine excused_error ?_
      rcases interrupted.raised_or with hraised | ⟨rfl, rfl⟩ | ⟨error, hrefuses, rfl⟩
      · refine .inl (hraised.mono ?_)
        intro event hevent
        exact List.mem_append_left _ (List.mem_append_right _ hevent)
      · refine .inr (.broken memory source ?_)
        rw [split]
        exact List.mem_append_right _ (List.mem_cons_self ..)
      · have hstate : (list.extend memory ⟨source.hint, taken⟩).state = list' := by
          rw [taking]
        rw [← hstate] at holds hrefuses
        exact .inr (h.cause_of_refuses split holds none_taken hrefuses)

/-- Every operation on a list that is as it should be panics by its elements
or for a cause. -/
theorem Holds.perform_excused (h : list.Holds content) :
    ∀ operation, Excused (Cause list operation) (list.perform operation).toTraced
  | .len => excused_ok
  | .isEmpty => excused_ok
  | .outermost e => by
      rw [perform, h.outermost? e]
      exact excused_ok
  | .contents e => by
      rw [perform, h.contents e]
      exact excused_ok
  | .append memory e x => (h.append_excused memory e x).map
  | .tryAppend memory e x => (h.tryAppend_excused memory e x).map
  | .delete e value => (h.delete_excused e value).map
  | .find e value =>
      have hfind : Excused _ ((list.find e value).leaving list).toTraced := (h.find e value).excused
      hfind.map
  | .clear => h.clear_excused.map
  | .reserve additional => by
      rw [perform]
      rcases h.reserve_cases additional with ⟨capacity, hreserve, -⟩ | ⟨hreserve, hexceeds⟩
      · rw [hreserve]
        exact excused_ok
      · rw [hreserve]
        exact excused_error (.inr (.exceeding additional hexceeds))
  | .extend memory source => (h.extend_excused memory source).map
  | .iterate script =>
      have hscript : Excused _ ((list.cursor.run script).leaving list).toTraced :=
        (h.iterate script).excused
      hscript.map

/-! ## Lists that come and go -/

theorem Holds.clone_excused (h : list.Holds content) {cause : Panic → Prop} :
    Excused cause list.clone := by
  rcases h.clone_cases with
    ⟨list', -, -, hclone⟩ | ⟨front, x, back, panic, -, -, hrefused, hclone⟩
  · rw [hclone]
    exact excused_ok
  · rw [hclone]
    have hcloned : Event.cloned x ∈ copying (front ++ [x]) :=
      List.mem_map_of_mem (List.mem_append_right _ (List.mem_singleton_self x))
    exact excused_error (.inl (.cloned x (List.mem_append_left _ hcloned) hrefused))

theorem withCapacity_excused (n : Nat) :
    Excused (fun panic => Capacity.limit (Node α) ≤ n ∧ panic = .capacityOverflow)
      (Traced.ofExcept (withCapacity n) : Traced α (LinkedList α)) := by
  rw [withCapacity, Pool.withCapacity_eq]
  by_cases hn : Capacity.limit (Node α) ≤ n
  · rw [if_pos hn]
    exact excused_error (.inr ⟨hn, rfl⟩)
  · rw [if_neg hn]
    exact excused_ok

theorem ofSource_excused (memory : Memory) (source : Source α) :
    Excused (Cause .empty (.extend memory source)) (ofSource memory source) := by
  have hextend := holds_empty.extend_excused memory source
  unfold ofSource
  generalize (empty : LinkedList α).extend memory source = call at hextend ⊢
  obtain ⟨⟨result, trace⟩, list⟩ := call
  cases result with
  | ok _ => exact excused_ok
  | error panic =>
      refine excused_error ((hextend panic rfl).imp ?_ id)
      intro hraised
      exact hraised.mono (List.subset_append_left ..)

theorem Holds.destroy_excused (h : list.Holds content) :
    Excused (fun panic => list.Detached ∧ panic = .nodesLeft) list.destroy := by
  have hclear := h.clear_excused
  unfold destroy
  generalize list.clear = call at hclear ⊢
  obtain ⟨⟨result, trace⟩, list'⟩ := call
  cases result with
  | ok _ => exact (excused_discardAll list'.stored).after trace
  | error panic =>
      refine excused_error ((hclear panic rfl).imp ?_ ?_)
      · intro hraised
        exact hraised.mono (List.subset_append_left ..)
      · intro hcause
        cases hcause with
        | stranded detached => exact ⟨detached, rfl⟩

end LinkedList

end LinkedPool
