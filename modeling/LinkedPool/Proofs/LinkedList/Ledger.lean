import LinkedPool.LinkedList.Operation
import LinkedPool.Proofs.Element.Ledger
import LinkedPool.Proofs.Sequence.Operation

/-!
# Operations keep their elements

Every operation on a list leaves a list as it should be, whether it answers
or panics, and accounts for its elements (`Holds.perform_kept`): what was in
the list, what was given to the operation and what it copied is in the list
or was dropped. Only a clear that panics before the last element makes a
list detached. The same is said of the ways in which lists come and go.
-/

namespace LinkedPool

open Element

variable {α : Type}

def Source.owned (source : Source α) : List α := source.pulls.filterMap Pull.owned?

/-- The elements that are given to an operation for good. -/
def Operation.given : Operation α → List α
  | .append _ _ x => [x]
  | .tryAppend _ _ x => [x]
  | .extend _ source => source.owned
  | _ => []

namespace LinkedList

variable [Element α] {ρ : Type} {list : LinkedList α} {content content' : Content α}
  {xs given : List α}

/-! ## Sources -/

omit [Element α] in
@[simp] theorem dropsIn_asks (pull : Pull α) : dropsIn pull.asks = [] := by
  cases pull <;> rfl

/-- What a pull hands over it owned, or it was copied for it. -/
theorem owned_append_copiesIn_asks {pull : Pull α} {x : α} (h : pull.handed = .ok x) :
    pull.owned?.toList ++ copiesIn pull.asks = [x] := by
  cases pull with
  | give y =>
      obtain rfl := Except.ok.inj h
      rfl
  | copy model =>
      have hcopy : (Element.clone model).toOption = some x := by
        rw [show Element.clone model = .ok x from h]
        rfl
      simp [Pull.owned?, Pull.asks, copiesIn, hcopy]
  | fail => cases h

theorem owned_append_copiesIn_asks_of_error {pull : Pull α} {panic : Panic}
    (h : pull.handed = .error panic) : pull.owned?.toList ++ copiesIn pull.asks = [] := by
  cases pull with
  | give y => cases h
  | copy model =>
      have hcopy : (Element.clone model).toOption = none := by
        rw [show Element.clone model = .error panic from h]
        rfl
      simp [Pull.owned?, Pull.asks, copiesIn, hcopy]
  | fail => rfl

theorem Handed.accounted {pulls : List (Pull α)} {trace : List (Event α)}
    (h : Handed pulls xs trace) (held : List α) :
    Accounted held (pulls.filterMap Pull.owned?) (held ++ xs) trace := by
  induction h generalizing held with
  | nil => exact (comparing_nil.accounted held).congr (.refl _) (.of_eq (List.append_nil _).symm)
  | @cons pull pulls x xs trace lines handed _ ih =>
      have hpull : Accounted held pull.owned?.toList (held ++ [x])
          (pull.asks ++ lines.map .logged) := by
        simp only [Accounted, dropsIn_append, dropsIn_asks, dropsIn_lines, copiesIn_append,
          copiesIn_lines, List.append_nil, List.append_assoc, owned_append_copiesIn_asks handed]
        exact .refl _
      have hall := hpull.trans (ih (held ++ [x]))
      have hgiven : pull.owned?.toList ++ pulls.filterMap Pull.owned?
          = (pull :: pulls).filterMap Pull.owned? := by
        rw [List.filterMap_cons]
        cases pull.owned? <;> rfl
      rwa [hgiven, List.append_assoc, List.singleton_append] at hall

theorem Interrupted.accounted {memory : Memory} {pull : Pull α} {panic : Panic}
    {events : List (Event α)} (h : Interrupted memory list pull panic events) (held : List α) :
    Accounted held pull.owned?.toList held events := by
  cases h with
  | broken handed =>
      simp only [Accounted, dropsIn_asks, List.append_nil, List.append_assoc,
        owned_append_copiesIn_asks_of_error handed]
      exact .refl _
  | @refused x error lines handed refuses =>
      simp only [Accounted, dropsIn_append, dropsIn_asks, dropsIn_lines, dropsIn_dropped,
        copiesIn_append, copiesIn_lines, copiesIn_dropped, List.nil_append, List.append_nil,
        List.append_assoc, owned_append_copiesIn_asks handed]
      exact .refl _

theorem leftovers_accounted (pulls : List (Pull α)) (held : List α) :
    Accounted held (pulls.filterMap Pull.owned?) held (Source.leftovers pulls) := by
  simp only [Accounted, Source.leftovers, dropsIn_departures, copiesIn_departures, List.append_nil]
  exact .refl _

/-! ## Operations -/

/-- The list left by a call holds `content'`, and the call kept its elements. -/
structure Kept (content : Content α) (given : List α) (outcome : Outcome α (LinkedList α) ρ)
    (content' : Content α) : Prop where
  holds : outcome.state.Holds content'
  accounted : Accounted content.elements given content'.elements outcome.trace

/-- The call kept its elements, and did not lose the links to them. -/
def Keeps (content : Content α) (given : List α) (outcome : Outcome α (LinkedList α) ρ) : Prop :=
  ∃ content', Kept content given outcome content' ∧ (content'.IsDetached → content.IsDetached)

theorem keeps_of_accounted {result : Except Panic ρ} {trace : List (Event α)}
    (h : list.Holds content') (hlinked : content'.IsDetached → content.IsDetached)
    (haccounted : Accounted content.elements given content'.elements trace) :
    Keeps content given ⟨⟨result, trace⟩, list⟩ :=
  ⟨content', ⟨h, haccounted⟩, hlinked⟩

theorem keeps_of_comparing {result : Except Panic ρ} {trace : List (Event α)}
    (h : list.Holds content) (hcomparing : Comparing trace) :
    Keeps content [] ⟨⟨result, trace⟩, list⟩ :=
  keeps_of_accounted h id (hcomparing.accounted _)

theorem refused_accounted (x : α) (held : List α) (lines : List LogLine) :
    Accounted held [x] held (lines.map .logged ++ [.dropped x]) := by
  simp only [Accounted, dropsIn_append, dropsIn_lines, dropsIn_dropped, copiesIn_append,
    copiesIn_lines, copiesIn_dropped, List.nil_append, List.append_nil]
  exact .refl _

theorem taken_accounted (e : End) (x : α) (xs : List α) (lines : List LogLine) :
    Accounted xs [x] (e.listed (x :: e.listed xs)) (lines.map .logged) := by
  simp only [Accounted, dropsIn_lines, copiesIn_lines, List.append_nil]
  exact ((e.listed_perm _).trans ((e.listed_perm xs).cons x)).trans
    (List.perm_append_singleton x xs).symm

theorem deleted_accounted {e : End} {front back : List α} {x : α}
    (hsplit : e.listed xs = front ++ x :: back) (value : α) (lines : List LogLine) :
    Accounted xs [] (e.listed (front ++ back))
      (asked value (front ++ [x]) ++ lines.map .logged ++ [.dropped x]) := by
  have hxs : xs.Perm (front ++ x :: back) := hsplit ▸ (e.listed_perm xs).symm
  have hasked : Comparing (asked value (front ++ [x])) := comparing_asked value _
  simp only [Accounted, dropsIn_append, copiesIn_append, hasked.dropsIn, hasked.copiesIn,
    dropsIn_lines, copiesIn_lines, dropsIn_dropped, copiesIn_dropped, List.nil_append,
    List.append_nil]
  exact ((e.listed_perm _).append_right [x]).trans
    ((List.perm_append_singleton x _).trans (List.perm_middle.symm.trans hxs.symm))

theorem Holds.append_keeps (h : list.Holds content) (memory : Memory) (e : End) (x : α) :
    Keeps content [x] (list.append memory e x) := by
  rcases h.append_cases memory e x with
    ⟨xs, list', lines, rfl, hholds, happend⟩ | ⟨error, lines, -, happend⟩
  · rw [happend]
    exact keeps_of_accounted hholds id (taken_accounted e x xs lines)
  · rw [happend, rejecting_eq]
    exact keeps_of_accounted h id (refused_accounted x _ lines)

theorem Holds.tryAppend_keeps (h : list.Holds content) (memory : Memory) (e : End) (x : α) :
    Keeps content [x] (list.tryAppend memory e x) := by
  rcases h.tryAppend_cases memory e x with
    ⟨xs, list', lines, rfl, hholds, happend⟩ | ⟨error, lines, -, happend⟩
  · rw [happend]
    exact keeps_of_accounted hholds id (taken_accounted e x xs lines)
  · rw [happend]
    exact keeps_of_accounted h id (refused_accounted x _ lines)

theorem Holds.delete_keeps (h : list.Holds content) (e : End) (value : α) :
    Keeps content [] (list.delete e value) := by
  rcases h.delete_cases e value with
    ⟨xs, front, x, back, list', lines, rfl, hsplit, -, -, hholds, hdelete⟩ |
    ⟨-, hdelete⟩ | ⟨xs, front, x, back, panic, rfl, -, -, hdelete⟩
  · rw [hdelete]
    exact keeps_of_accounted hholds id (deleted_accounted hsplit value lines)
  · rw [hdelete]
    exact keeps_of_comparing h fun event => comparing_asked value _ event
  · rw [hdelete]
    exact keeps_of_comparing h fun event => comparing_asked value _ event

/-- An extension that answers took over all that the source had to hand over. -/
theorem Holds.extend_kept (h : list.Holds content) (memory : Memory) (source : Source α) :
    ∃ content', Kept content source.owned (list.extend memory source) content'
      ∧ (content'.IsDetached → content.IsDetached)
      ∧ ((list.extend memory source).result = .ok () →
        content' = content.append (Sequence.handedOver source)) := by
  have happend (ys : List α) : (content.append ys).IsDetached → content.IsDetached := by
    cases content <;> exact id
  have hextend := h.extend_cases memory source
  generalize list.extend memory source = call at hextend ⊢
  cases hextend with
  | exceeding exceeds holds =>
      exact ⟨content, ⟨h, leftovers_accounted ..⟩, id, fun hok => by cases hok⟩
  | done xs trace list' handed holds =>
      refine ⟨_, ⟨holds, ?_⟩, happend xs, ?_⟩
      · rw [Content.elements_append]
        exact handed.accounted content.elements
      · intro _
        exact congrArg content.append (Sequence.handedOver_eq handed).symm
  | stopped taken pull rest xs trace events list' panic split handed holds none_taken interrupted =>
      refine ⟨_, ⟨holds, ?_⟩, happend xs, fun hok => by cases hok⟩
      have hall := ((handed.accounted content.elements).trans (interrupted.accounted _)).trans
        (leftovers_accounted rest _)
      have hgiven : taken.filterMap Pull.owned? ++ pull.owned?.toList
          ++ rest.filterMap Pull.owned? = source.owned := by
        rw [Source.owned, split, List.filterMap_append, List.filterMap_cons, List.append_assoc]
        cases pull.owned? <;> rfl
      rw [hgiven] at hall
      rwa [Content.elements_append]

theorem Holds.extend_keeps (h : list.Holds content) (memory : Memory) (source : Source α) :
    Keeps content source.owned (list.extend memory source) := by
  obtain ⟨content', hkept, hlinked, -⟩ := h.extend_kept memory source
  exact ⟨content', hkept, hlinked⟩

/-- A clear of a list that held `content` ended with `result` and detached
it: the drop of an element panicked which is not the last one. -/
def Detaches (content : Content α) (result : Except Panic ρ) : Prop :=
  ∃ (front : List α) (x : α) (back : List α) (panic : Panic),
    content = .linked (front ++ x :: back) ∧ back ≠ [] ∧ Calm front
      ∧ dropPanic x = some panic ∧ result = .error panic

theorem Holds.clear_kept (h : list.Holds content) :
    ∃ content', Kept content [] list.clear content'
      ∧ (content'.IsDetached → content.IsDetached ∨ Detaches content list.clear.result) := by
  rcases h.clear_cases with ⟨xs, list', line, rfl, -, hholds, hclear⟩ |
    ⟨front, x, back, panic, list', rfl, hcalm, hdrop, hholds, hclear⟩ | ⟨-, hclear⟩
  · refine ⟨.linked [], ⟨by rw [hclear]; exact hholds, ?_⟩, False.elim⟩
    rw [hclear]
    have hline : [Event.logged line] = [line].map (Event.logged (α := α)) := rfl
    simp only [Accounted, hline, dropsIn_append, copiesIn_append, dropsIn_departures,
      copiesIn_departures, dropsIn_lines, copiesIn_lines, List.append_nil]
    exact .refl _
  · refine ⟨leftBehind back, ⟨by rw [hclear]; exact hholds, ?_⟩, fun hdetached => .inr ?_⟩
    · rw [hclear]
      simp only [Accounted, elements_leftBehind, dropsIn_departures, copiesIn_departures,
        List.append_nil]
      exact List.perm_append_comm.trans (.of_eq (by simp [Content.elements]))
    · refine ⟨front, x, back, panic, rfl, ?_, hcalm, hdrop, by rw [hclear]⟩
      rintro rfl
      exact hdetached
  · rw [hclear]
    exact ⟨content, ⟨h, comparing_nil.accounted _⟩, .inl⟩

theorem Keeps.map {τ : Type} {f : ρ → τ} {outcome : Outcome α (LinkedList α) ρ}
    (h : Keeps content given outcome) : Keeps content given (outcome.map f) := by
  obtain ⟨content', ⟨hholds, haccounted⟩, hlinked⟩ := h
  exact ⟨content', ⟨hholds, haccounted⟩, hlinked⟩

theorem Holds.perform_keeps (h : list.Holds content) :
    ∀ operation, operation ≠ .clear →
      Keeps content operation.given (list.perform operation)
  | .len, _ => keeps_of_comparing h comparing_nil
  | .isEmpty, _ => keeps_of_comparing h comparing_nil
  | .outermost _, _ => keeps_of_comparing h comparing_nil
  | .contents _, _ => keeps_of_comparing h comparing_nil
  | .append memory e x, _ => (h.append_keeps memory e x).map
  | .tryAppend memory e x, _ => (h.tryAppend_keeps memory e x).map
  | .delete e value, _ => (h.delete_keeps e value).map
  | .find e value, _ => (keeps_of_comparing h (h.find e value).comparing).map
  | .clear, hclear => absurd rfl hclear
  | .reserve additional, _ => by
      rw [LinkedList.perform]
      rcases h.reserve_cases additional with ⟨capacity, hreserve, hholds⟩ | ⟨hreserve, -⟩
      · rw [hreserve]
        exact keeps_of_comparing hholds comparing_nil
      · rw [hreserve]
        exact keeps_of_comparing h comparing_nil
  | .extend memory source, _ => (h.extend_keeps memory source).map
  | .iterate script, _ =>
      (keeps_of_comparing h (h.iterate script).comparing).map

/-- Every operation leaves a list as it should be and keeps its elements; a
linked list is detached by a clear that panics, and by nothing else. -/
theorem Holds.perform_kept (h : list.Holds content) (operation : Operation α) :
    ∃ content', Kept content operation.given (list.perform operation) content'
      ∧ (content'.IsDetached → content.IsDetached
        ∨ operation = .clear ∧ Detaches content (list.perform operation).result) := by
  by_cases hclear : operation = .clear
  · subst hclear
    obtain ⟨content', ⟨hholds, haccounted⟩, hdetached⟩ := h.clear_kept
    refine ⟨content', ⟨hholds, haccounted⟩, fun hlost => (hdetached hlost).imp id ?_⟩
    intro hpanic
    obtain ⟨front, x, back, panic, hcontent, hback, hcalm, hdrop, hresult⟩ := hpanic
    refine ⟨rfl, front, x, back, panic, hcontent, hback, hcalm, hdrop, ?_⟩
    rw [LinkedList.perform, Outcome.map, hresult]
    rfl
  · obtain ⟨content', hkept, hlinked⟩ := h.perform_keeps operation hclear
    exact ⟨content', hkept, fun hlost => .inl (hlinked hlost)⟩

/-! ## Lists that come and go -/

/-- A new list holds a content that satisfies `P`, which is what was given
to the call and copied in it; or all of that was dropped. -/
inductive Builds (given : List α) (P : Content α → Prop) : Traced α (LinkedList α) → Prop
  | built (list : LinkedList α) (content : Content α) (trace : List (Event α))
      (holds : list.Holds content) (accounted : Accounted [] given content.elements trace)
      (satisfies : P content) : Builds given P ⟨.ok list, trace⟩
  | failed (panic : Panic) (trace : List (Event α)) (accounted : Accounted [] given [] trace) :
      Builds given P ⟨.error panic, trace⟩

theorem Builds.imp {P Q : Content α → Prop} {call : Traced α (LinkedList α)}
    (h : Builds given P call) (himp : ∀ content, P content → Q content) :
    Builds given Q call := by
  cases h with
  | built list content trace holds accounted satisfies =>
      exact .built list content trace holds accounted (himp content satisfies)
  | failed panic trace accounted => exact .failed panic trace accounted

theorem withCapacity_builds (n : Nat) :
    Builds [] (fun content => content = .linked [])
      (Traced.ofExcept (withCapacity n) : Traced α (LinkedList α)) := by
  rw [withCapacity, Pool.withCapacity_eq]
  by_cases hn : Capacity.limit (Node α) ≤ n
  · rw [if_pos hn]
    exact .failed .capacityOverflow [] (comparing_nil.accounted _)
  · rw [if_neg hn]
    have hvalid : (Pool.ofVacant n : Pool (Node α)).Valid (List.range n) :=
      Pool.valid_ofVacant (Nat.lt_of_not_le hn)
    exact .built _ (.linked []) [] (linked_none (e := .head) hvalid rfl).holds
      (comparing_nil.accounted _) rfl

theorem Holds.clone_builds (h : list.Holds content) :
    Builds [] (fun content' => content' = content.map twin) list.clone := by
  rcases h.clone_cases with
    ⟨list', hholds, hcopied, hclone⟩ | ⟨front, x, back, panic, -, hcopied, hx, hclone⟩
  · rw [hclone]
    have helements : (content.map twin).elements = content.elements.map twin := by
      cases content <;> rfl
    refine .built list' _ _ hholds ?_ rfl
    rw [Accounted, dropsIn_copying, copiesIn_copying hcopied, helements, List.append_nil]
    exact (h.stored_perm.map twin).symm
  · rw [hclone]
    refine .failed panic _ ?_
    simp only [Accounted, dropsIn_append, dropsIn_copying, dropsIn_departures, copiesIn_append,
      copiesIn_copying_stopped hcopied hx, copiesIn_departures, List.nil_append, List.append_nil]
    exact .refl _

theorem ofSource_builds (memory : Memory) (source : Source α) :
    Builds source.owned (fun content => content = .linked (Sequence.handedOver source))
      (ofSource memory source) := by
  obtain ⟨content, ⟨hholds, haccounted⟩, -, hcontent⟩ := holds_empty.extend_kept memory source
  unfold ofSource
  generalize (empty : LinkedList α).extend memory source = call at hholds haccounted hcontent ⊢
  obtain ⟨⟨result, trace⟩, list⟩ := call
  cases result with
  | ok _ =>
      show Builds source.owned _ ⟨.ok list, trace ++ []⟩
      rw [List.append_nil]
      exact .built list content trace hholds haccounted (hcontent rfl)
  | error panic =>
      refine .failed panic _ ?_
      have hdropped : Accounted content.elements [] [] (departures list.stored) := by
        simp only [Accounted, dropsIn_departures, copiesIn_departures, List.append_nil]
        exact hholds.stored_perm
      have hall := haccounted.trans hdropped
      rwa [List.append_nil] at hall

theorem Holds.discard_accounted (h : list.Holds content) :
    Accounted content.elements [] [] list.discard.trace := by
  rw [LinkedList.discard, Element.discardAll]
  show Accounted content.elements [] [] (departures list.stored)
  simp only [Accounted, dropsIn_departures, copiesIn_departures, List.append_nil]
  exact h.stored_perm

theorem Holds.destroy_accounted (h : list.Holds content) :
    Accounted content.elements [] [] list.destroy.trace := by
  obtain ⟨content', ⟨hholds, haccounted⟩, -⟩ := h.clear_kept
  have hall := haccounted.trans hholds.discard_accounted
  rw [List.append_nil] at hall
  unfold destroy
  generalize list.clear = call at hall ⊢
  obtain ⟨⟨result, trace⟩, list'⟩ := call
  cases result <;> exact hall

end LinkedList

end LinkedPool
