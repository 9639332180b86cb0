import LinkedPool.Proofs.LinkedList.Clone
import LinkedPool.Proofs.LinkedList.Extend
import LinkedPool.Proofs.Sequence.Script

/-!
# Operations on sequences

A list that holds a sequence answers every operation as the sequence does,
and then holds what the sequence has become (`Holds.performs`), as long as
nothing panics and storage is to be had. The slots of the list, and how it
came to be linked through them, do not enter into it.
-/

namespace LinkedPool

open Element

namespace Element

variable {α : Type} [Element α] {value x : α} {xs front back : List α}

theorem Denied.findIdx?_eq_none (h : Denied value xs) : xs.findIdx? (same · value) = none := by
  rw [List.findIdx?_eq_none_iff]
  intro x hx
  exact same_of_equal (h x hx)

theorem Denied.findIdx?_append (h : Denied value front) (hx : equal x value = .ok true) :
    (front ++ x :: back).findIdx? (same · value) = some front.length := by
  rw [List.findIdx?_append, h.findIdx?_eq_none, List.findIdx?_cons, same_of_equal hx]
  simp

end Element

namespace Sequence

variable {α : Type} {xs front back : List α} {x : α}

theorem eraseIdx_stepsFromFront {e : End} (h : e.listed xs = front ++ x :: back) :
    xs.eraseIdx (Cursor.stepsFromFront e xs.length front.length) = e.listed (front ++ back) := by
  have hxs : xs = e.listed (front ++ x :: back) := by rw [← h, e.listed_listed]
  subst hxs
  cases e with
  | head => simp [End.listed, Cursor.stepsFromFront, List.eraseIdx_append_of_length_le]
  | tail =>
      have hsteps : (front ++ x :: back).length - 1 - front.length = back.reverse.length := by
        simp only [List.length_append, List.length_cons, List.length_reverse]
        omega
      simp only [End.listed, List.length_reverse, Cursor.stepsFromFront, hsteps]
      simp [List.eraseIdx_append_of_length_le]

variable [Element α]

theorem handedOver_eq {pulls : List (Pull α)} {trace : List (Event α)} {hint : Nat}
    (h : LinkedList.Handed pulls xs trace) : handedOver ⟨hint, pulls⟩ = xs := by
  induction h with
  | nil => rfl
  | @cons pull pulls x xs trace lines handed _ ih =>
      cases pull with
      | give y =>
          obtain rfl := Except.ok.inj handed
          exact congrArg (y :: ·) ih
      | copy model =>
          have htwin : twin model = x := by
            rw [twin, show Element.clone model = .ok x from handed]
          rw [← htwin]
          exact congrArg (twin model :: ·) ih
      | fail => cases handed

end Sequence

namespace LinkedList

open Cells

variable {α : Type} [Element α] {list : LinkedList α} {content : Content α} {xs : List α}
  {reply : Reply α}

theorem Refuses.outOfMemory_of_linked {memory : Memory} {error : InsertError}
    (h : Refuses memory list error) (hlist : list.Holds (.linked xs)) :
    ∃ refusal, error = .outOfMemory refusal := by
  cases h with
  | outOfMemory full growth => exact ⟨_, rfl⟩
  | notEmpty detached => exact absurd detached hlist.not_detached

/-- If the operation neither panics nor fails for want of storage, its reply
and the list after it are those of the sequence. -/
def Matches (outcome : Outcome α (LinkedList α) (Reply α)) (performed : Reply α × List α) : Prop :=
  ∀ reply, outcome.result = .ok reply →
    (∀ refusal, reply ≠ .insertion (.error (.outOfMemory refusal))) →
    reply = performed.1 ∧ outcome.state.Holds (.linked performed.2)

omit [Element α] in
theorem matches_ok {trace : List (Event α)} (h : list.Holds (.linked xs)) :
    Matches ⟨⟨.ok reply, trace⟩, list⟩ (reply, xs) :=
  fun _ hok _ => ⟨(Except.ok.inj hok).symm, h⟩

omit [Element α] in
theorem matches_error {trace : List (Event α)} {panic : Panic}
    {performed : Reply α × List α} : Matches ⟨⟨.error panic, trace⟩, list⟩ performed :=
  fun _ hok _ => by cases hok

theorem matches_inquiry {ρ : Type} {value : ρ} {f : ρ → Reply α} {call : Traced α ρ}
    (h : list.Holds (.linked xs)) (hcall : Inquiry (fun answer => answer = value) call) :
    Matches ((call.leaving list).map f) (f value, xs) := by
  cases hcall with
  | answered answer trace comparing holds => exact holds ▸ matches_ok h
  | panicked x y panic trace comparing asked refused => exact matches_error

omit [Element α] in
theorem listed_cons (e : End) (x : α) (xs : List α) :
    e.listed (x :: e.listed xs) = match e with | .head => x :: xs | .tail => xs ++ [x] := by
  cases e <;> simp [End.listed]

theorem Holds.append_matches (h : list.Holds (.linked xs)) (memory : Memory) (e : End) (x : α) :
    Matches (list.perform (.append memory e x)) (Sequence.perform xs (.append memory e x)) := by
  rw [LinkedList.perform]
  rcases h.append_cases memory e x with
    ⟨_, list', lines, hxs, hholds, happend⟩ | ⟨error, lines, -, happend⟩
  · obtain rfl := Content.linked.inj hxs
    rw [listed_cons] at hholds
    rw [happend]
    cases e <;> exact matches_ok hholds
  · rw [happend, rejecting_eq]
    exact matches_error

theorem Holds.tryAppend_matches (h : list.Holds (.linked xs)) (memory : Memory) (e : End) (x : α) :
    Matches (list.perform (.tryAppend memory e x))
      (Sequence.perform xs (.tryAppend memory e x)) := by
  rw [LinkedList.perform]
  rcases h.tryAppend_cases memory e x with
    ⟨_, list', lines, hxs, hholds, happend⟩ | ⟨error, lines, hrefuses, happend⟩
  · obtain rfl := Content.linked.inj hxs
    rw [listed_cons] at hholds
    rw [happend]
    cases e <;> exact matches_ok hholds
  · obtain ⟨refusal, rfl⟩ := hrefuses.outOfMemory_of_linked h
    rw [happend]
    rcases discard_cases x with ⟨-, hdrop⟩ | ⟨panic, -, hdrop⟩
    · rw [hdrop]
      intro reply hok hgrown
      exact absurd (Except.ok.inj hok).symm (hgrown refusal)
    · rw [hdrop]
      exact matches_error

theorem Holds.delete_matches (h : list.Holds (.linked xs)) (e : End) (value : α) :
    Matches (list.perform (.delete e value)) (Sequence.perform xs (.delete e value)) := by
  rw [LinkedList.perform, Sequence.perform, Sequence.index_eq]
  rcases h.delete_cases e value with
    ⟨_, front, x, back, list', lines, hxs, hsplit, hdenied, hx, hholds, hdelete⟩ |
    ⟨hdenied, hdelete⟩ | ⟨_, front, x, back, panic, -, -, -, hdelete⟩
  · obtain rfl := Content.linked.inj hxs
    rw [hdelete, hsplit, hdenied.findIdx?_append hx]
    rw [← Sequence.eraseIdx_stepsFromFront hsplit] at hholds
    rcases discard_cases x with ⟨-, hdrop⟩ | ⟨panic, -, hdrop⟩
    · rw [hdrop]
      exact matches_ok hholds
    · rw [hdrop]
      exact matches_error
  · have hnone : (e.listed xs).findIdx? (same · value) = none := hdenied.findIdx?_eq_none
    rw [hdelete, hnone]
    exact matches_ok h
  · rw [hdelete]
    exact matches_error

theorem Holds.find_matches (h : list.Holds (.linked xs)) (e : End) (value : α) :
    Matches (list.perform (.find e value)) (Sequence.perform xs (.find e value)) := by
  have hfind := h.find e value
  rw [show list.len = xs.length from h.len] at hfind
  rw [Sequence.perform, Sequence.index_eq]
  exact matches_inquiry h hfind

theorem Holds.clear_matches (h : list.Holds (.linked xs)) :
    Matches (list.perform .clear) (Sequence.perform xs .clear) := by
  rw [LinkedList.perform]
  rcases h.clear_cases with ⟨_, list', line, -, -, hholds, hclear⟩ |
    ⟨front, x, back, panic, list', -, -, -, -, hclear⟩ | ⟨hdetached, -⟩
  · rw [hclear]
    exact matches_ok hholds
  · rw [hclear]
    exact matches_error
  · exact absurd hdetached h.not_detached

theorem Holds.reserve_matches (h : list.Holds (.linked xs)) (additional : Nat) :
    Matches (list.perform (.reserve additional)) (Sequence.perform xs (.reserve additional)) := by
  rw [LinkedList.perform]
  rcases h.reserve_cases additional with ⟨capacity, hreserve, hholds⟩ | ⟨hreserve, -⟩
  · rw [hreserve]
    exact matches_ok hholds
  · rw [hreserve]
    exact matches_error

theorem Holds.extend_matches (h : list.Holds (.linked xs)) (memory : Memory) (source : Source α) :
    Matches (list.perform (.extend memory source))
      (Sequence.perform xs (.extend memory source)) := by
  rw [LinkedList.perform]
  have hextend := h.extend_cases memory source
  generalize list.extend memory source = call at hextend ⊢
  cases hextend with
  | exceeding exceeds holds => exact matches_error
  | done ys trace list' handed holds =>
      rw [Sequence.perform, Sequence.handedOver_eq handed]
      exact matches_ok holds
  | stopped taken pull rest ys trace events list' panic split handed holds none_taken interrupted =>
      exact matches_error

theorem Holds.iterate (h : list.Holds content) (script : List (Cursor.Command α)) :
    Inquiry (fun answers => content.lost = 0 →
        answers = (Sequence.Windows.ofSequence content.reached).performAll script)
      (list.cursor.run script) :=
  (Cursor.shows_ofCursor (h.yields .head)).performAll script

theorem Holds.iterate_matches (h : list.Holds (.linked xs)) (script : List (Cursor.Command α)) :
    Matches (list.perform (.iterate script)) (Sequence.perform xs (.iterate script)) := by
  refine matches_inquiry h ((h.iterate script).imp ?_)
  intro answers hanswers
  exact hanswers rfl

/-- A list that holds a sequence does with every operation what the sequence does. -/
theorem Holds.performs (h : list.Holds (.linked xs)) :
    ∀ operation, Matches (list.perform operation) (Sequence.perform xs operation)
  | .len => by
      rw [LinkedList.perform, h.len]
      exact matches_ok h
  | .isEmpty => by
      rw [LinkedList.perform, h.isEmpty]
      exact matches_ok h
  | .outermost e => by
      rw [LinkedList.perform, h.outermost? e, Sequence.head?_listed]
      cases e <;> exact matches_ok h
  | .contents e => by
      rw [LinkedList.perform, h.contents e]
      cases e <;> exact matches_ok h
  | .append memory e x => h.append_matches memory e x
  | .tryAppend memory e x => h.tryAppend_matches memory e x
  | .delete e value => h.delete_matches e value
  | .find e value => h.find_matches e value
  | .clear => h.clear_matches
  | .reserve additional => h.reserve_matches additional
  | .extend memory source => h.extend_matches memory source
  | .iterate script => h.iterate_matches script

/-- An operation answers that the list takes no element only if it is an
insertion that may say so, and the list has that reason. -/
theorem Holds.refuses_of_reply (h : list.Holds content) {operation : Operation α}
    {error : InsertError}
    (hreply : (list.perform operation).result = .ok (.insertion (.error error))) :
    ∃ memory e x, operation = .tryAppend memory e x ∧ Refuses memory list error := by
  cases operation with
  | tryAppend memory e x =>
      obtain ⟨inserted, htry, hinserted⟩ := Outcome.exists_of_map_eq_ok hreply
      obtain rfl := Reply.insertion.inj hinserted
      refine ⟨memory, e, x, rfl, ?_⟩
      rcases h.tryAppend_cases memory e x with
        ⟨_, list', lines, -, -, happend⟩ | ⟨error', lines, hrefuses, happend⟩
      · rw [happend] at htry
        cases htry
      · rw [happend] at htry
        rcases discard_cases x with ⟨-, hdrop⟩ | ⟨panic, -, hdrop⟩
        · rw [hdrop] at htry
          cases htry
          exact hrefuses
        · rw [hdrop] at htry
          cases htry
  | reserve additional =>
      rw [LinkedList.perform] at hreply
      cases hreserve : list.reserve additional with
      | ok list' =>
          rw [hreserve] at hreply
          cases hreply
      | error panic =>
          rw [hreserve] at hreply
          cases hreply
  | len => cases hreply
  | isEmpty => cases hreply
  | _ =>
      obtain ⟨_, -, hother⟩ := Outcome.exists_of_map_eq_ok hreply
      cases hother

end LinkedList

end LinkedPool
