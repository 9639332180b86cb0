import LinkedPool.Element.Keyed
import LinkedPool.Proofs.Session.Panics

/-!
# Sessions on lists are sessions on sequences

A session on lists gives the replies of the same session on plain sequences,
as long as it goes smoothly (`Smooth`): none of its elements and sources
panics, and storage is to be had. The lists stand for the sequences
(`Represents`), and every step that is answered keeps it so
(`Represents.perform`); that a smooth step is answered follows from what makes
a step panic at all (`Represents.answered`). Elements may equal each other in
any way they like. Since sequences know nothing of slots, neither do the
replies: two sessions whose sequences are the same go on alike.
-/

namespace LinkedPool.Session.Lists

open Element LinkedList

variable {α : Type} {lists : Store (LinkedList α)} {sequences : Store (List α)}
  {name other : String} {list : LinkedList α} {xs : List α}

/-- Under every name, the list holds the sequence. -/
def Represents (lists : Store (LinkedList α)) (sequences : Store (List α)) : Prop :=
  ∀ name, Option.Rel (fun list xs => list.Holds (.linked xs)) (lists.find? name)
    (sequences.find? name)

theorem represents_empty : Represents (.empty : Store (LinkedList α)) .empty := fun _ => .none

namespace Represents

theorem holds_at (h : Represents lists sequences) (name : String) :
    (listAt name lists).Holds (.linked (Sequence.sequenceAt name sequences)) := by
  have hname := h name
  rw [listAt, Sequence.sequenceAt]
  generalize lists.find? name = found at hname ⊢
  generalize sequences.find? name = found' at hname ⊢
  cases hname with
  | none => exact holds_empty
  | some holds => exact holds

theorem put (h : Represents lists sequences) (name : String) (hlist : list.Holds (.linked xs)) :
    Represents (lists.put name list) (sequences.put name xs) := by
  intro other
  by_cases heq : name = other
  · subst heq
    rw [Store.find?_put_self, Store.find?_put_self]
    exact .some hlist
  · rw [Store.find?_put_of_ne heq, Store.find?_put_of_ne heq]
    exact h other

theorem erase (h : Represents lists sequences) (name : String) :
    Represents (lists.erase name) (sequences.erase name) := by
  intro other
  by_cases heq : name = other
  · subst heq
    rw [Store.find?_erase_self, Store.find?_erase_self]
    exact .none
  · rw [Store.find?_erase_of_ne heq, Store.find?_erase_of_ne heq]
    exact h other

theorem ensure (h : Represents lists sequences) (name : String) :
    Represents (lists.ensure name .empty) (sequences.ensure name []) := by
  have hname := h name
  rw [Store.ensure, Store.ensure]
  cases hlist : lists.find? name with
  | none =>
      rw [hlist] at hname
      cases hsequence : sequences.find? name with
      | none => exact h.put name holds_empty
      | some xs =>
          rw [hsequence] at hname
          cases hname
  | some list =>
      rw [hlist] at hname
      cases hsequence : sequences.find? name with
      | none =>
          rw [hsequence] at hname
          cases hname
      | some xs => exact h

end Represents

theorem sequenceAt_ensure (name other : String) (sequences : Store (List α)) :
    Sequence.sequenceAt other (sequences.ensure name []) = Sequence.sequenceAt other sequences := by
  rcases sequences.ensure_cases name [] with ⟨-, hensure⟩ | ⟨hnone, hensure⟩
  · rw [hensure]
  · rw [hensure, Sequence.sequenceAt, Sequence.sequenceAt]
    by_cases heq : name = other
    · subst heq
      rw [Store.find?_put_self, hnone]
      rfl
    · rw [Store.find?_put_of_ne heq]

/-! ## Steps that are answered -/

variable [Element α]

/-- The step has an answer, and it is not that the storage did not grow. -/
def Answered (outcome : Outcome α (Store (LinkedList α)) (Reply α)) : Prop :=
  ∃ reply, outcome.result = .ok reply
    ∧ ∀ refusal, reply ≠ .insertion (.error (.outOfMemory refusal))

/-- If the step is answered, then as by the sequences, and the lists stand for
them afterwards. -/
def Follows (outcome : Outcome α (Store (LinkedList α)) (Reply α))
    (performed : Reply α × Store (List α)) : Prop :=
  Answered outcome → outcome.result = .ok performed.1 ∧ Represents outcome.state performed.2

namespace Represents

theorem create (h : Represents lists sequences) (name : String) {given : List α}
    {call : Traced α (LinkedList α)}
    (hcall : Builds given (fun content => content = .linked xs) call) :
    Follows (((call.leaving lists).bind fun lists list => replace name list lists).map
      fun _ => .done) (.done, sequences.put name xs) := by
  rintro ⟨reply, hok, -⟩
  cases hcall with
  | failed panic trace accounted => cases hok
  | built list content trace holds accounted satisfies =>
      rw [satisfies] at holds
      obtain ⟨⟨result, trace'⟩, hreplace⟩ := replace_eq_leaving name list lists
      rw [Traced.leaving_mk, Outcome.bind_ok, hreplace] at hok ⊢
      cases result with
      | ok _ => exact ⟨rfl, h.put name holds⟩
      | error panic => cases hok

omit [Element α] in
theorem remove (h : Represents lists sequences) (name : String) {call : Traced α Unit} :
    Follows ((call.leaving (lists.erase name)).map fun _ => .done)
      (.done, sequences.erase name) := by
  rintro ⟨reply, hok, -⟩
  obtain ⟨result, trace⟩ := call
  cases result with
  | ok _ => exact ⟨rfl, h.erase name⟩
  | error panic => cases hok

theorem operate (h : Represents lists sequences) (name : String) (operation : Operation α) :
    Follows (operate name operation lists)
      ((Sequence.perform (Sequence.sequenceAt name sequences) operation).1,
        sequences.put name
          (Sequence.perform (Sequence.sequenceAt name sequences) operation).2) := by
  rintro ⟨reply, hok, hgrown⟩
  obtain ⟨hreply, hholds⟩ := (h.holds_at name).performs operation reply hok hgrown
  exact ⟨hreply ▸ hok, h.put name hholds⟩

theorem ask (h : Represents lists sequences) (name other : String) {answer : Bool}
    {call : Traced α Bool} (hcall : Inquiry (fun b => b = answer) call) :
    Follows ((call.leaving ((lists.ensure name .empty).ensure other .empty)).map .flag)
      (.flag answer, (sequences.ensure name []).ensure other []) := by
  rintro ⟨reply, hok, -⟩
  cases hcall with
  | answered value trace comparing holds =>
      exact ⟨holds ▸ rfl, (h.ensure name).ensure other⟩
  | panicked x y panic trace comparing asked refused => cases hok

theorem inquiry_equals (h : Represents lists sequences) (name other : String) :
    Inquiry (fun answer => answer
        = alike (Sequence.sequenceAt name sequences) (Sequence.sequenceAt other sequences))
      ((listAt name lists).equals (listAt other lists)) := by
  rw [(h.holds_at name).equals (h.holds_at other)]
  split
  · exact inquiry_agree _ _
  · rename_i hlength
    exact inquiry_answer (alike_eq_false hlength).symm

theorem perform (h : Represents lists sequences) :
    ∀ step, Follows (perform lists step) (Sequence.step sequences step)
  | .create name .empty =>
      h.create name (.built .empty _ [] holds_empty (comparing_nil.accounted []) rfl)
  | .create name (.withCapacity n) => h.create name (withCapacity_builds n)
  | .create name (.ofSource memory source) => h.create name (ofSource_builds memory source)
  | .create name (.cloneOf other) => by
      have hlist := (h.ensure other).holds_at other
      rw [sequenceAt_ensure] at hlist
      exact (h.ensure other).create name hlist.clone_builds
  | .destroy name => h.remove name
  | .discard name => h.remove name
  | .operate name operation => h.operate name operation
  | .extendFrom memory name other e => by
      have hlist := (h.ensure other).holds_at other
      rw [sequenceAt_ensure] at hlist
      have hhanded (hint : Nat) (ys : List α) :
          Sequence.handedOver ⟨hint, ys.map .copy⟩ = ys.map twin := by
        simp [Sequence.handedOver, List.filterMap_map]
      have hfollows := (h.ensure other).operate name (.extend memory
        ⟨(listAt other (lists.ensure other .empty)).len,
          (e.listed (Sequence.sequenceAt other sequences)).map .copy⟩)
      rw [Sequence.perform, hhanded, sequenceAt_ensure] at hfollows
      rw [Lists.perform, hlist.copies e]
      exact hfollows
  | .equals name other => h.ask name other (h.inquiry_equals name other)
  | .differs name other =>
      h.ask name other ((h.inquiry_equals name other).bind fun _ hanswer =>
        inquiry_answer (congrArg (!·) hanswer))

end Represents

/-! ## Smooth runs -/

/-- The step gets what it needs of storage and of sources. -/
def Supplies (lists : Store (LinkedList α)) : Step α → Prop
  | .create _ (.withCapacity n) => n < Capacity.limit (Node α)
  | .create _ (.ofSource memory source) => LinkedList.empty.Supplies (.extend memory source)
  | .operate name operation => (listAt name lists).Supplies operation
  | .extendFrom memory name other e =>
      ∀ source, Source.copies e (listAt other lists) = .ok source →
        (listAt name lists).Supplies (.extend memory source)
  | _ => True

instance [DecidableEq α] (lists : Store (LinkedList α)) : DecidablePred (Supplies lists)
  | .create _ (.withCapacity n) => inferInstanceAs (Decidable (n < Capacity.limit (Node α)))
  | .create _ (.ofSource memory source) =>
      inferInstanceAs (Decidable (LinkedList.empty.Supplies (.extend memory source)))
  | .operate name operation =>
      inferInstanceAs (Decidable ((listAt name lists).Supplies operation))
  | .extendFrom memory name other e =>
      match hcopies : Source.copies e (listAt other lists) with
      | .ok source => decidable_of_iff ((listAt name lists).Supplies (.extend memory source))
          ⟨fun h _ hsource => Except.ok.inj (hcopies.symm.trans hsource) ▸ h, fun h => h _ hcopies⟩
      | .error _ => isTrue fun _ hsource => nomatch hcopies.symm.trans hsource
  | .create _ .empty | .create _ (.cloneOf _) | .destroy _ | .discard _ | .equals _ _
  | .differs _ _ => isTrue trivial

/-- Each step gets what it needs, done one after the other. -/
def SuppliesAll (lists : Store (LinkedList α)) : List (Step α) → Prop
  | [] => True
  | step :: steps => Supplies lists step ∧ SuppliesAll (perform lists step).state steps

instance decidableSuppliesAll [DecidableEq α] :
    (lists : Store (LinkedList α)) → (steps : List (Step α)) →
      Decidable (SuppliesAll lists steps)
  | _, [] => isTrue trivial
  | lists, step :: steps =>
      have := decidableSuppliesAll (perform lists step).state steps
      inferInstanceAs (Decidable (Supplies lists step ∧ _))

/-- Nothing goes wrong in a run: no element of it panics, and each of its steps
gets what it needs of storage and of sources. -/
structure Smooth (lists : Store (LinkedList α)) (steps : List (Step α)) : Prop where
  calm : ∀ outcome ∈ run lists steps, ∀ panic, ¬Raised outcome.trace panic
  supplied : SuppliesAll lists steps

theorem Supplies.not_cause {step : Step α} {panic : Panic} (h : Supplies lists step)
    (hlists : Represents lists sequences) : ¬Cause lists step panic := by
  intro hcause
  cases hcause with
  | operation name operation panic cause =>
      have hlist : (listAt name lists).Supplies operation := h
      exact hlist.not_cause (hlists.holds_at name) cause
  | copies memory name other e source panic copies cause =>
      exact (h source copies).not_cause (hlists.holds_at name) cause
  | source name memory source panic cause =>
      have hlist : LinkedList.empty.Supplies (.extend memory source) := h
      exact hlist.not_cause holds_empty cause
  | capacity name n exceeds => exact Nat.not_lt_of_le exceeds h
  | stranded name detached => exact (hlists.holds_at name).not_detached detached

namespace Represents

theorem refuses_of_reply (h : Represents lists sequences) {step : Step α} {error : InsertError}
    (hreply : (Lists.perform lists step).result = .ok (.insertion (.error error))) :
    ∃ name memory e x, step = .operate name (.tryAppend memory e x)
      ∧ Refuses memory (listAt name lists) error := by
  cases step with
  | operate name operation =>
      obtain ⟨memory, e, x, rfl, hrefuses⟩ := (h.holds_at name).refuses_of_reply hreply
      exact ⟨name, memory, e, x, rfl, hrefuses⟩
  | extendFrom memory name other e =>
      have hensured := h.ensure other
      rw [Lists.perform, (hensured.holds_at other).copies e] at hreply
      obtain ⟨_, _, _, hextend, -⟩ := (hensured.holds_at name).refuses_of_reply hreply
      cases hextend
  | _ =>
      obtain ⟨_, -, hother⟩ := Outcome.exists_of_map_eq_ok hreply
      cases hother

/-- A step in which no element panics and that gets what it needs is answered: a
panic would have to be that of an element or have a cause. -/
theorem answered (h : Represents lists sequences) (hsound : Sound lists) {step : Step α}
    (hcalm : ∀ panic, ¬Raised (Lists.perform lists step).trace panic)
    (hsupplied : Supplies lists step) : Answered (Lists.perform lists step) := by
  cases hresult : (Lists.perform lists step).result with
  | error panic =>
      rcases hsound.perform_excused step panic hresult with hraised | hcause
      · exact absurd hraised (hcalm panic)
      · exact absurd hcause (hsupplied.not_cause h)
  | ok reply =>
      refine ⟨reply, hresult, ?_⟩
      rintro refusal rfl
      obtain ⟨name, memory, e, x, rfl, hrefuses⟩ := h.refuses_of_reply hresult
      cases hrefuses with
      | outOfMemory full growth => exact hsupplied ⟨full, refusal, growth⟩

/-- A smooth run gives the replies of the sequences, and leaves lists that
stand for them. -/
theorem run (h : Represents lists sequences) (hsound : Sound lists) (steps : List (Step α))
    (hsmooth : Smooth lists steps) :
    (Lists.run lists steps).map (fun outcome => outcome.result)
        = (Sequence.replies sequences steps).map .ok
      ∧ Represents (final lists steps) (Sequence.final sequences steps) := by
  induction steps generalizing lists sequences with
  | nil => exact ⟨rfl, h⟩
  | cons step steps ih =>
      obtain ⟨hcalm, hcalms⟩ := List.forall_mem_cons.mp hsmooth.calm
      obtain ⟨hsupplied, hrest⟩ := hsmooth.supplied
      obtain ⟨hresult, hstate⟩ := h.perform step (h.answered hsound hcalm hsupplied)
      obtain ⟨hresults, hfinal⟩ := ih hstate (hsound.perform_advances step).sound ⟨hcalms, hrest⟩
      refine ⟨?_, hfinal⟩
      rw [Lists.run, List.map_cons, hresult, hresults]
      rfl

end Represents

/-- A smooth session from no lists has the replies of the session on plain
sequences, and its lists show these sequences from either end. A session
whose sequences are the same goes on with the same replies, whatever came
before and wherever its elements are stored. -/
theorem run_refines_sequences (history : List (Step α)) (hsmooth : Smooth .empty history) :
    (run .empty history).map (fun outcome => outcome.result)
        = (Sequence.replies .empty history).map .ok
      ∧ (∀ name, (listAt name (final .empty history)).contents .head
            = .ok (Sequence.sequenceAt name (Sequence.final .empty history))
          ∧ (listAt name (final .empty history)).contents .tail
            = .ok (Sequence.sequenceAt name (Sequence.final .empty history)).reverse)
      ∧ ∀ other steps : List (Step α), Smooth .empty other →
        Sequence.final .empty other = Sequence.final .empty history →
        Smooth (final .empty history) steps → Smooth (final .empty other) steps →
        (run (final .empty other) steps).map (fun outcome => outcome.result)
          = (run (final .empty history) steps).map fun outcome => outcome.result := by
  obtain ⟨hresults, hfinal⟩ := represents_empty.run sound_empty history hsmooth
  refine ⟨hresults, ?_, ?_⟩
  · intro name
    exact ⟨(hfinal.holds_at name).contents .head, (hfinal.holds_at name).contents .tail⟩
  · intro other steps hother hsame hsteps hsteps'
    obtain ⟨-, hfinal'⟩ := represents_empty.run sound_empty other hother
    have hsound := sound_empty.final_sound history
    have hsound' := sound_empty.final_sound other
    rw [(hfinal.run hsound steps hsteps).1, (hfinal'.run hsound' steps hsteps').1, hsame]

/-- Elements that come and go, so that those left are in slots out of order, and
then are copied, with others after the copies; the originals are dropped. -/
def scattered : List (Step Replica) :=
  [.operate "a" (.append .ample .tail ⟨1, 0⟩),
    .operate "a" (.append .ample .tail ⟨2, 0⟩),
    .operate "a" (.delete .head ⟨1, 7⟩),
    .operate "a" (.tryAppend .ample .tail ⟨3, 0⟩),
    .create "b" (.cloneOf "a"),
    .operate "b" (.extend .ample (.ofList 1 [⟨4, 0⟩, ⟨5, 0⟩])),
    .operate "a" .clear]

/-- The elements that are left, all at once. -/
def compact : List (Step Replica) :=
  [.create "a" .empty,
    .create "b" (.ofSource .ample (.ofList 0 [⟨2, 1⟩, ⟨3, 1⟩, ⟨4, 0⟩, ⟨5, 0⟩]))]

def sequel : List (Step Replica) :=
  [.extendFrom .ample "a" "b" .tail, .operate "b" (.find .tail ⟨3, 7⟩), .equals "a" "b"]

theorem not_raised_replica {trace : List (Event Replica)} {panic : Panic} :
    ¬Raised trace panic := by
  rintro (⟨x, y, -, hraises⟩ | ⟨x, -, hraises⟩ | ⟨x, -, hraises⟩)
  · cases hraises
  · cases hraises
  · cases hraises

theorem scattered_refines_sequences :
    (run .empty scattered).map (fun outcome => outcome.result)
        = (Sequence.replies .empty scattered).map .ok
      ∧ (listAt "b" (final .empty scattered)).contents .tail
        = .ok [⟨5, 0⟩, ⟨4, 0⟩, ⟨3, 1⟩, ⟨2, 1⟩]
      ∧ listAt "b" (final .empty compact) ≠ listAt "b" (final .empty scattered)
      ∧ (run (final .empty compact) sequel).map (fun outcome => outcome.result)
        = (run (final .empty scattered) sequel).map fun outcome => outcome.result := by
  have hsmooth {lists : Store (LinkedList Replica)} {steps : List (Step Replica)}
      (hsupplied : SuppliesAll lists steps) : Smooth lists steps :=
    ⟨fun _ _ _ => not_raised_replica, hsupplied⟩
  obtain ⟨hreplies, hcontents, hsame⟩ :=
    run_refines_sequences scattered (hsmooth (by decide +kernel))
  refine ⟨hreplies, (hcontents "b").2, by decide +kernel, ?_⟩
  exact hsame compact sequel (hsmooth (by decide +kernel)) (by decide +kernel)
    (hsmooth (by decide +kernel)) (hsmooth (by decide +kernel))

end LinkedPool.Session.Lists
