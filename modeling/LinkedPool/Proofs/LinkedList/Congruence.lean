import LinkedPool.Proofs.LinkedList.Ahead
import LinkedPool.Proofs.LinkedList.Inert
import LinkedPool.Proofs.Sequence.Congruence
import LinkedPool.Proofs.Sequence.Operation

/-!
# Equality of lists is a congruence

Two lists are equal if both are linked and have the same elements in their
order, or if both are detached and count as many elements, whatever these are
(`Holds.equals_iff`). A linked list is never equal to a detached one, which
counts elements and shows none.

Nothing else of a list shows in what it answers. A linked list answers as its
sequence does (`Holds.answers`), and a detached one by its length
(`futile_alike`); so equal lists do alike what is asked of them alike, and
remain equal (`Holds.perform_alike`). An extension that is cut short by its
source is cut short in both at the same element (`Holds.appendAll_alike`).
-/

namespace LinkedPool

open Element

namespace Element

variable {α ρ : Type} [Element α] {trace : List (Event α)} {panic : Panic} {x : α}

/-- No element that was dropped in the call is the cause of a panic of it. -/
def DropsQuietly (call : Traced α ρ) : Prop :=
  ∀ x panic, .dropped x ∈ call.trace → dropPanic x = some panic → call.result ≠ .error panic

/-- An element that is refused was dropped without a panic if there was none of it. -/
theorem DropsQuietly.of_getD
    (h : DropsQuietly (⟨.error ((dropPanic x).getD panic), trace⟩ : Traced α ρ))
    (hx : .dropped x ∈ trace) : dropPanic x = none := by
  cases hdrop : dropPanic x with
  | none => rfl
  | some panic' =>
      rw [hdrop] at h
      exact absurd rfl (h x panic' hx hdrop)

theorem DropsQuietly.of_elim {value : ρ}
    (h : DropsQuietly (⟨(dropPanic x).elim (.ok value) .error, trace⟩ : Traced α ρ))
    (hx : .dropped x ∈ trace) : dropPanic x = none := by
  cases hdrop : dropPanic x with
  | none => rfl
  | some panic =>
      rw [hdrop] at h
      exact absurd rfl (h x panic hx hdrop)

end Element

/-- Contents that cannot be told from each other. -/
def Content.Alike {α : Type} [Element α] : Content α → Content α → Prop
  | .linked xs, .linked ys => List.Forall₂ Same xs ys
  | .detached xs, .detached ys => xs.length = ys.length
  | _, _ => False

namespace Content.Alike

variable {α : Type} [Element α] {content content' content'' : Content α}

theorem refl (hlaw : LawfulEquality α) (content : Content α) : content.Alike content := by
  cases content with
  | linked xs => exact hlaw.forall₂_refl xs
  | detached xs => exact Eq.refl xs.length

theorem symm (hlaw : LawfulEquality α) (h : content.Alike content') :
    content'.Alike content := by
  cases content <;> cases content'
  · exact hlaw.forall₂_symm h
  · exact h
  · exact h
  · exact Eq.symm h

theorem trans (hlaw : LawfulEquality α) (h : content.Alike content')
    (h' : content'.Alike content'') : content.Alike content'' := by
  cases content <;> cases content' <;> cases content'' <;> try contradiction
  · exact hlaw.forall₂_trans h h'
  · exact Eq.trans h h'

theorem reached (h : content.Alike content') :
    List.Forall₂ Same content.reached content'.reached := by
  cases content <;> cases content' <;> try contradiction
  · exact h
  · exact .nil

theorem length_eq (h : content.Alike content') :
    content.elements.length = content'.elements.length := by
  cases content <;> cases content' <;> try contradiction
  · exact List.Forall₂.length_eq h
  · exact h

end Content.Alike

namespace LinkedList

variable {α : Type} [Element α] {list other : LinkedList α} {content content' : Content α}
  {xs ys : List α} {memory memory' : Memory} {operation operation' : Operation α}
  {error : InsertError} {x : α}

/-! ## Equal lists -/

omit [Element α] in
/-- A detached list counts elements that it does not show. -/
theorem Holds.ne_nil (h : list.Holds (.detached xs)) : xs ≠ [] := by
  rintro rfl
  have hlen := h.len
  exact absurd hlen (Nat.ne_of_gt h.1.left)

theorem Holds.equals_eq (hlaw : LawfulEquality α) (h : list.Holds content)
    (h' : other.Holds content') :
    (list.equals other).result
      = .ok (decide (content.elements.length = content'.elements.length)
          && alike content.reached content'.reached) := by
  rw [h.equals h']
  by_cases hlength : content.elements.length = content'.elements.length
  · obtain ⟨answer, hanswer, rfl⟩ := hlaw.answers (inquiry_agree content.reached content'.reached)
    rw [if_pos hlength, hanswer, decide_eq_true hlength, Bool.true_and]
  · rw [if_neg hlength, decide_eq_false hlength, Bool.false_and]
    rfl

theorem Holds.equals_iff (hlaw : LawfulEquality α) (h : list.Holds content)
    (h' : other.Holds content') :
    (list.equals other).result = .ok true ↔ content.Alike content' := by
  rw [h.equals_eq hlaw h', Except.ok.injEq, Bool.and_eq_true, decide_eq_true_eq,
    alike_eq_true_iff]
  refine ⟨?_, fun halike => ⟨halike.length_eq, halike.reached⟩⟩
  rintro ⟨hlength, hreached⟩
  cases content with
  | linked xs =>
      cases content' with
      | linked ys => exact hreached
      | detached ys =>
          cases hreached
          exact absurd (List.length_eq_zero_iff.mp hlength.symm) h'.ne_nil
  | detached xs =>
      cases content' with
      | linked ys =>
          cases hreached
          exact absurd (List.length_eq_zero_iff.mp hlength) h.ne_nil
      | detached ys => exact hlength

/-! ## Linked lists -/

theorem Refuses.starved (h : Refuses memory list error) (hholds : list.Holds (.linked xs)) :
    Starved memory list := by
  cases h with
  | outOfMemory full growth => exact ⟨hholds.not_detached, full, _, growth⟩
  | notEmpty detached => exact absurd detached hholds.not_detached

theorem Holds.delete_answers (hlaw : LawfulEquality α) (h : list.Holds (.linked xs))
    {e : End} {value : α} (hquiet : DropsQuietly (list.perform (.delete e value)).toTraced) :
    ∃ removed, (list.perform (.delete e value)).result = .ok (.flag removed) := by
  rw [LinkedList.perform] at hquiet ⊢
  rcases h.delete_cases e value with
    ⟨_, front, x, back, list', lines, -, -, -, -, -, hdelete⟩ | ⟨-, hdelete⟩ |
    ⟨_, front, x, back, panic, -, -, hpanic, -⟩
  · rw [hdelete] at hquiet ⊢
    rcases discard_cases x with ⟨-, hdiscard⟩ | ⟨panic, hdrop, hdiscard⟩
    · rw [hdiscard]
      exact ⟨_, rfl⟩
    · rw [hdiscard] at hquiet
      exact absurd rfl (hquiet x panic (by simp) hdrop)
  · rw [hdelete]
    exact ⟨_, rfl⟩
  · exact absurd hpanic (hlaw.not_panics x value panic)

theorem Holds.clear_answers (h : list.Holds (.linked xs))
    (hquiet : DropsQuietly (list.perform .clear).toTraced) :
    (list.perform .clear).result = .ok .done := by
  rw [LinkedList.perform] at hquiet ⊢
  rcases h.clear_cases with ⟨_, list', line, -, -, -, hclear⟩ |
    ⟨front, x, back, panic, list', -, -, hdrop, -, hclear⟩ | ⟨hdetached, -⟩
  · rw [hclear]
    rfl
  · rw [hclear] at hquiet
    exact absurd rfl (hquiet x panic (by simp [departures]) hdrop)
  · exact absurd hdetached h.not_detached

/-- If the storage has room, no drop panics and equality is lawful, nothing
stands in the way of an answer, unless it is the source of an extension. -/
theorem Holds.answers (hlaw : LawfulEquality α) (h : list.Holds (.linked xs))
    (hroom : ¬list.Starves operation) (hquiet : DropsQuietly (list.perform operation).toTraced)
    (hsource : ∀ memory source, operation ≠ .extend memory source) :
    ∃ reply, (list.perform operation).result = .ok reply
      ∧ ∀ refusal, reply ≠ .insertion (.error (.outOfMemory refusal)) := by
  cases operation with
  | len => exact ⟨_, rfl, by simp⟩
  | isEmpty => exact ⟨_, rfl, by simp⟩
  | outermost e =>
      rw [LinkedList.perform, h.outermost?]
      exact ⟨_, rfl, by simp⟩
  | contents e =>
      rw [LinkedList.perform, h.contents]
      exact ⟨_, rfl, by simp⟩
  | append memory e x =>
      rcases h.append_cases memory e x with
        ⟨_, list', lines, -, -, happend⟩ | ⟨error, lines, hrefuses, -⟩
      · rw [LinkedList.perform, happend]
        exact ⟨_, rfl, by simp⟩
      · exact absurd (hrefuses.starved h) hroom
  | tryAppend memory e x =>
      rcases h.tryAppend_cases memory e x with
        ⟨_, list', lines, -, -, happend⟩ | ⟨error, lines, hrefuses, -⟩
      · rw [LinkedList.perform, happend]
        exact ⟨_, rfl, by simp⟩
      · exact absurd (hrefuses.starved h) hroom
  | delete e value =>
      obtain ⟨removed, hremoved⟩ := h.delete_answers hlaw hquiet
      exact ⟨_, hremoved, by simp⟩
  | find e value =>
      obtain ⟨position, hposition, -⟩ := hlaw.answers (h.find e value)
      refine ⟨.count position, ?_, by simp⟩
      rw [LinkedList.perform]
      exact congrArg (Except.map Reply.count) hposition
  | clear => exact ⟨_, h.clear_answers hquiet, by simp⟩
  | reserve additional =>
      rcases h.reserve_cases additional with ⟨capacity, hreserve, -⟩ | ⟨-, hexceeds⟩
      · rw [LinkedList.perform, hreserve]
        exact ⟨_, rfl, by simp⟩
      · exact absurd hexceeds hroom
  | extend memory source => exact absurd rfl (hsource memory source)
  | iterate script =>
      obtain ⟨answers, hanswers, -⟩ := hlaw.answers (h.iterate script)
      refine ⟨.script answers, ?_, by simp⟩
      rw [LinkedList.perform]
      exact congrArg (Except.map Reply.script) hanswers

/-- What two calls on lists that hold contents like these come to is alike. -/
structure Agree (outcome outcome' : Outcome α (LinkedList α) (Reply α)) : Prop where
  results : Matched Reply.Alike outcome.result outcome'.result
  states : ∃ content content', outcome.state.Holds content ∧ outcome'.state.Holds content'
    ∧ content.Alike content'

/-- Linked lists with the same elements do alike whatever takes nothing from a source. -/
theorem Holds.linked_alike (hlaw : LawfulEquality α) (h : list.Holds (.linked xs))
    (h' : other.Holds (.linked ys)) (hxs : List.Forall₂ Same xs ys)
    (hoperation : operation.Alike operation') (hroom : ¬list.Starves operation)
    (hroom' : ¬other.Starves operation')
    (hquiet : DropsQuietly (list.perform operation).toTraced)
    (hquiet' : DropsQuietly (other.perform operation').toTraced)
    (hsource : ∀ memory source, operation ≠ .extend memory source) :
    Agree (list.perform operation) (other.perform operation') := by
  have hsource' : ∀ memory source, operation' ≠ .extend memory source := by
    rintro memory source rfl
    cases hoperation with
    | extend => exact hsource _ _ rfl
  obtain ⟨reply, hresult, hgrown⟩ := h.answers hlaw hroom hquiet hsource
  obtain ⟨reply', hresult', hgrown'⟩ := h'.answers hlaw hroom' hquiet' hsource'
  obtain ⟨rfl, hleft⟩ := h.performs operation reply hresult hgrown
  obtain ⟨rfl, hleft'⟩ := h'.performs operation' reply' hresult' hgrown'
  obtain ⟨hreply, hsame⟩ := Sequence.perform_alike hlaw hxs hoperation hsource
  refine ⟨?_, _, _, hleft, hleft', hsame⟩
  rw [hresult, hresult']
  exact .ok hreply

/-! ## Sources -/

theorem Holds.append_tail (h : list.Holds (.linked xs)) (hroom : ¬Starved memory list) (x : α) :
    ∃ (list' : LinkedList α) (lines : List LogLine),
      list.append memory .tail x = ⟨⟨.ok (), lines.map .logged⟩, list'⟩
        ∧ list'.Holds (.linked (xs ++ [x])) := by
  rcases h.append_cases memory .tail x with
    ⟨_, list', lines, hxs, hleft, happend⟩ | ⟨error, lines, hrefuses, -⟩
  · obtain rfl := Content.linked.inj hxs
    rw [listed_cons] at hleft
    exact ⟨list', lines, happend, hleft⟩
  · exact absurd (hrefuses.starved h) hroom

/-- Elements are taken from sources that are alike as long as both have one. -/
theorem Holds.appendAll_alike {pulls pulls' : List (Pull α)}
    (hpulls : List.Forall₂ Pull.Alike pulls pulls') (h : list.Holds (.linked xs))
    (h' : other.Holds (.linked ys)) (hxs : List.Forall₂ Same xs ys)
    (hroom : ¬StarvedWithin memory pulls list) (hroom' : ¬StarvedWithin memory' pulls' other) :
    Matched (fun _ _ => True) (list.appendAll memory pulls).result
        (other.appendAll memory' pulls').result
      ∧ ∃ zs zs', (list.appendAll memory pulls).state.1.Holds (.linked zs)
        ∧ (other.appendAll memory' pulls').state.1.Holds (.linked zs')
        ∧ List.Forall₂ Same zs zs' := by
  induction hpulls generalizing list other xs ys with
  | nil => exact ⟨.ok trivial, xs, ys, h, h', hxs⟩
  | @cons pull pull' pulls pulls' hpull _ ih =>
      rw [Pull.Alike] at hpull
      cases hhanded : pull.handed with
      | error panic =>
          rw [hhanded] at hpull
          generalize hhanded' : pull'.handed = handed' at hpull
          cases hpull
          rw [appendAll, appendAll, pull.yield_eq, pull'.yield_eq, hhanded, hhanded']
          exact ⟨.error panic, xs, ys, h, h', hxs⟩
      | ok x =>
          rw [hhanded] at hpull
          generalize hhanded' : pull'.handed = handed' at hpull
          cases hpull with
          | @ok _ y hxy =>
              obtain ⟨htaken, hlater⟩ := not_or.mp fun hstarved => hroom ⟨x, hhanded, hstarved⟩
              obtain ⟨htaken', hlater'⟩ := not_or.mp fun hstarved => hroom' ⟨y, hhanded', hstarved⟩
              obtain ⟨left, lines, happend, hleft⟩ := h.append_tail htaken x
              obtain ⟨left', lines', happend', hleft'⟩ := h'.append_tail htaken' y
              rw [happend] at hlater
              rw [happend'] at hlater'
              rw [appendAll_cons hhanded happend, appendAll_cons hhanded' happend']
              exact ih hleft hleft' (List.rel_append hxs (.cons hxy .nil))
                (fun hrest => hlater ⟨rfl, hrest⟩) fun hrest => hlater' ⟨rfl, hrest⟩

/-- An extension for which room was made ends as the taking of its elements does. -/
theorem perform_extend_of_reserve {hint : Nat} (hreserve : list.reserve hint = .ok other)
    (memory : Memory) (pulls : List (Pull α)) :
    (list.perform (.extend memory ⟨hint, pulls⟩)).result
        = (other.appendAll memory pulls).result.map (fun _ => .done)
      ∧ (list.perform (.extend memory ⟨hint, pulls⟩)).state
        = (other.appendAll memory pulls).state.1 := by
  rw [perform, extend, hreserve]
  generalize hcall : other.appendAll memory pulls = call
  obtain ⟨⟨result, trace⟩, state⟩ := call
  simp only [hcall]
  cases result with
  | ok _ => exact ⟨rfl, rfl⟩
  | error panic => exact ⟨rfl, rfl⟩

theorem Holds.extend_alike {hint hint' : Nat} {pulls pulls' : List (Pull α)}
    (hpulls : List.Forall₂ Pull.Alike pulls pulls') (h : list.Holds (.linked xs))
    (h' : other.Holds (.linked ys)) (hxs : List.Forall₂ Same xs ys)
    (hroom : ¬list.Starves (.extend memory ⟨hint, pulls⟩))
    (hroom' : ¬other.Starves (.extend memory' ⟨hint', pulls'⟩)) :
    Agree (list.perform (.extend memory ⟨hint, pulls⟩))
      (other.perform (.extend memory' ⟨hint', pulls'⟩)) := by
  obtain ⟨hfits, hroom⟩ := not_or.mp hroom
  obtain ⟨hfits', hroom'⟩ := not_or.mp hroom'
  rcases h.reserve_cases hint with ⟨capacity, hreserve, hholds⟩ | ⟨-, hexceeds⟩
  · rcases h'.reserve_cases hint' with ⟨capacity', hreserve', hholds'⟩ | ⟨-, hexceeds'⟩
    · obtain ⟨hresults, zs, zs', hleft, hleft', hzs⟩ :=
        hholds.appendAll_alike hpulls hholds' hxs
          (fun hstarved => hroom ⟨_, hreserve, hstarved⟩)
          fun hstarved => hroom' ⟨_, hreserve', hstarved⟩
      obtain ⟨hresult, hstate⟩ := perform_extend_of_reserve hreserve memory pulls
      obtain ⟨hresult', hstate'⟩ := perform_extend_of_reserve hreserve' memory' pulls'
      refine ⟨?_, ?_⟩
      · rw [hresult, hresult']
        generalize (appendAll memory pulls _).result = result at hresults ⊢
        generalize (appendAll memory' pulls' _).result = result' at hresults ⊢
        cases hresults with
        | ok _ => exact .ok .done
        | error panic => exact .error panic
      · rw [hstate, hstate']
        exact ⟨_, _, hleft, hleft', hzs⟩
    · exact absurd hexceeds' hfits'
  · exact absurd hexceeds hfits

/-! ## Detached lists -/

/-- A refused element whose drop does not panic is refused for the length. -/
theorem result_yield_spurn {pull : Pull α} {events : List (Event α)}
    (hquiet : DropsQuietly ((pull.yield.bind list.spurn).onPanic events)) :
    ((pull.yield.bind list.spurn).onPanic events).result
      = pull.handed.bind fun _ => .error (.insertion (.notEmpty list.len)) := by
  rw [pull.yield_eq] at hquiet ⊢
  cases hhanded : pull.handed with
  | error panic => rfl
  | ok x =>
      rw [hhanded, Traced.bind_ok, spurn, Traced.after_mk, Traced.onPanic_error] at hquiet
      rw [Traced.bind_ok, spurn, hquiet.of_getD (by simp)]
      rfl

theorem fruitless_alike (len members : Nat) {script script' : List (Cursor.Command α)}
    (hscript : List.Forall₂ Cursor.Command.Alike script script') :
    List.Forall₂ Cursor.Answer.Alike (Cursor.fruitless len members script)
      (Cursor.fruitless len members script') := by
  induction hscript generalizing members with
  | nil => exact .nil
  | @cons command command' _ _ hcommand _ ih =>
      have hforks : command.forks = command'.forks := by cases hcommand <;> rfl
      rw [Cursor.fruitless, Cursor.fruitless, hforks]
      refine .cons ?_ (ih _)
      cases hcommand <;> first | exact .item .none | exact .items .nil | constructor

omit [Element α] in
theorem Grown.len_eq (h : Grown list other) : other.len = list.len := by
  obtain ⟨capacity, -, rfl⟩ := h
  rfl

/-- What is asked of detached lists in vain depends on their length alone. -/
theorem futile_alike (hlen : list.len = other.len) (hoperation : operation.Alike operation')
    (hroom : ¬list.Starves operation) (hroom' : ¬other.Starves operation')
    (hquiet : DropsQuietly (list.futile operation))
    (hquiet' : DropsQuietly (other.futile operation')) :
    Matched Reply.Alike (list.futile operation).result (other.futile operation').result := by
  cases hoperation with
  | len =>
      rw [futile, futile, hlen]
      exact .ok (.count _)
  | isEmpty => exact .ok (.flag true)
  | outermost e => exact .ok (.item .none)
  | contents e => exact .ok (.items .nil)
  | append memory memory' e same =>
      rw [futile, spurn] at hquiet hquiet' ⊢
      rw [futile, spurn, hquiet.of_getD (by simp), hquiet'.of_getD (by simp), hlen]
      exact .error _
  | tryAppend memory memory' e same =>
      rw [futile] at hquiet hquiet' ⊢
      rw [futile, hquiet.of_elim (by simp), hquiet'.of_elim (by simp), hlen]
      exact .ok (.insertion _)
  | delete e same => exact .ok (.flag false)
  | find e same =>
      rw [futile, futile, hlen]
      exact .ok (.count _)
  | clear => exact .error _
  | reserve additional =>
      have hfits : ¬Exceeds additional list := hroom
      have hfits' : ¬Exceeds additional other := hroom'
      rw [futile, futile, if_neg hfits, if_neg hfits']
      exact .ok .done
  | extend memory memory' hint hint' same =>
      have hfits : ¬Exceeds hint list := fun hexceeds => hroom (.inl hexceeds)
      have hfits' : ¬Exceeds hint' other := fun hexceeds => hroom' (.inl hexceeds)
      rw [futile, if_neg hfits] at hquiet ⊢
      rw [futile, if_neg hfits'] at hquiet' ⊢
      cases same with
      | nil => exact .ok .done
      | @cons pull pull' pulls pulls' hpull _ =>
          rw [result_yield_spurn hquiet, result_yield_spurn hquiet', hlen]
          rw [Pull.Alike] at hpull
          generalize pull.handed = handed, pull'.handed = handed' at hpull ⊢
          cases hpull with
          | ok _ => exact .error _
          | error panic => exact .error panic
  | iterate same =>
      rw [futile, futile, hlen]
      exact .ok (.script (fruitless_alike _ _ same))

/-! ## Operations -/

/-- Every operation respects that lists are equal. -/
theorem Holds.perform_alike (hlaw : LawfulEquality α) (h : list.Holds content)
    (h' : other.Holds content') (hcontent : content.Alike content')
    (hoperation : operation.Alike operation') (hroom : ¬list.Starves operation)
    (hroom' : ¬other.Starves operation')
    (hquiet : DropsQuietly (list.perform operation).toTraced)
    (hquiet' : DropsQuietly (other.perform operation').toTraced) :
    Agree (list.perform operation) (other.perform operation') := by
  cases content with
  | linked xs =>
      cases content' with
      | detached ys => cases hcontent
      | linked ys =>
          by_cases hsource : ∃ memory source, operation = .extend memory source
          · obtain ⟨memory, source, rfl⟩ := hsource
            cases hoperation with
            | extend _ memory' hint hint' same =>
                exact h.extend_alike same h' hcontent hroom hroom'
          · exact h.linked_alike hlaw h' hcontent hoperation hroom hroom' hquiet hquiet'
              fun memory source heq => hsource ⟨memory, source, heq⟩
  | detached xs =>
      cases content' with
      | linked ys => cases hcontent
      | detached ys =>
          obtain ⟨free, hvalid⟩ := h.valid
          obtain ⟨free', hvalid'⟩ := h'.valid
          have hlen : list.len = other.len := by
            rw [h.len, h'.len]
            exact hcontent
          obtain ⟨left, hperform, hgrown, hleft⟩ := h.1.perform hvalid operation
          obtain ⟨left', hperform', hgrown', hleft'⟩ := h'.1.perform hvalid' operation'
          rw [hperform] at hquiet ⊢
          rw [hperform'] at hquiet' ⊢
          refine ⟨futile_alike hlen hoperation hroom hroom' hquiet hquiet', ?_⟩
          have hholds := (hgrown.detached h.1).holds hleft
          have hholds' := (hgrown'.detached h'.1).holds hleft'
          refine ⟨_, _, hholds, hholds', ?_⟩
          calc left.stored.length
            _ = left.len := hholds.len.symm
            _ = other.len := hgrown.len_eq.trans hlen
            _ = left'.len := hgrown'.len_eq.symm
            _ = left'.stored.length := hholds'.len

/-- Equal elements at both ends, or none. -/
theorem Holds.outermost_alike (h : list.Holds content) (h' : other.Holds content')
    (hcontent : content.Alike content') (e : End) :
    Matched (Option.Rel Same) (list.outermost? e) (other.outermost? e) := by
  rw [h.outermost?, h'.outermost?]
  exact .ok (rel_head? (forall₂_listed hcontent.reached e))

theorem twin_same (hcopies : CopiesAlike α) {x y : α} (h : Same x y) : Same (twin x) (twin y) := by
  obtain ⟨x', y', hx, hy, hsame⟩ := hcopies x y h
  rw [twin, twin, hx, hy]
  exact hsame

theorem map_twin_alike (hcopies : CopiesAlike α) (h : content.Alike content') :
    (content.map twin).Alike (content'.map twin) := by
  cases content <;> cases content' <;> try contradiction
  · exact List.rel_map (fun _ _ hsame => twin_same hcopies hsame) h
  · simpa [Content.map, Content.Alike] using h

/-- A list is copied if no copy panics. -/
theorem Holds.clone_answers (hlaw : LawfulEquality α) (hcopies : CopiesAlike α)
    (h : list.Holds content) :
    ∃ copy, list.clone.result = .ok copy ∧ copy.Holds (content.map twin) := by
  rcases h.clone_cases with ⟨copy, hcopy, -, hclone⟩ | ⟨-, x, -, panic, -, -, hpanic, -⟩
  · exact ⟨copy, by rw [hclone], hcopy⟩
  · obtain ⟨x', -, hx, -, -⟩ := hcopies x x (hlaw.refl x)
    cases hx.symm.trans hpanic

end LinkedList

end LinkedPool
