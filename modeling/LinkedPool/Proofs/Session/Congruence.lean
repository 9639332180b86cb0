import LinkedPool.Proofs.LinkedList.Congruence
import LinkedPool.Proofs.Session.Sound

/-!
# Equal lists cannot be told apart

Lists may come to the same elements in ways that have nothing in common: other
slots, other vacancies, another capacity. If equality of elements is an
equivalence, so is equality of lists, and what is asked alike of equal lists
does not show in which way they came about (`equality_congruence`).
-/

namespace LinkedPool.LinkedList

open Element Session.Lists

variable {α : Type} [Element α]

/-- The lists are equal, and their ends show it. -/
def Congruent (list other : LinkedList α) : Prop :=
  (list.equals other).result = .ok true
    ∧ ∀ e, Matched (Option.Rel Same) (list.outermost? e) (other.outermost? e)

theorem Holds.congruent (hlaw : LawfulEquality α) {list other : LinkedList α}
    {content content' : Content α} (h : list.Holds content) (h' : other.Holds content')
    (hcontent : content.Alike content') : Congruent list other :=
  ⟨(h.equals_iff hlaw h').mpr hcontent, h.outermost_alike h' hcontent⟩

/-- Equality of lists is an equivalence that never panics, and is respected by
every operation for which there is room and in which no drop panics. -/
theorem equality_congruence (hlaw : LawfulEquality α) :
    (∀ list other : LinkedList α, list.Reachable → other.Reachable →
        ∃ answer, (list.equals other).result = .ok answer)
      ∧ (∀ list : LinkedList α, list.Reachable → (list.equals list).result = .ok true)
      ∧ (∀ list other : LinkedList α, list.Reachable → other.Reachable →
        (list.equals other).result = .ok true → (other.equals list).result = .ok true)
      ∧ (∀ list other third : LinkedList α, list.Reachable → other.Reachable → third.Reachable →
        (list.equals other).result = .ok true → (other.equals third).result = .ok true →
        (list.equals third).result = .ok true)
      ∧ ∀ list other : LinkedList α, list.Reachable → other.Reachable →
        (list.equals other).result = .ok true →
        Congruent list other
        ∧ (∀ operation operation', operation.Alike operation' →
          ¬list.Starves operation → ¬other.Starves operation' →
          DropsQuietly (list.perform operation).toTraced →
          DropsQuietly (other.perform operation').toTraced →
          Matched Reply.Alike (list.perform operation).result (other.perform operation').result
            ∧ Congruent (list.perform operation).state (other.perform operation').state)
        ∧ (CopiesAlike α → ∃ copy copy', list.clone.result = .ok copy
          ∧ other.clone.result = .ok copy' ∧ Congruent copy copy') := by
  refine ⟨?_, ?_, ?_, ?_, ?_⟩
  · intro list other hlist hother
    obtain ⟨content, hholds⟩ := hlist.holds
    obtain ⟨content', hholds'⟩ := hother.holds
    exact ⟨_, hholds.equals_eq hlaw hholds'⟩
  · intro list hlist
    obtain ⟨content, hholds⟩ := hlist.holds
    exact (hholds.equals_iff hlaw hholds).mpr (.refl hlaw content)
  · intro list other hlist hother hequal
    obtain ⟨content, hholds⟩ := hlist.holds
    obtain ⟨content', hholds'⟩ := hother.holds
    have halike := (hholds.equals_iff hlaw hholds').mp hequal
    exact (hholds'.equals_iff hlaw hholds).mpr (halike.symm hlaw)
  · intro list other third hlist hother hthird hequal hequal'
    obtain ⟨content, hholds⟩ := hlist.holds
    obtain ⟨content', hholds'⟩ := hother.holds
    obtain ⟨content'', hholds''⟩ := hthird.holds
    have halike := (hholds.equals_iff hlaw hholds').mp hequal
    have halike' := (hholds'.equals_iff hlaw hholds'').mp hequal'
    exact (hholds.equals_iff hlaw hholds'').mpr (halike.trans hlaw halike')
  · intro list other hlist hother hequal
    obtain ⟨content, hholds⟩ := hlist.holds
    obtain ⟨content', hholds'⟩ := hother.holds
    have halike := (hholds.equals_iff hlaw hholds').mp hequal
    refine ⟨hholds.congruent hlaw hholds' halike, ?_, ?_⟩
    · intro operation operation' hoperation hroom hroom' hquiet hquiet'
      obtain ⟨hresults, left, left', hleft, hleft', hcontent⟩ :=
        hholds.perform_alike hlaw hholds' halike hoperation hroom hroom' hquiet hquiet'
      exact ⟨hresults, hleft.congruent hlaw hleft' hcontent⟩
    · intro hcopies
      obtain ⟨copy, hclone, hcopy⟩ := hholds.clone_answers hlaw hcopies
      obtain ⟨copy', hclone', hcopy'⟩ := hholds'.clone_answers hlaw hcopies
      exact ⟨copy, copy', hclone, hclone',
        hcopy.congruent hlaw hcopy' (map_twin_alike hcopies halike)⟩

/-- Three elements, one after the other. -/
def plainly : List (Step Replica) :=
  [.operate "a" (.append .ample .tail ⟨1, 0⟩), .operate "a" (.append .ample .tail ⟨2, 0⟩),
    .operate "a" (.append .ample .tail ⟨1, 0⟩)]

/-- Elements that equal them, in other slots, with one vacant among them. -/
def roundabout : List (Step Replica) :=
  [.create "a" (.withCapacity 5), .operate "a" (.append .ample .head ⟨3, 0⟩),
    .operate "a" (.append .ample .tail ⟨1, 4⟩), .operate "a" (.append .ample .head ⟨2, 7⟩),
    .operate "a" (.delete .head ⟨3, 0⟩), .operate "a" (.append .ample .head ⟨1, 9⟩)]

theorem roundabout_congruent :
    LawfulEquality Replica
      ∧ Congruent (listAt "a" (final .empty plainly)) (listAt "a" (final .empty roundabout))
      ∧ (listAt "a" (final .empty plainly)).nodes ≠ (listAt "a" (final .empty roundabout)).nodes
      ∧ ((listAt "a" (final .empty roundabout)).delete .tail ⟨1, 2⟩).result = .ok true
      ∧ Congruent ((listAt "a" (final .empty plainly)).perform (.delete .tail ⟨1, 3⟩)).state
          ((listAt "a" (final .empty roundabout)).perform (.delete .tail ⟨1, 2⟩)).state
      ∧ ∃ copy copy', (listAt "a" (final .empty plainly)).clone.result = .ok copy
        ∧ (listAt "a" (final .empty roundabout)).clone.result = .ok copy'
        ∧ Congruent copy copy' := by
  obtain ⟨-, -, -, -, hequal⟩ := equality_congruence lawfulEquality_replica
  obtain ⟨hcongruent, hperform, hcopies⟩ := hequal (listAt "a" (final .empty plainly))
    (listAt "a" (final .empty roundabout)) ⟨plainly, "a", rfl⟩ ⟨roundabout, "a", rfl⟩
    (by decide +kernel)
  obtain ⟨-, hleft⟩ := hperform (.delete .tail ⟨1, 3⟩) (.delete .tail ⟨1, 2⟩)
    (.delete .tail rfl) id id (fun _ _ _ => nofun) (fun _ _ _ => nofun)
  exact ⟨lawfulEquality_replica, hcongruent, by decide +kernel, by decide +kernel, hleft,
    hcopies copiesAlike_replica⟩

end LinkedPool.LinkedList
