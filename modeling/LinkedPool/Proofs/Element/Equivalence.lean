import Mathlib.Data.List.Forall2
import LinkedPool.Element.Keyed
import LinkedPool.Proofs.Cursor.Search

/-!
# Elements whose equality is an equivalence

Where equality never panics and is reflexive, symmetric and transitive, it may
be used as equality is meant to be used. Sequences that are the same element
by element then cannot be told from each other by searching them, as equal
elements say the same of equal values (`LawfulEquality.equal_congr`), and
being the same is an equivalence of sequences as well.
-/

namespace LinkedPool.Element

variable {α : Type} [Element α] {x y z value value' : α} {xs ys zs : List α}

/-- One element says that it equals the other. -/
def Same (x y : α) : Prop := equal x y = .ok true

instance (x y : α) : Decidable (Same x y) :=
  match h : equal x y with
  | .ok true => isTrue h
  | .ok false => isFalse (by rw [Same, h]; nofun)
  | .error _ => isFalse (by rw [Same, h]; nofun)

/-- Equality of elements is an equivalence relation, and never panics. -/
structure LawfulEquality (α : Type) [Element α] : Prop where
  total : ∀ x y : α, ∃ answer, equal x y = .ok answer
  refl : ∀ x : α, Same x x
  symm : ∀ {x y : α}, Same x y → Same y x
  trans : ∀ {x y z : α}, Same x y → Same y z → Same x z

/-- Copies never panic, and equal elements have equal copies. -/
def CopiesAlike (α : Type) [Element α] : Prop :=
  ∀ x y : α, Same x y → ∃ x' y', clone x = .ok x' ∧ clone y = .ok y' ∧ Same x' y'

theorem same_eq_true_iff : same x y = true ↔ Same x y := by
  unfold same Same
  cases equal x y with
  | ok answer => simp
  | error panic => simp

namespace LawfulEquality

theorem equal_eq (h : LawfulEquality α) (x y : α) : equal x y = .ok (same x y) := by
  obtain ⟨answer, hanswer⟩ := h.total x y
  rw [hanswer, same_of_equal hanswer]

/-- Equal elements say the same of equal values. -/
theorem same_congr (h : LawfulEquality α) (hxy : Same x y) (hvalue : Same value value') :
    same x value = same y value' := by
  refine Bool.eq_iff_iff.mpr ⟨?_, ?_⟩
  · intro hx
    exact same_eq_true_iff.mpr (h.trans (h.trans (h.symm hxy) (same_eq_true_iff.mp hx)) hvalue)
  · intro hy
    exact same_eq_true_iff.mpr
      (h.trans (h.trans hxy (same_eq_true_iff.mp hy)) (h.symm hvalue))

theorem not_panics (h : LawfulEquality α) (x y : α) (panic : Panic) :
    equal x y ≠ .error panic := by
  rw [h.equal_eq]
  nofun

/-- A call that only asks elements whether they are equal ends with an answer. -/
theorem answers {ρ : Type} {P : ρ → Prop} {call : Traced α ρ} (h : LawfulEquality α)
    (hcall : Inquiry P call) : ∃ value, call.result = .ok value ∧ P value := by
  cases hcall with
  | answered value trace comparing holds => exact ⟨value, rfl, holds⟩
  | panicked x y panic trace comparing asked refused =>
      exact absurd refused (h.not_panics x y panic)

/-! ## Sequences -/

theorem forall₂_refl (h : LawfulEquality α) (xs : List α) : List.Forall₂ Same xs xs :=
  List.forall₂_same.mpr fun x _ => h.refl x

theorem forall₂_symm (h : LawfulEquality α) (hxs : List.Forall₂ Same xs ys) :
    List.Forall₂ Same ys xs :=
  (hxs.imp fun _ _ => h.symm).flip

theorem forall₂_trans (h : LawfulEquality α) (hxs : List.Forall₂ Same xs ys)
    (hys : List.Forall₂ Same ys zs) : List.Forall₂ Same xs zs := by
  induction hxs generalizing zs with
  | nil => exact hys
  | cons hxy _ ih =>
      cases hys with
      | cons hyz hys => exact .cons (h.trans hxy hyz) (ih hys)

end LawfulEquality

theorem alike_eq_true_iff : alike xs ys = true ↔ List.Forall₂ Same xs ys := by
  induction xs generalizing ys with
  | nil => cases ys <;> simp [alike]
  | cons x xs ih => cases ys <;> simp [alike, ih, same_eq_true_iff]

theorem same_replica_iff {x y : Replica} : Same x y ↔ x.key = y.key := by
  simp [Same, equal]

theorem lawfulEquality_replica : LawfulEquality Replica where
  total _ _ := ⟨_, rfl⟩
  refl _ := same_replica_iff.mpr rfl
  symm h := same_replica_iff.mpr (same_replica_iff.mp h).symm
  trans h h' := same_replica_iff.mpr ((same_replica_iff.mp h).trans (same_replica_iff.mp h'))

theorem copiesAlike_replica : CopiesAlike Replica :=
  fun _ _ h => ⟨_, _, rfl, rfl, same_replica_iff.mpr (same_replica_iff.mp h)⟩

/-! ## Parts of related sequences -/

section Parts

variable {β γ : Type} {R : β → γ → Prop} {l : List β} {l' : List γ}

theorem forall₂_eraseIdx (h : List.Forall₂ R l l') (i : Nat) :
    List.Forall₂ R (l.eraseIdx i) (l'.eraseIdx i) := by
  rw [List.eraseIdx_eq_take_drop_succ, List.eraseIdx_eq_take_drop_succ]
  exact List.rel_append (List.forall₂_take i h) (List.forall₂_drop (i + 1) h)

theorem forall₂_getElem? (h : List.Forall₂ R l l') (i : Nat) : Option.Rel R l[i]? l'[i]? := by
  induction h generalizing i with
  | nil => exact .none
  | cons hxy _ ih =>
      cases i with
      | zero => exact .some hxy
      | succ i => exact ih i

theorem forall₂_set (h : List.Forall₂ R l l') (i : Nat) {x : β} {y : γ} (hxy : R x y) :
    List.Forall₂ R (l.set i x) (l'.set i y) := by
  induction h generalizing i with
  | nil => exact .nil
  | cons hxy' hrest ih =>
      cases i with
      | zero => exact .cons hxy hrest
      | succ i => exact .cons hxy' (ih i)

theorem forall₂_listed (h : List.Forall₂ R l l') (e : End) :
    List.Forall₂ R (e.listed l) (e.listed l') := by
  cases e with
  | head => exact h
  | tail => exact List.rel_reverse h

theorem rel_head? (h : List.Forall₂ R l l') : Option.Rel R l.head? l'.head? := by
  rw [List.head?_eq_getElem?, List.head?_eq_getElem?]
  exact forall₂_getElem? h 0

theorem rel_tail (h : List.Forall₂ R l l') : List.Forall₂ R l.tail l'.tail := by
  rw [← List.drop_one, ← List.drop_one]
  exact List.forall₂_drop 1 h

end Parts

end LinkedPool.Element
