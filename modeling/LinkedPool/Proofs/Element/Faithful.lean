import LinkedPool.Proofs.Pool.Clone
import LinkedPool.Proofs.Translation

/-!
# Elements whose copies stand in for them

A copy is faithful if it compares, panics and is copied in turn as its model
does. A model and its copy are then two views of one element: elements are
`Marked` by whether they came of a certain list, those that did are seen
either as they are (`original`) or as their copies (`renewed`), and each view
is a homomorphism.
-/

namespace LinkedPool.Element

variable {α : Type} [Element α] {x : α}

/-- What can be asked of a copy, and what it raises, is the same as of its model. -/
structure FaithfulCopies (α : Type) [Element α] : Prop where
  equal_left : ∀ {x x' : α}, clone x = .ok x' → ∀ y, equal x' y = equal x y
  equal_right : ∀ {x x' : α}, clone x = .ok x' → ∀ y, equal y x' = equal y x
  dropPanic : ∀ {x x' : α}, clone x = .ok x' → dropPanic x' = dropPanic x
  clone : ∀ {x x' : α}, clone x = .ok x' → ∃ x'', clone x' = .ok x''

/-- An element that came of a certain list, by having been in it or by
copying, or any other element. -/
inductive Marked (α : Type) where
  | own (x : α)
  | other (x : α)
deriving Repr, DecidableEq

namespace Marked

/-- The element as it is. -/
def original : Marked α → α
  | own x => x
  | other x => x

/-- The element, or its copy if it came of the list. -/
def renewed : Marked α → α
  | own x => twin x
  | other x => x

instance : Element (Marked α) where
  toStored := ⟨Stored.slotBytes α, Stored.nodeBytes α, Stored.link_fits, Stored.links_fit⟩
  equal x y := equal x.original y.original
  clone
    | own x => (clone x).map own
    | other x => (clone x).map other
  dropPanic x := dropPanic x.original

theorem hom_original : Hom (original : Marked α → α) where
  slotBytes := rfl
  nodeBytes := rfl
  equal _ _ := rfl
  clone x := by
    cases x with
    | own x =>
        show clone x = ((clone x).map own).map original
        cases clone x <;> rfl
    | other x =>
        show clone x = ((clone x).map other).map original
        cases clone x <;> rfl
  dropPanic _ := rfl

end Marked

theorem twin_of_error {panic : Panic} (h : clone x = .error panic) : twin x = x := by
  rw [twin, h]

/-- Either the element has a copy, or its twin is the element itself. -/
theorem twin_cases (x : α) : clone x = .ok (twin x) ∨ twin x = x := by
  cases h : clone x with
  | ok x' => exact .inl (h ▸ clone_eq_twin h)
  | error panic => exact .inr (twin_of_error h)

namespace FaithfulCopies

variable (h : FaithfulCopies α)
include h

theorem equal_twin_left (x y : α) : equal (twin x) y = equal x y := by
  rcases twin_cases x with hclone | htwin
  · exact h.equal_left hclone y
  · rw [htwin]

theorem equal_twin_right (x y : α) : equal x (twin y) = equal x y := by
  rcases twin_cases y with hclone | htwin
  · exact h.equal_right hclone x
  · rw [htwin]

theorem dropPanic_twin (x : α) : Element.dropPanic (twin x) = Element.dropPanic x := by
  rcases twin_cases x with hclone | htwin
  · exact h.dropPanic hclone
  · rw [htwin]

/-- The copy of a twin is the twin of the copy. -/
theorem clone_twin (x : α) : Element.clone (twin x) = (Element.clone x).map twin := by
  cases hclone : Element.clone x with
  | error panic => rw [twin_of_error hclone, hclone]; rfl
  | ok x' =>
      obtain ⟨x'', hclone'⟩ := h.clone hclone
      rw [twin, hclone]
      exact clone_eq_twin hclone'

theorem hom_renewed : Hom (Marked.renewed : Marked α → α) where
  slotBytes := rfl
  nodeBytes := rfl
  equal x y := by
    cases x with
    | own x =>
        cases y with
        | own y => exact (h.equal_twin_left x _).trans (h.equal_twin_right x y)
        | other y => exact h.equal_twin_left x y
    | other x =>
        cases y with
        | own y => exact h.equal_twin_right x y
        | other y => rfl
  clone x := by
    cases x with
    | own x =>
        show Element.clone (twin x) = ((Element.clone x).map Marked.own).map Marked.renewed
        rw [h.clone_twin]
        cases Element.clone x <;> rfl
    | other x =>
        show Element.clone x = ((Element.clone x).map Marked.other).map Marked.renewed
        cases Element.clone x <;> rfl
  dropPanic x := by
    cases x with
    | own x => exact h.dropPanic_twin x
    | other x => rfl

end FaithfulCopies

end LinkedPool.Element
