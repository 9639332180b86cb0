import LinkedPool.Element.Tracked
import LinkedPool.Proofs.LinkedList.Mirror
import LinkedPool.Proofs.Session.Sound

/-!
# Reachable lists in a mirror

Head and tail are written out separately in everything a list does, and yet
are alike: a run on a list and the run with head and tail exchanged on its
mirror are the same but for what is told from the ends
(`performAll_mirrored`).
-/

namespace LinkedPool.LinkedList

open Element Session.Lists

variable {α : Type} {list : LinkedList α} [Element α]

/-- Step by step, a run on the mirror of a list answers, panics, asks, drops
and logs as the run with the ends exchanged does on the list, seen in the
mirror, and leaves the mirror of what that leaves. -/
theorem performAll_mirrored (h : list.Reachable) {operations : List (Operation α)}
    (hends : ∀ operation ∈ operations, operation.TwoEnded)
    (hcalm : list.CalmClears operations) :
    list.mirror.performAll (operations.map Operation.mirror)
      = List.zipWith Operation.reflect operations (list.performAll operations) := by
  obtain ⟨content, hholds⟩ := h.holds
  exact hholds.performAll_mirror hends hcalm

/-- Three elements come and the one in the middle goes. -/
def hollowed : List (Step Tracked) :=
  [.operate "a" (.append .ample .tail ⟨1, "x", none⟩),
    .operate "a" (.append .ample .tail ⟨2, "y", some .dropping⟩),
    .operate "a" (.append .ample .head ⟨3, "z", none⟩),
    .operate "a" (.delete .head ⟨1, "", none⟩)]

/-- Memory runs out, a comparison and the drop of a deleted element panic,
and what is left is cleared. -/
def lopsided : List (Operation Tracked) :=
  [.append .exhausted .head ⟨4, "v", none⟩, .tryAppend .exhausted .tail ⟨5, "w", none⟩,
    .tryAppend .exhausted .tail ⟨6, "u", none⟩, .find .head ⟨5, "", none⟩,
    .find .tail ⟨5, "", some .comparing⟩, .delete .head ⟨2, "", none⟩, .outermost .head,
    .reserve 2, .clear, .len]

theorem hollowed_performAll_mirrored :
    (∀ operation ∈ lopsided, operation.TwoEnded)
      ∧ (listAt "a" (final .empty hollowed)).CalmClears lopsided
      ∧ (listAt "a" (final .empty hollowed)).mirror.performAll (lopsided.map Operation.mirror)
        = List.zipWith Operation.reflect lopsided
            ((listAt "a" (final .empty hollowed)).performAll lopsided) := by
  have hends : ∀ operation ∈ lopsided, operation.TwoEnded := by
    simp [lopsided, Operation.TwoEnded]
  have hcalm : (listAt "a" (final .empty hollowed)).CalmClears lopsided := by
    simp only [CalmClears, lopsided, performAll, List.zip_cons_cons, List.zip_nil_left,
      List.forall_mem_cons, reduceCtorEq, IsEmpty.forall_iff, forall_const, true_and]
    exact ⟨by decide, List.forall_mem_nil _⟩
  exact ⟨hends, hcalm, performAll_mirrored ⟨hollowed, "a", rfl⟩ hends hcalm⟩

end LinkedPool.LinkedList
