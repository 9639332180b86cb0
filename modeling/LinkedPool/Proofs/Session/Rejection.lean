import LinkedPool.Element.Tracked
import LinkedPool.Proofs.LinkedList.Rejection
import LinkedPool.Proofs.Session.Sound

/-!
# Rejected insertions into reachable lists

Which of the two reasons there is for rejecting an element, if any, can be
told from the list and the memory before the call; so can the way in which
the call ends, and that the list is not touched (`insertion_undone`).
-/

namespace LinkedPool.LinkedList

open Element Session.Lists

variable {α : Type} {list : LinkedList α} [Element α]

/-- An element that does not panic when it is dropped is answered with the
reason for its rejection, or raises it, exactly if there is one; with an
element that does, it is the panic of the drop. A call that does not succeed
leaves the list, or the pool, as it was and drops the element once. Room
that exceeds every capacity is refused with the list as it was. -/
theorem insertion_undone (h : list.Reachable) (memory : Memory) (e : End) (x : α) :
    (dropPanic x = none →
        (∀ error, (list.tryAppend memory e x).result = .ok (.error error)
          ↔ Rejects memory list error)
        ∧ ∀ panic, (list.append memory e x).result = .error panic
          ↔ ∃ error, (list.tryAppend memory e x).result = .ok (.error error)
            ∧ panic = .insertion error ∧ panic.message = error.message)
      ∧ (∀ panic, dropPanic x = some panic → ∀ error, Rejects memory list error →
        (list.tryAppend memory e x).result = .error panic
          ∧ (list.append memory e x).result = .error panic)
      ∧ ((∀ error, ¬Rejects memory list error) →
        (list.tryAppend memory e x).result = .ok (.ok ())
          ∧ (list.append memory e x).result = .ok ())
      ∧ ((list.tryAppend memory e x).result ≠ .ok (.ok ()) →
        (list.tryAppend memory e x).Undone list x)
      ∧ ((list.append memory e x).result ≠ .ok () → (list.append memory e x).Undone list x)
      ∧ (∀ {β : Type} [Element β] (pool : Pool β) (object : β),
        (∀ refusal, (pool.insert memory object).result = .ok (.error refusal)
          ↔ dropPanic object = none ∧ pool.NeedsGrowth
            ∧ Capacity.grow β memory pool.capacity (pool.slots + 1) = .error refusal)
        ∧ ((∀ slot, (pool.insert memory object).result ≠ .ok (.ok slot)) →
          (pool.insert memory object).Undone pool object))
      ∧ ∀ n,
        (Exceeds n list →
          list.perform (.reserve n) = ⟨⟨.error .capacityOverflow, []⟩, list⟩
          ∧ ∀ (memory : Memory) (pulls : List (Pull α)),
            list.perform (.extend memory ⟨n, pulls⟩)
              = ⟨⟨.error .capacityOverflow, Source.leftovers pulls⟩, list⟩)
        ∧ (¬Exceeds n list → (list.perform (.reserve n)).result = .ok .done) := by
  obtain ⟨content, hholds⟩ := h.holds
  obtain ⟨htry, happend⟩ := hholds.undone memory e x
  refine ⟨?_, ?_, ?_, htry, happend, ?_, ?_⟩
  · intro hcalm
    exact ⟨fun error => hholds.tryAppend_eq_error_iff hcalm,
      fun panic => hholds.append_eq_error_iff hcalm⟩
  · intro panic hpanic error hrejects
    exact hholds.panics_of_rejects hpanic hrejects e
  · intro hnone
    exact hholds.takes_of_not_rejects hnone e x
  · intro β _ pool object
    exact ⟨fun refusal => Pool.insert_eq_refused_iff, Pool.insert_undone⟩
  · intro n
    exact ⟨hholds.exceeding, hholds.not_exceeding⟩

/-- Four elements, and the memory that they fill. -/
def filled : List (Step Tracked) :=
  [.operate "a" (.append .ample .tail ⟨1, "x", none⟩),
    .operate "a" (.append .ample .head ⟨2, "y", none⟩),
    .operate "a" (.append .ample .head ⟨3, "z", none⟩),
    .operate "a" (.append .ample .tail ⟨4, "v", none⟩)]

theorem filled_insertion_undone :
    ((listAt "a" (final .empty filled)).tryAppend .exhausted .head ⟨5, "w", none⟩).result
        = .ok (.error (.outOfMemory .refused))
      ∧ Rejects .exhausted (listAt "a" (final .empty filled)) (.outOfMemory .refused)
      ∧ ((listAt "a" (final .empty filled)).append .exhausted .tail
          ⟨5, "w", some .dropping⟩).result = .error (.element "drop bomb 5:w")
      ∧ ((listAt "a" (final .empty filled)).append .exhausted .tail
          ⟨5, "w", some .dropping⟩).Undone (listAt "a" (final .empty filled))
            ⟨5, "w", some .dropping⟩ := by
  have hreachable : (listAt "a" (final .empty filled)).Reachable := ⟨filled, "a", rfl⟩
  obtain ⟨hclassified, -⟩ := insertion_undone hreachable .exhausted .head ⟨5, "w", none⟩
  obtain ⟨-, hpanic, -, -, hundone, -⟩ :=
    insertion_undone hreachable .exhausted .tail ⟨5, "w", some .dropping⟩
  have hresult : ((listAt "a" (final .empty filled)).tryAppend .exhausted .head
      ⟨5, "w", none⟩).result = .ok (.error (.outOfMemory .refused)) := rfl
  have hrejects := ((hclassified rfl).1 _).mp hresult
  have hdropped := (hpanic _ rfl _ hrejects).2
  exact ⟨hresult, hrejects, hdropped, hundone (hdropped ▸ nofun)⟩

end LinkedPool.LinkedList
