import LinkedPool.Proofs.LinkedList.Stay
import LinkedPool.Proofs.Session.Affected

/-!
# Slots in sessions

What happens to the lists of a session does not move their elements: from the
moment it is put into a slot of a list, an element is found there after every
step until the step that drops it (`Sound.final_houses`). Other lists, copies
and comparisons have no part in that.
-/

namespace LinkedPool.Session.Lists

open Element LinkedList

variable {α : Type} [Element α] {lists : Store (LinkedList α)} {name : String}
  {slots free : List Slot} {slot : Slot} {x : α}

/-- The step drops the element `x`, and leaves its slot vacant unless it puts
an end to the list. -/
def DropsFrom (name : String) (slot : Slot) (x : α) (lists : Store (LinkedList α))
    (step : Step α) : Prop :=
  .dropped x ∈ (perform lists step).trace
    ∧ (step.Spares name → (listAt name (perform lists step).state).nodes.get? slot = none)

namespace Sound

theorem perform_houses (h : Sound lists) (hx : (listAt name lists).Houses slot x)
    (step : Step α) :
    (listAt name (perform lists step).state).Houses slot x ∨ DropsFrom name slot x lists step := by
  cases h.affected name step with
  | unchanged same => exact .inl (same ▸ hx)
  | operated operation state trace clears named =>
      obtain ⟨content, hholds⟩ := h.holds_at name
      rcases hholds.stays hx operation with hstays | ⟨hvacant, hdropped⟩
      · exact .inl (state ▸ hstays)
      · exact .inr ⟨trace ▸ hdropped, fun _ => state ▸ hvacant⟩
  | ended named dropped => exact .inr ⟨dropped x hx.mem_stored, fun hspares => absurd hspares named⟩

/-- An element is in its slot as long as no step has dropped it. -/
theorem final_houses (h : Sound lists) (hx : (listAt name lists).Houses slot x)
    (steps : List (Step α)) :
    (listAt name (final lists steps)).Houses slot x
      ∨ ∃ front step back, steps = front ++ step :: back
        ∧ (listAt name (final lists front)).Houses slot x
        ∧ DropsFrom name slot x (final lists front) step := by
  induction steps generalizing lists with
  | nil => exact .inl hx
  | cons step steps ih =>
      rcases h.perform_houses hx step with hstays | hdrops
      · rcases ih (h.perform_advances step).sound hstays with
          hfinal | ⟨front, later, back, rfl, hhouses, hdrops⟩
        · exact .inl hfinal
        · exact .inr ⟨step :: front, later, back, rfl, hhouses, hdrops⟩
      · exact .inr ⟨[], step, steps, rfl, hx, hdrops⟩

end Sound

/-- Appends, deletions and extensions of a list write to the nodes at the
place of the change and to no others, and the other operations and the steps
that pass by the list to none. From then on, whatever is done to the lists, an
element of the list is in its slot as long as it is not dropped. -/
theorem slots_stable (hsound : Sound lists) (hhealthy : (listAt name lists).Healthy slots)
    (hvalid : (listAt name lists).nodes.Valid free) :
    Footprint (listAt name lists) slots free
      ∧ (∀ step : Step α, step.PassesBy name →
        listAt name (perform lists step).state = listAt name lists)
      ∧ ∀ (slot : Slot) (x : α), (listAt name lists).Houses slot x → ∀ steps,
        (listAt name (final lists steps)).Houses slot x
          ∨ ∃ front step back, steps = front ++ step :: back
            ∧ (listAt name (final lists front)).Houses slot x
            ∧ DropsFrom name slot x (final lists front) step := by
  obtain ⟨cells, hlinked, rfl⟩ := hhealthy.linked hvalid
  exact ⟨hlinked.footprint, fun step hpasses => hsound.perform_of_passesBy hpasses,
    fun slot x hx steps => hsound.final_houses hx steps⟩

/-- A session with one list, which has a vacant slot between two elements. -/
def gappedSession : Store (LinkedList Tracked) := .put "a" gapped .empty

/-- A third element comes, the list is copied, and the second element goes. -/
def exchanged : List (Step Tracked) :=
  [.operate "a" (.append .exhausted .head ⟨3, "z", none⟩), .create "b" (.cloneOf "a"),
    .operate "a" (.delete .tail ⟨2, "v", none⟩)]

theorem gapped_slots_stable :
    Sound gappedSession ∧ (listAt "a" gappedSession).Healthy [2, 0]
      ∧ (listAt "a" gappedSession).nodes.Valid [1]
      ∧ (gapped.append .exhausted .head ⟨3, "z", none⟩).state.Healthy [1, 2, 0]
      ∧ Spliced gapped [2, 0] 1 (gapped.delete .tail ⟨2, "v", none⟩).state
      ∧ listAt "a" (perform gappedSession (.equals "a" "b")).state = gapped
      ∧ (listAt "a" (final gappedSession exchanged)).Houses 2 ⟨1, "x", none⟩
      ∧ ∃ front step back, exchanged = front ++ step :: back
        ∧ DropsFrom "a" 0 (⟨2, "y", none⟩ : Tracked) (final gappedSession front) step := by
  obtain ⟨cells, hlinked, -⟩ := gapped_healthy.linked gapped_valid
  have hsound : Sound gappedSession := sound_empty.put "a" hlinked.holds
  have hhealthy : (listAt "a" gappedSession).Healthy [2, 0] := gapped_healthy
  obtain ⟨hfootprint, hpassed, hhouses⟩ := slots_stable hsound hhealthy gapped_valid
  have hspliced : Spliced gapped [2, 0] 1 (gapped.delete .tail ⟨2, "v", none⟩).state := by
    rcases hfootprint.delete .tail ⟨2, "v", none⟩ with ⟨-, hfailed⟩ | ⟨i, -, hfind, hspliced⟩
    · exact absurd rfl hfailed
    · obtain rfl : 1 = i := Except.ok.inj hfind
      exact hspliced
  refine ⟨hsound, hhealthy, gapped_valid,
    (hfootprint.append .exhausted .head ⟨3, "z", none⟩ rfl).1.healthy, hspliced,
    hpassed (.equals "a" "b") trivial, ?_, ?_⟩
  · decide
  · rcases hhouses 0 ⟨2, "y", none⟩ rfl exchanged with
      hstays | ⟨front, step, back, hsplit, -, hdrops⟩
    · exact absurd hstays (by decide)
    · exact ⟨front, step, back, hsplit, hdrops⟩

end LinkedPool.Session.Lists
