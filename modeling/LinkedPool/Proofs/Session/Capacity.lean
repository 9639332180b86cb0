import LinkedPool.Element.Tracked
import LinkedPool.Proofs.LinkedList.Room
import LinkedPool.Proofs.Session.Sound

/-!
# The capacity of reachable lists

Whatever was done to a list, its capacity and its length decide between them
whether the next append needs memory (`capacity_law`). So room that was made
once stays: it is enough for every run that does not hold more elements at a
time than it was made for, and then no memory need be granted any more.
-/

namespace LinkedPool.LinkedList

open Element Session.Lists

variable {α : Type} {list : LinkedList α} {slots : List Slot} [Element α]

theorem Reachable.linked (h : list.Reachable) (hhealthy : list.Healthy slots) :
    ∃ xs, list.Holds (.linked xs) := by
  obtain ⟨content, hholds⟩ := h.holds
  exact hholds.linked_of_not_detached hhealthy.not_detached

/-- A healthy list needs memory for one more element if its elements fill the
capacity, and for `n` more if these would not fit in; it then has twice the
capacity, or what is needed if that is more. Nothing takes capacity away. A
list with room for a number of elements takes elements up to that number
without asking for memory. -/
theorem capacity_law (h : list.Reachable) (hhealthy : list.Healthy slots) :
    (list.nodes.NeedsGrowth ↔ list.len = list.nodes.capacity)
      ∧ (∀ (memory : Memory) (e : End) (x : α),
        if list.len = list.nodes.capacity then
          if max (max (2 * list.nodes.capacity) (list.nodes.capacity + 1)) 4
                < Capacity.limit (Node α)
              ∧ memory.grants (max (max (2 * list.nodes.capacity) (list.nodes.capacity + 1)) 4)
                = true then
            Takes memory e x list (max (max (2 * list.nodes.capacity) (list.nodes.capacity + 1)) 4)
          else
            Declines memory e x list
        else
          Takes memory e x list list.nodes.capacity)
      ∧ (∀ n, list.perform (.reserve n)
        = if list.len + n ≤ list.nodes.capacity then
            ⟨⟨.ok .done, []⟩, list⟩
          else if Capacity.limit (Node α)
              ≤ max (max (2 * list.nodes.capacity) (list.len + n)) 4 then
            ⟨⟨.error .capacityOverflow, []⟩, list⟩
          else
            ⟨⟨.ok .done, []⟩, { list with nodes :=
              { list.nodes with
                capacity := max (max (2 * list.nodes.capacity) (list.len + n)) 4 } }⟩)
      ∧ (∀ (e : End) (value : α),
        (list.perform (.delete e value)).state.nodes.capacity = list.nodes.capacity
          ∧ (list.perform (.find e value)).state.nodes.capacity = list.nodes.capacity)
      ∧ (list.perform .clear).state.nodes.capacity = list.nodes.capacity
      ∧ (∀ (n : Nat) (list' : LinkedList α) (operations : List (Operation α)),
        list.reserve n = .ok list' → list'.AllStayWithin (list.len + n) operations →
          ∀ step ∈ operations.zip (list'.performAll operations), step.1.IsInsertion →
            step.2.result = .ok (.insertion (.ok ())))
      ∧ ∀ (n : Nat) (list' : LinkedList α) (operations : List (Operation α)),
        withCapacity n = .ok list' → list'.AllStayWithin n operations →
          ∀ step ∈ operations.zip (list'.performAll operations), step.1.IsInsertion →
            step.2.result = .ok (.insertion (.ok ())) := by
  obtain ⟨xs, hholds⟩ := h.linked hhealthy
  obtain ⟨free, hvalid⟩ := hholds.valid
  refine ⟨hvalid.needsGrowth_iff, ?_, ?_, ?_, hholds.capacity_clear, ?_, ?_⟩
  · intro memory e x
    obtain ⟨cells, free, hlinked, -⟩ := hholds.linked_from e
    by_cases hlen : list.len = list.nodes.capacity
    · rw [if_pos hlen]
      exact hlinked.takes_if_granted memory x hlen
    · rw [if_neg hlen]
      exact hlinked.takes memory x hlen
  · exact hholds.perform_reserve
  · intro e value
    exact ⟨hholds.capacity_delete e value, rfl⟩
  · intro n list' operations hreserve hwithin
    exact (hholds.roomy_of_reserve hreserve).performAll hwithin
  · intro n list' operations hmade hwithin
    exact (roomy_of_withCapacity hmade).performAll hwithin

/-- An element comes and goes, and its slot is left to the one that came with it. -/
def thinned : List (Step Tracked) :=
  [.operate "a" (.append .ample .tail ⟨1, "x", none⟩),
    .operate "a" (.append .ample .head ⟨2, "y", none⟩),
    .operate "a" (.delete .tail ⟨1, "", none⟩)]

/-- Three elements come, all go, and one more comes; no memory is granted. -/
def refilled : List (Operation Tracked) :=
  [.append .exhausted .tail ⟨3, "z", some .dropping⟩, .delete .head ⟨3, "", none⟩,
    .tryAppend .exhausted .head ⟨4, "v", none⟩, .append .exhausted .tail ⟨5, "w", none⟩,
    .find .tail ⟨4, "", some .comparing⟩, .clear, .tryAppend .exhausted .tail ⟨6, "u", none⟩]

theorem thinned_capacity_law :
    (listAt "a" (final .empty thinned)).Healthy [1]
      ∧ ¬(listAt "a" (final .empty thinned)).nodes.NeedsGrowth
      ∧ (listAt "a" (final .empty thinned)).reserve 2 = .ok (listAt "a" (final .empty thinned))
      ∧ (listAt "a" (final .empty thinned)).AllStayWithin 3 refilled
      ∧ ∀ step ∈ refilled.zip ((listAt "a" (final .empty thinned)).performAll refilled),
        step.1.IsInsertion → step.2.result = .ok (.insertion (.ok ())) := by
  have hhealthy : (listAt "a" (final .empty thinned)).Healthy [1] := by
    refine ⟨⟨rfl, _, rfl, rfl⟩, ⟨rfl, _, rfl, rfl⟩, by decide, rfl, ⟨rfl, rfl⟩, ?_⟩
    intro front slot next back hsplit
    have hlength := congrArg List.length hsplit
    simp only [List.length_cons, List.length_append, List.length_nil] at hlength
    omega
  have hreserve : (listAt "a" (final .empty thinned)).reserve 2
      = .ok (listAt "a" (final .empty thinned)) := rfl
  have hwithin : (listAt "a" (final .empty thinned)).AllStayWithin 3 refilled := by decide
  obtain ⟨hgrowth, -, -, -, -, hreserved, -⟩ := capacity_law ⟨thinned, "a", rfl⟩ hhealthy
  exact ⟨hhealthy, fun hneeds => absurd (hgrowth.mp hneeds) (by decide), hreserve, hwithin,
    hreserved 2 _ refilled hreserve hwithin⟩

end LinkedPool.LinkedList
