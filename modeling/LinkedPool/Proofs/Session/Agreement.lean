import LinkedPool.Element.Tracked
import LinkedPool.Proofs.LinkedList.Agreement
import LinkedPool.Proofs.Session.Sound

/-!
# Finding and deleting in reachable lists

Whatever became of a list, finding a value in it and deleting the value from
it are one and the same search, from either end (`deletion_follows_search`).
What a deletion does after the search can still panic: an element is dropped
when it is out of the list, and if that panics, there is no answer
(`explosive_unanswered`), though the element is gone.
-/

namespace LinkedPool.LinkedList

open Element Session.Lists

variable {α : Type} {list : LinkedList α} [Element α]

/-- Finding and deleting agree, comparison by comparison, on what is to be
found from either end, and the two ends agree on whether there is anything. -/
theorem deletion_follows_search (h : list.Reachable) :
    ∃ xs, list.contents .head = .ok xs ∧ list.contents .tail = .ok xs.reverse ∧ ∀ value,
      (∀ e, Concordant list e value xs (list.find e value) (list.delete e value))
      ∧ ((list.find .head value).result = .ok list.len
        ↔ (list.find .tail value).result = .ok list.len)
      ∧ ∀ i j, (list.find .head value).result = .ok i → (list.find .tail value).result = .ok j →
        i < list.len → i ≤ j ∧ j < list.len := by
  obtain ⟨content, hholds⟩ := h.holds
  refine ⟨content.reached, hholds.contents .head, hholds.contents .tail, ?_⟩
  intro value
  have hhead := hholds.concordant .head value
  have htail := hholds.concordant .tail value
  exact ⟨fun e => hholds.concordant e value, hhead.absent_iff htail, fun i j => hhead.le htail⟩

/-- Four elements with two keys. One panics when it is asked, and the last
when it is dropped. -/
def wary : List (Step Tracked) :=
  [.operate "a" (.append .ample .tail ⟨1, "x", none⟩),
    .operate "a" (.append .ample .tail ⟨1, "y", none⟩),
    .operate "a" (.append .ample .head ⟨2, "z", some .comparing⟩),
    .operate "a" (.append .ample .tail ⟨1, "w", some .dropping⟩)]

theorem wary_deletion_follows_search :
    (listAt "a" (final .empty wary)).Reachable
      ∧ ((listAt "a" (final .empty wary)).find .head ⟨1, "v", none⟩).result
        = .error (.element "eq bomb 2:z")
      ∧ ((listAt "a" (final .empty wary)).delete .head ⟨1, "v", none⟩).result
        = .error (.element "eq bomb 2:z")
      ∧ ((listAt "a" (final .empty wary)).delete .tail ⟨1, "v", none⟩).result
        = .error (.element "drop bomb 1:w")
      ∧ ((listAt "a" (final .empty wary)).delete .tail ⟨1, "v", none⟩).state.contents .head
        = .ok [⟨2, "z", some .comparing⟩, ⟨1, "x", none⟩, ⟨1, "y", none⟩] := by
  have hreachable : (listAt "a" (final .empty wary)).Reachable := ⟨wary, "a", rfl⟩
  obtain ⟨xs, hcontents, -, hvalue⟩ := deletion_follows_search hreachable
  obtain ⟨hends, -, -⟩ := hvalue ⟨1, "v", none⟩
  obtain rfl := Except.ok.inj hcontents
  have hfind : ((listAt "a" (final .empty wary)).find .head ⟨1, "v", none⟩).result
      = .error (.element "eq bomb 2:z") := rfl
  obtain ⟨x, hx, -, hresult, -, hleft⟩ := (hends .tail).of_found 3 (by decide) rfl
  obtain rfl := Option.some.inj hx
  exact ⟨hreachable, hfind, ((hends .head).of_panic _ hfind).1, hresult, hleft⟩

/-- One element, which panics when it is dropped. -/
def explosive : List (Step Tracked) :=
  [.operate "a" (.append .ample .tail ⟨1, "w", some .dropping⟩)]

/-- That an element is found is not enough for a deletion to answer. -/
theorem explosive_unanswered :
    ¬∀ (list : LinkedList Tracked) (value : Tracked), list.Reachable →
      (∀ panic, (list.find .head value).result ≠ .error panic) →
      ((list.delete .head value).result = .ok true
        ↔ ∃ i < list.len, (list.find .head value).result = .ok i) := by
  intro hclaim
  have hanswers := hclaim (listAt "a" (final .empty explosive)) ⟨1, "v", none⟩
    ⟨explosive, "a", rfl⟩ nofun
  cases hanswers.mpr ⟨0, by decide, rfl⟩

end LinkedPool.LinkedList
