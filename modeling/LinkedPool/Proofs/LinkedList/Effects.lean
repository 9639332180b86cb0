import LinkedPool.Proofs.LinkedList.Content

/-!
# What operations do to the content of a list

One lemma for each operation that changes a list, all of one kind: from the
content that a list holds to how the operation ends, what it drops, and the
content that the list holds then. The slots do not show in them, but for the
reason of a refusal (`Refuses`).
-/

namespace LinkedPool.LinkedList

open Cells Element

variable {α : Type} {e : End} {list : LinkedList α} {xs : List α} {content : Content α}

/-- What a list holds that has lost its links to `xs` and holds nothing else. -/
def leftBehind : (xs : List α) → Content α
  | [] => .linked []
  | x :: xs => .detached (x :: xs)

@[simp] theorem elements_leftBehind (xs : List α) : (leftBehind xs).elements = xs := by
  cases xs <;> rfl

theorem Holds.withMemory {capacity : Nat} {free : List Slot} (h : list.Holds content)
    (hvalid : { list.nodes with capacity }.Valid free) :
    Holds { list with nodes := { list.nodes with capacity } } content := by
  cases content with
  | linked xs =>
      obtain ⟨cells, free', hlinked, rfl⟩ := h
      obtain rfl := hlinked.valid.chained.unique hvalid.chained
      exact ⟨cells, free', ⟨hvalid, hlinked.near, hlinked.far, hlinked.distinct, hlinked.count,
        hlinked.node⟩, rfl⟩
  | detached xs =>
      obtain ⟨⟨hhead, htail, hleft⟩, -, hstored⟩ := h
      exact ⟨⟨hhead, htail, hleft⟩, ⟨free, hvalid⟩, hstored⟩

variable [Element α]

/-- Why a list takes no element: no slot is vacant and the storage does not
grow, or the list is detached. -/
inductive Refuses (memory : Memory) (list : LinkedList α) : InsertError → Prop
  | outOfMemory {refusal : GrowthError} (full : list.nodes.firstFree = none)
      (growth : Capacity.grow (Node α) memory list.nodes.capacity (list.nodes.slots + 1)
        = .error refusal) :
      Refuses memory list (.outOfMemory refusal)
  | notEmpty (detached : list.Detached) : Refuses memory list (.notEmpty list.len)

/-- Why no room is made for `additional` elements: no storage is that large. -/
def Exceeds (additional : Nat) (list : LinkedList α) : Prop :=
  list.nodes.capacity < list.len + additional
    ∧ Capacity.limit (Node α) ≤ Capacity.wanted list.nodes.capacity (list.len + additional)

instance (additional : Nat) (list : LinkedList α) : Decidable (Exceeds additional list) :=
  inferInstanceAs (Decidable (_ ∧ _))

theorem Holds.reserve_cases (h : list.Holds content) (additional : Nat) :
    (∃ capacity, list.reserve additional
          = .ok { list with nodes := { list.nodes with capacity } }
        ∧ Holds { list with nodes := { list.nodes with capacity } } content)
      ∨ (list.reserve additional = .error .capacityOverflow ∧ Exceeds additional list) := by
  obtain ⟨free, hvalid⟩ := h.valid
  rcases Pool.reserve_cases hvalid additional with
    ⟨capacity, hreserve, hroom, -⟩ | ⟨hreserve, hexceeds⟩
  · refine .inl ⟨capacity, ?_, h.withMemory hroom⟩
    rw [reserve, hreserve]
    rfl
  · refine .inr ⟨?_, hexceeds⟩
    rw [reserve, hreserve]
    rfl

theorem Holds.tryAppend_cases (h : list.Holds content) (memory : Memory) (e : End) (x : α) :
    (∃ (xs : List α) (list' : LinkedList α) (lines : List LogLine), content = .linked xs
        ∧ list'.Holds (.linked (e.listed (x :: e.listed xs)))
        ∧ list.tryAppend memory e x = ⟨⟨.ok (.ok ()), lines.map .logged⟩, list'⟩)
      ∨ ∃ (error : InsertError) (lines : List LogLine), Refuses memory list error
        ∧ list.tryAppend memory e x
          = (((Element.discard x).leaving list).map fun _ => .error error).after
            (lines.map .logged) := by
  cases content with
  | linked xs =>
      obtain ⟨cells, free, hlinked, hcells⟩ := h.linked_from e
      rcases hlinked.tryAppend_cases memory x with
        ⟨refusal, rfl, hgrow, htry⟩ | ⟨slot, list', free', htry, hlinked', -⟩
      · exact .inr ⟨_, [], .outOfMemory hlinked.valid.firstFree_eq hgrow, htry⟩
      · have hholds := hlinked'.holds
        rw [elements_cons, hcells] at hholds
        refine .inl
          ⟨xs, list', if cells.isEmpty then [.insertedFirst slot] else [], rfl, hholds, ?_⟩
        rw [htry, insertionLines]
        cases cells <;> rfl
  | detached xs =>
      exact .inr ⟨_, [.refusedFirst list.len], .notEmpty h.1, h.1.tryAppend memory e x⟩

theorem Holds.append_cases (h : list.Holds content) (memory : Memory) (e : End) (x : α) :
    (∃ (xs : List α) (list' : LinkedList α) (lines : List LogLine), content = .linked xs
        ∧ list'.Holds (.linked (e.listed (x :: e.listed xs)))
        ∧ list.append memory e x = ⟨⟨.ok (), lines.map .logged⟩, list'⟩)
      ∨ ∃ (error : InsertError) (lines : List LogLine), Refuses memory list error
        ∧ list.append memory e x = (rejecting error x list).after (lines.map .logged) := by
  rcases h.tryAppend_cases memory e x with
    ⟨xs, list', lines, hcontent, hholds, htry⟩ | ⟨error, lines, hrefuses, htry⟩
  · refine .inl ⟨xs, list', lines, hcontent, hholds, ?_⟩
    rw [append, htry]
    simp [Traced.answer]
  · exact .inr ⟨error, lines, hrefuses, append_of_tryAppend htry⟩

theorem Holds.delete_cases (h : list.Holds content) (e : End) (value : α) :
    (∃ (xs front : List α) (x : α) (back : List α) (list' : LinkedList α)
        (lines : List LogLine), content = .linked xs ∧ e.listed xs = front ++ x :: back
        ∧ Denied value front ∧ equal x value = .ok true
        ∧ list'.Holds (.linked (e.listed (front ++ back)))
        ∧ list.delete e value
          = (((Element.discard x).leaving list').map fun _ => true).after
              (asked value (front ++ [x]) ++ lines.map .logged))
      ∨ (Denied value (e.listed content.reached)
        ∧ list.delete e value
          = ⟨⟨.ok false, asked value (e.listed content.reached)⟩, list⟩)
      ∨ ∃ (xs front : List α) (x : α) (back : List α) (panic : Panic), content = .linked xs
        ∧ e.listed xs = front ++ x :: back ∧ equal x value = .error panic
        ∧ list.delete e value = ⟨⟨.error panic, asked value (front ++ [x])⟩, list⟩ := by
  cases content with
  | linked xs =>
      obtain ⟨cells, free, hlinked, hcells⟩ := h.linked_from e
      rcases hlinked.delete_cases value with
        ⟨front, slot, x, back, list', rfl, hdenied, hsame, hdelete, hlinked', -⟩ |
        ⟨hdenied, hdelete⟩ | ⟨front, slot, x, back, panic, rfl, -, hsame, hdelete⟩
      · have hholds := hlinked'.holds
        rw [elements_append] at hholds hcells
        exact .inl ⟨xs, front.elements, x, back.elements, list', [removalLine ..], rfl, hcells.symm,
          hdenied, hsame, hholds, hdelete⟩
      · rw [hcells] at hdenied hdelete
        exact .inr (.inl ⟨hdenied, hdelete⟩)
      · rw [elements_append] at hcells
        exact .inr (.inr ⟨xs, front.elements, x, back.elements, panic, rfl, hcells.symm, hsame,
          hdelete⟩)
  | detached xs =>
      refine .inr (.inl ⟨?_, ?_⟩)
      · intro x hx
        cases e <;> exact (List.not_mem_nil hx).elim
      · rw [h.1.delete]
        cases e <;> rfl

theorem Holds.clear_cases (h : list.Holds content) :
    (∃ (xs : List α) (list' : LinkedList α) (line : LogLine), content = .linked xs ∧ Calm xs
        ∧ list'.Holds (.linked [])
        ∧ list.clear = ⟨⟨.ok (), departures xs ++ [.logged line]⟩, list'⟩)
      ∨ (∃ (front : List α) (x : α) (back : List α) (panic : Panic) (list' : LinkedList α),
        content = .linked (front ++ x :: back) ∧ Calm front ∧ dropPanic x = some panic
        ∧ list'.Holds (leftBehind back)
        ∧ list.clear = ⟨⟨.error panic, departures (front ++ [x])⟩, list'⟩)
      ∨ (list.Detached ∧ list.clear = (Traced.raise .nodesLeft).leaving list) := by
  cases content with
  | linked xs =>
      obtain ⟨cells, free, hlinked, rfl⟩ := h
      rcases hlinked.clear_cases with
        ⟨hcalm, hclear⟩ |
        ⟨front, slot, x, back, panic, nodes', rfl, hcalm, hdrop, hreleased, hclear⟩
      · refine .inl ⟨_, _, _, rfl, hcalm, ?_, hclear⟩
        exact (linked_none (e := .head) hlinked.valid.cleared rfl).holds
      · refine .inr (.inl ⟨_, x, back.elements, panic, _, congrArg _ (elements_append ..), hcalm,
          hdrop, ?_, hclear⟩)
        rw [← List.singleton_append, ← List.append_assoc] at hlinked
        cases back with
        | nil =>
            rw [List.append_nil] at hlinked
            exact (hreleased.linked (e := .head) hlinked).holds
        | cons cell back => exact hreleased.holds hlinked (List.cons_ne_nil cell back)
  | detached xs => exact .inr (.inr ⟨h.1, h.1.clear⟩)

end LinkedPool.LinkedList
