import LinkedPool.Proofs.LinkedList.Footprint

/-!
# Slots are added only when all are in use

A list takes a new slot only for an element that finds no vacant one, and
there is none vacant only when there are as many elements as slots. So an
operation leaves a list with the slots it had, or with as many as it then has
elements if these are more (`Thrifty`); this is so of an operation that ends
in a panic as well (`Holds.thrifty_perform`). The exception is a clear that
gets to the end: it gives all slots back (`Holds.clear_slots`).
-/

namespace LinkedPool.LinkedList

open Cells Element

variable {α : Type} {e : End} {list list' list'' : LinkedList α} {cells : Cells α}
  {free : List Slot} {xs : List α} {content : Content α}

/-- `list'` has the slots of `list`, and more of them only if all are in use. -/
def Thrifty (list list' : LinkedList α) : Prop :=
  list'.nodes.slots = max list.nodes.slots list'.len

theorem thrifty_of_fewer (h : list.nodes.Valid free)
    (hslots : list'.nodes.slots = list.nodes.slots) (hlen : list'.len ≤ list.len) :
    Thrifty list list' := by
  have hfits : list.len ≤ list.nodes.slots := h.len_le_slots
  rw [Thrifty, hslots]
  omega

theorem thrifty_refl (h : list.nodes.Valid free) : Thrifty list list :=
  thrifty_of_fewer h rfl (Nat.le_refl _)

theorem Grown.thrifty (hgrown : Grown list list') (h : list.nodes.Valid free) :
    Thrifty list list' := by
  obtain ⟨capacity, -, rfl⟩ := hgrown
  exact thrifty_of_fewer h rfl (Nat.le_refl _)

/-- The vacant slots are used up before new ones are taken. -/
theorem Appended.thrifty (happended : Appended e list cells free xs list')
    (h : Linked e list cells free) : Thrifty list list' := by
  have hvacant : list.len + free.length = list.nodes.slots := h.valid.len_add_length
  rw [Thrifty, happended.slots, happended.len h]
  omega

variable [Element α]

theorem Linked.thrifty_extend (h : Linked .tail list cells free) (memory : Memory)
    (source : Source α) : Thrifty list (list.extend memory source).state := by
  rcases h.reserve_cases source.hint with
    ⟨capacity, hreserve, hlinked, -, -⟩ | ⟨hreserve, -⟩
  · obtain ⟨xs, happended⟩ := hlinked.appendAll_appended memory source.pulls
    rw [extend_of_reserve source hreserve rfl]
    exact happended.thrifty hlinked
  · rw [extend, hreserve]
    exact thrifty_refl h.valid

theorem Linked.thrifty_delete (h : Linked e list cells free) (value : α) :
    Thrifty list (list.delete e value).state := by
  rcases h.delete_cases value with
    ⟨front, slot, x, back, -, rfl, hdenied, hsame, -⟩ | ⟨-, hdelete⟩ |
    ⟨front, slot, x, back, panic, -, -, -, hdelete⟩
  · obtain ⟨list', hdelete, hlinked, hslots, -⟩ := h.delete_of_denied hdenied hsame
    have hlen : list'.len ≤ list.len := by
      rw [hlinked.count, h.count]
      simp only [List.length_append, List.length_cons]
      omega
    rw [hdelete]
    exact thrifty_of_fewer h.valid hslots hlen
  · rw [hdelete]
    exact thrifty_refl h.valid
  · rw [hdelete]
    exact thrifty_refl h.valid

/-- A clear that gets to the end leaves no slots, and another one all of them. -/
theorem Linked.clear_slots (h : Linked .head list cells free) :
    (list.clear.result = .ok () ∧ list.clear.state.nodes.slots = 0 ∧ list.clear.state.len = 0)
      ∨ list.clear.result ≠ .ok () ∧ Thrifty list list.clear.state := by
  rcases h.clear_cases with
    ⟨-, hclear⟩ | ⟨front, slot, x, back, panic, nodes', -, -, -, hreleased, hclear⟩
  · rw [hclear]
    exact .inl ⟨rfl, rfl, rfl⟩
  · rw [hclear]
    refine .inr ⟨by simp, thrifty_of_fewer h.valid hreleased.slots ?_⟩
    have hlen := hreleased.len
    show nodes'.len ≤ list.nodes.len
    omega

theorem Holds.clear_slots (h : list.Holds content) :
    (list.clear.result = .ok () ∧ list.clear.state.nodes.slots = 0 ∧ list.clear.state.len = 0)
      ∨ list.clear.result ≠ .ok () ∧ Thrifty list list.clear.state := by
  cases content with
  | linked xs =>
      obtain ⟨cells, free, hlinked, -⟩ := h
      exact hlinked.clear_slots
  | detached xs =>
      obtain ⟨free, hvalid⟩ := h.valid
      rw [h.1.clear]
      exact .inr ⟨by simp [Traced.raise], thrifty_refl hvalid⟩

/-- Whatever else is asked of a list, it takes no slot while another is vacant. -/
theorem Holds.thrifty_perform (h : list.Holds content) {operation : Operation α}
    (hother : operation ≠ .clear) : Thrifty list (list.perform operation).state := by
  cases content with
  | detached xs =>
      obtain ⟨free, hvalid⟩ := h.valid
      obtain ⟨list', hperform, hgrown, -⟩ := h.1.perform hvalid operation
      rw [hperform]
      exact hgrown.thrifty hvalid
  | linked xs =>
      obtain ⟨cells, free, hlinked, -⟩ := h
      have hvalid := hlinked.valid
      have hinspect (hinspects : operation.Inspects) :
          Thrifty list (list.perform operation).state :=
        (inspect_grown hvalid operation hinspects).thrifty hvalid
      cases operation with
      | append memory e x =>
          obtain ⟨listed, hlisted, -⟩ := hlinked.from_end e
          show Thrifty list (list.append memory e x).state
          rcases hlisted.insertion_appended memory x with hdeclines | ⟨capacity, -, happended⟩
          · rw [hdeclines.unchanged]
            exact thrifty_refl hvalid
          · exact happended.thrifty hlisted
      | tryAppend memory e x =>
          obtain ⟨listed, hlisted, -⟩ := hlinked.from_end e
          show Thrifty list (list.tryAppend memory e x).state
          rcases hlisted.insertion_appended memory x with
            hdeclines | ⟨capacity, htakes, happended⟩
          · rw [hdeclines.unchanged']
            exact thrifty_refl hvalid
          · rw [← htakes.appended]
            exact happended.thrifty hlisted
      | delete e value =>
          obtain ⟨listed, hlisted, -⟩ := hlinked.from_end e
          exact hlisted.thrifty_delete value
      | clear => exact absurd rfl hother
      | extend memory source => exact hlinked.flip.thrifty_extend memory source
      | _ => exact hinspect trivial

end LinkedPool.LinkedList
