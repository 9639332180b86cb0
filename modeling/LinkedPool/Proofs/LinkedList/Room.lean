import LinkedPool.Element.Plain
import LinkedPool.LinkedList.Operation
import LinkedPool.Proofs.LinkedList.Extend

/-!
# Room in a linked list

A list asks for memory when all slots are in use and fill the capacity, and
in a valid pool this is when there are as many elements as the capacity
allows (`Pool.Valid.needsGrowth_iff`): the chain of vacant slots has every
slot that holds nothing. So an append to a linked list with spare capacity
succeeds whatever memory would be granted, and one to a list without does
as the growth does (`Linked.insertion_cases`).

Removing elements does not give capacity back. A list that has capacity for
`bound` elements therefore keeps it, and while it holds no more than these
it takes every element (`Roomy.performAll`).
-/

namespace LinkedPool

namespace Capacity

variable {β : Type} [Stored β] {memory : Memory} {capacity needed grown : Nat}
  {refusal : GrowthError}

theorem lt_of_grow_error (h : grow β memory capacity needed = .error refusal) :
    capacity < needed := by
  by_contra hle
  rw [grow_of_le memory (Nat.le_of_not_lt hle)] at h
  cases h

variable (β) in
/-- A growth that is needed is granted as a whole or not at all. -/
theorem grow_of_lt (memory : Memory) (h : capacity < needed) :
    (wanted capacity needed < limit β ∧ memory.grants (wanted capacity needed) = true
        ∧ grow β memory capacity needed = .ok (wanted capacity needed))
      ∨ ¬(wanted capacity needed < limit β ∧ memory.grants (wanted capacity needed) = true)
        ∧ ∃ refusal, grow β memory capacity needed = .error refusal := by
  rw [grow, if_neg (Nat.not_le_of_lt h)]
  by_cases hlimit : limit β ≤ wanted capacity needed
  · rw [if_pos hlimit]
    exact .inr ⟨fun hfits => Nat.not_lt_of_le hlimit hfits.1, _, rfl⟩
  · rw [if_neg hlimit]
    by_cases hgrants : memory.grants (wanted capacity needed) = true
    · rw [if_pos hgrants]
      exact .inl ⟨Nat.lt_of_not_le hlimit, hgrants, rfl⟩
    · rw [if_neg hgrants]
      exact .inr ⟨fun hfits => hgrants hfits.2, _, rfl⟩

end Capacity

namespace Pool

variable {β : Type} {pool pool' : Pool β} {slot : Slot} {free free' : List Slot}
  {memory : Memory}

/-- No slot is vacant, and the capacity has none for one more. -/
def NeedsGrowth (pool : Pool β) : Prop :=
  pool.firstFree = none ∧ pool.capacity < pool.slots + 1

instance (pool : Pool β) : Decidable pool.NeedsGrowth :=
  inferInstanceAs (Decidable (_ ∧ _))

theorem Valid.needsGrowth_iff (h : pool.Valid free) :
    pool.NeedsGrowth ↔ pool.len = pool.capacity := by
  have hslots := h.len_add_length
  have hfits := h.fits
  rw [NeedsGrowth, h.firstFree_eq]
  constructor
  · rintro ⟨hfree, hlt⟩
    rw [List.head?_eq_none_iff.mp hfree, List.length_nil] at hslots
    omega
  · intro hlen
    have hfree : free.length = 0 := by omega
    rw [List.length_eq_zero_iff.mp hfree]
    exact ⟨rfl, by omega⟩

theorem Valid.slots_eq_capacity (h : pool.Valid free) (hneeds : pool.NeedsGrowth) :
    pool.slots = pool.capacity :=
  Nat.le_antisymm h.fits (Nat.le_of_lt_succ hneeds.2)

/-- The capacity after an insertion: more of it if it was full before. -/
theorem Obtained.capacity_eq [Stored β] (hslot : Obtained memory pool free slot pool' free')
    (h : pool.Valid free) :
    (pool.len ≠ pool.capacity ∧ pool'.capacity = pool.capacity)
      ∨ pool.len = pool.capacity
        ∧ Capacity.grow β memory pool.capacity (pool.capacity + 1) = .ok pool'.capacity := by
  have hslots := h.len_add_length
  have hfits := h.fits
  cases hslot with
  | vacant slots capacity =>
      rw [List.length_cons] at hslots
      exact .inl ⟨by omega, capacity⟩
  | new slots grown =>
      rw [List.length_nil] at hslots
      by_cases hlen : pool.len = pool.capacity
      · rw [show pool.slots = pool.capacity by omega] at grown
        exact .inr ⟨hlen, grown⟩
      · rw [Capacity.grow_of_le memory (show pool.slots + 1 ≤ pool.capacity by omega)] at grown
        exact .inl ⟨hlen, (Except.ok.inj grown).symm⟩

end Pool

/-- The operation adds an element to the list. -/
def Operation.IsInsertion {α : Type} : Operation α → Prop
  | .append .. => True
  | .tryAppend .. => True
  | _ => False

namespace LinkedList

open Cells Element

variable {α : Type} {e : End} {list list' : LinkedList α} {cells : Cells α} {free : List Slot}
  {content : Content α} {memory : Memory} {x : α} {bound : Nat} [Element α]

/-! ## Appending -/

/-- Either form of append puts the element into the list, and leaves it with
this capacity. -/
structure Takes (memory : Memory) (e : End) (x : α) (list : LinkedList α)
    (capacity : Nat) : Prop where
  append : (list.append memory e x).result = .ok ()
  tryAppend : (list.tryAppend memory e x).result = .ok (.ok ())
  appended : (list.append memory e x).state = (list.tryAppend memory e x).state
  capacity : (list.append memory e x).state.nodes.capacity = capacity

/-- Neither form of append puts the element into the list. -/
structure Declines (memory : Memory) (e : End) (x : α) (list : LinkedList α) : Prop where
  append : (list.append memory e x).result ≠ .ok ()
  tryAppend : (list.tryAppend memory e x).result ≠ .ok (.ok ())
  unchanged : (list.append memory e x).state = list
  unchanged' : (list.tryAppend memory e x).state = list

/-- An append to a linked list fails only for want of capacity, and takes
more of it only if there is no other. -/
theorem Linked.insertion_cases (h : Linked e list cells free) (memory : Memory) (x : α) :
    (∃ refusal, list.len = list.nodes.capacity
        ∧ Capacity.grow (Node α) memory list.nodes.capacity (list.nodes.capacity + 1)
          = .error refusal
        ∧ list.tryAppend memory e x
          = ((Element.discard x).leaving list).map (fun _ => .error (.outOfMemory refusal))
        ∧ list.append memory e x = rejecting (.outOfMemory refusal) x list)
      ∨ ∃ slot list' free',
        list.tryAppend memory e x = ⟨⟨.ok (.ok ()), insertionLines slot cells⟩, list'⟩
        ∧ list.append memory e x = ⟨⟨.ok (), insertionLines slot cells⟩, list'⟩
        ∧ Linked e list' ((slot, x) :: cells) free'
        ∧ ((list.len ≠ list.nodes.capacity ∧ list'.nodes.capacity = list.nodes.capacity)
          ∨ list.len = list.nodes.capacity
            ∧ Capacity.grow (Node α) memory list.nodes.capacity (list.nodes.capacity + 1)
              = .ok list'.nodes.capacity) := by
  rcases h.tryAppend_cases memory x with
    ⟨refusal, rfl, hgrow, htry⟩ | ⟨slot, list', free', htry, hlinked, hslot⟩
  · have hneeds : list.nodes.NeedsGrowth :=
      ⟨h.valid.firstFree_eq, Capacity.lt_of_grow_error hgrow⟩
    rw [h.valid.slots_eq_capacity hneeds] at hgrow
    refine .inl ⟨refusal, h.valid.needsGrowth_iff.mp hneeds, hgrow, htry, ?_⟩
    rw [← Outcome.after_nil (Outcome.map _ _)] at htry
    exact append_of_tryAppend htry
  · refine .inr ⟨slot, list', free', htry, ?_, hlinked, hslot.capacity_eq h.valid⟩
    rw [append, htry]
    simp [Traced.answer]

theorem Linked.takes (h : Linked e list cells free) (memory : Memory) (x : α)
    (hlen : list.len ≠ list.nodes.capacity) :
    Takes memory e x list list.nodes.capacity := by
  rcases h.insertion_cases memory x with
    ⟨refusal, hfull, -⟩ | ⟨slot, list', free', htry, happend, -, hcapacity⟩
  · exact absurd hfull hlen
  · rcases hcapacity with ⟨-, hcapacity⟩ | ⟨hfull, -⟩
    · exact ⟨by rw [happend], by rw [htry], by rw [happend, htry], by rw [happend, hcapacity]⟩
    · exact absurd hfull hlen

theorem declines_of_rejected {refusal : GrowthError}
    (htry : list.tryAppend memory e x
      = ((Element.discard x).leaving list).map fun _ => .error (.outOfMemory refusal))
    (happend : list.append memory e x = rejecting (.outOfMemory refusal) x list) :
    Declines memory e x list := by
  rw [rejecting_eq] at happend
  rcases discard_cases x with ⟨-, hdrop⟩ | ⟨panic, -, hdrop⟩
  · rw [hdrop] at htry
    exact ⟨by rw [happend]; nofun, by rw [htry]; nofun, by rw [happend], by rw [htry]; rfl⟩
  · rw [hdrop] at htry
    exact ⟨by rw [happend]; nofun, by rw [htry]; nofun, by rw [happend], by rw [htry]; rfl⟩

/-- Without spare capacity, an append does as the growth does. -/
theorem Linked.takes_if_granted (h : Linked e list cells free) (memory : Memory) (x : α)
    (hlen : list.len = list.nodes.capacity) :
    if Capacity.wanted list.nodes.capacity (list.nodes.capacity + 1)
          < Capacity.limit (Node α)
        ∧ memory.grants (Capacity.wanted list.nodes.capacity (list.nodes.capacity + 1)) = true then
      Takes memory e x list (Capacity.wanted list.nodes.capacity (list.nodes.capacity + 1))
    else
      Declines memory e x list := by
  rcases Capacity.grow_of_lt (Node α) memory (Nat.lt_succ_self list.nodes.capacity) with
    ⟨hlimit, hgrants, hgranted⟩ | ⟨hdenied, refusal, hgranted⟩
  · rw [if_pos ⟨hlimit, hgrants⟩]
    rcases h.insertion_cases memory x with
      ⟨refusal, -, hgrow, -⟩ | ⟨slot, list', free', htry, happend, -, hcapacity⟩
    · cases hgrow.symm.trans hgranted
    · rcases hcapacity with ⟨hspare, -⟩ | ⟨-, hgrow⟩
      · exact absurd hlen hspare
      · have hcapacity' := Except.ok.inj (hgrow.symm.trans hgranted)
        exact ⟨by rw [happend], by rw [htry], by rw [happend, htry], by rw [happend, hcapacity']⟩
  · rw [if_neg hdenied]
    rcases h.insertion_cases memory x with
      ⟨refusal, -, -, htry, happend⟩ | ⟨slot, list', free', -, -, -, hcapacity⟩
    · exact declines_of_rejected htry happend
    · rcases hcapacity with ⟨hspare, -⟩ | ⟨-, hgrow⟩
      · exact absurd hlen hspare
      · cases hgrow.symm.trans hgranted

/-! ## Removing -/

theorem Holds.capacity_delete (h : list.Holds content) (e : End) (value : α) :
    (list.delete e value).state.nodes.capacity = list.nodes.capacity := by
  cases content with
  | linked xs =>
      obtain ⟨cells, free, hlinked, -⟩ := h.linked_from e
      rcases hlinked.delete_cases value with
        ⟨front, slot, x, back, list', -, -, -, hdelete, -, -, hcapacity⟩ | ⟨-, hdelete⟩ |
        ⟨front, slot, x, back, panic, -, -, -, hdelete⟩
      · rw [hdelete]
        exact hcapacity
      · rw [hdelete]
      · rw [hdelete]
  | detached xs => rw [h.1.delete]

theorem Holds.capacity_clear (h : list.Holds content) :
    list.clear.state.nodes.capacity = list.nodes.capacity := by
  cases content with
  | linked xs =>
      obtain ⟨cells, free, hlinked, -⟩ := h
      rcases hlinked.clear_cases with
        ⟨-, hclear⟩ | ⟨front, slot, x, back, panic, nodes', -, -, -, hreleased, hclear⟩
      · rw [hclear]
        rfl
      · rw [hclear]
        exact hreleased.capacity
  | detached xs =>
      rw [h.1.clear]
      rfl

/-! ## Reserving -/

/-- Room that memory was granted for is within reach. -/
theorem not_exceeds {additional capacity : Nat}
    (hgrow : Capacity.grow (Node α) memory list.nodes.capacity (list.len + additional)
      = .ok capacity) : ¬Exceeds additional list := by
  intro hexceeds
  rcases Capacity.grow_of_lt (Node α) memory hexceeds.1 with ⟨hfits, -⟩ | ⟨-, refusal, hrefused⟩
  · exact Nat.not_lt_of_le hexceeds.2 hfits
  · cases hgrow.symm.trans hrefused

theorem Holds.reserve_eq (h : list.Holds content) (additional : Nat) :
    list.reserve additional
      = if list.len + additional ≤ list.nodes.capacity then .ok list
        else if Capacity.limit (Node α)
            ≤ Capacity.wanted list.nodes.capacity (list.len + additional) then
          .error .capacityOverflow
        else
          .ok { list with nodes :=
            { list.nodes with
              capacity := Capacity.wanted list.nodes.capacity (list.len + additional) } } := by
  obtain ⟨free, hvalid⟩ := h.valid
  have hlen : list.nodes.len = list.len := rfl
  rw [reserve, Pool.reserve_eq hvalid, hlen, Capacity.grow]
  by_cases hle : list.len + additional ≤ list.nodes.capacity
  · simp only [if_pos hle]
    rfl
  · by_cases hlimit :
        Capacity.limit (Node α) ≤ Capacity.wanted list.nodes.capacity (list.len + additional)
    · simp only [if_neg hle, if_pos hlimit]
      rfl
    · simp only [if_neg hle, if_neg hlimit]
      rfl

/-- Room is made by growth or not at all, and nothing else is changed. -/
theorem Holds.perform_reserve (h : list.Holds content) (n : Nat) :
    list.perform (.reserve n)
      = if list.len + n ≤ list.nodes.capacity then
          ⟨⟨.ok .done, []⟩, list⟩
        else if Capacity.limit (Node α) ≤ Capacity.wanted list.nodes.capacity (list.len + n) then
          ⟨⟨.error .capacityOverflow, []⟩, list⟩
        else
          ⟨⟨.ok .done, []⟩, { list with nodes :=
            { list.nodes with
              capacity := Capacity.wanted list.nodes.capacity (list.len + n) } }⟩ := by
  rw [perform, h.reserve_eq n]
  by_cases hle : list.len + n ≤ list.nodes.capacity
  · simp only [if_pos hle]
    rfl
  · by_cases hlimit : Capacity.limit (Node α) ≤ Capacity.wanted list.nodes.capacity (list.len + n)
    · simp only [if_neg hle, if_pos hlimit]
      rfl
    · simp only [if_neg hle, if_neg hlimit]
      rfl

/-- With five words to a slot, it is the bytes that there are too many of. -/
example : (LinkedList.empty : LinkedList Int).perform (.reserve 288230376151711744)
    = ⟨⟨.error .capacityOverflow, []⟩, .empty⟩ := rfl

/-! ## Runs that stay within a bound -/

/-- The operation leaves a list within `bound` elements: it adds one only if
there are fewer, and drops all only if none of the drops panics. -/
def StaysWithin (bound : Nat) (list : LinkedList α) : Operation α → Prop
  | .append .. => list.len < bound
  | .tryAppend .. => list.len < bound
  | .clear => Calm list.stored
  | .reserve _ => False
  | .extend .. => False
  | _ => True

/-- Each of the operations does, done one after the other. -/
def AllStayWithin (bound : Nat) : LinkedList α → List (Operation α) → Prop
  | _, [] => True
  | list, operation :: operations =>
      list.StaysWithin bound operation
        ∧ AllStayWithin bound (list.perform operation).state operations

instance (bound : Nat) (list : LinkedList α) :
    ∀ operation, Decidable (list.StaysWithin bound operation)
  | .append .. => inferInstanceAs (Decidable (list.len < bound))
  | .tryAppend .. => inferInstanceAs (Decidable (list.len < bound))
  | .clear => inferInstanceAs (Decidable (Calm list.stored))
  | .reserve _ => .isFalse id
  | .extend .. => .isFalse id
  | .len => .isTrue trivial
  | .isEmpty => .isTrue trivial
  | .outermost _ => .isTrue trivial
  | .contents _ => .isTrue trivial
  | .delete .. => .isTrue trivial
  | .find .. => .isTrue trivial
  | .iterate _ => .isTrue trivial

instance decidableAllStayWithin (bound : Nat) :
    ∀ (list : LinkedList α) (operations : List (Operation α)),
      Decidable (list.AllStayWithin bound operations)
  | _, [] => .isTrue trivial
  | list, operation :: operations =>
      have := decidableAllStayWithin bound (list.perform operation).state operations
      inferInstanceAs (Decidable (list.StaysWithin bound operation ∧ _))

/-- A linked list with capacity for `bound` elements. -/
structure Roomy (bound : Nat) (list : LinkedList α) : Prop where
  linked : ∃ xs, list.Holds (.linked xs)
  capacity : bound ≤ list.nodes.capacity

namespace Roomy

theorem append (h : Roomy bound list) (hlen : list.len < bound) (memory : Memory) (e : End)
    (x : α) :
    ∃ (list' : LinkedList α) (lines : List (Event α)), Roomy bound list'
      ∧ list.tryAppend memory e x = ⟨⟨.ok (.ok ()), lines⟩, list'⟩
      ∧ list.append memory e x = ⟨⟨.ok (), lines⟩, list'⟩ := by
  obtain ⟨⟨xs, hholds⟩, hcapacity⟩ := h
  obtain ⟨cells, free, hlinked, -⟩ := hholds.linked_from e
  rcases hlinked.insertion_cases memory x with
    ⟨refusal, hfull, -⟩ | ⟨slot, list', free', htry, happend, hlinked', hcapacity'⟩
  · omega
  · refine ⟨list', _, ⟨⟨_, hlinked'.holds⟩, ?_⟩, htry, happend⟩
    rcases hcapacity' with ⟨-, hsame⟩ | ⟨hfull, -⟩
    · omega
    · omega

theorem delete (h : Roomy bound list) (e : End) (value : α) :
    Roomy bound (list.delete e value).state := by
  obtain ⟨⟨xs, hholds⟩, hcapacity⟩ := h
  refine ⟨?_, (hholds.capacity_delete e value).symm ▸ hcapacity⟩
  rcases hholds.delete_cases e value with
    ⟨xs', front, x, back, list', lines, -, -, -, -, hholds', hdelete⟩ |
    ⟨-, hdelete⟩ | ⟨xs', front, x, back, panic, -, -, -, hdelete⟩
  · rw [hdelete]
    exact ⟨_, hholds'⟩
  · rw [hdelete]
    exact ⟨xs, hholds⟩
  · rw [hdelete]
    exact ⟨xs, hholds⟩

theorem clear (h : Roomy bound list) (hcalm : Calm list.stored) :
    Roomy bound list.clear.state := by
  obtain ⟨⟨xs, hholds⟩, hcapacity⟩ := h
  refine ⟨?_, hholds.capacity_clear.symm ▸ hcapacity⟩
  rcases hholds.clear_cases with ⟨xs', list', line, -, -, hholds', hclear⟩ |
    ⟨front, x, back, panic, list', hcontent, -, hdrop, -, -⟩ | ⟨hdetached, -⟩
  · rw [hclear]
    exact ⟨[], hholds'⟩
  · -- The element that would panic is in the list, where all are calm.
    have hmem : x ∈ list.stored := by
      rw [hholds.stored_perm.mem_iff, hcontent]
      exact List.mem_append_right _ (List.mem_cons_self ..)
    exact absurd hdrop (hcalm.not_panics hmem)
  · exact absurd hdetached hholds.not_detached

/-- One operation within the bound: room is kept, and an insertion succeeds. -/
theorem perform (h : Roomy bound list) {operation : Operation α}
    (hwithin : list.StaysWithin bound operation) :
    Roomy bound (list.perform operation).state
      ∧ (operation.IsInsertion →
        (list.perform operation).result = .ok (.insertion (.ok ()))) := by
  cases operation with
  | append memory e x =>
      obtain ⟨list', lines, hroomy, -, happend⟩ := h.append hwithin memory e x
      rw [LinkedList.perform, happend]
      exact ⟨hroomy, fun _ => rfl⟩
  | tryAppend memory e x =>
      obtain ⟨list', lines, hroomy, htry, -⟩ := h.append hwithin memory e x
      rw [LinkedList.perform, htry]
      exact ⟨hroomy, fun _ => rfl⟩
  | delete e value => exact ⟨h.delete e value, False.elim⟩
  | clear => exact ⟨h.clear hwithin, False.elim⟩
  | reserve additional => exact hwithin.elim
  | extend memory source => exact hwithin.elim
  | len => exact ⟨h, False.elim⟩
  | isEmpty => exact ⟨h, False.elim⟩
  | outermost e => exact ⟨h, False.elim⟩
  | contents e => exact ⟨h, False.elim⟩
  | find e value => exact ⟨h, False.elim⟩
  | iterate script => exact ⟨h, False.elim⟩

/-- In a run that stays within the bound every insertion succeeds. -/
theorem performAll (h : Roomy bound list) {operations : List (Operation α)}
    (hwithin : list.AllStayWithin bound operations) :
    ∀ step ∈ operations.zip (list.performAll operations), step.1.IsInsertion →
      step.2.result = .ok (.insertion (.ok ())) := by
  induction operations generalizing list with
  | nil => exact List.forall_mem_nil _
  | cons operation operations ih =>
      obtain ⟨hfirst, hrest⟩ := hwithin
      obtain ⟨hroomy, hinsertion⟩ := h.perform hfirst
      intro step hstep
      rw [LinkedList.performAll, List.zip_cons_cons] at hstep
      rcases List.mem_cons.mp hstep with rfl | hstep
      · exact hinsertion
      · exact ih hroomy hrest step hstep

end Roomy

/-! ## How room comes about -/

theorem Holds.roomy_of_reserve {xs : List α} {additional : Nat}
    (h : list.Holds (.linked xs)) (hreserve : list.reserve additional = .ok list') :
    Roomy (list.len + additional) list' := by
  have hreserve' := h.reserve_eq additional
  rcases h.reserve_cases additional with ⟨capacity, hok, hholds⟩ | ⟨herror, -⟩
  · rw [hreserve] at hok
    obtain rfl := Except.ok.inj hok
    refine ⟨⟨xs, hholds⟩, ?_⟩
    rw [hreserve] at hreserve'
    split at hreserve'
    · rename_i hle
      rw [Except.ok.inj hreserve']
      exact hle
    · split at hreserve'
      · cases hreserve'
      · rw [Except.ok.inj hreserve']
        exact (Nat.le_max_right ..).trans (Nat.le_max_left ..)
  · rw [hreserve] at herror
    cases herror

theorem roomy_of_withCapacity {n : Nat} (h : withCapacity n = .ok list) : Roomy n list := by
  obtain ⟨nodes, hmade, h⟩ := exists_of_bind_eq_ok h
  obtain ⟨hlimit, rfl⟩ := (Pool.Begun.withCapacity hmade).eq_ofVacant
  obtain rfl := Except.ok.inj h
  exact ⟨⟨_, (linked_none (e := .head) (Pool.valid_ofVacant hlimit) rfl).holds⟩, Nat.le_refl n⟩

end LinkedList

end LinkedPool
