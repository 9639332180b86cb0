import LinkedPool.Element.Tracked
import LinkedPool.Proofs.LinkedList.Room
import LinkedPool.Proofs.LinkedList.Teardown

/-!
# Where appended elements are put

A pool leaves no choice of slots: insertions take its vacant slots in the
order of the chain, and then new ones in ascending order (`Pool.upcoming`).
So what a list is after elements were appended to it is known but for its
memory (`Appended`). Known is meant literally: the cells of a linked list,
its vacant slots, the number of its slots and its capacity determine it
(`Linked.unique`), and lists that agree in these are the same.
-/

namespace LinkedPool

namespace Pool

variable {β : Type} {pool pool' : Pool β} {free free' : List Slot} {slot : Slot}

/-- The slots that the next `n` insertions take: the vacant slots `free`,
and after these new ones, from `slots` on. -/
def upcoming (free : List Slot) (slots n : Nat) : List Slot :=
  free.take n ++ List.range' slots (n - free.length)

@[simp] theorem upcoming_zero (free : List Slot) (slots : Nat) : upcoming free slots 0 = [] := by
  simp [upcoming]

@[simp] theorem upcoming_cons (slot : Slot) (free : List Slot) (slots n : Nat) :
    upcoming (slot :: free) slots (n + 1) = slot :: upcoming free slots n := by
  simp [upcoming]

@[simp] theorem upcoming_nil (slots n : Nat) :
    upcoming [] slots (n + 1) = slots :: upcoming [] (slots + 1) n := by
  simp [upcoming, List.range'_succ]

@[simp] theorem length_upcoming (free : List Slot) (slots n : Nat) :
    (upcoming free slots n).length = n := by
  simp only [upcoming, List.length_append, List.length_take, List.length_range']
  omega

/-- One slot to come: that on top of the chain, or a new one if there is none. -/
theorem upcoming_one (free : List Slot) (slots : Nat) :
    upcoming free slots 1 = [free.head?.getD slots] := by
  cases free with
  | nil => rfl
  | cons slot free => rw [upcoming_cons, upcoming_zero, List.head?_cons, Option.getD_some]

/-- The first of the slots to come is the one that an insertion gets. -/
theorem Obtained.upcoming_eq [Stored β] {memory : Memory}
    (h : Obtained memory pool free slot pool' free') (n : Nat) :
    upcoming free pool.slots (n + 1) = slot :: upcoming free' pool'.slots n
      ∧ free.drop (n + 1) = free'.drop n
      ∧ pool'.slots + (n - free'.length) = pool.slots + (n + 1 - free.length) := by
  cases h with
  | vacant slots capacity =>
      refine ⟨by rw [slots, upcoming_cons], rfl, ?_⟩
      rw [List.length_cons]
      omega
  | new slots grown =>
      refine ⟨by rw [slots, upcoming_nil], by simp, ?_⟩
      rw [List.length_nil]
      omega

/-- Two chains through the same slots are entered and linked alike. -/
theorem Chained.agree {storage storage' : Array (Entry β)} {start start' : Option Slot}
    (h : Chained storage start free) (h' : Chained storage' start' free) :
    start = start' ∧ ∀ slot ∈ free, storage[slot]? = storage'[slot]? := by
  induction free generalizing start start' with
  | nil => exact ⟨Eq.trans h (Eq.symm h'), List.forall_mem_nil _⟩
  | cons first free ih =>
      obtain ⟨rfl, next, hfirst, hrest⟩ := h
      obtain ⟨rfl, next', hfirst', hrest'⟩ := h'
      obtain ⟨rfl, hsame⟩ := ih hrest hrest'
      exact ⟨rfl, List.forall_mem_cons.mpr ⟨hfirst.trans hfirst'.symm, hsame⟩⟩

/-- A pool is known by its objects in their slots, the order of its vacant
slots, the number of its slots, and its memory. -/
theorem Valid.unique (h : pool.Valid free) (h' : pool'.Valid free)
    (hview : pool.get? = pool'.get?) (hslots : pool.slots = pool'.slots)
    (hcapacity : pool.capacity = pool'.capacity) : pool = pool' := by
  obtain ⟨hfirst, hvacant⟩ := h.chained.agree h'.chained
  have hstorage : pool.storage = pool'.storage := by
    refine Array.ext_getElem? ?_
    intro slot
    by_cases hlt : slot < pool.slots
    · cases hslot : pool.get? slot with
      | none => exact hvacant slot (h.mem_of_get?_eq_none hlt hslot)
      | some object =>
          rw [get?_eq_some.mp hslot]
          rw [hview] at hslot
          rw [get?_eq_some.mp hslot]
    · have hle : pool.storage.size ≤ slot := Nat.le_of_not_lt hlt
      have hle' : pool'.storage.size ≤ slot := Nat.le_trans (Nat.le_of_eq hslots.symm) hle
      rw [Array.getElem?_eq_none hle, Array.getElem?_eq_none hle']
  have hlen : pool.len = pool'.len := by
    rw [h.count, h'.count, live, live, hstorage]
  obtain ⟨storage, firstFree, len, capacity⟩ := pool
  obtain ⟨storage', firstFree', len', capacity'⟩ := pool'
  obtain rfl : storage = storage' := hstorage
  obtain rfl : firstFree = firstFree' := hfirst
  obtain rfl : len = len' := hlen
  obtain rfl : capacity = capacity' := hcapacity
  rfl

end Pool

namespace LinkedList

open Cells Element

variable {α : Type} {e : End} {list list' list'' : LinkedList α} {cells : Cells α}
  {free free' : List Slot} {slot : Slot} {x : α} {xs : List α} {memory : Memory}

/-! ## A linked list is known by its cells -/

/-- Lists through the same cells hold the same in every slot. -/
theorem Linked.get?_eq (h : Linked e list cells free) (h' : Linked e list' cells free') :
    list.nodes.get? = list'.nodes.get? := by
  funext slot
  by_cases hslot : slot ∈ cells.slots
  · obtain ⟨⟨slot, x⟩, hmem, rfl⟩ := List.mem_map.mp hslot
    obtain ⟨front, back, hsplit⟩ := List.append_of_mem hmem
    rw [h.node front slot x back hsplit, h'.node front slot x back hsplit]
  · rw [h.get?_eq_none hslot, h'.get?_eq_none hslot]

theorem Linked.toEnds_eq (h : Linked e list cells free) (h' : Linked e list' cells free') :
    list.toEnds = list'.toEnds := by
  have hnear : list.slotAt e = list'.slotAt e := h.near.trans h'.near.symm
  have hfar : list.slotAt e.opposite = list'.slotAt e.opposite := h.far.trans h'.far.symm
  obtain ⟨⟨head, tail⟩, nodes⟩ := list
  obtain ⟨⟨head', tail'⟩, nodes'⟩ := list'
  cases e with
  | head => exact congrArg₂ Ends.mk hnear hfar
  | tail => exact congrArg₂ Ends.mk hfar hnear

theorem Linked.unique (h : Linked e list cells free) (h' : Linked e list' cells free)
    (hslots : list.nodes.slots = list'.nodes.slots)
    (hcapacity : list.nodes.capacity = list'.nodes.capacity) : list = list' := by
  have hends := h.toEnds_eq h'
  have hnodes := h.valid.unique h'.valid (h.get?_eq h') hslots hcapacity
  obtain ⟨ends, nodes⟩ := list
  obtain ⟨ends', nodes'⟩ := list'
  obtain rfl : ends = ends' := hends
  obtain rfl : nodes = nodes' := hnodes
  rfl

theorem Linked.healthy_listed (h : Linked e list cells free) :
    list.Healthy (e.listed cells.slots) := by
  cases e with
  | head => exact h.healthy
  | tail =>
      have hhealthy := h.flip.healthy
      rwa [slots_reverse] at hhealthy

/-- The cells of a list as they come from the end `e`. -/
theorem Linked.from_end (h : Linked .head list cells free) (e : End) :
    ∃ listed : Cells α, Linked e list listed free ∧ e.listed listed.slots = cells.slots
      ∧ listed.elements = e.listed cells.elements := by
  cases e with
  | head => exact ⟨cells, h, rfl, rfl⟩
  | tail =>
      refine ⟨cells.reverse, h.flip, ?_, elements_reverse cells⟩
      rw [slots_reverse]
      exact List.reverse_reverse _

/-- The same list with memory for `capacity` slots. -/
def withMemory (capacity : Nat) (list : LinkedList α) : LinkedList α :=
  { list with nodes := { list.nodes with capacity } }

/-- Without regard to memory, the number of slots is enough. -/
theorem Linked.eq_withMemory (h : Linked e list cells free) (h' : Linked e list' cells free)
    (hslots : list.nodes.slots = list'.nodes.slots) :
    list' = list.withMemory list'.nodes.capacity := by
  have hfits : list.nodes.slots ≤ list'.nodes.capacity := hslots ▸ h'.valid.fits
  have hlinked : Linked e (list.withMemory list'.nodes.capacity) cells free :=
    ⟨h.valid.withMemory hfits h'.valid.bounded, h.near, h.far, h.distinct, h.count, h.node⟩
  exact h'.unique hlinked hslots.symm rfl

/-! ## Appended elements -/

/-- `list'` is `list`, linked through `cells` from the end `e`, with `xs`
appended at that end, one after the other, in the slots to come. -/
structure Appended (e : End) (list : LinkedList α) (cells : Cells α) (free : List Slot)
    (xs : List α) (list' : LinkedList α) : Prop where
  linked : Linked e list'
    (((Pool.upcoming free list.nodes.slots xs.length).zip xs).reverse ++ cells)
    (free.drop xs.length)
  slots : list'.nodes.slots = list.nodes.slots + (xs.length - free.length)

theorem appended_nil (h : Linked e list cells free) : Appended e list cells free [] list := by
  refine ⟨?_, ?_⟩
  · simpa using h
  · simp

theorem Appended.cons [Element α]
    (hslot : Pool.Obtained memory list.nodes free slot list'.nodes free')
    (h : Appended e list' ((slot, x) :: cells) free' xs list'') :
    Appended e list cells free (x :: xs) list'' := by
  obtain ⟨hslots, hfree, hcount⟩ := hslot.upcoming_eq xs.length
  refine ⟨?_, ?_⟩
  · rw [List.length_cons, hslots, hfree, List.zip_cons_cons, List.reverse_cons, List.append_assoc]
    exact h.linked
  · rw [List.length_cons, ← hcount]
    exact h.slots

/-- Each of the elements goes into one of the slots to come. -/
theorem slots_zip_upcoming (free : List Slot) (slots : Nat) (xs : List α) :
    Cells.slots ((Pool.upcoming free slots xs.length).zip xs)
      = Pool.upcoming free slots xs.length :=
  List.map_fst_zip (Nat.le_of_eq (Pool.length_upcoming ..))

theorem Appended.eq_withMemory (h : Appended e list cells free xs list')
    (h' : Appended e list cells free xs list'') :
    list'' = list'.withMemory list''.nodes.capacity :=
  h.linked.eq_withMemory h'.linked (h.slots.trans h'.slots.symm)

theorem Appended.len (h : Appended e list cells free xs list')
    (hlinked : Linked e list cells free) : list'.len = list.len + xs.length := by
  rw [h.linked.count, hlinked.count]
  simp only [List.length_append, List.length_reverse, List.length_zip, Pool.length_upcoming,
    Nat.min_self]
  omega

/-- Seen from the head, elements appended at the tail come last. -/
theorem Appended.healthy (h : Appended .tail list cells free xs list') :
    list'.Healthy
        (cells.slots.reverse ++ Pool.upcoming free list.nodes.slots xs.length)
      ∧ list'.contents .head = .ok (cells.elements.reverse ++ xs) := by
  have hlinked := h.linked.flip
  rw [List.reverse_append, List.reverse_reverse] at hlinked
  have helements : Cells.elements ((Pool.upcoming free list.nodes.slots xs.length).zip xs) = xs :=
    List.map_snd_zip (Nat.le_of_eq (Pool.length_upcoming ..).symm)
  refine ⟨?_, ?_⟩
  · have hhealthy := hlinked.healthy
    rwa [slots_append, slots_reverse, slots_zip_upcoming] at hhealthy
  · have hcontents := (Linked.holds hlinked).contents .head
    rwa [End.opposite, elements_append, elements_reverse, helements] at hcontents

variable [Element α]

/-- An element that is taken is appended, and another leaves the list as it was. -/
theorem Linked.insertion_appended (h : Linked e list cells free) (memory : Memory) (x : α) :
    Declines memory e x list
      ∨ ∃ capacity, Takes memory e x list capacity
        ∧ Appended e list cells free [x] (list.append memory e x).state := by
  rcases h.tryAppend_cases memory x with
    ⟨refusal, -, -, htry⟩ | ⟨slot, list', free', htry, hlinked, hslot⟩
  · have happend := htry
    rw [← Outcome.after_nil (Outcome.map _ _)] at happend
    exact .inl (declines_of_rejected htry (append_of_tryAppend happend))
  · have happend : list.append memory e x = ⟨⟨.ok (), insertionLines slot cells⟩, list'⟩ := by
      rw [append, htry]
      simp [Traced.answer]
    have htakes : Takes memory e x list list'.nodes.capacity :=
      ⟨by rw [happend], by rw [htry], by rw [happend, htry], by rw [happend]⟩
    refine .inr ⟨_, htakes, ?_⟩
    rw [happend]
    exact (appended_nil hlinked).cons hslot

/-- Whatever the memory, the elements taken from a source are appended, as
far as it goes. -/
theorem Linked.appendAll_appended (h : Linked .tail list cells free) (memory : Memory)
    (pulls : List (Pull α)) :
    ∃ xs, Appended .tail list cells free xs (list.appendAll memory pulls).state.1 := by
  induction pulls generalizing list cells free with
  | nil => exact ⟨[], appended_nil h⟩
  | cons pull pulls ih =>
      cases hhanded : pull.handed with
      | error panic =>
          rw [appendAll, pull.yield_eq, hhanded]
          exact ⟨[], appended_nil h⟩
      | ok x =>
          rcases h.append_cases memory x with
            ⟨refusal, -, -, happend⟩ | ⟨slot, list', free', happend, hlinked, hslot⟩
          · rw [appendAll, pull.yield_eq, hhanded, Traced.leaving_mk, Outcome.bind_ok, happend,
              rejecting_eq]
            exact ⟨[], appended_nil h⟩
          · rw [appendAll, pull.yield_eq, hhanded, Traced.leaving_mk, Outcome.bind_ok, happend]
            obtain ⟨xs, hxs⟩ := ih hlinked
            exact ⟨x :: xs, hxs.cons hslot⟩

/-! ## Extensions, after the hint is heeded -/

theorem Linked.reserve_cases (h : Linked e list cells free) (hint : Nat) :
    (∃ capacity, list.reserve hint = .ok (list.withMemory capacity)
        ∧ Linked e (list.withMemory capacity) cells free
        ∧ list.len + hint ≤ capacity ∧ ¬Exceeds hint list)
      ∨ (list.reserve hint = .error .capacityOverflow ∧ Exceeds hint list) := by
  rcases Pool.reserve_cases h.valid hint with
    ⟨capacity, hreserve, hvalid, hgrow⟩ | ⟨hreserve, hexceeds⟩
  · have hroom : list.len + hint ≤ capacity := Capacity.needed_le_of_grow hgrow
    refine .inl ⟨capacity, ?_, ⟨hvalid, h.near, h.far, h.distinct, h.count, h.node⟩, hroom,
      not_exceeds hgrow⟩
    rw [reserve, hreserve]
    rfl
  · refine .inr ⟨?_, hexceeds⟩
    rw [reserve, hreserve]
    rfl

theorem extend_of_reserve (source : Source α) {reserved : LinkedList α}
    {call : Outcome α (LinkedList α × List (Pull α)) Unit}
    (h : list.reserve source.hint = .ok reserved)
    (hcall : reserved.appendAll memory source.pulls = call) :
    list.extend memory source = (call.onPanic (Source.leftovers call.state.2)).within Prod.fst := by
  rw [extend, h, ← hcall]

/-! ## A list with a gap -/

/-- Two elements in slots out of order, with a vacant slot between them. -/
def gapped : LinkedList Tracked where
  head := some 2
  tail := some 0
  nodes :=
    { storage :=
        #[.used ⟨none, some 2, ⟨2, "y", none⟩⟩, .vacant none, .used ⟨some 0, none, ⟨1, "x", none⟩⟩]
      firstFree := some 1
      len := 2
      capacity := 3 }

theorem gapped_healthy : gapped.Healthy [2, 0] := by
  refine ⟨⟨rfl, _, rfl, rfl, _, rfl, rfl⟩, ⟨rfl, _, rfl, rfl, _, rfl, rfl⟩, by decide, rfl,
    ⟨rfl, rfl⟩, ?_⟩
  intro front slot next back hsplit
  rcases front with _ | ⟨first, front⟩
  · cases hsplit
    exact ⟨⟨_, rfl, rfl⟩, ⟨_, rfl, rfl⟩⟩
  · have hlength := congrArg List.length hsplit
    simp only [List.length_cons, List.length_append, List.length_nil] at hlength
    omega

theorem gapped_valid : gapped.nodes.Valid [1] := by
  refine ⟨⟨rfl, none, rfl, rfl⟩, by decide, ?_, by decide, by decide, by decide⟩
  intro slot next hslot
  have hlt : slot < 3 := (Array.getElem?_eq_some_iff.mp hslot).1
  match slot, hlt with
  | 0, _ | 2, _ => cases hslot
  | 1, _ => exact List.mem_cons_self ..

end LinkedList

end LinkedPool
