import LinkedPool.Proofs.LinkedList.Agreement
import LinkedPool.Proofs.LinkedList.Placement

/-!
# Appending and deleting undo each other

An element appended at an end and deleted again leaves the list as it was,
whichever end it is deleted from: its slot was on top of the chain of vacant
slots and is put back there. If it took a new slot, that slot is left behind
on top of the chain, and the memory it was put in (`withSpare`); that is all
there is to tell the lists apart. The other way around, an element deleted
from its end leaves its slot to the one that is appended there next, and
nothing at all is left behind.

That a deletion goes through is not the same as that it answers: the element
is dropped last, and its drop may panic (`unstable_unanswered`).
-/

namespace LinkedPool

namespace Pool

variable {β : Type} {pool : Pool β} {free : List Slot} {capacity : Nat}

/-- The pool with one more vacant slot, on top of the chain, and memory for
`capacity` slots. -/
def withSpare (capacity : Nat) (pool : Pool β) : Pool β :=
  { pool with
    storage := pool.storage.push (.vacant pool.firstFree)
    firstFree := some pool.slots
    capacity }

@[simp] theorem slots_withSpare (capacity : Nat) (pool : Pool β) :
    (pool.withSpare capacity).slots = pool.slots + 1 :=
  Array.size_push _

@[simp] theorem live_withSpare (capacity : Nat) (pool : Pool β) :
    (pool.withSpare capacity).live = pool.live := by
  simp [live, withSpare, Entry.object?]

/-- A vacant slot holds nothing, as a slot beyond the storage does. -/
@[simp] theorem get?_withSpare (capacity : Nat) (pool : Pool β) :
    (pool.withSpare capacity).get? = pool.get? := by
  funext slot
  by_cases hslot : slot = pool.slots
  · subst hslot
    rw [get?_eq_none_of_le (Nat.le_refl _)]
    have hspare : (pool.withSpare capacity).storage[pool.slots]? = some (.vacant pool.firstFree) :=
      Array.getElem?_push_size
    exact get?_eq_none_of_vacant hspare
  · rw [get?, withSpare, Array.getElem?_push, if_neg (show ¬slot = pool.storage.size from hslot),
      get?]

theorem Valid.withSpare (h : pool.Valid free) (hfits : pool.slots + 1 ≤ capacity)
    (hbounded : capacity < Capacity.ceiling) :
    (pool.withSpare capacity).Valid (pool.slots :: free) := by
  have hold {slot : Slot} (hslot : slot ≠ pool.slots) :
      (pool.withSpare capacity).storage[slot]? = pool.storage[slot]? := by
    rw [Pool.withSpare, Array.getElem?_push, if_neg (show ¬slot = pool.storage.size from hslot)]
  have hne : ∀ slot ∈ free, slot ≠ pool.slots := fun slot hslot =>
    Nat.ne_of_lt (h.lt_slots hslot)
  refine ⟨⟨rfl, pool.firstFree, Array.getElem?_push_size, ?_⟩, ?_, ?_, ?_, ?_, hbounded⟩
  · exact h.chained.frame fun slot hslot => hold (hne slot hslot)
  · exact List.nodup_cons.mpr ⟨fun hmem => hne _ hmem rfl, h.distinct⟩
  · intro slot next hvacant
    by_cases hslot : slot = pool.slots
    · exact hslot ▸ List.mem_cons_self ..
    · rw [hold hslot] at hvacant
      exact List.mem_cons_of_mem _ (h.complete slot next hvacant)
  · rw [live_withSpare]
    exact h.count
  · rw [slots_withSpare]
    exact hfits

end Pool

theorem End.eq_opposite_of_ne {d e : End} (h : d ≠ e) : d = e.opposite := by
  cases d <;> cases e <;> simp_all [End.opposite]

namespace LinkedList

open Cells Element

variable {α : Type} {d e : End} {list list' : LinkedList α} {cells front back : Cells α}
  {slots free free' : List Slot} {slot : Slot} {x value : α} {xs : List α} {capacity : Nat}

/-- The list with one more vacant slot, on top of the chain, and memory for
`capacity` slots. -/
def withSpare (capacity : Nat) (list : LinkedList α) : LinkedList α :=
  { list with nodes := list.nodes.withSpare capacity }

theorem Linked.withSpare (h : Linked e list cells free) (hfits : list.nodes.slots + 1 ≤ capacity)
    (hbounded : capacity < Capacity.ceiling) :
    Linked e (list.withSpare capacity) cells (list.nodes.slots :: free) where
  valid := h.valid.withSpare hfits hbounded
  near := h.near
  far := h.far
  distinct := h.distinct
  count := h.count
  node front slot x back hsplit := by
    show (list.nodes.withSpare capacity).get? slot = _
    rw [Pool.get?_withSpare]
    exact h.node front slot x back hsplit

variable [Element α]

/-- The first element that does not deny is deleted if it says yes. -/
theorem Linked.delete_of_denied (h : Linked e list (front ++ (slot, x) :: back) free)
    (hdenied : Denied value front.elements) (hsame : equal x value = .ok true) :
    ∃ list', list.delete e value
        = ⟨⟨(dropPanic x).elim (.ok true) .error, asked value (front.elements ++ [x])
            ++ [.logged (removalLine e (lastSlot front) slot (firstSlot back) x), .dropped x]⟩,
          list'⟩
      ∧ Linked e list' (front ++ back) (slot :: free)
      ∧ list'.nodes.slots = list.nodes.slots ∧ list'.nodes.capacity = list.nodes.capacity := by
  obtain ⟨list', hremove, hlinked, hcapacity⟩ := h.remove
  refine ⟨list', ?_, hlinked, hcapacity⟩
  have hsplit : (front ++ (slot, x) :: back).elements = front.elements ++ x :: back.elements :=
    elements_append ..
  have hslot : (slots (front ++ (slot, x) :: back))[front.elements.length]? = some slot := by
    simp [Cells.slots, elements]
  rw [delete, h.locate, hsplit, (Searched.found _ x _ rfl hdenied hsame).search_eq]
  simp only [Traced.bind_ok, Option.bind_some, hslot, Traced.answer, Traced.after_mk,
    Traced.leaving_mk, Outcome.bind_ok, hremove, List.append_nil]
  rcases discard_cases x with ⟨hdrop, hdiscard⟩ | ⟨panic, hdrop, hdiscard⟩
  · rw [hdiscard, hdrop]
    rfl
  · rw [hdiscard, hdrop]
    rfl

/-- An element at the end `e` is deleted from either end, if from the other one
it is not held up. -/
theorem Linked.delete_outermost (h : Linked e list ((slot, x) :: cells) free)
    (hself : equal x x = .ok true) (hdenied : d ≠ e → Denied x cells.elements) :
    ∃ list', (list.delete d x).result = (dropPanic x).elim (.ok true) .error
      ∧ (list.delete d x).state = list' ∧ Linked e list' cells (slot :: free)
      ∧ list'.nodes.slots = list.nodes.slots ∧ list'.nodes.capacity = list.nodes.capacity := by
  by_cases hd : d = e
  · subst hd
    have hfirst : Linked d list ([] ++ (slot, x) :: cells) free := h
    obtain ⟨list', hdelete, hlinked, hcapacity⟩ :=
      hfirst.delete_of_denied (List.forall_mem_nil _) hself
    exact ⟨list', by rw [hdelete], by rw [hdelete], hlinked, hcapacity⟩
  · obtain rfl : d = e.opposite := End.eq_opposite_of_ne hd
    have hflip := h.flip
    rw [List.reverse_cons] at hflip
    have hothers : Denied x (elements cells.reverse) := by
      rw [elements_reverse]
      exact fun y hy => hdenied hd y (List.mem_reverse.mp hy)
    obtain ⟨list', hdelete, hlinked, hcapacity⟩ := hflip.delete_of_denied hothers hself
    rw [List.append_nil] at hlinked
    refine ⟨list', by rw [hdelete], by rw [hdelete], ?_, hcapacity⟩
    rw [← List.reverse_reverse cells]
    exact linked_flip_iff.mp hlinked

/-! ## Append, then delete -/

/-- The list runs through the same slots with the same elements and links. -/
structure Restored (list : LinkedList α) (slots : List Slot) (xs : List α)
    (list' : LinkedList α) : Prop where
  ends : list'.toEnds = list.toEnds
  nodes : list'.nodes.get? = list.nodes.get?
  healthy : list'.Healthy slots
  contents : list'.contents .head = .ok xs

/-- Appending `x` to `list` at the end `e` and deleting it from the end `d`. -/
structure AppendUndone (memory : Memory) (e d : End) (x : α) (list : LinkedList α)
    (slots free : List Slot) (xs : List α) : Prop where
  /-- If there is no slot for it, nothing is done that could be undone. -/
  refused : ∀ refusal, free = [] →
    Capacity.grow (Node α) memory list.nodes.capacity (list.nodes.slots + 1) = .error refusal →
      (list.append memory e x).result ≠ .ok () ∧ (list.append memory e x).state = list
  reused : free ≠ [] →
    (list.append memory e x).result = .ok ()
      ∧ ((list.append memory e x).state.delete d x).result = (dropPanic x).elim (.ok true) .error
      ∧ ((list.append memory e x).state.delete d x).state = list
  grown : ∀ capacity, free = [] →
    Capacity.grow (Node α) memory list.nodes.capacity (list.nodes.slots + 1) = .ok capacity →
      (list.append memory e x).result = .ok ()
        ∧ ((list.append memory e x).state.delete d x).result = (dropPanic x).elim (.ok true) .error
        ∧ ((list.append memory e x).state.delete d x).state = list.withSpare capacity
        ∧ Restored list slots xs (list.withSpare capacity)
        ∧ (list.withSpare capacity).nodes.Valid [list.nodes.slots]

omit [Element α] in
theorem Linked.restored (h : Linked e list cells free) (h' : Linked e list' cells free') :
    Restored list (e.listed cells.slots) (e.listed cells.elements) list' :=
  ⟨(h.toEnds_eq h').symm, (h.get?_eq h').symm, h'.healthy_listed,
    h'.holds.contents .head⟩

theorem Linked.append_undone (h : Linked e list cells free) (memory : Memory)
    (hself : equal x x = .ok true) (hdenied : d ≠ e → Denied x cells.elements) :
    AppendUndone memory e d x list (e.listed cells.slots) free (e.listed cells.elements) := by
  rcases h.append_cases memory x with
    ⟨refusal, rfl, hgrow, happend⟩ | ⟨slot, list', free', happend, hlinked, hslot⟩
  · rw [rejecting_eq] at happend
    refine ⟨?_, fun hfree => absurd rfl hfree, ?_⟩
    · intro _ _ _
      rw [happend]
      exact ⟨nofun, rfl⟩
    · intro capacity _ hgrow'
      cases hgrow.symm.trans hgrow'
  · obtain ⟨list'', hresult, hstate, hlinked', hslots, hcapacity⟩ :=
      hlinked.delete_outermost hself hdenied
    cases hslot with
    | vacant slots capacity =>
        obtain rfl : list'' = list :=
          hlinked'.unique h (hslots.trans slots) (hcapacity.trans capacity)
        refine ⟨nofun, ?_, nofun⟩
        intro _
        rw [happend]
        exact ⟨rfl, hresult, hstate⟩
    | new slots grown =>
        have hfits : list.nodes.slots + 1 ≤ list'.nodes.capacity :=
          Capacity.needed_le_of_grow grown
        have hspare : Linked e (list.withSpare list'.nodes.capacity) cells [list.nodes.slots] :=
          h.withSpare hfits hlinked.valid.bounded
        obtain rfl : list'' = list.withSpare list'.nodes.capacity := by
          refine hlinked'.unique hspare ?_ hcapacity
          rw [hslots, slots]
          exact (Pool.slots_withSpare ..).symm
        refine ⟨?_, fun hfree => absurd rfl hfree, ?_⟩
        · intro refusal _ hgrow
          cases hgrow.symm.trans grown
        · intro capacity _ hgrow
          obtain rfl := Except.ok.inj (grown.symm.trans hgrow)
          rw [happend]
          exact ⟨rfl, hresult, hstate, h.restored hspare, hspare.valid⟩

/-! ## Delete, then append -/

theorem Linked.delete_undone (h : Linked e list ((slot, x) :: cells) free) (memory : Memory)
    (hself : equal x x = .ok true) :
    (list.delete e x).result = (dropPanic x).elim (.ok true) .error
      ∧ ((list.delete e x).state.append memory e x).result = .ok ()
      ∧ ((list.delete e x).state.append memory e x).state = list := by
  obtain ⟨list', hresult, rfl, hlinked, hslots, hcapacity⟩ :=
    h.delete_outermost hself (d := e) fun hne => absurd rfl hne
  refine ⟨hresult, ?_⟩
  rcases hlinked.append_cases memory x with
    ⟨refusal, hfree, -⟩ | ⟨slot', list'', free', happend, hlinked', hslot⟩
  · cases hfree
  · cases hslot with
    | vacant slots capacity =>
        rw [happend]
        exact ⟨rfl, hlinked'.unique h (slots.trans hslots) (capacity.trans hcapacity)⟩

/-- An element appended at either end and deleted from either end leaves
nothing behind but, at most, the slot that was new to it. The first element
from an end, deleted from there and appended there again, leaves nothing
behind at all. -/
theorem end_operations_undone (hhealthy : list.Healthy slots) (hvalid : list.nodes.Valid free)
    (hcontents : list.contents .head = .ok xs) (memory : Memory) (e : End) (x : α)
    (hself : equal x x = .ok true) :
    (∀ d, (d ≠ e → Denied x xs) → AppendUndone memory e d x list slots free xs)
      ∧ ((e.listed xs).head? = some x →
        (list.delete e x).result = (dropPanic x).elim (.ok true) .error
          ∧ ((list.delete e x).state.append memory e x).result = .ok ()
          ∧ ((list.delete e x).state.append memory e x).state = list) := by
  obtain ⟨cells, hhead, rfl⟩ := hhealthy.linked hvalid
  obtain rfl : cells.elements = xs :=
    Except.ok.inj ((hhead.holds.contents .head).symm.trans hcontents)
  obtain ⟨listed, hlinked, hslots, helements⟩ := hhead.from_end e
  refine ⟨?_, ?_⟩
  · intro d hdenied
    have hothers : d ≠ e → Denied x listed.elements := by
      intro hd y hy
      rw [helements, End.mem_listed] at hy
      exact hdenied hd y hy
    have hundone := hlinked.append_undone memory hself hothers
    rwa [hslots, helements, End.listed_listed] at hundone
  · intro hfirst
    rw [← helements] at hfirst
    cases listed with
    | nil => cases hfirst
    | cons cell rest =>
        obtain ⟨slot, y⟩ := cell
        obtain rfl : y = x := Option.some.inj hfirst
        exact hlinked.delete_undone memory hself

/-- Appending an element that panics when it is dropped, and deleting it. -/
theorem unstable_unanswered :
    ¬∀ (list : LinkedList Tracked) (slots free : List Slot) (xs : List Tracked) (memory : Memory)
      (e d : End) (x : Tracked), list.Healthy slots → list.nodes.Valid free →
      list.contents .head = .ok xs → equal x x = .ok true → Denied x xs →
      (list.append memory e x).result = .ok () →
      ((list.append memory e x).state.delete d x).result = .ok true := by
  intro hclaim
  have hempty : Linked .head (empty : LinkedList Tracked) [] [] := linked_empty
  have hanswers := hclaim .empty [] [] [] .ample .tail .head ⟨1, "w", some .dropping⟩
    hempty.healthy hempty.valid rfl rfl (List.forall_mem_nil _) rfl
  cases hanswers

theorem gapped_operations_undone :
    gapped.Healthy [2, 0] ∧ gapped.nodes.Valid [1]
      ∧ gapped.contents .head = .ok [⟨1, "x", none⟩, ⟨2, "y", none⟩]
      ∧ ((gapped.append .exhausted .head ⟨3, "z", none⟩).state.delete .tail ⟨3, "z", none⟩).state
        = gapped
      ∧ ((gapped.delete .tail ⟨2, "y", none⟩).state.append .exhausted .tail ⟨2, "y", none⟩).state
        = gapped
      ∧ (((empty : LinkedList Tracked).append .ample .head ⟨3, "z", some .dropping⟩).state.delete
          .tail ⟨3, "z", some .dropping⟩).state = empty.withSpare 4 := by
  have hcontents : gapped.contents .head = .ok [⟨1, "x", none⟩, ⟨2, "y", none⟩] := rfl
  have hempty : Linked .head (empty : LinkedList Tracked) [] [] := linked_empty
  obtain ⟨happended, -⟩ := end_operations_undone gapped_healthy gapped_valid hcontents .exhausted
    .head ⟨3, "z", none⟩ rfl
  obtain ⟨-, hdeleted⟩ := end_operations_undone gapped_healthy gapped_valid hcontents .exhausted
    .tail ⟨2, "y", none⟩ rfl
  obtain ⟨hnew, -⟩ := end_operations_undone hempty.healthy hempty.valid rfl .ample .head
    ⟨3, "z", some .dropping⟩ rfl
  have hdenied : Denied (⟨3, "z", none⟩ : Tracked) [⟨1, "x", none⟩, ⟨2, "y", none⟩] :=
    List.forall_mem_cons.mpr ⟨rfl, List.forall_mem_cons.mpr ⟨rfl, List.forall_mem_nil _⟩⟩
  exact ⟨gapped_healthy, gapped_valid, hcontents,
    ((happended .tail fun _ => hdenied).reused (List.cons_ne_nil _ _)).2.2, (hdeleted rfl).2.2,
    ((hnew .tail fun _ => List.forall_mem_nil _).grown 4 rfl rfl).2.2.1⟩

end LinkedList

end LinkedPool
