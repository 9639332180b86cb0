import Mathlib.Data.List.Range
import Mathlib.Logic.Function.Basic
import LinkedPool.Pool.Basic

/-!
# A pool slot by slot

All that matters about the objects of a pool is which slot holds which of
them: the function `get?`. An operation that changes one slot updates this
function at one place, and what it does to the objects as a whole follows
from that (`live_perm_of_update`): the objects after it, with the one that
the slot held, are the objects before it, with the one that the slot holds.
-/

namespace LinkedPool

namespace Entry

variable {β : Type}

theorem object?_eq_some {entry : Entry β} {object : β} :
    entry.object? = some object ↔ entry = .used object := by
  cases entry <;> simp [object?]

end Entry

namespace Pool

variable {β : Type} {pool pool' : Pool β} {slot : Slot} {object : β}

theorem get?_eq_some :
    pool.get? slot = some object ↔ pool.storage[slot]? = some (.used object) := by
  simp [get?, Option.bind_eq_some_iff, Entry.object?_eq_some]

theorem get?_eq_none_of_vacant {next : Option Slot}
    (h : pool.storage[slot]? = some (.vacant next)) : pool.get? slot = none := by
  rw [get?, h]
  rfl

theorem get?_eq_none_of_le (h : pool.slots ≤ slot) : pool.get? slot = none := by
  rw [get?, Array.getElem?_eq_none h]
  rfl

theorem lt_slots_of_get? (h : pool.get? slot = some object) : slot < pool.slots := by
  by_contra hle
  rw [get?_eq_none_of_le (Nat.le_of_not_lt hle)] at h
  cases h

theorem get_of_get? (h : pool.get? slot = some object) : pool.get slot = .ok object := by
  rw [get, h]

/-! ## One slot changed -/

theorem get?_put (h : slot < pool.slots) (object : β) :
    (pool.put slot object).get? = Function.update pool.get? slot (some object) := by
  funext other
  by_cases hother : slot = other
  · subst hother
    rw [get?_put_self h, Function.update_self]
  · rw [get?_put_of_ne pool hother, Function.update_of_ne (Ne.symm hother)]

/-- Whatever else changes, an entry written into a slot of the storage
changes what that slot holds and nothing more. -/
theorem get?_of_setIfInBounds (entry : Entry β) (hlt : slot < pool.slots)
    (h : pool'.storage = pool.storage.setIfInBounds slot entry) :
    pool'.get? = Function.update pool.get? slot entry.object? := by
  funext other
  by_cases hother : slot = other
  · subst hother
    rw [get?, h, Array.getElem?_setIfInBounds_self_of_lt hlt, Function.update_self]
    rfl
  · rw [get?, h, Array.getElem?_setIfInBounds_ne hother,
      Function.update_of_ne (Ne.symm hother), get?]

theorem get?_of_push (h : pool'.storage = pool.storage.push (.used object)) :
    pool'.get? = Function.update pool.get? pool.slots (some object) := by
  funext other
  by_cases hother : other = pool.slots
  · subst hother
    rw [Function.update_self, get?_eq_some, h]
    exact Array.getElem?_push_size
  · rw [Function.update_of_ne hother, get?, h, Array.getElem?_push,
      if_neg (show ¬other = pool.storage.size from hother), get?]

/-! ## The objects together -/

/-- What a list holds, read place by place. -/
theorem filterMap_eq_filterMap_range {γ : Type} (f : γ → Option β) (entries : List γ) :
    entries.filterMap f
      = (List.range entries.length).filterMap fun i => entries[i]?.bind f := by
  induction entries with
  | nil => rfl
  | cons entry entries ih =>
      rw [List.length_cons, List.range_succ_eq_map, List.filterMap_cons, List.filterMap_cons,
        List.filterMap_map, ih]
      rfl

/-- The objects in the order of their slots are what the slots hold, one
slot after the other, the slots beyond the storage included. -/
theorem live_eq_filterMap_range {n : Nat} (h : pool.slots ≤ n) :
    pool.live = (List.range n).filterMap pool.get? := by
  obtain ⟨extra, rfl⟩ := Nat.exists_eq_add_of_le h
  have hbeyond : ((List.range extra).map (pool.slots + ·)).filterMap pool.get? = [] := by
    rw [List.filterMap_map, List.filterMap_eq_nil_iff]
    intro slot _
    exact get?_eq_none_of_le (Nat.le_add_right pool.slots slot)
  rw [List.range_add, List.filterMap_append, hbeyond, List.append_nil, live,
    filterMap_eq_filterMap_range, Array.length_toList]
  simp only [Array.getElem?_toList]
  rfl

/-- An update of one slot exchanges the object it held for the one it holds. -/
theorem live_perm_of_update {held : Option β}
    (h : pool'.get? = Function.update pool.get? slot held) :
    (held.toList ++ pool.live).Perm ((pool.get? slot).toList ++ pool'.live) := by
  obtain ⟨n, hbound, hbound', hslot⟩ :
      ∃ n, pool.slots ≤ n ∧ pool'.slots ≤ n ∧ slot < n :=
    ⟨pool.slots + pool'.slots + slot + 1, by omega, by omega,
      Nat.lt_succ_of_le (Nat.le_add_left slot _)⟩
  have hmem : slot ∈ List.range n := List.mem_range.mpr hslot
  have hothers : ((List.range n).erase slot).filterMap pool'.get?
      = ((List.range n).erase slot).filterMap pool.get? := by
    refine List.filterMap_congr ?_
    intro other hother
    have hne : other ≠ slot := (List.nodup_range.mem_erase_iff.mp hother).1
    rw [h, Function.update_of_ne hne]
  have hsplit (view : Slot → Option β) : ((List.range n).filterMap view).Perm
      ((view slot).toList ++ ((List.range n).erase slot).filterMap view) := by
    refine ((List.perm_cons_erase hmem).filterMap view).trans (.of_eq ?_)
    rw [List.filterMap_cons]
    cases view slot <;> rfl
  have hheld : pool'.get? slot = held := by rw [h, Function.update_self]
  have hafter : pool'.live.Perm
      (held.toList ++ ((List.range n).erase slot).filterMap pool.get?) := by
    rw [live_eq_filterMap_range hbound', ← hothers, ← hheld]
    exact hsplit pool'.get?
  have hbefore : pool.live.Perm
      ((pool.get? slot).toList ++ ((List.range n).erase slot).filterMap pool.get?) := by
    rw [live_eq_filterMap_range hbound]
    exact hsplit pool.get?
  exact ((hbefore.append_left _).trans (List.perm_append_comm_assoc _ _ _)).trans
    (hafter.symm.append_left _)

end Pool

end LinkedPool
