import Mathlib.Data.List.Forall2
import LinkedPool.Store

/-!
# Stores as seen from a name

In a store whose names are in ascending order, a name divides the entries:
those before it, the one under it if there is one, and those behind it
(`Split`). What is found, put or taken away under the name is the entry in
the middle, so that the other values stay as they are.
-/

namespace LinkedPool.Store

variable {β : Type} {store : Store β} {name other : String} {value : β}

def Sorted (store : Store β) : Prop := store.entries.Pairwise fun entry next => entry.1 < next.1

def values (store : Store β) : List β := store.entries.map Prod.snd

def entryOf (name : String) (held : Option β) : List (String × β) := held.toList.map (name, ·)

/-- The store holds `held` under `name`, and the other entries before and behind it. -/
structure Split (name : String) (store : Store β) (front : List (String × β)) (held : Option β)
    (back : List (String × β)) : Prop where
  entries : store.entries = front ++ entryOf name held ++ back
  before : ∀ entry ∈ front, entry.1 < name
  behind : ∀ entry ∈ back, name < entry.1

/-! ## Dividing entries in order -/

theorem exists_split (name : String) (entries : List (String × β))
    (hsorted : entries.Pairwise fun entry next => entry.1 < next.1) :
    ∃ front held back, Split name ⟨entries⟩ front held back := by
  induction entries with
  | nil =>
      exact ⟨[], none, [], rfl, List.forall_mem_nil _, List.forall_mem_nil _⟩
  | cons entry rest ih =>
      obtain ⟨other, value⟩ := entry
      obtain ⟨hfirst, hrest⟩ := List.pairwise_cons.mp hsorted
      by_cases heq : other = name
      · subst heq
        exact ⟨[], some value, rest, rfl, List.forall_mem_nil _, hfirst⟩
      · by_cases hlt : name < other
        · refine ⟨[], none, (other, value) :: rest, rfl, List.forall_mem_nil _, ?_⟩
          intro entry hentry
          rcases List.mem_cons.mp hentry with rfl | hentry
          · exact hlt
          · exact Std.lt_trans hlt (hfirst entry hentry)
        · have hgt : other < name := Std.lt_of_le_of_ne (Std.not_lt.mp hlt) heq
          obtain ⟨front, held, back, hentries, hbefore, hbehind⟩ := ih hrest
          refine ⟨(other, value) :: front, held, back, congrArg ((other, value) :: ·) hentries,
            ?_, hbehind⟩
          intro entry hentry
          rcases List.mem_cons.mp hentry with rfl | hentry
          · exact hgt
          · exact hbefore entry hentry

theorem Sorted.split (h : store.Sorted) (name : String) :
    ∃ front held back, Split name store front held back :=
  exists_split name store.entries h

theorem findIn_append {front : List (String × β)} (hbefore : ∀ entry ∈ front, entry.1 < name)
    (back : List (String × β)) : findIn name (front ++ back) = findIn name back := by
  induction front with
  | nil => rfl
  | cons entry front ih =>
      have hne : entry.1 ≠ name := fun heq =>
        Std.lt_irrefl (heq ▸ hbefore entry (List.mem_cons_self ..))
      rw [List.cons_append, findIn, if_neg hne]
      exact ih fun entry' h => hbefore entry' (List.mem_cons_of_mem _ h)

theorem findIn_eq_none {entries : List (String × β)}
    (hbehind : ∀ entry ∈ entries, name < entry.1) : findIn name entries = none := by
  induction entries with
  | nil => rfl
  | cons entry entries ih =>
      have hne : entry.1 ≠ name := fun heq =>
        Std.lt_irrefl (heq ▸ hbehind entry (List.mem_cons_self ..))
      rw [findIn, if_neg hne]
      exact ih fun entry' h => hbehind entry' (List.mem_cons_of_mem _ h)

theorem putIn_append {front : List (String × β)} (hbefore : ∀ entry ∈ front, entry.1 < name)
    (back : List (String × β)) :
    putIn name value (front ++ back) = front ++ putIn name value back := by
  induction front with
  | nil => rfl
  | cons entry front ih =>
      have hlt := hbefore entry (List.mem_cons_self ..)
      have hne : entry.1 ≠ name := fun heq => Std.lt_irrefl (heq ▸ hlt)
      have hnot : ¬name < entry.1 := fun hgt => Std.lt_irrefl (Std.lt_trans hlt hgt)
      rw [List.cons_append, putIn, if_neg hne, if_neg hnot,
        ih fun entry' h => hbefore entry' (List.mem_cons_of_mem _ h)]
      rfl

theorem putIn_cons {entries : List (String × β)} (hbehind : ∀ entry ∈ entries, name < entry.1) :
    putIn name value entries = (name, value) :: entries := by
  cases entries with
  | nil => rfl
  | cons entry entries =>
      have hlt := hbehind entry (List.mem_cons_self ..)
      have hne : entry.1 ≠ name := fun heq => Std.lt_irrefl (heq ▸ hlt)
      rw [putIn, if_neg hne, if_pos hlt]

theorem filter_eq_self (name : String) {entries : List (String × β)}
    (h : ∀ entry ∈ entries, entry.1 ≠ name) :
    entries.filter (fun entry => entry.1 ≠ name) = entries :=
  List.filter_eq_self.mpr fun entry hentry => decide_eq_true (h entry hentry)

namespace Split

variable {front back : List (String × β)} {held : Option β}

theorem find?_eq (h : Split name store front held back) : store.find? name = held := by
  rw [find?, h.entries, List.append_assoc, findIn_append h.before]
  cases held with
  | some value => exact if_pos rfl
  | none => exact findIn_eq_none h.behind

theorem put (h : Split name store front held back) (value : β) :
    Split name (store.put name value) front (some value) back where
  entries := by
    have hput : putIn name value (entryOf name held ++ back) = (name, value) :: back := by
      cases held with
      | some old => exact if_pos rfl
      | none => exact putIn_cons h.behind
    rw [Store.put, h.entries, List.append_assoc, putIn_append h.before, hput, List.append_assoc]
    rfl
  before := h.before
  behind := h.behind

theorem erase (h : Split name store front held back) :
    Split name (store.erase name) front none back where
  entries := by
    have hfront := filter_eq_self name fun entry hentry heq =>
      Std.lt_irrefl (heq ▸ h.before entry hentry)
    have hback := filter_eq_self name fun entry hentry heq =>
      Std.lt_irrefl (heq ▸ h.behind entry hentry)
    have hheld : (entryOf name held).filter (fun entry => entry.1 ≠ name) = [] := by
      cases held <;> simp [entryOf]
    rw [Store.erase, h.entries, List.filter_append, List.filter_append, hfront, hback, hheld]
    rfl
  before := h.before
  behind := h.behind

/-- Whatever is under the name, the names are in order if the others are. -/
theorem sorted {store' : Store β} {held' : Option β} (h : Split name store front held back)
    (hsorted : store.Sorted) (h' : Split name store' front held' back) : store'.Sorted := by
  have hothers : (front ++ back).Pairwise fun entry next => entry.1 < next.1 := by
    refine hsorted.sublist ?_
    rw [h.entries, List.append_assoc]
    exact (List.sublist_append_right _ _).append_left front
  rw [Sorted, h'.entries]
  obtain ⟨hfront, hback, -⟩ := List.pairwise_append.mp hothers
  cases held' with
  | none =>
      show (front ++ [] ++ back).Pairwise _
      rwa [List.append_nil]
  | some value =>
      rw [List.append_assoc, List.pairwise_append]
      refine ⟨hfront, List.pairwise_cons.mpr ⟨h.behind, hback⟩, ?_⟩
      intro entry hentry next hnext
      have hlt := h.before entry hentry
      rcases List.mem_cons.mp hnext with rfl | hnext
      · exact hlt
      · exact Std.lt_trans hlt (h.behind next hnext)

theorem values_perm (h : Split name store front held back) :
    store.values.Perm (held.toList ++ (front ++ back).map Prod.snd) := by
  rw [values, h.entries, List.map_append, List.map_append, List.map_append]
  cases held with
  | none => exact .of_eq (by simp [entryOf])
  | some value =>
      simp only [entryOf, Option.toList_some, List.map_cons, List.map_nil, List.append_assoc,
        List.singleton_append]
      exact List.perm_middle

end Split

/-! ## Operations on stores in order -/

theorem Sorted.put (h : store.Sorted) (name : String) (value : β) :
    (store.put name value).Sorted := by
  obtain ⟨front, held, back, hsplit⟩ := h.split name
  exact hsplit.sorted h (hsplit.put value)

theorem Sorted.erase (h : store.Sorted) (name : String) : (store.erase name).Sorted := by
  obtain ⟨front, held, back, hsplit⟩ := h.split name
  exact hsplit.sorted h hsplit.erase

theorem Sorted.values_put (h : store.Sorted) (name : String) (value : β) :
    ((store.find? name).toList ++ (store.put name value).values).Perm
      (value :: store.values) := by
  obtain ⟨front, held, back, hsplit⟩ := h.split name
  rw [hsplit.find?_eq]
  refine ((hsplit.put value).values_perm.append_left _).trans ?_
  refine (List.perm_append_comm_assoc _ _ _).trans ?_
  exact (hsplit.values_perm.symm).cons value

theorem Sorted.values_erase (h : store.Sorted) (name : String) :
    ((store.find? name).toList ++ (store.erase name).values).Perm store.values := by
  obtain ⟨front, held, back, hsplit⟩ := h.split name
  rw [hsplit.find?_eq]
  exact (hsplit.erase.values_perm.append_left _).trans hsplit.values_perm.symm

theorem Sorted.exists_of_mem_values (h : store.Sorted) (hvalue : value ∈ store.values) :
    ∃ name, store.find? name = some value := by
  obtain ⟨⟨name, value⟩, hentry, rfl⟩ := List.mem_map.mp hvalue
  obtain ⟨front, held, back, hsplit⟩ := h.split name
  refine ⟨name, ?_⟩
  rw [hsplit.find?_eq]
  rw [hsplit.entries] at hentry
  rcases List.mem_append.mp hentry with hentry | hentry
  · rcases List.mem_append.mp hentry with hentry | hentry
    · exact (Std.lt_irrefl (hsplit.before _ hentry)).elim
    · cases held with
      | none => exact (List.not_mem_nil hentry).elim
      | some old => exact congrArg some (Prod.mk.inj (List.mem_singleton.mp hentry)).2.symm
  · exact (Std.lt_irrefl (hsplit.behind _ hentry)).elim

theorem ensure_cases (name : String) (value : β) (store : Store β) :
    ((∃ old, store.find? name = some old) ∧ store.ensure name value = store)
      ∨ (store.find? name = none ∧ store.ensure name value = store.put name value) := by
  unfold ensure
  cases h : store.find? name with
  | some old => exact .inl ⟨⟨old, rfl⟩, rfl⟩
  | none => exact .inr ⟨rfl, rfl⟩

theorem find?_ensure_of_some (hfind : store.find? name = some value) (other : String)
    (default : β) : (store.ensure other default).find? name = some value := by
  rcases store.ensure_cases other default with ⟨-, hensure⟩ | ⟨hnone, hensure⟩
  · rw [hensure, hfind]
  · have hne : other ≠ name := by
      rintro rfl
      cases hnone.symm.trans hfind
    rw [hensure, find?_put_of_ne hne, hfind]

theorem findIn_filter_self (name : String) (entries : List (String × β)) :
    findIn name (entries.filter fun entry => entry.1 ≠ name) = none := by
  induction entries with
  | nil => rfl
  | cons entry entries ih =>
      rw [List.filter_cons]
      by_cases hname : entry.1 = name
      · rw [if_neg (by simp [hname]), ih]
      · rw [if_pos (by simp [hname]), findIn, if_neg hname, ih]

theorem findIn_filter_of_ne (h : name ≠ other) (entries : List (String × β)) :
    findIn other (entries.filter fun entry => entry.1 ≠ name) = findIn other entries := by
  induction entries with
  | nil => rfl
  | cons entry entries ih =>
      rw [List.filter_cons]
      by_cases hname : entry.1 = name
      · have hother : entry.1 ≠ other := fun heq => h (hname.symm.trans heq)
        rw [if_neg (by simp [hname]), findIn, if_neg hother, ih]
      · rw [if_pos (by simp [hname]), findIn, findIn, ih]

@[simp] theorem find?_erase_self (name : String) (store : Store β) :
    (store.erase name).find? name = none :=
  findIn_filter_self name store.entries

theorem find?_erase_of_ne (h : name ≠ other) (store : Store β) :
    (store.erase name).find? other = store.find? other :=
  findIn_filter_of_ne h store.entries

/-! ## Stores with the same names -/

variable {γ : Type} {R : β → γ → Prop} {store' : Store γ} {value' : γ}

/-- The names are the same, and the values under each of them are related. -/
def Pointwise (R : β → γ → Prop) (store : Store β) (store' : Store γ) : Prop :=
  List.Forall₂ (fun entry entry' => entry.1 = entry'.1 ∧ R entry.2 entry'.2) store.entries
    store'.entries

namespace Pointwise

theorem find? (h : store.Pointwise R store') (name : String) :
    (store.find? name = none ∧ store'.find? name = none)
      ∨ ∃ value value', store.find? name = some value ∧ store'.find? name = some value'
        ∧ R value value' := by
  unfold Pointwise at h
  rw [Store.find?, Store.find?]
  generalize store.entries = entries at h ⊢
  generalize store'.entries = entries' at h ⊢
  induction h with
  | nil => exact .inl ⟨rfl, rfl⟩
  | @cons entry entry' rest rest' hentry hrest ih =>
      obtain ⟨hname, hvalue⟩ := hentry
      rw [findIn, findIn, ← hname]
      by_cases heq : entry.1 = name
      · rw [if_pos heq, if_pos heq]
        exact .inr ⟨_, _, rfl, rfl, hvalue⟩
      · rw [if_neg heq, if_neg heq]
        exact ih

theorem put (h : store.Pointwise R store') (name : String) (hvalue : R value value') :
    (store.put name value).Pointwise R (store'.put name value') := by
  unfold Pointwise at h
  rw [Store.put, Store.put]
  generalize store.entries = entries at h ⊢
  generalize store'.entries = entries' at h ⊢
  induction h with
  | nil => exact .cons ⟨rfl, hvalue⟩ .nil
  | @cons entry entry' rest rest' hentry hrest ih =>
      obtain ⟨name', old⟩ := entry
      obtain ⟨name'', old'⟩ := entry'
      obtain ⟨rfl, hold⟩ := hentry
      rw [Pointwise, putIn, putIn]
      split
      · exact .cons ⟨rfl, hvalue⟩ hrest
      · split
        · exact .cons ⟨rfl, hvalue⟩ (.cons ⟨rfl, hold⟩ hrest)
        · exact .cons ⟨rfl, hold⟩ ih

theorem erase (h : store.Pointwise R store') (name : String) :
    (store.erase name).Pointwise R (store'.erase name) := by
  unfold Pointwise at h
  rw [Store.erase, Store.erase]
  generalize store.entries = entries at h ⊢
  generalize store'.entries = entries' at h ⊢
  induction h with
  | nil => exact .nil
  | @cons entry entry' rest rest' hentry hrest ih =>
      rw [Pointwise, List.filter_cons, List.filter_cons, ← hentry.1]
      split
      · exact .cons hentry ih
      · exact ih

theorem ensure (h : store.Pointwise R store') (name : String) (hvalue : R value value') :
    (store.ensure name value).Pointwise R (store'.ensure name value') := by
  rw [Store.ensure, Store.ensure]
  rcases h.find? name with ⟨hnone, hnone'⟩ | ⟨old, old', hfind, hfind', -⟩
  · rw [hnone, hnone']
    exact h.put name hvalue
  · rw [hfind, hfind']
    exact h

end Pointwise

end LinkedPool.Store
