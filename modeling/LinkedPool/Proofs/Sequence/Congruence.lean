import LinkedPool.Proofs.Element.Equivalence
import LinkedPool.Proofs.LinkedList.Extend
import LinkedPool.Proofs.Paired
import LinkedPool.Proofs.Sequence.Script

/-!
# Equal sequences do alike

Two operations are alike (`Operation.Alike`) if they ask for the same with
equal elements, and two replies are (`Reply.Alike`) if they tell the same with
equal elements. A sequence answers alike operations alike, and so do all
sequences that are the same element by element, provided that equality of
elements is an equivalence (`Sequence.perform_alike`). Nothing is said of the
hints of sources and of how memory is granted, which do not show in a sequence.
-/

namespace LinkedPool

open Element

variable {α : Type} [Element α]

/-! ## What is asked and what is answered -/

/-- The same is handed over, or the same panic stands in the way. -/
def Pull.Alike (pull pull' : Pull α) : Prop := Matched Same pull.handed pull'.handed

namespace Cursor

inductive Command.Alike : Command α → Command α → Prop
  | next (e : End) : Alike (.next e) (.next e)
  | nth (e : End) (k : Nat) : Alike (.nth e k) (.nth e k)
  | len : Alike .len .len
  | sizeHint : Alike .sizeHint .sizeHint
  | describe : Alike .describe .describe
  | last : Alike .last .last
  | count : Alike .count .count
  | rest (e : End) : Alike (.rest e) (.rest e)
  | position (e : End) {value value' : α} (same : Same value value') :
      Alike (.position e value) (.position e value')
  | fork : Alike .fork .fork
  | use (number : Nat) : Alike (.use number) (.use number)

inductive Answer.Alike : Answer α → Answer α → Prop
  | item {element element' : Option α} (same : Option.Rel Same element element') :
      Alike (.item element) (.item element')
  | number (n : Nat) : Alike (.number n) (.number n)
  | bounds (lower upper : Nat) : Alike (.bounds lower upper) (.bounds lower upper)
  | items {elements elements' : List α} (same : List.Forall₂ Same elements elements') :
      Alike (.items elements) (.items elements')
  | position (index : Option Nat) : Alike (.position index) (.position index)
  | text (text : String) : Alike (.text text) (.text text)

end Cursor

/-- The same operation, with equal elements. -/
inductive Operation.Alike : Operation α → Operation α → Prop
  | len : Alike .len .len
  | isEmpty : Alike .isEmpty .isEmpty
  | outermost (e : End) : Alike (.outermost e) (.outermost e)
  | contents (e : End) : Alike (.contents e) (.contents e)
  | append (memory memory' : Memory) (e : End) {x x' : α} (same : Same x x') :
      Alike (.append memory e x) (.append memory' e x')
  | tryAppend (memory memory' : Memory) (e : End) {x x' : α} (same : Same x x') :
      Alike (.tryAppend memory e x) (.tryAppend memory' e x')
  | delete (e : End) {value value' : α} (same : Same value value') :
      Alike (.delete e value) (.delete e value')
  | find (e : End) {value value' : α} (same : Same value value') :
      Alike (.find e value) (.find e value')
  | clear : Alike .clear .clear
  | reserve (additional : Nat) : Alike (.reserve additional) (.reserve additional)
  | extend (memory memory' : Memory) (hint hint' : Nat) {pulls pulls' : List (Pull α)}
      (same : List.Forall₂ Pull.Alike pulls pulls') :
      Alike (.extend memory ⟨hint, pulls⟩) (.extend memory' ⟨hint', pulls'⟩)
  | iterate {script script' : List (Cursor.Command α)}
      (same : List.Forall₂ Cursor.Command.Alike script script') :
      Alike (.iterate script) (.iterate script')

/-- The same reply, with equal elements. -/
inductive Reply.Alike : Reply α → Reply α → Prop
  | done : Alike .done .done
  | flag (b : Bool) : Alike (.flag b) (.flag b)
  | count (n : Nat) : Alike (.count n) (.count n)
  | item {element element' : Option α} (same : Option.Rel Same element element') :
      Alike (.item element) (.item element')
  | items {elements elements' : List α} (same : List.Forall₂ Same elements elements') :
      Alike (.items elements) (.items elements')
  | insertion (result : Except InsertError Unit) : Alike (.insertion result) (.insertion result)
  | script {answers answers' : List (Cursor.Answer α)}
      (same : List.Forall₂ Cursor.Answer.Alike answers answers') :
      Alike (.script answers) (.script answers')

namespace Sequence

variable {xs ys : List α} {value value' : α}

/-- An equal value is at the same position in a sequence that is the same. -/
theorem index_alike (hlaw : LawfulEquality α) (e : End) (hxs : List.Forall₂ Same xs ys)
    (hvalue : Same value value') : index e value xs = index e value' ys := by
  have hsame : (fun i => xs[i]?.any (same · value))
      = fun i : Nat => ys[i]?.any (same · value') := by
    funext i
    have hget := forall₂_getElem? hxs i
    generalize xs[i]? = element, ys[i]? = element' at hget ⊢
    cases hget with
    | none => rfl
    | some hxy => exact hlaw.same_congr hxy hvalue
  rw [index, index, hsame, hxs.length_eq]

/-! ## Scripts -/

namespace Windows

variable {windows windows' : Windows α}

/-- What one cursor yields is the same as what the other does, number by number. -/
structure Alike (windows windows' : Windows α) : Prop where
  inUse : List.Forall₂ Same windows.inUse windows'.inUse
  number : windows.number = windows'.number
  members : List.Forall₂ (List.Forall₂ Same) windows.members.toList windows'.members.toList

theorem Alike.size (h : windows.Alike windows') : windows.members.size = windows'.members.size := by
  rw [← Array.length_toList, ← Array.length_toList, h.members.length_eq]

theorem Alike.withInUse (h : windows.Alike windows') (hxs : List.Forall₂ Same xs ys) :
    Alike { windows with inUse := xs } { windows' with inUse := ys } :=
  ⟨hxs, h.number, h.members⟩

theorem Alike.use (h : windows.Alike windows') (number : Nat) :
    (windows.use number).Alike (windows'.use number) := by
  have hmembers := forall₂_set h.members windows.number h.inUse
  have hget := forall₂_getElem? hmembers number
  rw [← Array.toList_setIfInBounds, Array.getElem?_toList, h.number, ← Array.toList_setIfInBounds,
    Array.getElem?_toList] at hget
  rw [← Array.toList_setIfInBounds, h.number, ← Array.toList_setIfInBounds] at hmembers
  unfold Windows.use
  rw [h.number]
  simp only
  cases hmember : (windows.members.setIfInBounds windows'.number windows.inUse)[number]? <;>
    cases hmember' : (windows'.members.setIfInBounds windows'.number windows'.inUse)[number]? <;>
    rw [hmember, hmember'] at hget
  · exact h
  · cases hget
  · cases hget
  · cases hget with
    | some hyields => exact ⟨hyields, rfl, hmembers⟩

theorem Alike.perform (hlaw : LawfulEquality α) (h : windows.Alike windows')
    {command command' : Cursor.Command α} (hcommand : command.Alike command') :
    (windows.perform command).1.Alike (windows'.perform command').1
      ∧ (windows.perform command).2.Alike (windows'.perform command').2 := by
  have hlisted := forall₂_listed h.inUse
  have hlength := h.inUse.length_eq
  cases hcommand with
  | next e =>
      exact ⟨.item (rel_head? (hlisted e)), h.withInUse (forall₂_listed (rel_tail (hlisted e)) e)⟩
  | nth e k =>
      exact ⟨.item (forall₂_getElem? (hlisted e) k),
        h.withInUse (forall₂_listed (List.forall₂_drop (k + 1) (hlisted e)) e)⟩
  | len =>
      simp only [Windows.perform, hlength]
      exact ⟨.number _, h⟩
  | sizeHint =>
      simp only [Windows.perform, hlength]
      exact ⟨.bounds _ _, h⟩
  | describe =>
      simp only [Windows.perform, hlength]
      exact ⟨.text _, h⟩
  | last =>
      have hlast := rel_head? (hlisted .tail)
      rw [head?_listed, head?_listed] at hlast
      exact ⟨.item hlast, h⟩
  | count =>
      simp only [Windows.perform, hlength]
      exact ⟨.number _, h⟩
  | rest e => exact ⟨.items (hlisted e), h⟩
  | position e same =>
      simp only [Windows.perform, index_alike hlaw e h.inUse same]
      split
      · exact ⟨.position _, h.withInUse .nil⟩
      · refine ⟨.position _, h.withInUse ?_⟩
        cases e with
        | head => exact List.forall₂_drop _ h.inUse
        | tail => exact List.forall₂_take _ h.inUse
  | fork =>
      simp only [Windows.perform, h.size]
      refine ⟨.number _, h.inUse, h.number, ?_⟩
      rw [Array.toList_push, Array.toList_push]
      exact List.rel_append h.members (.cons h.inUse .nil)
  | use number => exact ⟨.number number, h.use number⟩

theorem performAll_alike (hlaw : LawfulEquality α) {script script' : List (Cursor.Command α)}
    (hscript : List.Forall₂ Cursor.Command.Alike script script') (h : windows.Alike windows') :
    List.Forall₂ Cursor.Answer.Alike (performAll script windows) (performAll script' windows') := by
  induction hscript generalizing windows windows' with
  | nil => exact .nil
  | cons hcommand _ ih =>
      obtain ⟨hanswer, hleft⟩ := h.perform hlaw hcommand
      exact .cons hanswer (ih hleft)

theorem alike_ofSequence (h : List.Forall₂ Same xs ys) :
    (ofSequence xs).Alike (ofSequence ys) :=
  ⟨h, rfl, .cons h .nil⟩

end Windows

/-! ## Operations -/

/-- An operation that does not take from a source is answered alike by
sequences that are the same, and leaves sequences that are the same. -/
theorem perform_alike (hlaw : LawfulEquality α) (hxs : List.Forall₂ Same xs ys)
    {operation operation' : Operation α} (hoperation : operation.Alike operation')
    (hsource : ∀ memory source, operation ≠ .extend memory source) :
    (perform xs operation).1.Alike (perform ys operation').1
      ∧ List.Forall₂ Same (perform xs operation).2 (perform ys operation').2 := by
  have hlength := hxs.length_eq
  cases hoperation with
  | len =>
      simp only [perform, hlength]
      exact ⟨.count _, hxs⟩
  | isEmpty =>
      have hempty : xs.isEmpty = ys.isEmpty := by cases hxs <;> rfl
      simp only [perform, hempty]
      exact ⟨.flag _, hxs⟩
  | outermost e =>
      have hhead := rel_head? (forall₂_listed hxs e)
      rw [head?_listed, head?_listed] at hhead
      cases e <;> exact ⟨.item hhead, hxs⟩
  | contents e =>
      have hlisted := forall₂_listed hxs e
      cases e <;> exact ⟨.items hlisted, hxs⟩
  | append memory memory' e same =>
      cases e with
      | head => exact ⟨.insertion _, .cons same hxs⟩
      | tail => exact ⟨.insertion _, List.rel_append hxs (.cons same .nil)⟩
  | tryAppend memory memory' e same =>
      cases e with
      | head => exact ⟨.insertion _, .cons same hxs⟩
      | tail => exact ⟨.insertion _, List.rel_append hxs (.cons same .nil)⟩
  | delete e same =>
      simp only [perform, index_alike hlaw e hxs same]
      split
      · exact ⟨.flag _, hxs⟩
      · exact ⟨.flag _, forall₂_eraseIdx hxs _⟩
  | find e same =>
      simp only [perform, index_alike hlaw e hxs same, hlength]
      exact ⟨.count _, hxs⟩
  | clear => exact ⟨.done, .nil⟩
  | reserve additional => exact ⟨.done, hxs⟩
  | extend memory memory' hint hint' same => exact absurd rfl (hsource _ _)
  | iterate same =>
      exact ⟨.script (Windows.performAll_alike hlaw same (Windows.alike_ofSequence hxs)), hxs⟩

end Sequence

end LinkedPool
