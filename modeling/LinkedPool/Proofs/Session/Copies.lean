import LinkedPool.Element.Tracked
import LinkedPool.Proofs.Element.Equivalence
import LinkedPool.Proofs.Element.Faithful
import LinkedPool.Proofs.Session.Translation

/-!
# Copies go on as their originals would

The copy of a list has everything in the place where the list has it
(`IsCopyOf`), so that whatever is done to the list from then on can be done to
the copy, slot by slot. If copies of elements are faithful, a session that
goes on with the list and one that goes on with the copy are two views of one
session on marked elements (`run_original`, `run_renewed`).
-/

namespace LinkedPool

open Element

/-! ## The copy -/

namespace LinkedList

variable {α : Type} [Element α] {list copy : LinkedList α} {content : Content α}

/-- Each slot is as it was, but for the copy of the element in it; there is
memory for the slots and no more. -/
structure IsCopyOf (copy list : LinkedList α) : Prop where
  ends : copy.toEnds = list.toEnds
  len : copy.len = list.len
  slots : copy.nodes.slots = list.nodes.slots
  capacity : copy.nodes.capacity = list.nodes.slots
  firstFree : copy.nodes.firstFree = list.nodes.firstFree
  vacant : ∀ (slot : Slot) (next : Option Slot),
    list.nodes.storage[slot]? = some (.vacant next) →
    copy.nodes.storage[slot]? = some (.vacant next)
  used : ∀ (slot : Slot) (node : Node α), list.nodes.storage[slot]? = some (.used node) →
    ∃ element, Element.clone node.element = .ok element
      ∧ copy.nodes.storage[slot]? = some (.used { node with element })

theorem storage_twins (list : LinkedList α) (slot : Slot) :
    list.twins.nodes.storage[slot]? = list.nodes.storage[slot]?.map (Entry.map twin) := by
  rw [twins, Pool.image_eq]
  exact Pool.storage_map twin list.nodes slot

theorem isCopyOf_twins (h : Copied list.stored) : list.twins.IsCopyOf list where
  ends := rfl
  len := rfl
  slots := Pool.slots_image twin list.nodes
  capacity := rfl
  firstFree := rfl
  vacant slot next hslot := by
    rw [storage_twins, hslot]
    rfl
  used slot node hslot := by
    have hlive : node ∈ list.nodes.live :=
      List.mem_filterMap.mpr ⟨.used node, (Array.mem_of_getElem? hslot).val, rfl⟩
    refine ⟨twin node.element, h _ (List.mem_map_of_mem hlive), ?_⟩
    rw [storage_twins, hslot, ← twin_node]
    rfl

/-- The copy may have less memory than the list, but it has the same slots. -/
theorem Holds.twins_ahead (h : list.Holds content) : list.twins.Ahead (list.map twin) := by
  obtain ⟨free, hvalid⟩ := h.valid
  have htwin : (twin : Node α → Node α) = Node.map twin := funext twin_node
  refine ⟨rfl, 0, free, ?_, ?_, hvalid.map _, ?_⟩
  · funext slot
    rw [twins, Pool.get?_image, htwin]
    exact (Pool.get?_map _ list.nodes slot).symm
  · rw [List.range'_zero, List.append_nil]
    exact hvalid.image twin
  · exact (Pool.slots_image twin list.nodes).trans (Pool.slots_map _ list.nodes).symm

end LinkedList

namespace Session.Lists

open LinkedList

variable {α : Type} [Element α] {list copy : LinkedList α} {content : Content α}
  {lists : Store (LinkedList α)} {name : String} {trace : List (Event α)}

/-- A copy is put in the place of whatever was there. -/
theorem listAt_create_clone (hclone : (listAt name lists).clone = ⟨.ok copy, trace⟩)
    (target other : String) :
    listAt other (perform lists (.create target (.cloneOf name))).state
      = if other = target then copy else listAt other lists := by
  obtain ⟨call, hreplace⟩ := replace_eq_leaving target copy (lists.ensure name .empty)
  have hcreate : (perform lists (.create target (.cloneOf name))).state
      = (lists.ensure name .empty).put target copy := by
    simp only [perform, Origin.prepare, Origin.build, listAt_ensure, hclone, Traced.leaving_mk,
      Outcome.bind_ok, hreplace]
    rfl
  rw [hcreate]
  split
  · rename_i heq
    rw [heq, listAt_put_self]
  · rename_i hne
    rw [listAt_put_of_ne (Ne.symm hne), listAt_ensure]

/-- If a copy cannot be made, nothing changes. -/
theorem create_clone_of_error {x : α} {panic : Panic}
    (hstored : x ∈ (listAt name lists).stored)
    (hclone : (listAt name lists).clone = ⟨.error panic, trace⟩) (target : String) :
    perform lists (.create target (.cloneOf name)) = ⟨⟨.error panic, trace⟩, lists⟩ := by
  have hensure : lists.ensure name .empty = lists := by
    rcases lists.ensure_cases name .empty with ⟨-, hensure⟩ | ⟨hnone, -⟩
    · exact hensure
    · -- a name without a list stands for an empty one
      rw [listAt, hnone] at hstored
      cases hstored
  simp only [perform, Origin.prepare, Origin.build, hensure, hclone]
  rfl

/-! ## Two views of one session -/

/-- The session with `list` under `name`, in which what comes of this list is marked. -/
def marking (lists : Store (LinkedList α)) (name : String) (list : LinkedList α) :
    Store (LinkedList (Marked α)) :=
  (lists.map (LinkedList.map .other)).put name (list.map .own)

/-- The calls of the session on marked elements, seen through `view`. -/
def seen (view : Marked α → α) (lists : Store (LinkedList α)) (name : String)
    (list : LinkedList α) (steps : List (Step α)) : List (Traced α (Reply α)) :=
  (run (marking lists name list) (steps.map (Step.map .other))).map fun outcome =>
    outcome.toTraced.translate view (Reply.map view)

section Views

variable {view : Marked α → α} (hview : Function.LeftInverse view .other)
include hview

omit [Element α] in
theorem map_marking (lists : Store (LinkedList α)) (name : String) (list : LinkedList α) :
    (marking lists name list).map (LinkedList.map view)
      = lists.put name ((list.map .own).map view) := by
  rw [marking, ← Store.put_map, Store.map_leftInverse (LinkedList.map_leftInverse hview)]

theorem run_view (hhom : Hom view) (lists : Store (LinkedList α)) (name : String)
    (list : LinkedList α) (steps : List (Step α)) :
    (run (lists.put name ((list.map .own).map view)) steps).map (·.toTraced)
      = seen view lists name list steps := by
  have hrun := run_translate hhom (steps.map (Step.map .other)) (marking lists name list)
  rw [map_marking hview, (Step.map_leftInverse hview).list_map] at hrun
  rw [hrun, seen, List.map_map]
  rfl

theorem roomy_marking (hhom : Hom view) (lists : Store (LinkedList α)) (name : String)
    (list : LinkedList α) (steps : List (Step α)) :
    Roomy (lists.put name ((list.map .own).map view)) steps
      ↔ Roomy (marking lists name list) (steps.map (Step.map .other)) := by
  have hroomy := roomy_map hhom (steps.map (Step.map .other)) (marking lists name list)
  rwa [map_marking hview, (Step.map_leftInverse hview).list_map] at hroomy

end Views

omit [Element α] in
theorem map_own_original (list : LinkedList α) :
    (list.map Marked.own).map Marked.original = list :=
  LinkedList.map_leftInverse (fun _ => rfl) list

theorem run_original (lists : Store (LinkedList α)) (name : String) (list : LinkedList α)
    (steps : List (Step α)) :
    (run (lists.put name list) steps).map (·.toTraced)
      = seen Marked.original lists name list steps := by
  rw [← run_view (fun _ => rfl) Marked.hom_original, map_own_original]

theorem run_renewed (hfaithful : FaithfulCopies α) (h : list.Holds content)
    (hsound : Sound lists) (name : String) (steps : List (Step α))
    (hroom : Roomy (lists.put name list) steps)
    (hroom' : Roomy (lists.put name list.twins) steps) :
    (run (lists.put name list.twins) steps).map (·.toTraced)
      = seen Marked.renewed lists name list steps := by
  have hother : Function.LeftInverse Marked.renewed (Marked.other : α → Marked α) := fun _ => rfl
  have hhom := hfaithful.hom_renewed
  -- the room that there is for the list is room for the marked list, and so for its other view
  rw [← map_own_original list, roomy_marking (fun _ => rfl) Marked.hom_original,
    ← roomy_marking hother hhom] at hroom
  have hahead : list.twins.Ahead ((list.map .own).map Marked.renewed) := by
    rw [LinkedList.map_map]
    exact h.twins_ahead
  -- the copy differs from this view in its capacity alone
  obtain ⟨hruns, -⟩ :=
    (hsound.ahead.put name hahead).run (hsound.put name h.image) steps hroom' hroom
  rw [hruns, run_view hother hhom]

theorem outline_seen (view : Marked α → α) (lists : Store (LinkedList α)) (name : String)
    (list : LinkedList α) (steps : List (Step α)) :
    (seen view lists name list steps).map Traced.outline
      = (run (marking lists name list) (steps.map (Step.map .other))).map (·.toTraced.outline) := by
  simp [seen, Function.comp_def]

/-- A list is copied element by element in the order of its slots, each to the
slot that it has in the list, and nothing else changes. A session that goes on
with a faithful copy answers as it would with the list, with copies for the
elements that come of the list, and has the same panics and log lines, as long
as there is room in both. If an element cannot be copied, the copies made
before are dropped, and nothing changes at all. -/
theorem copy_goes_on_alike {list : LinkedList α} (hlist : list.Reachable) :
    (Copied list.stored →
      ∃ copy, list.clone = ⟨.ok copy, copying list.stored⟩ ∧ copy.IsCopyOf list
        ∧ (∀ (lists : Store (LinkedList α)) (name target : String), listAt name lists = list →
          ∀ other, listAt other (perform lists (.create target (.cloneOf name))).state
            = if other = target then copy else listAt other lists)
        ∧ (FaithfulCopies α →
          ∀ (history : List (Step α)) (name : String) (steps : List (Step α)),
          Roomy ((final .empty history).put name list) steps →
          Roomy ((final .empty history).put name copy) steps →
          (run ((final .empty history).put name list) steps).map (·.toTraced)
              = seen Marked.original (final .empty history) name list steps
            ∧ (run ((final .empty history).put name copy) steps).map (·.toTraced)
              = seen Marked.renewed (final .empty history) name list steps
            ∧ (run ((final .empty history).put name list) steps).map (·.toTraced.outline)
              = (run ((final .empty history).put name copy) steps).map (·.toTraced.outline)))
      ∧ ∀ x ∈ list.stored, ∀ panic, Element.clone x = .error panic →
        ∃ front first back panic', list.stored = front ++ first :: back ∧ Copied front
          ∧ Element.clone first = .error panic'
          ∧ list.clone
            = ⟨.error panic', copying (front ++ [first]) ++ departures (front.map twin)⟩
          ∧ ∀ (lists : Store (LinkedList α)) (name target : String), listAt name lists = list →
            perform lists (.create target (.cloneOf name))
              = ⟨⟨.error panic', copying (front ++ [first]) ++ departures (front.map twin)⟩,
                lists⟩ := by
  obtain ⟨content, hholds⟩ := hlist.holds
  refine ⟨?_, ?_⟩
  · intro hcopied
    refine ⟨list.twins, clone_of_copied hcopied, isCopyOf_twins hcopied, ?_, ?_⟩
    · rintro lists name target rfl other
      exact listAt_create_clone (clone_of_copied hcopied) target other
    · intro hfaithful history name steps hroom hroom'
      have hsound := sound_empty.final_sound history
      have horiginal := run_original (final .empty history) name list steps
      have hrenewed := run_renewed hfaithful hholds hsound name steps hroom hroom'
      refine ⟨horiginal, hrenewed, ?_⟩
      have houtline := congrArg (List.map Traced.outline) horiginal
      have houtline' := congrArg (List.map Traced.outline) hrenewed
      rw [outline_seen, List.map_map] at houtline houtline'
      exact houtline.trans houtline'.symm
  · intro x hx panic hrefused
    rcases list.clone_cases with
      ⟨hcopied, -⟩ | ⟨front, first, back, panic', hstored, hfront, hfirst, hclone⟩
    · cases (hcopied x hx).symm.trans hrefused
    · refine ⟨front, first, back, panic', hstored, hfront, hfirst, hclone, ?_⟩
      rintro lists name target rfl
      exact create_clone_of_error hx hclone target

/-- Elements come at both ends and the last of them goes, so that the slots
are not in the order of the elements and one is vacant. -/
def shuffled : List (Step Replica) :=
  [.operate "a" (.append .ample .tail ⟨1, 0⟩), .operate "a" (.append .ample .head ⟨2, 0⟩),
    .operate "a" (.append .ample .tail ⟨3, 5⟩), .operate "a" (.delete .tail ⟨3, 0⟩)]

/-- The vacant slot is used again, another one becomes vacant, and what there
is then is copied, compared and dropped. -/
def aftermath : List (Step Replica) :=
  [.operate "a" (.append .ample .tail ⟨4, 0⟩), .operate "a" (.delete .head ⟨1, 9⟩),
    .operate "a" (.contents .head), .create "b" (.cloneOf "a"), .equals "b" "a",
    .operate "b" (.contents .tail), .operate "a" .clear, .destroy "b"]

/-- The element that cannot be copied is the first, but in the second slot. -/
def uncopiable : List (Step Tracked) :=
  [.operate "a" (.append .ample .tail ⟨1, "x", none⟩),
    .operate "a" (.append .ample .head ⟨2, "y", some .copying⟩),
    .operate "a" (.append .ample .tail ⟨3, "z", none⟩)]

theorem copied_replica (xs : List Replica) : Copied xs := fun _ _ => clone_eq_twin rfl

theorem faithfulCopies_replica : FaithfulCopies Replica where
  equal_left h y := by cases h; rfl
  equal_right h y := by cases h; rfl
  dropPanic _ := rfl
  clone _ := ⟨_, rfl⟩

theorem shuffled_copy_goes_on_alike :
    FaithfulCopies Replica
      ∧ (∃ copy, (listAt "a" (final .empty shuffled)).clone
          = ⟨.ok copy, [.cloned ⟨1, 0⟩, .cloned ⟨2, 0⟩]⟩
        ∧ copy.contents .head = .ok [⟨2, 1⟩, ⟨1, 1⟩]
        ∧ (run ((final .empty shuffled).put "a" copy) aftermath).map (·.toTraced)
          = seen Marked.renewed (final .empty shuffled) "a" (listAt "a" (final .empty shuffled))
            aftermath)
      ∧ (perform (final .empty uncopiable) (.create "b" (.cloneOf "a"))).trace
        = [.cloned ⟨1, "x", none⟩, .cloned ⟨2, "y", some .copying⟩,
          .dropped ⟨1, "x'", none⟩]
      ∧ (perform (final .empty uncopiable) (.create "b" (.cloneOf "a"))).state
        = final .empty uncopiable := by
  have hreachable : (listAt "a" (final .empty shuffled)).Reachable := ⟨shuffled, "a", rfl⟩
  have hreachable' : (listAt "a" (final .empty uncopiable)).Reachable := ⟨uncopiable, "a", rfl⟩
  refine ⟨faithfulCopies_replica, ?_, by decide +kernel, ?_⟩
  · obtain ⟨hcopies, -⟩ := copy_goes_on_alike hreachable
    obtain ⟨copy, hclone, -, -, hruns⟩ := hcopies (copied_replica _)
    have hcopy : copy = (listAt "a" (final .empty shuffled)).twins := by
      have hanswers := hclone.symm.trans (clone_of_copied (copied_replica _))
      exact Except.ok.inj (congrArg Traced.result hanswers)
    subst hcopy
    refine ⟨_, hclone, by decide +kernel, ?_⟩
    exact (hruns faithfulCopies_replica shuffled "a" aftermath (by decide +kernel)
      (by decide +kernel)).2.1
  · obtain ⟨-, hrefused⟩ := copy_goes_on_alike hreachable'
    obtain ⟨front, first, back, panic, -, -, -, -, hcreate⟩ :=
      hrefused ⟨2, "y", some .copying⟩ (by decide +kernel) _ rfl
    rw [hcreate _ "a" "b" rfl]

end Session.Lists

end LinkedPool
