import LinkedPool.Proofs.Cursor.Translation
import LinkedPool.Proofs.LinkedList.Ahead

/-!
# Lists of other elements

Nothing that a list does looks into its elements, except by asking them, and a
homomorphism does not change what they say. So an operation on the list of
their images is the operation on the list, translated: it goes through the
same slots, logs the same lines, and has the images in its reply
(`perform_translate`). No invariant of lists is needed for that.
-/

namespace LinkedPool

open Element

variable {α β : Type} {f : α → β}

/-! ## Operations and replies -/

def Pull.map (f : α → β) : Pull α → Pull β
  | .give element => .give (f element)
  | .copy model => .copy (f model)
  | .fail => .fail

def Source.map (f : α → β) (source : Source α) : Source β :=
  ⟨source.hint, source.pulls.map (Pull.map f)⟩

theorem Source.map_leftInverse {g : β → α} (h : Function.LeftInverse g f) :
    Function.LeftInverse (map g) (map f) := by
  have hpull : Function.LeftInverse (Pull.map g) (Pull.map f) := by
    intro pull
    cases pull with
    | give x => exact congrArg Pull.give (h x)
    | copy model => exact congrArg Pull.copy (h model)
    | fail => rfl
  exact fun source => congrArg (Source.mk source.hint) (hpull.list_map source.pulls)

/-- The same operation, with the images of its elements. -/
def Operation.map (f : α → β) : Operation α → Operation β
  | .len => .len
  | .isEmpty => .isEmpty
  | .outermost e => .outermost e
  | .contents e => .contents e
  | .append memory e element => .append memory e (f element)
  | .tryAppend memory e element => .tryAppend memory e (f element)
  | .delete e value => .delete e (f value)
  | .find e value => .find e (f value)
  | .clear => .clear
  | .reserve additional => .reserve additional
  | .extend memory source => .extend memory (source.map f)
  | .iterate script => .iterate (script.map (Cursor.Command.map f))

theorem Operation.map_leftInverse {g : β → α} (h : Function.LeftInverse g f) :
    Function.LeftInverse (map g) (map f) := by
  intro operation
  cases operation with
  | append memory e x => exact congrArg (Operation.append memory e) (h x)
  | tryAppend memory e x => exact congrArg (Operation.tryAppend memory e) (h x)
  | delete e value => exact congrArg (Operation.delete e) (h value)
  | find e value => exact congrArg (Operation.find e) (h value)
  | extend memory source =>
      exact congrArg (Operation.extend memory) (Source.map_leftInverse h source)
  | iterate script =>
      exact congrArg Operation.iterate ((Cursor.Command.map_leftInverse h).list_map script)
  | len => rfl
  | isEmpty => rfl
  | outermost e => rfl
  | contents e => rfl
  | clear => rfl
  | reserve additional => rfl

/-- The same reply, with the images of its elements. -/
def Reply.map (f : α → β) : Reply α → Reply β
  | .done => .done
  | .flag b => .flag b
  | .count n => .count n
  | .item element => .item (element.map f)
  | .items elements => .items (elements.map f)
  | .insertion result => .insertion result
  | .script answers => .script (answers.map (Cursor.Answer.map f))

theorem Source.leftovers_map (f : α → β) (pulls : List (Pull α)) :
    leftovers (pulls.map (Pull.map f)) = (leftovers pulls).map (Event.map f) := by
  have howned (pull : Pull α) : (pull.map f).owned? = pull.owned?.map f := by
    cases pull <;> rfl
  rw [leftovers, leftovers, ← departures_map, List.filterMap_map, List.map_filterMap]
  exact congrArg (fun owned => departures (pulls.filterMap owned)) (funext howned)

namespace LinkedList

/-! ## Making room, and looking -/

theorem reserve_map [Element α] [Element β] (hf : Hom f) (additional : Nat) (list : LinkedList α) :
    (list.map f).reserve additional = (list.reserve additional).map (map f) := by
  rw [reserve, reserve, map, Pool.reserve_map hf.node.slotBytes]
  cases list.nodes.reserve additional <;> rfl

theorem outermost?_map (f : α → β) (e : End) (list : LinkedList α) :
    (list.map f).outermost? e = (list.outermost? e).map (Option.map f) := by
  have hslot : (list.map f).slotAt e = list.slotAt e := rfl
  rw [outermost?, outermost?, hslot]
  cases list.slotAt e with
  | none => rfl
  | some slot =>
      simp only [map, Pool.get_map]
      cases list.nodes.get slot <;> rfl

theorem map_empty (f : α → β) : (empty : LinkedList α).map f = empty := by
  simp [empty, map, Pool.empty, Pool.map]

theorem withCapacity_map [Element α] [Element β] (hf : Hom f) (n : Nat) :
    (withCapacity n : Except Panic (LinkedList β)) = (withCapacity n).map (map f) := by
  rw [withCapacity, withCapacity, Pool.withCapacity_eq, Pool.withCapacity_eq,
    Pool.limit_congr hf.node.slotBytes]
  split
  · rfl
  · show Except.ok _ = Except.ok _
    simp [map, Pool.map, Pool.ofVacant, Entry.map, Function.comp_def]

theorem contents_map (f : α → β) (e : End) (list : LinkedList α) :
    (list.map f).contents e = (list.contents e).map (List.map f) :=
  Cursor.rest_map f e list.cursor

theorem stored_map (f : α → β) (list : LinkedList α) : (list.map f).stored = list.stored.map f := by
  rw [stored, map, Pool.live_map, stored, List.map_map, List.map_map]
  rfl

theorem copies_map (f : α → β) (e : End) (list : LinkedList α) :
    Source.copies e (list.map f) = (Source.copies e list).map (Source.map f) := by
  rw [Source.copies, Source.copies, contents_map]
  cases list.contents e with
  | error panic => rfl
  | ok xs =>
      show Except.ok _ = Except.ok _
      simp [Source.map, Pull.map, Function.comp_def]
      rfl

variable [Element α] [Element β]

theorem find_translate (hf : Hom f) (e : End) (value : α) (list : LinkedList α) :
    (list.map f).find e (f value) = (list.find e value).translate f id := by
  show ((list.cursor.map f).seek e (f value)).bind _
    = ((list.cursor.seek e value).bind _).translate f id
  rw [Cursor.seek_translate hf]
  refine Traced.translate_bind _ ?_
  rintro ⟨steps, cursor⟩
  cases steps with
  | none => rfl
  | some steps =>
      show Traced.ofExcept _ = (Traced.ofExcept _).translate f id
      rw [Traced.translate, Except.map_id]
      rfl

theorem equals_translate (hf : Hom f) (list other : LinkedList α) :
    (list.map f).equals (other.map f) = (list.equals other).translate f id := by
  have hlen : (list.map f).len = list.len := rfl
  have hlen' : (other.map f).len = other.len := rfl
  rw [equals, equals, hlen, hlen']
  split
  · exact Cursor.agreesWithin_translate hf _ list.cursor other.cursor
  · rfl

theorem differs_translate (hf : Hom f) (list other : LinkedList α) :
    (list.map f).differs (other.map f) = (list.differs other).translate f id := by
  rw [differs, differs, equals_translate hf]
  exact Traced.translate_bind _ fun _ => rfl

/-! ## Appending -/

theorem insertNode_translate (hf : Hom f) (memory : Memory) (node : Node α)
    (list : LinkedList α) :
    (((list.map f).nodes.insert memory (node.map f)).relabel Node.element).within
        (fun nodes => { list.map f with nodes })
      = (((list.nodes.insert memory node).relabel Node.element).within
          fun nodes => { list with nodes }).translate f (map f) id := by
  have hinsert := Pool.insert_translate hf.node memory node list.nodes
  rw [show (list.map f).nodes = list.nodes.map (Node.map f) from rfl, hinsert,
    Outcome.translate_node]
  exact Outcome.translate_within _ fun _ => rfl

theorem insertFirst_translate (hf : Hom f) (memory : Memory) (x : α) (list : LinkedList α) :
    (list.map f).insertFirst memory (f x) = (list.insertFirst memory x).translate f (map f) id := by
  have hempty : (list.map f).nodes.isEmpty = list.nodes.isEmpty := rfl
  rw [insertFirst, insertFirst, hempty]
  split
  · rw [show Node.alone (f x) = (Node.alone x).map f from rfl, insertNode_translate hf]
    refine Outcome.translate_bind _ ?_
    intro list inserted
    cases inserted <;> rfl
  · refine Outcome.translate_bind (s := map f) (g := id)
      ((Traced.log (.refusedFirst list.len)).leaving list) ?_
    intro list _
    rw [hf.discard]
    exact Outcome.translate_map (s := map f) ((Element.discard x).leaving list) fun _ => rfl

theorem insertBeyond_translate (hf : Hom f) (memory : Memory) (e : End) (outer : Slot) (x : α)
    (list : LinkedList α) :
    (list.map f).insertBeyond memory e outer (f x)
      = (list.insertBeyond memory e outer x).translate f (map f) id := by
  rw [insertBeyond, insertBeyond, Node.outermost_map, insertNode_translate hf]
  refine Outcome.translate_bind _ ?_
  intro list inserted
  cases inserted with
  | error refusal => rfl
  | ok slot =>
      have hmodify := Pool.modify_map (f := Node.map f)
        (fun node => Node.setOutward_map f e (some slot) node) list.nodes outer
      simp only [map, id_eq, hmodify]
      cases list.nodes.modify outer (Node.setOutward e (some slot)) <;> rfl

theorem tryAppend_translate (hf : Hom f) (memory : Memory) (e : End) (x : α)
    (list : LinkedList α) :
    (list.map f).tryAppend memory e (f x) = (list.tryAppend memory e x).translate f (map f) id := by
  have hslot : (list.map f).slotAt e = list.slotAt e := rfl
  rw [tryAppend, tryAppend, hslot]
  cases list.slotAt e with
  | none => exact insertFirst_translate hf memory x list
  | some outer => exact insertBeyond_translate hf memory e outer x list

theorem append_translate (hf : Hom f) (memory : Memory) (e : End) (x : α) (list : LinkedList α) :
    (list.map f).append memory e (f x) = (list.append memory e x).translate f (map f) id := by
  rw [append, append, tryAppend_translate hf]
  refine Outcome.translate_bind _ ?_
  intro list inserted
  cases inserted <;> rfl

/-! ## Deleting -/

theorem locateWithin_translate (hf : Hom f) (nodes : Pool (Node α)) (e : End) (value : α)
    (fuel : Nat) (start : Option Slot) :
    locateWithin (nodes.map (Node.map f)) e (f value) fuel start
      = (locateWithin nodes e value fuel start).translate f id := by
  induction fuel generalizing start with
  | zero => cases start <;> rfl
  | succ fuel ih =>
      cases start with
      | none => rfl
      | some slot =>
          rw [locateWithin, locateWithin, Pool.get_map]
          cases nodes.get slot with
          | error panic => rfl
          | ok node =>
              show (Element.compare (f node.element) (f value)).bind _
                = ((Element.compare node.element value).bind _).translate f id
              rw [hf.compare]
              refine Traced.translate_bind _ ?_
              intro same
              rw [Node.inward_map, ih]
              cases same <;> rfl

omit [Element α] [Element β] in
theorem relink_map {g : Node α → Node α} {g' : Node β → Node β}
    (hg : ∀ node, g' (node.map f) = (g node).map f) (link : Option Slot) (nodes : Pool (Node α)) :
    relink link g' (nodes.map (Node.map f))
      = (relink link g nodes).map (Pool.map (Node.map f)) := by
  cases link with
  | none => rfl
  | some slot => exact Pool.modify_map hg nodes slot

omit [Element α] [Element β] in
theorem unlink_map (f : α → β) (slot : Slot) (list : LinkedList α) :
    (list.map f).unlink slot
      = (list.unlink slot).map fun unlinked => (unlinked.1.map f, unlinked.2.map f) := by
  rw [unlink, unlink, map, Pool.get_map]
  cases list.nodes.get slot with
  | error panic => rfl
  | ok node =>
      show (relink node.next _ (list.nodes.map (Node.map f)) >>= _)
        = (relink node.next _ list.nodes >>= _).map _
      rw [relink_map (g := fun next => { next with prev := node.prev }) fun _ => rfl]
      cases relink node.next (fun next => { next with prev := node.prev }) list.nodes with
      | error panic => rfl
      | ok nodes =>
          show (relink node.prev _ (nodes.map (Node.map f)) >>= _)
            = (relink node.prev _ nodes >>= _).map _
          rw [relink_map (g := fun prev => { prev with next := node.next }) fun _ => rfl]
          cases relink node.prev (fun prev => { prev with next := node.next }) nodes <;> rfl

omit [Element α] [Element β] in
theorem release_map (f : α → β) (slot : Slot) (nodes : Pool (Node α)) :
    release slot (nodes.map (Node.map f))
      = (release slot nodes).map fun released =>
          (released.1.map f, released.2.map (Node.map f)) := by
  rw [release, release, Pool.vacate_map]
  cases nodes.vacate slot with
  | error panic => rfl
  | ok released => cases released <;> rfl

theorem remove_translate (hf : Hom f) (slot : Slot) (list : LinkedList α) :
    (list.map f).remove slot = (list.remove slot).translate f (map f) id := by
  rw [remove, remove, unlink_map]
  cases list.unlink slot with
  | error panic => rfl
  | ok unlinked =>
      obtain ⟨node, unlinked⟩ := unlinked
      refine Outcome.translate_bind (f := f) (s := map f) (g := id)
        ((Traced.log (.removed slot node.prev node.next)).leaving unlinked) ?_
      intro list _
      simp only [map, release_map]
      cases release slot list.nodes with
      | error panic => rfl
      | ok released =>
          obtain ⟨node, nodes⟩ := released
          show (Element.discard (f node.element)).leaving _ = _
          rw [hf.discard]
          rfl

theorem delete_translate (hf : Hom f) (e : End) (value : α) (list : LinkedList α) :
    (list.map f).delete e (f value) = (list.delete e value).translate f (map f) id := by
  have hlocate : (list.map f).locate e (f value) = (list.locate e value).translate f id := by
    rw [locate, locate, map, Pool.slots_map]
    exact locateWithin_translate hf list.nodes e value _ _
  rw [delete, delete, hlocate]
  refine Outcome.translate_bind ((list.locate e value).leaving list) ?_
  intro list found
  cases found with
  | none => rfl
  | some slot =>
      show ((list.map f).remove slot).map _ = _
      rw [remove_translate hf]
      exact Outcome.translate_map _ fun _ => rfl

/-! ## Taking apart, and copying -/

theorem releaseWithin_translate (hf : Hom f) (fuel : Nat) (start : Option Slot)
    (nodes : Pool (Node α)) :
    releaseWithin fuel start (nodes.map (Node.map f))
      = (releaseWithin fuel start nodes).translate f (Pool.map (Node.map f)) id := by
  induction fuel generalizing start nodes with
  | zero => cases start <;> rfl
  | succ fuel ih =>
      cases start with
      | none => rfl
      | some slot =>
          rw [releaseWithin, releaseWithin, release_map]
          cases release slot nodes with
          | error panic => rfl
          | ok released =>
              obtain ⟨node, nodes⟩ := released
              show ((Element.discard (f node.element)).leaving _).bind _ = _
              rw [hf.discard]
              refine Outcome.translate_bind ((Element.discard node.element).leaving nodes) ?_
              intro nodes _
              show (releaseWithin fuel node.next (nodes.map (Node.map f))).map _ = _
              rw [ih]
              exact Outcome.translate_map _ fun _ => rfl

theorem clear_translate (hf : Hom f) (list : LinkedList α) :
    (list.map f).clear = list.clear.translate f (map f) id := by
  have hreleased :
      ((releaseWithin (list.nodes.slots + 1) list.head list.nodes).translate f
          (Pool.map (Node.map f)) id).within (fun nodes => { Ends.none with nodes })
        = ((releaseWithin (list.nodes.slots + 1) list.head list.nodes).within
            fun nodes => { Ends.none with nodes }).translate f (map f) id :=
    Outcome.translate_within _ fun _ => rfl
  rw [clear, clear, show (list.map f).nodes = list.nodes.map (Node.map f) from rfl,
    Pool.slots_map, show (list.map f).head = list.head from rfl, releaseWithin_translate hf,
    hreleased]
  refine Outcome.translate_bind _ ?_
  intro list released
  have hempty : (list.map f).nodes.isEmpty = list.nodes.isEmpty := rfl
  rw [hempty]
  split
  · have hcleared :
        ((list.nodes.clear.relabel Node.element).translate f (Pool.map (Node.map f)) id).within
            (fun nodes => { list.map f with nodes })
          = ((list.nodes.clear.relabel Node.element).within
              fun nodes => { list with nodes }).translate f (map f) id :=
      Outcome.translate_within _ fun _ => rfl
    have hclear := Pool.clear_translate hf.node list.nodes
    rw [show (list.map f).nodes = list.nodes.map (Node.map f) from rfl, hclear,
      Outcome.translate_node, hcleared]
    exact Outcome.translate_bind _ fun _ _ => rfl
  · rfl

theorem discard_translate (hf : Hom f) (list : LinkedList α) :
    (list.map f).discard = list.discard.translate f id := by
  rw [discard, discard, stored_map, hf.discardAll]

theorem destroy_translate (hf : Hom f) (list : LinkedList α) :
    (list.map f).destroy = list.destroy.translate f id := by
  rw [destroy, destroy, clear_translate hf]
  generalize list.clear = call
  obtain ⟨⟨result, trace⟩, left⟩ := call
  cases result with
  | ok _ =>
      show (left.map f).discard.after (trace.map (Event.map f)) = _
      rw [discard_translate hf, ← Traced.translate_after]
  | error panic =>
      show (Traced.translate f id ⟨.error panic, trace⟩).onPanic
        (departures (left.map f).stored) = _
      rw [stored_map, departures_map, Traced.translate_onPanic]

theorem clone_translate (hf : Hom f) (list : LinkedList α) :
    (list.map f).clone = list.clone.translate f (map f) := by
  have hclone := Pool.clone_translate hf.node list.nodes
  rw [clone, clone, show (list.map f).nodes = list.nodes.map (Node.map f) from rfl, hclone,
    Traced.translate_node]
  exact Traced.translate_bind _ fun _ => rfl

/-! ## Extending -/

theorem yield_translate (hf : Hom f) (pull : Pull α) :
    (pull.map f).yield = pull.yield.translate f f := by
  cases pull with
  | give x => rfl
  | copy model => exact hf.copy model
  | fail => rfl

theorem appendPulled_translate (hf : Hom f) (memory : Memory) (pull : Pull α)
    (list : LinkedList α) :
    ((pull.map f).yield.leaving (list.map f)).bind
        (fun list element => list.append memory .tail element)
      = ((pull.yield.leaving list).bind fun list element =>
          list.append memory .tail element).translate f (map f) id := by
  rw [yield_translate hf]
  exact Outcome.translate_bind (s := map f) (pull.yield.leaving list) fun list x =>
    append_translate hf memory .tail x list

theorem appendAll_translate (hf : Hom f) (memory : Memory) (pulls : List (Pull α))
    (list : LinkedList α) :
    (list.map f).appendAll memory (pulls.map (Pull.map f))
      = (list.appendAll memory pulls).translate f
          (fun (list, pulls) => (list.map f, pulls.map (Pull.map f))) id := by
  induction pulls generalizing list with
  | nil => rfl
  | cons pull pulls ih =>
      rw [List.map_cons, appendAll, appendAll, appendPulled_translate hf]
      -- only the list of the state is translated; the pulls still to come are mapped already
      generalize (pull.yield.leaving list).bind _ = first
      have hfirst : (first.translate f (map f) id).within
            (fun list => (list, pulls.map (Pull.map f)))
          = (first.within fun list => (list, pulls)).translate f
              (fun (list, pulls) => (list.map f, pulls.map (Pull.map f))) id :=
        Outcome.translate_within first fun _ => rfl
      rw [hfirst]
      refine Outcome.translate_bind (first.within fun list => (list, pulls)) ?_
      rintro ⟨list, left⟩ _
      exact ih list

theorem extend_translate (hf : Hom f) (memory : Memory) (source : Source α)
    (list : LinkedList α) :
    (list.map f).extend memory (source.map f)
      = (list.extend memory source).translate f (map f) id := by
  rw [extend, extend, Source.map, reserve_map hf]
  cases list.reserve source.hint with
  | error panic =>
      simp only [Except.map, Source.leftovers_map]
      rfl
  | ok list =>
      have happended := appendAll_translate hf memory source.pulls list
      simp only [Except.map, happended]
      show ((list.appendAll memory source.pulls).translate f _ id |>.onPanic
        (Source.leftovers ((list.appendAll memory source.pulls).state.2.map (Pull.map f)))).within
          Prod.fst = _
      rw [Source.leftovers_map, Outcome.translate_onPanic]
      exact Outcome.translate_within _ fun _ => rfl

theorem ofSource_translate (hf : Hom f) (memory : Memory) (source : Source α) :
    ofSource memory (source.map f) = (ofSource memory source).translate f (map f) := by
  have hextended := extend_translate hf memory source (empty : LinkedList α)
  rw [map_empty] at hextended
  rw [ofSource, ofSource, hextended]
  generalize (empty : LinkedList α).extend memory source = call
  show ((call.toTraced.translate f id).onPanic (departures (call.state.map f).stored)).bind _ = _
  rw [stored_map, departures_map, Traced.translate_onPanic]
  exact Traced.translate_bind _ fun _ => rfl

/-! ## Operations -/

/-- An operation on the list of the images is the operation on the list, translated. -/
theorem perform_translate (hf : Hom f) (operation : Operation α) (list : LinkedList α) :
    (list.map f).perform (operation.map f)
      = (list.perform operation).translate f (map f) (Reply.map f) := by
  cases operation with
  | len => rfl
  | isEmpty => rfl
  | outermost e =>
      rw [Operation.map, perform, perform, outermost?_map]
      cases list.outermost? e <;> rfl
  | contents e =>
      rw [Operation.map, perform, perform, contents_map]
      cases list.contents e <;> rfl
  | append memory e x =>
      rw [Operation.map, perform, perform, append_translate hf]
      exact Outcome.translate_map _ fun _ => rfl
  | tryAppend memory e x =>
      rw [Operation.map, perform, perform, tryAppend_translate hf]
      exact Outcome.translate_map _ fun _ => rfl
  | delete e value =>
      rw [Operation.map, perform, perform, delete_translate hf]
      exact Outcome.translate_map _ fun _ => rfl
  | find e value =>
      rw [Operation.map, perform, perform, find_translate hf]
      exact Outcome.translate_map (s := map f) ((list.find e value).leaving list) fun _ => rfl
  | clear =>
      rw [Operation.map, perform, perform, clear_translate hf]
      exact Outcome.translate_map _ fun _ => rfl
  | reserve additional =>
      simp only [Operation.map, perform, reserve_map hf]
      cases list.reserve additional <;> rfl
  | extend memory source =>
      rw [Operation.map, perform, perform, extend_translate hf]
      exact Outcome.translate_map _ fun _ => rfl
  | iterate script =>
      rw [Operation.map, perform, perform,
        show (list.map f).cursor = list.cursor.map f from rfl, Cursor.run_translate hf]
      exact Outcome.translate_map (s := map f) ((list.cursor.run script).leaving list) fun _ => rfl

/-! ## Room

Whether there is room depends on the slots and the capacity, which are the
same for the images; what a pull hands over decides how long it matters.
-/

theorem starved_map (hf : Hom f) (memory : Memory) (list : LinkedList α) :
    Starved memory (list.map f) ↔ Starved memory list := by
  have hdetached : (list.map f).Detached ↔ list.Detached :=
    ⟨fun h => ⟨h.head, h.tail, h.left⟩, fun h => ⟨h.head, h.tail, h.left⟩⟩
  have hfull : (list.map f).nodes.Full memory ↔ list.nodes.Full memory := by
    simp [map, Pool.Full, Pool.grow_congr hf.node.slotBytes]
  exact and_congr (not_congr hdetached) hfull

theorem exceeds_map (hf : Hom f) (additional : Nat) (list : LinkedList α) :
    Exceeds additional (list.map f) ↔ Exceeds additional list := by
  rw [Exceeds, Exceeds, Pool.limit_congr hf.node.slotBytes]
  exact Iff.rfl

theorem handed_map (hf : Hom f) (pull : Pull α) :
    (pull.map f).handed = pull.handed.map f := by
  cases pull with
  | give x => rfl
  | copy model => exact hf.clone model
  | fail => rfl

theorem starvedWithin_map (hf : Hom f) (memory : Memory) (pulls : List (Pull α))
    (list : LinkedList α) :
    StarvedWithin memory (pulls.map (Pull.map f)) (list.map f)
      ↔ StarvedWithin memory pulls list := by
  induction pulls generalizing list with
  | nil => exact Iff.rfl
  | cons pull pulls ih =>
      rw [List.map_cons, StarvedWithin, StarvedWithin, handed_map hf]
      cases pull.handed with
      | error panic => simp [Except.map]
      | ok x =>
          have happend := append_translate hf memory .tail x list
          have hanswered : ((list.append memory .tail x).translate f (map f) id).result = .ok ()
              ↔ (list.append memory .tail x).result = .ok () := by
            rw [show ((list.append memory .tail x).translate f (map f) id).result
              = (list.append memory .tail x).result.map id from rfl, Except.map_id]
            rfl
          simp only [Except.map, Except.ok.injEq, exists_eq_left', starved_map hf, happend,
            hanswered]
          exact or_congr Iff.rfl (and_congr Iff.rfl (ih _))

theorem starves_map (hf : Hom f) (operation : Operation α) (list : LinkedList α) :
    (list.map f).Starves (operation.map f) ↔ list.Starves operation := by
  cases operation with
  | append memory e x => exact starved_map hf memory list
  | tryAppend memory e x => exact starved_map hf memory list
  | reserve additional => exact exceeds_map hf additional list
  | extend memory source =>
      refine or_congr (exceeds_map hf source.hint list) ?_
      show (∃ list', (list.map f).reserve source.hint = .ok list'
        ∧ StarvedWithin memory (source.pulls.map (Pull.map f)) list') ↔ _
      rw [reserve_map hf]
      cases list.reserve source.hint with
      | error panic => simp [Except.map]
      | ok list =>
          simp only [Except.map, Except.ok.injEq, exists_eq_left']
          exact starvedWithin_map hf memory source.pulls list
  | len => exact Iff.rfl
  | isEmpty => exact Iff.rfl
  | outermost e => exact Iff.rfl
  | contents e => exact Iff.rfl
  | delete e value => exact Iff.rfl
  | find e value => exact Iff.rfl
  | clear => exact Iff.rfl
  | iterate script => exact Iff.rfl

end LinkedList

end LinkedPool
