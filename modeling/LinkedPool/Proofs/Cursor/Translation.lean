import LinkedPool.Cursor.Script
import LinkedPool.Proofs.Pool.Translation

/-!
# Cursors on other elements

What a list is made of, and the cursors that go over it, with the elements
replaced by their images: all links are the same, and so are the ways that
cursors take along them. A script is answered with the images of what it is
answered on the list itself (`Cursor.run_translate`).
-/

namespace LinkedPool

open Element

variable {α β : Type} {f : α → β}

/-! ## Nodes and lists -/

namespace Node

/-- The node with the image of its element, and the same links. -/
def map (f : α → β) (node : Node α) : Node β :=
  { next := node.next, prev := node.prev, element := f node.element }

theorem map_leftInverse {g : β → α} (h : Function.LeftInverse g f) :
    Function.LeftInverse (map g) (map f) :=
  fun node => congrArg (fun element => { node with element }) (h node.element)

@[simp] theorem inward_map (f : α → β) (e : End) (node : Node α) :
    (node.map f).inward e = node.inward e := by
  cases e <;> rfl

theorem setOutward_map (f : α → β) (e : End) (slot : Option Slot) (node : Node α) :
    (node.map f).setOutward e slot = (node.setOutward e slot).map f := by
  cases e <;> rfl

theorem outermost_map (f : α → β) (e : End) (inward : Option Slot) (x : α) :
    outermost e inward (f x) = (outermost e inward x).map f := by
  cases e <;> rfl

end Node

theorem Element.Hom.node [Element α] [Element β] (hf : Hom f) : Hom (Node.map f) where
  slotBytes := hf.nodeBytes
  nodeBytes := congrArg (· + 32) hf.nodeBytes
  equal x y := hf.equal x.element y.element
  clone x := by
    show (Element.clone (f x.element)).map _ = ((Element.clone x.element).map _).map _
    rw [hf.clone]
    cases Element.clone x.element <;> rfl
  dropPanic x := hf.dropPanic x.element

/-- What is told of nodes can be told of their elements, before or after. -/
theorem Traced.translate_node {ρ ρ' : Type} {g : ρ → ρ'} (call : Traced (Node α) ρ) :
    (call.translate (Node.map f) g).relabel Node.element
      = (call.relabel Node.element).translate f g :=
  translate_relabel (f := Node.map f) (p := Node.element) (fun _ => rfl) call

theorem Outcome.translate_node {σ σ' ρ ρ' : Type} {s : σ → σ'} {g : ρ → ρ'}
    (call : Outcome (Node α) σ ρ) :
    (call.translate (Node.map f) s g).relabel Node.element
      = (call.relabel Node.element).translate f s g :=
  translate_relabel (f := Node.map f) (p := Node.element) (fun _ => rfl) call

/-- The list of the images of the elements, in the same slots. -/
def LinkedList.map (f : α → β) (list : LinkedList α) : LinkedList β :=
  { list.toEnds with nodes := list.nodes.map (Node.map f) }

theorem LinkedList.map_map {γ : Type} (g : β → γ) (f : α → β) (list : LinkedList α) :
    (list.map f).map g = list.map fun x => g (f x) := by
  rw [map, map, map, Pool.map_map]
  rfl

theorem LinkedList.map_leftInverse {g : β → α} (h : Function.LeftInverse g f) :
    Function.LeftInverse (map g) (map f) :=
  fun list => congrArg (fun nodes => { list with nodes })
    (Pool.map_leftInverse (Node.map_leftInverse h) list.nodes)

namespace Cursor

/-- The cursor at the same place among the images. -/
def map (f : α → β) (cursor : Cursor α) : Cursor β :=
  { cursor.toEnds with nodes := cursor.nodes.map (Node.map f), remaining := cursor.remaining }

def Command.map (f : α → β) : Command α → Command β
  | .next e => .next e
  | .nth e k => .nth e k
  | .len => .len
  | .sizeHint => .sizeHint
  | .describe => .describe
  | .last => .last
  | .count => .count
  | .rest e => .rest e
  | .position e value => .position e (f value)
  | .fork => .fork
  | .use number => .use number

theorem Command.map_leftInverse {g : β → α} (h : Function.LeftInverse g f) :
    Function.LeftInverse (map g) (map f) := by
  intro command
  cases command with
  | position e value => exact congrArg (Command.position e) (h value)
  | next e => rfl
  | nth e k => rfl
  | len => rfl
  | sizeHint => rfl
  | describe => rfl
  | last => rfl
  | count => rfl
  | rest e => rfl
  | fork => rfl
  | use number => rfl

def Answer.map (f : α → β) : Answer α → Answer β
  | .item element => .item (element.map f)
  | .number n => .number n
  | .bounds lower upper => .bounds lower upper
  | .items elements => .items (elements.map f)
  | .position index => .position index
  | .text shown => .text shown

def Family.map (f : α → β) (family : Family α) : Family β :=
  { inUse := family.inUse.map f
    number := family.number
    members := family.members.map (Cursor.map f) }

theorem Family.use_map (f : α → β) (number : Nat) (family : Family α) :
    (family.map f).use number = (family.use number).map f := by
  unfold Family.use Family.map
  simp only [← Array.map_setIfInBounds, Array.getElem?_map]
  cases (family.members.setIfInBounds family.number family.inUse)[number]? <;> simp

theorem Family.fork_map (f : α → β) (family : Family α) :
    (family.map f).fork = family.fork.map f := by
  simp [Family.fork, Family.map]

/-! ## One element after the other -/

theorem next_map (f : α → β) (e : End) (cursor : Cursor α) :
    (cursor.map f).next e
      = (cursor.next e).map fun (element, cursor) => (element.map f, cursor.map f) := by
  have hremaining : (cursor.map f).remaining = cursor.remaining := rfl
  have hslot : (cursor.map f).slotAt e = cursor.slotAt e := rfl
  rw [next, next, hremaining, hslot]
  split
  · rfl
  · cases cursor.slotAt e with
    | none => rfl
    | some slot =>
        simp only [map, Pool.get_map]
        cases cursor.nodes.get slot with
        | error panic => rfl
        | ok node =>
            show (Count.minus cursor.remaining 1 >>= _)
              = (Count.minus cursor.remaining 1 >>= _).map _
            cases Count.minus cursor.remaining 1 with
            | error panic => rfl
            | ok remaining =>
                rw [Node.inward_map]
                rfl

theorem nth_map (f : α → β) (e : End) (k : Nat) (cursor : Cursor α) :
    (cursor.map f).nth e k
      = (cursor.nth e k).map fun (element, cursor) => (element.map f, cursor.map f) := by
  induction k generalizing cursor with
  | zero => exact next_map f e cursor
  | succ k ih =>
      rw [nth, nth, next_map]
      cases cursor.next e with
      | error panic => rfl
      | ok stepped =>
          obtain ⟨element, cursor⟩ := stepped
          cases element with
          | none => rfl
          | some x => exact ih cursor

theorem upTo_map (f : α → β) (e : End) (n : Nat) (cursor : Cursor α) :
    (cursor.map f).upTo e n = (cursor.upTo e n).map (List.map f) := by
  induction n generalizing cursor with
  | zero => rfl
  | succ n ih =>
      rw [upTo, upTo, next_map]
      cases cursor.next e with
      | error panic => rfl
      | ok stepped =>
          obtain ⟨element, cursor⟩ := stepped
          cases element with
          | none => rfl
          | some x =>
              show ((cursor.map f).upTo e n >>= _) = (cursor.upTo e n >>= _).map _
              rw [ih]
              cases cursor.upTo e n <;> rfl

theorem rest_map (f : α → β) (e : End) (cursor : Cursor α) :
    (cursor.map f).rest e = (cursor.rest e).map (List.map f) :=
  upTo_map f e cursor.remaining cursor

/-! ## Searching and comparing -/

variable [Element α] [Element β]

theorem seekWithin_translate (hf : Hom f) (e : End) (value : α) (n : Nat) (cursor : Cursor α) :
    (cursor.map f).seekWithin e (f value) n
      = (cursor.seekWithin e value n).translate f fun (steps, cursor) => (steps, cursor.map f) := by
  induction n generalizing cursor with
  | zero => rfl
  | succ n ih =>
      rw [seekWithin, seekWithin, next_map]
      cases cursor.next e with
      | error panic => rfl
      | ok stepped =>
          obtain ⟨element, cursor⟩ := stepped
          cases element with
          | none => rfl
          | some x =>
              show (Element.compare (f x) (f value)).bind _
                = ((Element.compare x value).bind _).translate f _
              rw [hf.compare]
              refine Traced.translate_bind _ ?_
              intro same
              cases same with
              | true => rfl
              | false =>
                  show ((cursor.map f).seekWithin e (f value) n).bind _
                    = ((cursor.seekWithin e value n).bind _).translate f _
                  rw [ih]
                  exact Traced.translate_bind _ fun _ => rfl

theorem seek_translate (hf : Hom f) (e : End) (value : α) (cursor : Cursor α) :
    (cursor.map f).seek e (f value)
      = (cursor.seek e value).translate f fun (steps, cursor) => (steps, cursor.map f) :=
  seekWithin_translate hf e value cursor.remaining cursor

theorem agreesWithin_translate (hf : Hom f) (n : Nat) (cursor other : Cursor α) :
    (cursor.map f).agreesWithin n (other.map f)
      = (cursor.agreesWithin n other).translate f id := by
  induction n generalizing cursor other with
  | zero =>
      rw [agreesWithin, agreesWithin, next_map]
      cases other.next .head with
      | error panic => rfl
      | ok stepped =>
          obtain ⟨element, other⟩ := stepped
          cases element <;> rfl
  | succ n ih =>
      rw [agreesWithin, agreesWithin, next_map, next_map]
      cases cursor.next .head with
      | error panic => rfl
      | ok stepped =>
          obtain ⟨element, cursor⟩ := stepped
          cases other.next .head with
          | error panic => cases element <;> rfl
          | ok stepped =>
              obtain ⟨element', other⟩ := stepped
              cases element with
              | none => cases element' <;> rfl
              | some x =>
                  cases element' with
                  | none => rfl
                  | some y =>
                      show (Element.compare (f x) (f y)).bind _
                        = ((Element.compare x y).bind _).translate f _
                      rw [hf.compare]
                      refine Traced.translate_bind _ ?_
                      intro same
                      cases same with
                      | true => exact ih cursor other
                      | false => rfl

/-! ## Scripts -/

theorem Family.perform_translate (hf : Hom f) (command : Command α) (family : Family α) :
    (family.map f).perform (command.map f)
      = (family.perform command).translate f fun (answer, family) =>
          (answer.map f, family.map f) := by
  cases command with
  | next e =>
      rw [Command.map, Family.perform, Family.perform, Family.map, next_map]
      cases family.inUse.next e <;> rfl
  | nth e k =>
      rw [Command.map, Family.perform, Family.perform, Family.map, nth_map]
      cases family.inUse.nth e k <;> rfl
  | len => rfl
  | sizeHint => rfl
  | describe => rfl
  | last =>
      rw [Command.map, Family.perform, Family.perform, Family.map, last, last, next_map]
      cases family.inUse.next .tail <;> rfl
  | count =>
      rw [Command.map, Family.perform, Family.perform, Family.map, rest_map]
      cases family.inUse.rest .head with
      | error panic => rfl
      | ok elements =>
          show Traced.answer (Answer.number (elements.map f).length, family.map f) = _
          rw [List.length_map]
          rfl
  | rest e =>
      rw [Command.map, Family.perform, Family.perform, Family.map, rest_map]
      cases family.inUse.rest e <;> rfl
  | position e value =>
      rw [Command.map, Family.perform, Family.perform]
      show ((family.inUse.map f).seek e (f value)).bind _
        = ((family.inUse.seek e value).bind _).translate f _
      rw [seek_translate hf]
      exact Traced.translate_bind _ fun _ => rfl
  | fork =>
      have hsize : (family.map f).members.size = family.members.size := Array.size_map
      rw [Command.map, Family.perform, Family.perform, Family.fork_map, hsize]
      rfl
  | use number =>
      rw [Command.map, Family.perform, Family.perform, Family.use_map]
      rfl

theorem Family.performAll_translate (hf : Hom f) (script : List (Command α))
    (family : Family α) :
    (family.map f).performAll (script.map (Command.map f))
      = (family.performAll script).translate f (List.map (Answer.map f)) := by
  induction script generalizing family with
  | nil => rfl
  | cons command script ih =>
      rw [List.map_cons, Family.performAll, Family.performAll, Traced.bind_eq, Traced.bind_eq,
        Family.perform_translate hf]
      refine Traced.translate_bind _ ?_
      rintro ⟨answer, family⟩
      show ((family.map f).performAll _).bind _ = ((family.performAll script).bind _).translate f _
      rw [ih]
      exact Traced.translate_bind _ fun _ => rfl

theorem run_translate (hf : Hom f) (script : List (Command α)) (cursor : Cursor α) :
    (cursor.map f).run (script.map (Command.map f))
      = (cursor.run script).translate f (List.map (Answer.map f)) := by
  have hfamily : Family.ofCursor (cursor.map f) = (Family.ofCursor cursor).map f := by
    simp [Family.ofCursor, Family.map]
  rw [run, run, hfamily]
  exact Family.performAll_translate hf script _

end Cursor

end LinkedPool
