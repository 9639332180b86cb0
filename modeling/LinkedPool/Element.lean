import LinkedPool.Capacity
import LinkedPool.Traced

/-!
# Elements

Lists and pools hold elements of any type, and an element may have a mind
of its own: it decides what equals it, how it is copied, and whether one
of these, or its own end, panics. `Element` is all that is asked of a type;
nothing is assumed about it, not even that an element equals itself.

A drop that panics stops nothing but the call it is part of: of several
elements dropped together every one is dropped, in order, and the first
panic is reported (`discardAll`). While a panic is passing through, drops
do not panic; they are mere `departures` in its trace.
-/

namespace LinkedPool

/-- A type of elements: their size, equality, copying, and the end of an
element. -/
class Element (α : Type) extends Stored α where
  /-- Whether the element on the left says that it equals the one on the right. -/
  equal : α → α → Except Panic Bool
  /-- A copy of the element. -/
  clone : α → Except Panic α
  /-- The panic that dropping the element raises, if it raises one. -/
  dropPanic : α → Option Panic

namespace Element

variable {α : Type}

/-- Elements that compare by a decidable relation, are copied as they are,
and never panic. -/
@[reducible] def plain (stored : Stored α) (same : α → α → Bool) : Element α where
  toStored := stored
  equal left right := .ok (same left right)
  clone element := .ok element
  dropPanic _ := none

variable [Element α]

/-- Asks `left` whether it equals `right`. -/
def compare (left right : α) : Traced α Bool := ⟨equal left right, [.compared left right]⟩

/-- Asks `element` for a copy of itself. -/
def copy (element : α) : Traced α α := ⟨clone element, [.cloned element]⟩

/-- Drops `elements` one after the other; the first panic of a drop is
raised when all are dropped. -/
def discardAll (elements : List α) : Traced α Unit :=
  ⟨match elements.findSome? dropPanic with
    | none => .ok ()
    | some panic => .error panic,
   elements.map .dropped⟩

/-- Drops `element`. -/
def discard (element : α) : Traced α Unit := discardAll [element]

/-- The copies that were made in a call, in order. -/
def copiesIn (trace : List (Event α)) : List α :=
  trace.filterMap fun
    | .cloned source => (clone source).toOption
    | _ => none

/-- The events of dropping `elements` while a panic passes through. -/
def departures (elements : List α) : List (Event α) := elements.map .dropped

end Element

end LinkedPool
