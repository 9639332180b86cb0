import LinkedPool.Element.Plain
import LinkedPool.LinkedList.Search
import LinkedPool.LinkedList.Teardown

/-!
# Lists as elements

A list is an element itself: it is compared, copied and dropped as a list,
and panics when one of its elements does. What its elements do meanwhile
is their own affair; only the list is named in the events of the outer one.
-/

namespace LinkedPool.LinkedList

variable {α : Type}

instance [Element α] : Element (LinkedList α) where
  toStored := .ofWords 8 10
  equal list other := (list.equals other).result
  clone list := list.clone.result
  dropPanic list := list.stored.findSome? Element.dropPanic

/-- The elements of a list from the head, in square brackets. -/
def document [Described α] (list : LinkedList α) : Except Panic Document := do
  return Described.sequence (← list.contents .head)

instance [Described α] : Described (LinkedList α) where
  document list :=
    match list.document with
    | .ok document => document
    | .error panic => .atom panic.message

end LinkedPool.LinkedList
