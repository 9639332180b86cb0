import LinkedPool.Element
import LinkedPool.Text.Quoted

/-!
# Plain elements

Numbers, strings and the one value of `Unit` equal themselves and nothing
else, and nothing they do panics. A number takes one word and a string three.

`Described` gives the text of an element where a list or a pool is shown.
-/

namespace LinkedPool

/-- A type of elements with a text. -/
class Described (α : Type) where
  document : α → Document

/-- Elements in square brackets. -/
def Described.sequence {α : Type} [Described α] (elements : List α) : Document :=
  .sequence (elements.map document)

instance : Element Int := .plain (.ofWords 0 1) (· == ·)

instance : Element String := .plain (.ofWords 1 3) (· == ·)

instance : Element Unit := .plain (.ofWords 0 0) (· == ·)

instance : Described Int where
  document n := .atom (toString n)

instance : Described String where
  document s := .atom (Quoted.text s)

instance : Described Unit where
  document _ := .atom "()"

end LinkedPool
