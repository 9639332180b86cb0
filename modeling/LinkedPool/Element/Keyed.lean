import LinkedPool.Element

/-!
# Elements compared by their keys

Two elements of these types are equal when they have the same key, whatever
else there is about them. Equality is thus an equivalence, and still it shows
which of several equal elements a list let go of, or whether it holds an
element or a copy of it.
-/

namespace LinkedPool

/-- An element that knows how many copies it is away from the first with its
key. -/
structure Replica where
  key : Int
  generation : Nat
deriving Repr, DecidableEq

instance : Element Replica where
  toStored := .ofWords 1 2
  equal x y := .ok (x.key == y.key)
  clone x := .ok { x with generation := x.generation + 1 }
  dropPanic _ := none

/-- An element that may break when it is dropped. -/
structure Brittle where
  key : Int
  breaks : Bool
deriving Repr, DecidableEq

instance : Element Brittle where
  toStored := .ofWords 1 2
  equal x y := .ok (x.key == y.key)
  clone x := .ok x
  dropPanic x := if x.breaks then some (.element "broken") else none

end LinkedPool
