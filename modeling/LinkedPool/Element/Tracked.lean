import LinkedPool.Element.Plain

/-!
# Tracked elements

A tracked element has a key, by which it is compared, and a label, by which
it is told from others with the same key: a copy has the label of its
model with a mark added. It may carry a bomb, which makes one of the things
it does panic. Of two elements compared the bomb of the left one goes off
first. A copy carries the bomb as well.
-/

namespace LinkedPool

/-- What an element does that panics. -/
inductive Bomb where
  | comparing
  | copying
  | dropping
deriving Repr, DecidableEq

/-- An element whose every comparison, copy and end can be told. -/
structure Tracked where
  key : Int
  label : String
  bomb : Option Bomb
deriving Repr, DecidableEq

namespace Tracked

/-- The key and the label. -/
def name (x : Tracked) : String := toString x.key ++ ":" ++ x.label

/-- The panic of a bomb, told by what the element was doing. -/
def explosion (deed : String) (x : Tracked) : Panic :=
  .element (deed ++ " bomb " ++ x.name)

instance : Element Tracked where
  toStored := .ofWords 3 5
  equal left right :=
    if left.bomb = some .comparing then .error (explosion "eq" left)
    else if right.bomb = some .comparing then .error (explosion "eq" right)
    else .ok (left.key == right.key)
  clone x :=
    if x.bomb = some .copying then .error (explosion "clone" x)
    else .ok { x with label := x.label ++ "\x27" }
  dropPanic x := if x.bomb = some .dropping then some (explosion "drop" x) else none

instance : Described Tracked where
  document x := .atom x.name

/-- What tracked elements tell of an event. -/
def report? : Event Tracked → Option String
  | .compared left right => some ("eq " ++ left.name ++ " " ++ right.name)
  | .cloned source => some ("clone " ++ source.name)
  | .dropped element => some ("drop " ++ element.name)
  | .logged _ => none

end Tracked

end LinkedPool
