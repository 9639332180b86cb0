import LinkedPool.LinkedList.Basic

/-!
# Cursors

A cursor goes over the elements of a list from both ends at once. It knows
the slots that come next from either side and how many elements remain, and
it stops when none remain, even where the links lead on past the middle.
A cursor on a list without ends yields nothing; what remains stays as it is.

Looking for an element with `seek` uses up all it passes, the match
included. Where it was found is counted in steps from the end it came from.
-/

namespace LinkedPool

/-- A position in a list between what was taken from its head and what was
taken from its tail. -/
structure Cursor (α : Type) extends Ends where
  nodes : Pool (Node α)
  remaining : Nat
deriving Repr, DecidableEq

/-- The cursor before the first and after the last element of a list. -/
def LinkedList.cursor {α : Type} (list : LinkedList α) : Cursor α :=
  { list with remaining := list.len }

namespace Cursor

variable {α : Type}

/-- The next element from the end `e`, and the cursor past it. -/
def next (e : End) (cursor : Cursor α) : Except Panic (Option α × Cursor α) :=
  if cursor.remaining = 0 then .ok (none, cursor)
  else
    match cursor.slotAt e with
    | none => .ok (none, cursor)
    | some slot => do
        let node ← cursor.nodes.get slot
        let remaining ← Count.minus cursor.remaining 1
        return (some node.element,
          { cursor.toEnds.set e (node.inward e) with nodes := cursor.nodes, remaining })

/-- The next element from the end `e` after `k` others, which are skipped. -/
def nth (e : End) : (k : Nat) → Cursor α → Except Panic (Option α × Cursor α)
  | 0, cursor => cursor.next e
  | k + 1, cursor => do
      match ← cursor.next e with
      | (none, cursor) => return (none, cursor)
      | (some _, cursor) => cursor.nth e k

/-- The next elements from the end `e`, `n` at most. -/
def upTo (e : End) : (n : Nat) → Cursor α → Except Panic (List α)
  | 0, _ => .ok []
  | n + 1, cursor => do
      match ← cursor.next e with
      | (none, _) => return []
      | (some element, cursor) => return element :: (← cursor.upTo e n)

/-- All elements that remain, in the order in which they come from the end `e`. -/
def rest (e : End) (cursor : Cursor α) : Except Panic (List α) :=
  cursor.upTo e cursor.remaining

/-- The last of the elements that remain: the next one from the tail. -/
def last (cursor : Cursor α) : Except Panic (Option α) := do
  return (← cursor.next .tail).1

/-- A cursor shows how many elements remain. -/
def document (cursor : Cursor α) : Document := .applied "Iter" (.count cursor.remaining)

section Search

variable [Element α]

/-- Looks among the next `n` elements from the end `e` for one that equals
`value`; answers the number of steps before it, and the cursor past it. -/
def seekWithin (e : End) (value : α) :
    (n : Nat) → Cursor α → Traced α (Option Nat × Cursor α)
  | 0, cursor => .answer (none, cursor)
  | n + 1, cursor => do
      match ← Traced.ofExcept (cursor.next e) with
      | (none, cursor) => return (none, cursor)
      | (some element, cursor) =>
          if ← Element.compare element value then
            return (some 0, cursor)
          else
            let (steps, cursor) ← cursor.seekWithin e value n
            return (steps.map (· + 1), cursor)

/-- Looks for the first element from the end `e` that equals `value`. -/
def seek (e : End) (value : α) (cursor : Cursor α) : Traced α (Option Nat × Cursor α) :=
  cursor.seekWithin e value cursor.remaining

/-- Whether the next `n` elements from the head equal, each with its left
neighbour asked, those of another cursor, and both come to their end together. -/
def agreesWithin : (n : Nat) → Cursor α → Cursor α → Traced α Bool
  | 0, _, other => do
      let (right, _) ← Traced.ofExcept (other.next .head)
      return right.isNone
  | n + 1, cursor, other => do
      match ← Traced.ofExcept (cursor.next .head) with
      | (none, _) =>
          let (right, _) ← Traced.ofExcept (other.next .head)
          return right.isNone
      | (some left, cursor) =>
          match ← Traced.ofExcept (other.next .head) with
          | (none, _) => return false
          | (some right, other) =>
              if ← Element.compare left right then
                cursor.agreesWithin n other
              else
                return false

/-- Whether the elements of two cursors are equal in order. -/
def agrees (cursor other : Cursor α) : Traced α Bool :=
  cursor.agreesWithin cursor.remaining other

end Search

end Cursor

end LinkedPool
