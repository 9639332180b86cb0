import LinkedPool.Cursor

/-!
# Scripts for cursors

A script drives a family of cursors on one list. It begins with one cursor,
number 0, on the whole list. Commands go to the cursor in use; `fork` makes
a copy of it under the next number, and `use` puts another one into use.
Commands that look at everything that remains do so on a copy, and leave
the cursor where it is.
-/

namespace LinkedPool.Cursor

variable {α : Type}

/-- What a cursor can be told. -/
inductive Command (α : Type) where
  | next (e : End)
  | nth (e : End) (k : Nat)
  | len
  | sizeHint
  | describe
  | last
  | count
  | rest (e : End)
  | position (e : End) (value : α)
  | fork
  | use (number : Nat)
deriving Repr, DecidableEq

/-- What a cursor answers. -/
inductive Answer (α : Type) where
  | item (element : Option α)
  | number (n : Nat)
  | bounds (lower upper : Nat)
  | items (elements : List α)
  | position (index : Option Nat)
  | text (text : String)
deriving Repr, DecidableEq

/-- Numbered cursors. The one in use is kept apart: its place among the
others holds what it was when it was put into use. -/
structure Family (α : Type) where
  inUse : Cursor α
  number : Nat
  members : Array (Cursor α)
deriving Repr, DecidableEq

namespace Family

/-- The family of one cursor. -/
def ofCursor (cursor : Cursor α) : Family α := ⟨cursor, 0, #[cursor]⟩

/-- The family with a copy of the cursor in use added. -/
def fork (family : Family α) : Family α :=
  { family with members := family.members.push family.inUse }

/-- The family with another cursor in use; a number that no cursor has
changes nothing. -/
def use (number : Nat) (family : Family α) : Family α :=
  let members := family.members.setIfInBounds family.number family.inUse
  match members[number]? with
  | some inUse => { inUse, number, members }
  | none => family

end Family

/-- A position counted from the present front, for a match `steps` steps
away from an end when `remaining` elements were left. -/
def stepsFromFront (e : End) (remaining steps : Nat) : Nat :=
  match e with
  | .head => steps
  | .tail => remaining - 1 - steps

variable [Element α]

/-- Carries out one command. -/
def Family.perform (family : Family α) : Command α → Traced α (Answer α × Family α)
  | .next e => do
      let (element, cursor) ← Traced.ofExcept (family.inUse.next e)
      return (.item element, { family with inUse := cursor })
  | .nth e k => do
      let (element, cursor) ← Traced.ofExcept (family.inUse.nth e k)
      return (.item element, { family with inUse := cursor })
  | .len => .answer (.number family.inUse.remaining, family)
  | .sizeHint => .answer (.bounds family.inUse.remaining family.inUse.remaining, family)
  | .describe => .answer (.text family.inUse.document.inline, family)
  | .last => do
      return (.item (← Traced.ofExcept family.inUse.last), family)
  | .count => do
      return (.number (← Traced.ofExcept (family.inUse.rest .head)).length, family)
  | .rest e => do
      return (.items (← Traced.ofExcept (family.inUse.rest e)), family)
  | .position e value => do
      let (steps, cursor) ← family.inUse.seek e value
      return (.position (steps.map (stepsFromFront e family.inUse.remaining)),
        { family with inUse := cursor })
  | .fork => .answer (.number family.members.size, family.fork)
  | .use number => .answer (.number number, family.use number)

/-- Carries out commands one after the other. -/
def Family.performAll : List (Command α) → Family α → Traced α (List (Answer α))
  | [], _ => .answer []
  | command :: script, family => do
      let (answer, family) ← family.perform command
      return answer :: (← family.performAll script)

/-- Runs a script from a cursor. -/
def run (script : List (Command α)) (cursor : Cursor α) : Traced α (List (Answer α)) :=
  (Family.ofCursor cursor).performAll script

end LinkedPool.Cursor
