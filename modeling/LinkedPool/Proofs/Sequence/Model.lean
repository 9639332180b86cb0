import LinkedPool.Session.Lists
import LinkedPool.Proofs.Cursor.Search
import LinkedPool.Proofs.Pool.Clone

/-!
# Lists as plain sequences

What is asked of a list, asked of the bare sequence of its elements. There
are no slots, links or storages here, and nothing panics: where an element
would, what it answers does not matter. A cursor is what it has still to
yield, and a session is on named sequences.
-/

namespace LinkedPool

open Element Session.Lists

namespace Sequence

variable {α : Type} [Element α]

/-- The first position that holds an element which says that it equals
`value`. Positions are counted from the head and tried from the end `e` on,
so that it is the least one from the head and the greatest from the tail. -/
def index (e : End) (value : α) (xs : List α) : Option Nat :=
  (e.listed (List.range xs.length)).find? fun i => xs[i]?.any (same · value)

/-- The elements that a source hands over. -/
def handedOver (source : Source α) : List α :=
  source.pulls.filterMap fun
    | .give x => some x
    | .copy model => some (twin model)
    | .fail => none

/-! ## Cursors -/

/-- Numbered cursors on one sequence, each as what it has still to yield. -/
structure Windows (α : Type) where
  inUse : List α
  number : Nat
  members : Array (List α)

namespace Windows

omit [Element α] in
def ofSequence (xs : List α) : Windows α := ⟨xs, 0, #[xs]⟩

omit [Element α] in
/-- Puts another cursor into use; a number that no cursor has changes nothing. -/
def use (number : Nat) (windows : Windows α) : Windows α :=
  let members := windows.members.setIfInBounds windows.number windows.inUse
  match members[number]? with
  | some inUse => { inUse, number, members }
  | none => windows

def perform (windows : Windows α) : Cursor.Command α → Cursor.Answer α × Windows α
  | .next e =>
      (.item (e.listed windows.inUse).head?,
        { windows with inUse := e.listed (e.listed windows.inUse).tail })
  | .nth e k =>
      (.item (e.listed windows.inUse)[k]?,
        { windows with inUse := e.listed ((e.listed windows.inUse).drop (k + 1)) })
  | .len => (.number windows.inUse.length, windows)
  | .sizeHint => (.bounds windows.inUse.length windows.inUse.length, windows)
  | .describe =>
      (.text (Document.applied "Iter" (.count windows.inUse.length)).inline, windows)
  | .last => (.item windows.inUse.getLast?, windows)
  | .count => (.number windows.inUse.length, windows)
  | .rest e => (.items (e.listed windows.inUse), windows)
  | .position e value =>
      match index e value windows.inUse with
      | none => (.position none, { windows with inUse := [] })
      | some i =>
          (.position (some i),
            { windows with
              inUse := match e with
                | .head => windows.inUse.drop (i + 1)
                | .tail => windows.inUse.take i })
  | .fork =>
      (.number windows.members.size,
        { windows with members := windows.members.push windows.inUse })
  | .use number => (.number number, windows.use number)

def performAll : List (Cursor.Command α) → Windows α → List (Cursor.Answer α)
  | [], _ => []
  | command :: script, windows =>
      (windows.perform command).1 :: performAll script (windows.perform command).2

end Windows

/-! ## Operations -/

def perform (xs : List α) : Operation α → Reply α × List α
  | .len => (.count xs.length, xs)
  | .isEmpty => (.flag xs.isEmpty, xs)
  | .outermost .head => (.item xs.head?, xs)
  | .outermost .tail => (.item xs.getLast?, xs)
  | .contents .head => (.items xs, xs)
  | .contents .tail => (.items xs.reverse, xs)
  | .append _ .head x | .tryAppend _ .head x => (.insertion (.ok ()), x :: xs)
  | .append _ .tail x | .tryAppend _ .tail x => (.insertion (.ok ()), xs ++ [x])
  | .delete e value =>
      match index e value xs with
      | none => (.flag false, xs)
      | some i => (.flag true, xs.eraseIdx i)
  | .find e value => (.count ((index e value xs).getD xs.length), xs)
  | .clear => (.done, [])
  | .reserve _ => (.done, xs)
  | .extend _ source => (.done, xs ++ handedOver source)
  | .iterate script => (.script ((Windows.ofSequence xs).performAll script), xs)

/-! ## Sessions -/

omit [Element α] in
/-- The sequence under a name; the empty one if there is none. -/
def sequenceAt (name : String) (sequences : Store (List α)) : List α :=
  (sequences.find? name).getD []

def step (sequences : Store (List α)) : Step α → Reply α × Store (List α)
  | .create name .empty => (.done, sequences.put name [])
  | .create name (.withCapacity _) => (.done, sequences.put name [])
  | .create name (.ofSource _ source) => (.done, sequences.put name (handedOver source))
  | .create name (.cloneOf other) =>
      (.done, (sequences.ensure other []).put name ((sequenceAt other sequences).map twin))
  | .destroy name => (.done, sequences.erase name)
  | .discard name => (.done, sequences.erase name)
  | .operate name operation =>
      let performed := perform (sequenceAt name sequences) operation
      (performed.1, sequences.put name performed.2)
  | .extendFrom _ name other e =>
      (.done, (sequences.ensure other []).put name
        (sequenceAt name sequences ++ (e.listed (sequenceAt other sequences)).map twin))
  | .equals name other =>
      (.flag (alike (sequenceAt name sequences) (sequenceAt other sequences)),
        (sequences.ensure name []).ensure other [])
  | .differs name other =>
      (.flag (!alike (sequenceAt name sequences) (sequenceAt other sequences)),
        (sequences.ensure name []).ensure other [])

/-- The replies of steps carried out one after the other. -/
def replies (sequences : Store (List α)) : List (Step α) → List (Reply α)
  | [] => []
  | first :: steps => (step sequences first).1 :: replies (step sequences first).2 steps

/-- The sequences after steps carried out one after the other. -/
def final (sequences : Store (List α)) : List (Step α) → Store (List α)
  | [] => sequences
  | first :: steps => final (step sequences first).2 steps

end Sequence

end LinkedPool
