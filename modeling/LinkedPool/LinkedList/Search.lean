import LinkedPool.Cursor

/-!
# Looking at a list

The contents of a list are what a cursor yields. Positions are counted from
the head, whichever end a search starts from, and the length of the list
stands for "nowhere". Lists are equal if they have the same length and
equal elements; the elements of the list on the left are asked.
-/

namespace LinkedPool

/-- The position, counted from the head, of what is `steps` steps away from
an end of a list of `len` elements. -/
def End.position : End → (len steps : Nat) → Except Panic Nat
  | .head, _, steps => .ok steps
  | .tail, len, steps => do
      let last ← Count.minus len 1
      Count.minus last steps

namespace LinkedList

variable {α : Type}

/-- The elements in the order in which they come from the end `e`. -/
def contents (e : End) (list : LinkedList α) : Except Panic (List α) := list.cursor.rest e

variable [Element α]

/-- The position of the first element, from the end `e`, that equals
`value`; the length of the list if there is none. -/
def find (e : End) (value : α) (list : LinkedList α) : Traced α Nat := do
  match (← list.cursor.seek e value).1 with
  | none => return list.len
  | some steps => Traced.ofExcept (e.position list.len steps)

/-- Whether two lists are equal. -/
def equals (list other : LinkedList α) : Traced α Bool :=
  if list.len = other.len then list.cursor.agrees other.cursor else .answer false

/-- Whether two lists are not equal. -/
def differs (list other : LinkedList α) : Traced α Bool := do
  return !(← list.equals other)

end LinkedList

end LinkedPool
