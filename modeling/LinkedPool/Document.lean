/-!
# Structured text

The text of a value is laid out from a small document: atoms, labelled
values, and bracketed sequences. One document has two layouts.
`Document.inline` writes it on one line, `[1, 2]`; `Document.pretty`
gives every item of a bracket a line of its own, indented by four spaces
and closed by a comma. An empty bracket has no items to lay out and reads
the same in both.
-/

namespace LinkedPool

/-- The brackets around a sequence; the named ones write their name first. -/
inductive Bracket where
  | square
  | round (name : String)
  | curly (name : String)
deriving Repr, DecidableEq

/-- What is written for a bracket with no items. -/
def Bracket.hollow : Bracket → String
  | .square => "[]"
  | .round name => name
  | .curly name => name

/-- What opens a bracket that is closed on the same line. -/
def Bracket.opening : Bracket → String
  | .square => "["
  | .round name => name ++ "("
  | .curly name => name ++ " \x7b "

/-- What closes a bracket that was opened on the same line. -/
def Bracket.closing : Bracket → String
  | .square => "]"
  | .round _ => ")"
  | .curly _ => " \x7d"

/-- The line that opens a bracket whose items have lines of their own. -/
def Bracket.openingLine : Bracket → String
  | .square => "["
  | .round name => name ++ "("
  | .curly name => name ++ " \x7b"

/-- The line that closes a bracket whose items have lines of their own. -/
def Bracket.closingLine : Bracket → String
  | .square => "]"
  | .round _ => ")"
  | .curly _ => "\x7d"

/-- The structure of a text. -/
inductive Document where
  | atom (text : String)
  | labelled (label : String) (value : Document)
  | bracketed (bracket : Bracket) (items : List Document)

namespace Document

/-- A sequence in square brackets. -/
def sequence (items : List Document) : Document := .bracketed .square items

/-- A name applied to one value. -/
def applied (name : String) (value : Document) : Document := .bracketed (.round name) [value]

/-- A name with labelled values in curly brackets. -/
def record (name : String) (fields : List (String × Document)) : Document :=
  .bracketed (.curly name) (fields.map fun field => .labelled field.1 field.2)

/-- A number, in decimal digits. -/
def count (n : Nat) : Document := .atom (toString n)

/-- A value that may be absent. -/
def optional : Option Document → Document
  | some value => applied "Some" value
  | none => .atom "None"

/-! ## One line -/

mutual

/-- The document on one line; items are separated by a comma and a space. -/
def inline : Document → String
  | .atom text => text
  | .labelled label value => label ++ ": " ++ inline value
  | .bracketed bracket [] => bracket.hollow
  | .bracketed bracket (item :: items) =>
      bracket.opening ++ ", ".intercalate (inline item :: inlineAll items) ++ bracket.closing

/-- Each document on one line. -/
def inlineAll : List Document → List String
  | [] => []
  | item :: items => inline item :: inlineAll items

end

/-! ## One line per item -/

/-- Puts `text` in front of the first line. -/
def leadWith (text : String) : List String → List String
  | [] => [text]
  | line :: lines => (text ++ line) :: lines

/-- An item of a bracket: a comma after its last line, every line indented by four spaces. -/
def asItem : List String → List String
  | [] => []
  | [line] => ["    " ++ line ++ ","]
  | line :: lines => ("    " ++ line) :: asItem lines

mutual

/-- The lines of a document whose brackets give each item lines of its own. -/
def lines : Document → List String
  | .atom text => text.splitOn "\n"
  | .labelled label value => leadWith (label ++ ": ") (lines value)
  | .bracketed bracket [] => [bracket.hollow]
  | .bracketed bracket (item :: items) =>
      bracket.openingLine :: (asItem (lines item) ++ itemLines items) ++ [bracket.closingLine]

/-- The lines of the items of a bracket, one item after the other. -/
def itemLines : List Document → List String
  | [] => []
  | item :: items => asItem (lines item) ++ itemLines items

end

/-- The document with a line for each item of a bracket. -/
def pretty (document : Document) : String := "\n".intercalate document.lines

end Document

end LinkedPool
