import LinkedPool.Document

/-!
# Quoted text

A string is written between double quotes. Inside, a double quote and a
backslash are led in by a backslash, and a line feed, a carriage return
and a tabulator have letters of their own; every other character stands
for itself.
-/

namespace LinkedPool.Quoted

/-- A character as it is written between the quotes. -/
def character : Char → List Char
  | '"' => ['\\', '"']
  | '\\' => ['\\', '\\']
  | '\n' => ['\\', 'n']
  | '\r' => ['\\', 'r']
  | '\t' => ['\\', 't']
  | c => [c]

/-- A string between quotes. -/
def text (s : String) : String :=
  String.ofList ('"' :: s.toList.flatMap character ++ ['"'])

end LinkedPool.Quoted
