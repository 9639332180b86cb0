import LinkedPool.Panic

/-!
# Events and log lines

What a call does besides answering can be told from its *trace*, the list
of its events in order: which elements it compared, copied and dropped,
and which lines it logged. Elements appear in events by value, so a trace
also tells the operand on the left of a comparison from the one on the
right.
-/

namespace LinkedPool

/-- How much a log line matters. -/
inductive LogLevel where
  | debug
  | trace
deriving Repr, DecidableEq

def LogLevel.name : LogLevel → String
  | .debug => "DEBUG"
  | .trace => "TRACE"

/-- A line of the log of a list. -/
inductive LogLine where
  /-- The list was empty and its first node is in `slot`. -/
  | insertedFirst (slot : Slot)
  /-- A list without ends refused an element, since it still holds `len`. -/
  | refusedFirst (len : Nat)
  /-- The node in `slot` was unlinked from its neighbours `prev` and `next`. -/
  | removed (slot : Slot) (prev next : Option Slot)
  /-- The list was emptied of `released` nodes. -/
  | cleared (released : Nat)
deriving Repr, DecidableEq

namespace LogLine

/-- Refusing an element is worth a closer look; all else is routine. -/
def level : LogLine → LogLevel
  | .refusedFirst _ => .debug
  | _ => .trace

/-- A link of a node, as the log shows it. -/
def linkText (link : Option Slot) : String :=
  (Document.optional (link.map Slot.document)).inline

def message : LogLine → String
  | .insertedFirst slot => "insert_into_empty: " ++ slot.document.inline
  | .refusedFirst len =>
      "insert_into_empty: the list already has " ++ toString len ++ " element(s)"
  | .removed slot prev next =>
      "remove_node: " ++ slot.document.inline ++ " (prev = " ++ linkText prev
        ++ ", next = " ++ linkText next ++ ")"
  | .cleared released => "clear: released " ++ toString released ++ " node(s)"

/-- The line with its level in front. -/
def text (line : LogLine) : String := line.level.name ++ " " ++ line.message

end LogLine

/-- One thing a call does besides answering. -/
inductive Event (α : Type) where
  /-- `left` was asked whether it equals `right`. -/
  | compared (left right : α)
  /-- `source` was asked for a copy of itself. -/
  | cloned (source : α)
  /-- `element` was dropped. -/
  | dropped (element : α)
  /-- A line was logged. -/
  | logged (line : LogLine)
deriving Repr, DecidableEq

namespace Event

variable {α β : Type}

/-- The same event on the images of its elements. -/
def map (f : α → β) : Event α → Event β
  | .compared left right => .compared (f left) (f right)
  | .cloned source => .cloned (f source)
  | .dropped element => .dropped (f element)
  | .logged line => .logged line

/-- The line that an event logs. -/
def line? : Event α → Option LogLine
  | .logged line => some line
  | _ => none

end Event

end LinkedPool
