import LinkedPool.LinkedList.Operation
import LinkedPool.Store

/-!
# Sessions on lists

A session works on any number of named lists, one step after the other. A
name that is first used as that of an existing list stands for a new one.
A step that makes a list puts it in place before the list that had its
name is dropped, so that the new list is there even if that drop panics;
if making it panics, nothing takes its place.

At the end the lists that are left are dropped in the order of their names.
-/

namespace LinkedPool.Session.Lists

variable {α : Type}

/-- Where a new list comes from. -/
inductive Origin (α : Type) where
  | empty
  | withCapacity (n : Nat)
  | ofSource (memory : Memory) (source : Source α)
  | cloneOf (name : String)

/-- One thing done to named lists. -/
inductive Step (α : Type) where
  /-- Puts a new list under `name`. -/
  | create (name : String) (origin : Origin α)
  /-- Takes the list under `name` away and destroys it. -/
  | destroy (name : String)
  /-- Takes the list under `name` away and drops it. -/
  | discard (name : String)
  /-- Carries out an operation on the list under `name`. -/
  | operate (name : String) (operation : Operation α)
  /-- Extends the list under `name` by copies of what comes from an end of
  another list. -/
  | extendFrom (memory : Memory) (name other : String) (e : End)
  /-- Asks whether the list under `name` equals another list. -/
  | equals (name other : String)
  /-- Asks whether the list under `name` differs from another list. -/
  | differs (name other : String)

/-- The list under a name; a new one if there is none. -/
def listAt (name : String) (lists : Store (LinkedList α)) : LinkedList α :=
  (lists.find? name).getD .empty

variable [Element α]

/-- Makes a new list. -/
def Origin.build (lists : Store (LinkedList α)) : Origin α → Traced α (LinkedList α)
  | .empty => .answer .empty
  | .withCapacity n => .ofExcept (LinkedList.withCapacity n)
  | .ofSource memory source => LinkedList.ofSource memory source
  | .cloneOf name => (listAt name lists).clone

/-- The lists, with a new one under a name that an origin is the first to use. -/
def Origin.prepare (lists : Store (LinkedList α)) : Origin α → Store (LinkedList α)
  | .cloneOf name => lists.ensure name .empty
  | _ => lists

/-- Puts `list` under `name`, and drops the one that was there. -/
def replace (name : String) (list : LinkedList α) (lists : Store (LinkedList α)) :
    Outcome α (Store (LinkedList α)) Unit :=
  match lists.find? name with
  | none => (Traced.answer ()).leaving (lists.put name list)
  | some old => old.discard.leaving (lists.put name list)

/-- Carries out an operation on the list under `name`. -/
def operate (name : String) (operation : Operation α) (lists : Store (LinkedList α)) :
    Outcome α (Store (LinkedList α)) (Reply α) :=
  ((listAt name lists).perform operation).within fun list => lists.put name list

/-- Carries out a step. -/
def perform (lists : Store (LinkedList α)) :
    Step α → Outcome α (Store (LinkedList α)) (Reply α)
  | .create name origin =>
      let lists := origin.prepare lists
      (((origin.build lists).leaving lists).bind fun lists list =>
        replace name list lists).map fun _ => .done
  | .destroy name =>
      ((listAt name lists).destroy.leaving (lists.erase name)).map fun _ => .done
  | .discard name =>
      ((listAt name lists).discard.leaving (lists.erase name)).map fun _ => .done
  | .operate name operation => operate name operation lists
  | .extendFrom memory name other e =>
      let lists := lists.ensure other .empty
      ((Traced.ofExcept (Source.copies e (listAt other lists))).leaving lists).bind
        fun lists source => operate name (.extend memory source) lists
  | .equals name other =>
      ((listAt name lists).equals (listAt other lists)).leaving
        ((lists.ensure name .empty).ensure other .empty) |>.map .flag
  | .differs name other =>
      ((listAt name lists).differs (listAt other lists)).leaving
        ((lists.ensure name .empty).ensure other .empty) |>.map .flag

/-- The outcomes of steps done one after the other, beginning with `lists`. -/
def run (lists : Store (LinkedList α)) :
    List (Step α) → List (Outcome α (Store (LinkedList α)) (Reply α))
  | [] => []
  | step :: steps =>
      let outcome := perform lists step
      outcome :: run outcome.state steps

/-- The lists after steps done one after the other. -/
def final (lists : Store (LinkedList α)) : List (Step α) → Store (LinkedList α)
  | [] => lists
  | step :: steps => final (perform lists step).state steps

/-- What dropping the lists comes to, in the order of their names. -/
def close (lists : Store (LinkedList α)) : List (Traced α Unit) :=
  lists.entries.map fun entry => entry.2.discard

end LinkedPool.Session.Lists
