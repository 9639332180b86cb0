/-!
# Named values

A store keeps values under names, in ascending order of the names. A name
is looked up, put, or taken away; what other names hold stays the same.
-/

namespace LinkedPool

/-- Values under names. -/
structure Store (β : Type) where
  entries : List (String × β)
deriving Repr, DecidableEq

namespace Store

variable {β : Type}

/-- The store with no names. -/
def empty : Store β := ⟨[]⟩

/-- The value under a name in a list of names in order. -/
def findIn (name : String) : List (String × β) → Option β
  | [] => none
  | (other, value) :: rest => if other = name then some value else findIn name rest

/-- A list of names in order, with `value` under `name`. -/
def putIn (name : String) (value : β) : List (String × β) → List (String × β)
  | [] => [(name, value)]
  | (other, old) :: rest =>
      if other = name then (name, value) :: rest
      else if name < other then (name, value) :: (other, old) :: rest
      else (other, old) :: putIn name value rest

/-- The value under a name. -/
def find? (name : String) (store : Store β) : Option β := findIn name store.entries

/-- The store with `value` under `name`. -/
def put (name : String) (value : β) (store : Store β) : Store β :=
  ⟨putIn name value store.entries⟩

/-- The store without `name`. -/
def erase (name : String) (store : Store β) : Store β :=
  ⟨store.entries.filter fun entry => entry.1 ≠ name⟩

/-- The store with `value` under `name`, unless the name has a value already. -/
def ensure (name : String) (value : β) (store : Store β) : Store β :=
  match store.find? name with
  | some _ => store
  | none => store.put name value

theorem findIn_putIn_self (name : String) (value : β) :
    ∀ entries : List (String × β), findIn name (putIn name value entries) = some value
  | [] => by simp [putIn, findIn]
  | (other, old) :: rest => by
      rw [putIn]
      split
      · simp [findIn]
      · rename_i hne
        split
        · simp [findIn]
        · rw [findIn, if_neg hne, findIn_putIn_self name value rest]

theorem findIn_putIn_of_ne {name name' : String} (h : name ≠ name') (value : β) :
    ∀ entries : List (String × β), findIn name' (putIn name value entries) = findIn name' entries
  | [] => by simp [putIn, findIn, h]
  | (other, old) :: rest => by
      rw [putIn]
      split
      · rename_i heq
        rw [findIn, if_neg h, findIn, if_neg (heq ▸ h)]
      · split
        · rw [findIn, if_neg h]
        · rw [findIn, findIn, findIn_putIn_of_ne h value rest]

/-- What was put under a name is found there. -/
@[simp] theorem find?_put_self (name : String) (value : β) (store : Store β) :
    (store.put name value).find? name = some value :=
  findIn_putIn_self name value store.entries

/-- Putting a value under one name leaves the others as they are. -/
theorem find?_put_of_ne {name name' : String} (h : name ≠ name') (value : β)
    (store : Store β) : (store.put name value).find? name' = store.find? name' :=
  findIn_putIn_of_ne h value store.entries

end Store

end LinkedPool
