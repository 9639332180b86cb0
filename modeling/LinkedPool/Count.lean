import LinkedPool.Panic

/-!
# Counts

Lengths and numbers of slots are 64-bit counts. Adding to one and
subtracting from one are partial: a result outside the range is a panic,
never a wrapped number.
-/

namespace LinkedPool.Count

/-- The least number that is no count: the 64th power of two. -/
def limit : Nat := 18446744073709551616

/-- The difference of two counts. -/
def minus (a b : Nat) : Except Panic Nat :=
  if b ≤ a then .ok (a - b) else .error .subtractOverflow

/-- The count after `a`. -/
def succ (a : Nat) : Except Panic Nat :=
  if a + 1 < limit then .ok (a + 1) else .error .addOverflow

theorem minus_of_le {a b : Nat} (h : b ≤ a) : minus a b = .ok (a - b) := if_pos h

theorem succ_of_lt {a : Nat} (h : a + 1 < limit) : succ a = .ok (a + 1) := if_pos h

end LinkedPool.Count
