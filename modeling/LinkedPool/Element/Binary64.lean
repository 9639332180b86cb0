import LinkedPool.Element.Plain

/-!
# Floating-point numbers as elements

A floating-point number is kept as its 64 bits, so that what comes out of
a list is bit for bit what went in. Equality is that of the numbers, not
of the bits: the two zeros are equal, and what is not a number equals
nothing, not even itself.
-/

namespace LinkedPool

/-- A double-precision number by its bits. -/
structure Binary64 where
  bits : UInt64
deriving Repr, DecidableEq

namespace Binary64

/-- The bits without the sign. -/
def magnitude (x : Binary64) : UInt64 := x.bits &&& 0x7fffffffffffffff

/-- All bits of the exponent are set, and some bit below. -/
def isNaN (x : Binary64) : Bool := 0x7ff0000000000000 < x.magnitude

def isZero (x : Binary64) : Bool := x.magnitude == 0

/-- Equality of the numbers. -/
def same (x y : Binary64) : Bool :=
  !x.isNaN && !y.isNaN && (x.bits == y.bits || (x.isZero && y.isZero))

instance : Element Binary64 := .plain (.ofWords 0 1) same

/-- A hexadecimal digit, in lower case. -/
def hexDigit (n : Nat) : Char :=
  if n < 10 then Char.ofNat ('0'.toNat + n) else Char.ofNat ('a'.toNat + (n - 10))

/-- The value of a hexadecimal digit in lower case. -/
def hexValue? (c : Char) : Option Nat :=
  if '0' ≤ c ∧ c ≤ '9' then some (c.toNat - '0'.toNat)
  else if 'a' ≤ c ∧ c ≤ 'f' then some (c.toNat - 'a'.toNat + 10)
  else none

/-- The bits in sixteen hexadecimal digits. -/
def toHex (x : Binary64) : String :=
  String.ofList ((List.range 16).map fun i => hexDigit ((x.bits.toNat >>> (4 * (15 - i))) % 16))

/-- The number with these bits, given in sixteen hexadecimal digits. -/
def ofHex? (text : String) : Option Binary64 := do
  let digits ← text.toList.mapM hexValue?
  guard (digits.length = 16)
  return ⟨UInt64.ofNat (digits.foldl (fun n digit => 16 * n + digit) 0)⟩

instance : Described Binary64 where
  document x := .atom x.toHex

end Binary64

end LinkedPool
