import Aggregate.Binary.Basic

/-
  Decimal numerals

  A `Decimal` is a numeral `coefficient * 10 ^ exponent`. It is read as the
  binary number nearest to it. Numerals far outside the reach of a format are
  decided by the place of their leading digit, so that reading one costs no
  more than its length suggests.
-/

namespace Aggregate

/-- The magnitude `coefficient * 10 ^ exponent`. -/
structure Decimal where
  coefficient : Nat
  exponent : Int
  deriving DecidableEq, Repr

namespace Decimal

def digits (n : Nat) : List Char := Nat.toDigits 10 n

/-- The power of ten just above the leading digit. -/
def place (d : Decimal) : Int := (digits d.coefficient).length + d.exponent

/-- The number of units of a format that the numeral denotes, as a quotient. -/
def units (f : Format) (d : Decimal) : Nat × Nat :=
  if 0 ≤ d.exponent then (d.coefficient * Nat.pow 10 d.exponent.toNat * Nat.pow 2 f.unitExponent, 1)
  else (d.coefficient * Nat.pow 2 f.unitExponent, Nat.pow 10 (-d.exponent).toNat)

/-- A power of ten beyond which every number of the format overflows, and whose reciprocal is
nearer to zero than to any other number. -/
def reach (f : Format) : Nat := Nat.pow 2 f.exponentBits

/-- The code of the number nearest to the numeral. -/
def code (f : Format) (d : Decimal) : Nat :=
  if d.coefficient = 0 then 0
  else if d.place < -(reach f : Int) then 0
  else if (reach f : Int) < d.place then f.infinity
  else f.round (d.units f).1 (d.units f).2

/-- The number nearest to the numeral, with a sign. -/
def toBinary (f : Format) (negative : Bool) (d : Decimal) : Binary f :=
  .ofCode f negative (d.code f)

end Decimal

end Aggregate
