import Aggregate.Decimal.Basic

/-
  The shortest numeral of a number

  `shortest f code` is the numeral with the fewest digits that reads back as
  the number with that code, and of those the nearest to it; of two equally
  near ones the larger. It is found by trying the two neighbours of the number
  on the decimal grids of 1, 2, 3, ... digits. A number that no grid tried
  settles keeps its exact numeral, which every finite number has.
-/

namespace Aggregate

namespace Decimal

/-- The exact numeral of a finite number: a unit is a negative power of two, so a power of five
makes it a negative power of ten. -/
def exact (f : Format) (code : Nat) : Decimal :=
  ⟨f.units code * Nat.pow 5 f.unitExponent, -f.unitExponent⟩

/-- The neighbours of a number on a decimal grid: the one below, how far above it the number lies,
and the step of the grid. -/
structure Neighbours where
  below : Nat
  remainder : Nat
  step : Nat
  deriving DecidableEq, Repr

/-- The neighbours of a coefficient when its last `drop` digits are dropped. -/
def neighbours (coefficient drop : Nat) : Neighbours :=
  ⟨coefficient / Nat.pow 10 drop, coefficient % Nat.pow 10 drop, Nat.pow 10 drop⟩

/-- The neighbours, the nearer one first; of two equally near ones the one above. -/
def Neighbours.nearestFirst (n : Neighbours) : List Nat :=
  if 2 * n.remainder < n.step then [n.below, n.below + 1] else [n.below + 1, n.below]

/-- The nearest of the numerals that reads back as the number with the given code, when the last
`drop` digits of its exact numeral are dropped. -/
def dropping? (f : Format) (code : Nat) (exact : Decimal) (drop : Nat) : Option Decimal :=
  (neighbours exact.coefficient drop).nearestFirst.map
      (fun c => (⟨c, exact.exponent + drop⟩ : Decimal))
    |>.find? (fun d => d.code f == code)

/-- A numeral without trailing zeros in its coefficient, as far as the given number of them. -/
def trim : Nat → Decimal → Decimal
  | 0, d => d
  | n + 1, d =>
    if d.coefficient % 10 = 0 then trim n ⟨d.coefficient / 10, d.exponent + 1⟩ else d

/-- The most digits that a number of the format needs. -/
def maxDigits (f : Format) : Nat := (f.fractionBits + 1) * 30103 / 100000 + 2

/-- The shortest numeral that reads back as the finite number with the given code. -/
def shortest (f : Format) (code : Nat) : Decimal :=
  let d := exact f code
  let length := (digits d.coefficient).length
  let found := ((List.range' 1 (maxDigits f)).findSome? fun count =>
    dropping? f code d (length - count)).getD d
  trim (digits found.coefficient).length found

end Decimal

end Aggregate
