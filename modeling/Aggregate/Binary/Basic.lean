import Aggregate.Binary.Format

/-
  Binary floating-point numbers

  A `Binary f` is a number of the format `f` down to its last bit: a sign and a
  code. Zero has two signs and compares equal to itself; codes above infinity
  are no numbers and compare with nothing. Sums are exact sums of units,
  rounded once.
-/

namespace Aggregate

/-- A number of a format: its sign and the code of its magnitude. -/
structure Binary (f : Format) where
  negative : Bool
  code : Nat
  code_lt : code < Nat.pow 2 f.codeBits
  deriving DecidableEq

namespace Binary

variable {f : Format}

/-- The number whose bits, sign first, read as `n`. Bits beyond the format are dropped. -/
def ofBits (f : Format) (n : Nat) : Binary f :=
  ⟨n.testBit f.codeBits, n % Nat.pow 2 f.codeBits, Nat.mod_lt _ (Nat.two_pow_pos _)⟩

/-- The bits of a number, sign first, read as one. -/
def bits (x : Binary f) : Nat :=
  (if x.negative then Nat.pow 2 f.codeBits else 0) + x.code

def ofCode (f : Format) (negative : Bool) (code : Nat) : Binary f :=
  ⟨negative, code % Nat.pow 2 f.codeBits, Nat.mod_lt _ (Nat.two_pow_pos _)⟩

/-- Whether this is no number. -/
def isNaN (x : Binary f) : Bool := decide (f.infinity < x.code)

def isInfinite (x : Binary f) : Bool := x.code == f.infinity

def isFinite (x : Binary f) : Bool := decide (x.code < f.infinity)

def isZero (x : Binary f) : Bool := x.code == 0

/-- The units of the magnitude. -/
def magnitude (x : Binary f) : Nat := f.units x.code

/-- The units of a finite number, with their sign. -/
def units (x : Binary f) : Int :=
  if x.negative then -x.magnitude else x.magnitude

/-- The result of an invalid operation. -/
def nan (f : Format) : Binary f := ofCode f false f.invalid

def infinity (f : Format) (negative : Bool) : Binary f := ofCode f negative f.infinity

/-- The number nearest to `num / den` units. -/
def ofUnits (f : Format) (negative : Bool) (num den : Nat) : Binary f :=
  ofCode f negative (f.round num den)

def ofInt (f : Format) (n : Int) : Binary f :=
  ofUnits f (decide (n < 0)) (n.natAbs * Nat.pow 2 f.unitExponent) 1

/-! ## Order -/

/-- A key in the order of the numbers: infinities lie beyond every finite number. -/
def rank (x : Binary f) : Int := if x.negative then -x.code else x.code

/-- Whether two numbers are equal: what is no number is not equal to itself, and the zeros are
equal. -/
def equal (x y : Binary f) : Bool :=
  !x.isNaN && !y.isNaN && x.rank == y.rank

def less (x y : Binary f) : Bool :=
  !x.isNaN && !y.isNaN && decide (x.rank < y.rank)

def lessEq (x y : Binary f) : Bool :=
  !x.isNaN && !y.isNaN && decide (x.rank ≤ y.rank)

/-! ## Arithmetic -/

/-- The number with its sign dropped. -/
def abs (x : Binary f) : Binary f := { x with negative := false }

/-- The number with its sign turned. -/
def neg (x : Binary f) : Binary f := { x with negative := !x.negative }

/-- The finite number nearest to a sum of units; a sum of zero takes the given sign. -/
def ofSum (f : Format) (zeroNegative : Bool) (sum : Int) : Binary f :=
  if sum = 0 then ofCode f zeroNegative 0 else ofUnits f (decide (sum < 0)) sum.natAbs 1

/-- The sum, rounded once. -/
def add (x y : Binary f) : Binary f :=
  if x.isNaN then x
  else if y.isNaN then y
  else if x.isInfinite then
    if y.isInfinite && x.negative != y.negative then nan f else x
  else if y.isInfinite then y
  else ofSum f (x.negative && y.negative) (x.units + y.units)

/-- The difference, rounded once. -/
def sub (x y : Binary f) : Binary f := x.add y.neg

/-- The nearest number of another format. -/
def convert (g : Format) (x : Binary f) : Binary g :=
  if x.isNaN then ⟨x.negative, (nan g).code, (nan g).code_lt⟩
  else if x.isInfinite then infinity g x.negative
  else ofUnits g x.negative (x.magnitude * Nat.pow 2 g.unitExponent) (Nat.pow 2 f.unitExponent)

end Binary

end Aggregate
