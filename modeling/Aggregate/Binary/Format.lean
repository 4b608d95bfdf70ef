/-
  Binary floating-point formats

  A format fixes how many bits the fraction and the exponent of a number take.
  Every finite magnitude of a format is a whole multiple of its least positive
  one, its *unit*, so magnitudes are compared, added and rounded as natural
  numbers of units.

  A magnitude is written as a code, the bits of exponent and fraction read as
  one number. Codes are in the order of the magnitudes they stand for: first
  the finite ones, then infinity, then the codes that are no number.
-/

namespace Aggregate

/-- Bits of the fraction and of the exponent of a number. -/
structure Format where
  fractionBits : Nat
  exponentBits : Nat
  deriving DecidableEq, Repr

namespace Format

def single : Format := ⟨23, 8⟩

def double : Format := ⟨52, 11⟩

variable (f : Format)

/-- Bits of a code. -/
def codeBits : Nat := f.exponentBits + f.fractionBits

/-- The code of infinity: every bit of the exponent set, and none of the fraction. -/
def infinity : Nat := (Nat.pow 2 f.exponentBits - 1) * Nat.pow 2 f.fractionBits

/-- The code that stands for an invalid result. -/
def invalid : Nat := f.infinity + Nat.pow 2 (f.fractionBits - 1)

/-- The number of units, as a power of two, that make up one. -/
def unitExponent : Nat := Nat.pow 2 (f.exponentBits - 1) - 2 + f.fractionBits

/-- The units of a finite magnitude. Codes with exponent zero are multiples of one unit; each
further exponent adds the hidden bit and doubles the step. -/
def units (code : Nat) : Nat :=
  let exponent := code / Nat.pow 2 f.fractionBits
  let fraction := code % Nat.pow 2 f.fractionBits
  if exponent = 0 then fraction else (Nat.pow 2 f.fractionBits + fraction) * Nat.pow 2 (exponent - 1)

/-- The quotient rounded to the nearest whole number, a tie to the even one. -/
def roundDiv (num den : Nat) : Nat :=
  let q := num / den
  let twice := 2 * (num % den)
  if twice < den ∨ (twice = den ∧ q % 2 = 0) then q else q + 1

/-- The exponent of the step that a magnitude of `num / den` units is rounded to: the magnitude
has at most one bit more than the fraction when counted in such steps. -/
def stepExponent (num den : Nat) : Nat := (num / den).log2 - f.fractionBits

/-- The code of `num / den` units rounded to nearest, a tie to the even code. A magnitude that
rounds beyond the finite ones is infinity. -/
def round (num den : Nat) : Nat :=
  let e := f.stepExponent num den
  min (e * Nat.pow 2 f.fractionBits + roundDiv num (den * Nat.pow 2 e)) f.infinity

end Format

end Aggregate
