import Aggregate.Decimal.Shortest

/-
  Texts of numbers

  A number is written with the digits of its shortest numeral. A `NumberStyle`
  says which magnitudes are written positionally, what follows a whole number
  and how what is no number is spelled; the three styles of the library are
  values of it.
-/

namespace Aggregate

/-- How numbers are written. Numerals whose place lies in `positional` are written positionally,
all others with a power of ten; `none` writes every numeral positionally. -/
structure NumberStyle where
  positional : Option (Int × Int)
  wholeSuffix : List Char
  notANumber : List Char
  deriving DecidableEq, Repr

namespace NumberStyle

/-- Messages: positional always, whole numbers bare. -/
def plain : NumberStyle := ⟨none, [], "NaN".toList⟩

/-- Documents: positional always, whole numbers with a fraction of zero. -/
def document : NumberStyle := ⟨none, ".0".toList, "nan".toList⟩

/-- Descriptions: positional from a ten-thousandth up to below ten to the sixteenth, whole numbers
with a fraction of zero. -/
def describing : NumberStyle := ⟨some (-3, 16), ".0".toList, "NaN".toList⟩

end NumberStyle

namespace Decimal

/-- Positional digits; `suffix` follows a whole number. -/
def positionalText (suffix : List Char) (d : Decimal) : List Char :=
  let ds := digits d.coefficient
  if d.coefficient = 0 then '0' :: suffix
  else if 0 ≤ d.exponent then ds ++ List.replicate d.exponent.toNat '0' ++ suffix
  else if 0 < d.place then ds.take d.place.toNat ++ '.' :: ds.drop d.place.toNat
  else '0' :: '.' :: (List.replicate (-d.place).toNat '0' ++ ds)

/-- One digit, the others after a point, and the power of ten. -/
def scientificText (d : Decimal) : List Char :=
  let power := (toString (d.place - 1)).toList
  match digits d.coefficient with
  | [] => []
  | [digit] => digit :: 'e' :: power
  | digit :: more => digit :: '.' :: (more ++ 'e' :: power)

def isPositional (style : NumberStyle) (d : Decimal) : Bool :=
  match style.positional with
  | none => true
  | some (low, high) => d.coefficient == 0 || (decide (low ≤ d.place) && decide (d.place ≤ high))

def text (style : NumberStyle) (d : Decimal) : List Char :=
  if d.isPositional style then d.positionalText style.wholeSuffix else d.scientificText

end Decimal

namespace Binary

variable {f : Format}

/-- The characters of a number in a style. -/
def chars (style : NumberStyle) (x : Binary f) : List Char :=
  if x.isNaN then style.notANumber
  else
    (if x.negative then ['-'] else []) ++
      if x.isInfinite then "inf".toList else (Decimal.shortest f x.code).text style

def text (style : NumberStyle) (x : Binary f) : String := String.ofList (x.chars style)

end Binary

end Aggregate
