import Aggregate.Toml.Reader
import Aggregate.Decimal.Basic

/-
  Numbers

  A whole number is decimal, with a sign or not and without leading zeros, or
  written in base 16, 8 or 2 behind its prefix; it must lie in the signed 64-bit
  range. A real number has a fraction, a power of ten or both, and is read as
  the double nearest to it; one above the largest double is refused. Digits may
  be separated by single underscores.
-/

namespace Aggregate.Toml

def minInteger : Int := -0x8000000000000000

/-- The greatest whole number of a document. -/
def maxInteger : Int := 0x7fffffffffffffff

def isDigit (c : Char) : Bool := decide ('0' ≤ c) && decide (c ≤ '9')

/-- The value of a digit; letters count on from ten. -/
def digitValue (c : Char) : Nat :=
  if isDigit c then c.toNat - '0'.toNat
  else if 'a' ≤ c then c.toNat - 'a'.toNat + 10
  else c.toNat - 'A'.toNat + 10

/-- The number that digits spell in a base. -/
def numberOf (base : Nat) (ds : List Char) : Nat :=
  ds.foldl (fun n d => base * n + digitValue d) 0

/-- More digits of a kind, each with or without an underscore before it. -/
def moreDigits (kind : Char → Bool) : List Char → List Char × List Char
  | [] => ([], [])
  | ['_'] => ([], ['_'])
  | '_' :: d :: s =>
    if kind d then
      let r := moreDigits kind s
      (d :: r.1, r.2)
    else ([], '_' :: d :: s)
  | d :: s =>
    if kind d then
      let r := moreDigits kind s
      (d :: r.1, r.2)
    else ([], d :: s)

def digits (kind : Char → Bool) : Reader (List Char)
  | d :: s =>
    if kind d then
      let r := moreDigits kind s
      some (d :: r.1, r.2)
    else none
  | [] => none

/-- Whether a number is negative: a sign may stand before it. -/
def sign : List Char → Bool × List Char
  | '+' :: s => (false, s)
  | '-' :: s => (true, s)
  | s => (false, s)

/-- The digits of a decimal number before its point: a zero stands alone. -/
def wholeDigits : Reader (List Char)
  | '0' :: s => some (['0'], s)
  | s => digits isDigit s

/-- A signed number, if it lies in the range of the format. -/
def integer? (negative : Bool) (n : Nat) : Option Int :=
  let value : Int := if negative then -n else n
  if minInteger ≤ value ∧ value ≤ maxInteger then some value else none

/-- The base that a prefix announces, and its digits. -/
def baseOf? : Char → Option (Nat × (Char → Bool))
  | 'x' => some (16, fun c => isDigit c || (decide ('a' ≤ c) && decide (c ≤ 'f')) ||
      (decide ('A' ≤ c) && decide (c ≤ 'F')))
  | 'o' => some (8, fun c => decide ('0' ≤ c) && decide (c ≤ '7'))
  | 'b' => some (2, fun c => c == '0' || c == '1')
  | _ => none

def decimalInteger : Reader Int := fun s =>
  let signed := sign s
  (wholeDigits signed.2).bind fun r =>
    (integer? signed.1 (numberOf 10 r.1)).map (·, r.2)

def integer : Reader Int
  | '0' :: c :: s =>
    match baseOf? c with
    | some (base, kind) =>
      (digits kind s).bind fun r => (integer? false (numberOf base r.1)).map (·, r.2)
    | none => decimalInteger ('0' :: c :: s)
  | s => decimalInteger s

/-- The digits after a point. -/
def fraction : Reader (List Char)
  | '.' :: s => digits isDigit s
  | _ => none

def power : Reader Int
  | c :: s =>
    if c = 'e' ∨ c = 'E' then
      let signed := sign s
      (digits isDigit signed.2).map fun r =>
        (if signed.1 then -(numberOf 10 r.1 : Int) else numberOf 10 r.1, r.2)
    else none
  | [] => none

/-- A fraction, a power of ten, or both. -/
def fractionAndPower : Reader (List Char × Int) := fun s =>
  match fraction s with
  | some (ds, rest) =>
    match power rest with
    | some (e, rest) => some ((ds, e), rest)
    | none => some ((ds, 0), rest)
  | none => (power s).map fun r => (([], r.1), r.2)

/-- A real number written with digits. -/
def digitReal : Reader (Binary .double) := fun s =>
  let signed := sign s
  (wholeDigits signed.2).bind fun whole =>
    (fractionAndPower whole.2).bind fun r =>
      let numeral : Decimal := ⟨numberOf 10 (whole.1 ++ r.1.1), r.1.2 - r.1.1.length⟩
      let x := numeral.toBinary .double signed.1
      if x = .infinity .double false then none else some (x, r.2)

/-- Infinity, or what is no number. -/
def namedReal : Reader (Binary .double) := fun s =>
  let signed := sign s
  (Reader.or (Reader.exact (Binary.infinity .double signed.1) ['i', 'n', 'f'])
    (Reader.exact (⟨signed.1, (Binary.nan .double).code, (Binary.nan .double).code_lt⟩ : Binary .double)
      ['n', 'a', 'n'])) signed.2

def real : Reader (Binary .double) := Reader.or digitReal namedReal

end Aggregate.Toml
