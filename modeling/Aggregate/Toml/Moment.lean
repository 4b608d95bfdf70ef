import Aggregate.Toml.Number

/-
  Dates and times

  A moment is a date, a time of day, or a date with a time and possibly its
  distance from universal time. The readers check the ranges of all parts and
  keep none of them: no setting is a moment.
-/

namespace Aggregate.Toml

/-- A number of exactly so many decimal digits, within bounds. -/
def fixedNumber (count low high : Nat) : Reader Nat := fun s =>
  (Reader.counted isDigit count s).bind fun r =>
    let n := numberOf 10 r.1
    if low ≤ n ∧ n ≤ high then some (n, r.2) else none

/-- Whether the year has a day more. -/
def isLeapYear (year : Nat) : Bool :=
  year % 4 == 0 && (year % 100 != 0 || year % 400 == 0)

def daysIn (year month : Nat) : Nat :=
  if month = 2 then if isLeapYear year then 29 else 28
  else if month = 4 ∨ month = 6 ∨ month = 9 ∨ month = 11 then 30
  else 31

def mark (c : Char) : Reader Unit := Reader.exact () [c]

/-- A date: year, month and day. -/
def date : Reader Unit := fun s => do
  let (year, s) ← fixedNumber 4 0 9999 s
  let (_, s) ← mark '-' s
  let (month, s) ← fixedNumber 2 1 12 s
  let (_, s) ← mark '-' s
  let (_, s) ← fixedNumber 2 1 (daysIn year month) s
  return ((), s)

/-- A fraction of a second, of any length. -/
def skipFraction : List Char → List Char
  | '.' :: d :: s => if isDigit d then s.dropWhile isDigit else '.' :: d :: s
  | s => s

/-- A time of day, down to the second or further. -/
def time : Reader Unit := fun s => do
  let (_, s) ← fixedNumber 2 0 23 s
  let (_, s) ← mark ':' s
  let (_, s) ← fixedNumber 2 0 59 s
  let (_, s) ← mark ':' s
  let (_, s) ← fixedNumber 2 0 60 s
  return ((), skipFraction s)

/-- The distance from universal time. -/
def offset : Reader Unit
  | c :: s =>
    if c = 'Z' ∨ c = 'z' then some ((), s)
    else if c = '+' ∨ c = '-' then do
      let (_, s) ← fixedNumber 2 0 23 s
      let (_, s) ← mark ':' s
      let (_, s) ← fixedNumber 2 0 59 s
      return ((), s)
    else none
  | [] => none

/-- What may follow a date: a letter or a blank, a time and an offset. -/
def timeOfDate : Reader Unit
  | c :: s =>
    if c = 'T' ∨ c = 't' ∨ c = ' ' then
      (time s).map fun r => ((), ((offset r.2).map (·.2)).getD r.2)
    else none
  | [] => none

def moment : Reader Unit := fun s =>
  match date s with
  | some (_, rest) => some ((), ((timeOfDate rest).map (·.2)).getD rest)
  | none => time s

end Aggregate.Toml
