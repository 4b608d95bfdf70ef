import Aggregate.Proofs.Toml.Lines

/-
  Blank lines, comments and numbers of either sign

  A line of blanks and a comment are read as nothing (`line_blank`,
  `line_comment`), with a carriage return before the line end or without. A
  whole number in range is read back, also behind a minus sign
  (`writes_integer`).
-/

namespace Aggregate.Toml

variable {rest : List Char}

/-! ## Lines that say nothing -/

/-- The end of a line, with a carriage return or without. -/
def lineBreak (carriage : Bool) : List Char := if carriage then ['\r', '\n'] else ['\n']

theorem newline?_lineBreak (carriage : Bool) (rest : List Char) :
    newline? (lineBreak carriage ++ rest) = some rest := by
  cases carriage <;> rfl

theorem lineBreak_eq_cons (carriage : Bool) :
    ∃ c more, lineBreak carriage = c :: more ∧ isBlank c = false ∧ isPrintable c = false ∧
      c ≠ '#' := by
  cases carriage with
  | true => exact ⟨'\r', ['\n'], rfl, rfl, rfl, by decide⟩
  | false => exact ⟨'\n', [], rfl, rfl, rfl, by decide⟩

theorem skipBlanks_append {indent s : List Char} (h : ∀ c ∈ indent, isBlank c = true) :
    skipBlanks (indent ++ s) = skipBlanks s := List.dropWhile_append_of_pos h

theorem lineEnd?_of_skip {s : List Char} (carriage : Bool)
    (h : skipComment (skipBlanks s) = lineBreak carriage ++ rest) : lineEnd? s = some rest := by
  obtain ⟨c, more, hbreak, -, -, -⟩ := lineBreak_eq_cons carriage
  have hnewline := newline?_lineBreak carriage rest
  unfold lineEnd?
  rw [h]
  split
  · next hnil =>
    rw [hbreak] at hnil
    cases hnil
  · exact hnewline

theorem line_of_lineEnd? {s : List Char} (h : lineEnd? s = some rest) :
    line s = some (.blank, rest) := by
  unfold line
  rw [h]

theorem line_blank {indent : List Char} (hindent : ∀ c ∈ indent, isBlank c = true)
    (carriage : Bool) (rest : List Char) :
    line (indent ++ lineBreak carriage ++ rest) = some (.blank, rest) := by
  refine line_of_lineEnd? (lineEnd?_of_skip carriage ?_)
  obtain ⟨c, more, hbreak, hblank, -, hhash⟩ := lineBreak_eq_cons carriage
  rw [List.append_assoc, skipBlanks_append hindent, hbreak, List.cons_append,
    skipBlanks_cons hblank]
  unfold skipComment
  split
  · next h => exact absurd (List.cons.inj h).1 hhash
  · rfl

/-- A comment says nothing, whatever it says. -/
theorem line_comment {indent text : List Char} (hindent : ∀ c ∈ indent, isBlank c = true)
    (htext : ∀ c ∈ text, isPrintable c = true) (carriage : Bool) (rest : List Char) :
    line (indent ++ '#' :: (text ++ lineBreak carriage) ++ rest) = some (.blank, rest) := by
  refine line_of_lineEnd? (lineEnd?_of_skip carriage ?_)
  obtain ⟨c, more, hbreak, -, hprintable, -⟩ := lineBreak_eq_cons carriage
  have hskip : (text ++ (lineBreak carriage ++ rest)).dropWhile isPrintable =
      lineBreak carriage ++ rest := by
    rw [List.dropWhile_append_of_pos htext, hbreak, List.cons_append,
      List.dropWhile_cons_of_neg (by simp [hprintable])]
  rw [List.append_assoc, skipBlanks_append hindent, List.cons_append, List.append_assoc,
    skipBlanks_cons rfl]
  exact hskip

/-! ## Whole numbers of either sign -/

/-- A whole number with its sign and its decimal digits. -/
def integerChars (n : Int) : List Char := signChars (decide (n < 0)) ++ Decimal.digits n.natAbs

theorem integer?_natAbs {n : Int} (hlow : minInteger ≤ n) (hhigh : n ≤ maxInteger) :
    integer? (decide (n < 0)) n.natAbs = some n := by
  have hvalue : (if decide (n < 0) = true then -(n.natAbs : Int) else (n.natAbs : Int)) = n := by
    simp only [decide_eq_true_eq]
    split <;> omega
  unfold integer?
  simp only [hvalue]
  exact if_pos ⟨hlow, hhigh⟩

/-- A whole number in range is read back. -/
theorem writes_integer {n : Int} (hlow : minInteger ≤ n) (hhigh : n ≤ maxInteger) :
    Writes (integerChars n) (.integer n) := by
  rcases Int.lt_or_le n 0 with hneg | hpos
  · have hchars : integerChars n = '-' :: Decimal.digits n.natAbs := by
      unfold integerChars
      rw [decide_eq_true hneg]
      rfl
    have hinteger := integer?_natAbs hlow hhigh
    rw [decide_eq_true hneg] at hinteger
    rw [hchars]
    refine ⟨⟨_, _, rfl, rfl⟩, fun rest => ?_⟩
    have hbare : Bare ('-' :: (Decimal.digits n.natAbs ++ '\n' :: rest)) :=
      bare_of_head rfl (by decide) (by decide)
    have hreal : real ('-' :: (Decimal.digits n.natAbs ++ '\n' :: rest)) = none :=
      real_signed true n.natAbs
    have hread : integer ('-' :: (Decimal.digits n.natAbs ++ '\n' :: rest)) =
        some (n, '\n' :: rest) := decimalInteger_signed hinteger
    rw [List.cons_append, scalar_bare hbare]
    unfold Reader.map
    simp only [hreal, hread, Option.map_none, Option.map_some, Option.none_or, Option.some_or]
  · obtain ⟨m, rfl⟩ := Int.eq_ofNat_of_zero_le hpos
    exact writes_digits hhigh

end Aggregate.Toml
