import Aggregate.Proofs.Decimal.Positional

/-
  Reading numbers back

  The digits of a number within the range of documents are read as that number
  (`integer_digits`), and the text of a double as that double, down to the last
  bit (`real_chars`). What is no number has one text, so its bits are lost:
  `Binary.canonical` is what remains of a double. A sign and digits alone are no
  real number (`real_signed`), so they are left to the reader of whole numbers.
-/

namespace Aggregate

/-! ## Doubles -/

/-- A number as its text tells it: all that is no number has one text. -/
def Binary.canonical {f : Format} (x : Binary f) : Binary f :=
  if x.isNaN then .nan f else x

theorem Binary.ofCode_code {f : Format} (x : Binary f) : Binary.ofCode f x.negative x.code = x := by
  unfold Binary.ofCode
  congr 1
  exact Nat.mod_eq_of_lt x.code_lt

namespace Toml

open Decimal (Parts)

variable {rest : List Char}

/-! ## Signs -/

/-- The sign that a text of a number starts with. -/
def signChars (negative : Bool) : List Char := if negative then ['-'] else []

theorem sign_append (negative : Bool) {c : Char} {s : List Char} (hp : c ≠ '+') (hm : c ≠ '-') :
    sign (signChars negative ++ c :: s) = (negative, c :: s) := by
  cases negative with
  | true => rfl
  | false =>
    show sign (c :: s) = (false, c :: s)
    unfold sign
    split <;> simp_all

theorem sign_digits {ds s : List Char} (negative : Bool) (hds : AllDigits ds) (hne : ds ≠ []) :
    sign (signChars negative ++ (ds ++ s)) = (negative, ds ++ s) := by
  obtain ⟨d, more, rfl, hd⟩ := hds.exists_cons hne
  exact sign_append negative (ne_of_kind hd rfl) (ne_of_kind hd rfl)

/-! ## Whole numbers -/

theorem wholeDigits_none {c : Char} {s : List Char} (hc : isDigit c = false) :
    wholeDigits (c :: s) = none := by
  unfold wholeDigits
  split
  · next h =>
    cases h
    exact absurd hc (by decide)
  · exact if_neg (by simp [hc])

theorem integer?_ofNat {n : Nat} (h : (n : Int) ≤ maxInteger) : integer? false n = some (n : Int) := by
  have hmin : minInteger ≤ (n : Int) := by
    unfold minInteger
    omega
  exact if_pos ⟨hmin, h⟩

theorem decimalInteger_signed {negative : Bool} {n : Nat} {v : Int}
    (h : integer? negative n = some v) :
    decimalInteger (signChars negative ++ (Decimal.digits n ++ '\n' :: rest)) =
      some (v, '\n' :: rest) := by
  have hsign := sign_digits (s := '\n' :: rest) negative (allDigits_digits n)
    (Decimal.digits_ne_nil n)
  unfold decimalInteger
  simp only [hsign, wholeDigits_append (whole_digits n) endsDigits_newline, Option.bind_some,
    numberOf_digits, h, Option.map_some]

/-- The digits of a number are read as that number. -/
theorem integer_digits {n : Nat} (h : (n : Int) ≤ maxInteger) :
    integer (Decimal.digits n ++ '\n' :: rest) = some ((n : Int), '\n' :: rest) := by
  have hdecimal : decimalInteger (Decimal.digits n ++ '\n' :: rest) = some ((n : Int), '\n' :: rest) :=
    decimalInteger_signed (integer?_ofNat h)
  -- Behind a zero comes the line end, which announces no base.
  rcases Nat.eq_zero_or_pos n with rfl | hn
  · exact hdecimal
  · obtain ⟨d, ds, hds, hd⟩ := Decimal.digits_eq_cons hn
    rw [hds, List.cons_append] at hdecimal ⊢
    -- A base prefix starts with a zero, and these digits do not.
    unfold integer
    split
    · next h0 => exact absurd (List.cons.inj h0).1 hd
    · exact hdecimal

/-! ## Real numbers -/

theorem fractionAndPower_append {ds : List Char} (hds : AllDigits ds) (hne : ds ≠ []) :
    fractionAndPower ('.' :: (ds ++ '\n' :: rest)) = some ((ds, 0), '\n' :: rest) := by
  have hfraction : fraction ('.' :: (ds ++ '\n' :: rest)) = some (ds, '\n' :: rest) :=
    digits_append hne hds endsDigits_newline
  have hpower : power ('\n' :: rest) = none := by
    rw [power, if_neg (by decide)]
  unfold fractionAndPower
  simp only [hfraction, hpower]

theorem ofCode_ne_infinity {f : Format} {negative : Bool} {code : Nat} (h : code < f.infinity) :
    Binary.ofCode f negative code ≠ .infinity f false := by
  have hlt := f.infinity_lt
  intro heq
  have hcode := congrArg Binary.code heq
  simp only [Binary.ofCode, Binary.infinity, Nat.mod_eq_of_lt hlt,
    Nat.mod_eq_of_lt (Nat.lt_trans h hlt)] at hcode
  omega

/-- Digits around a point are read as the number they denote. -/
theorem digitReal_parts {code : Nat} {whole fraction : List Char} (negative : Bool)
    (hparts : Parts .double code whole fraction) (hcode : code < Format.double.infinity) :
    digitReal (signChars negative ++ (whole ++ '.' :: (fraction ++ '\n' :: rest))) =
      some (.ofCode .double negative code, '\n' :: rest) := by
  have hsign := sign_digits (s := '.' :: (fraction ++ '\n' :: rest)) negative
    hparts.isWhole.digits hparts.isWhole.ne_nil
  have hexponent : (0 : Int) - fraction.length = -fraction.length := Int.zero_sub _
  have hbinary : (Decimal.ofParts whole fraction).toBinary .double negative =
      .ofCode .double negative code := by
    unfold Decimal.toBinary
    rw [hparts.code_eq]
  unfold digitReal
  simp only [hsign, wholeDigits_append hparts.isWhole endsDigits_point, Option.bind_some,
    fractionAndPower_append hparts.allDigits hparts.ne_nil, hexponent]
  simp only [Decimal.ofParts] at hbinary
  rw [hbinary, if_neg (ofCode_ne_infinity hcode)]

theorem digitReal_none {c : Char} {s : List Char} (negative : Bool) (hp : c ≠ '+') (hm : c ≠ '-')
    (hc : isDigit c = false) : digitReal (signChars negative ++ c :: s) = none := by
  unfold digitReal
  simp only [sign_append negative hp hm, wholeDigits_none hc, Option.bind_none]

theorem exact_none {α : Type} {value : α} {c d : Char} {expected s : List Char} (h : c ≠ d) :
    Reader.exact value (c :: expected) (d :: s) = none := by
  refine if_neg ?_
  simp [List.isPrefixOf, h]

/-- Neither infinity nor what is no number is written with a digit in front. -/
theorem namedReal_none {ds s : List Char} (negative : Bool) (hds : AllDigits ds) (hne : ds ≠ []) :
    namedReal (signChars negative ++ (ds ++ s)) = none := by
  have hsign := sign_digits (s := s) negative hds hne
  obtain ⟨d, more, rfl, hd⟩ := hds.exists_cons hne
  have hi : 'i' ≠ d := (ne_of_kind hd rfl).symm
  have hn : 'n' ≠ d := (ne_of_kind hd rfl).symm
  rw [List.cons_append] at hsign ⊢
  unfold namedReal Reader.or
  simp only [hsign, exact_none hi, exact_none hn, Option.or_none]

/-- A sign and digits alone are no real number. -/
theorem real_signed (negative : Bool) (n : Nat) :
    real (signChars negative ++ (Decimal.digits n ++ '\n' :: rest)) = none := by
  have hall := allDigits_digits n
  have hne := Decimal.digits_ne_nil n
  have hsign := sign_digits (s := '\n' :: rest) negative hall hne
  have hnamed := namedReal_none (s := '\n' :: rest) negative hall hne
  have hfraction : fractionAndPower ('\n' :: rest) = none := by
    have hpower : power ('\n' :: rest) = none := by
      rw [power, if_neg (by decide)]
    have hpoint : fraction ('\n' :: rest) = none := rfl
    unfold fractionAndPower
    simp only [hpoint, hpower, Option.map_none]
  unfold real Reader.or digitReal
  simp only [hsign, wholeDigits_append (whole_digits n) endsDigits_newline, Option.bind_some,
    hfraction, Option.bind_none, hnamed, Option.or_none]

theorem real_digits (n : Nat) : real (Decimal.digits n ++ '\n' :: rest) = none :=
  real_signed false n

/-! ## Texts of doubles -/

/-- The forms that the text of a double takes. -/
inductive Spelling (x : Binary .double) : List Char → Prop where
  | noNumber (h : x.isNaN = true) : Spelling x ['n', 'a', 'n']
  | infinite (h : x.code = Format.double.infinity) :
    Spelling x (signChars x.negative ++ ['i', 'n', 'f'])
  | finite (h : x.code < Format.double.infinity) {whole fraction : List Char}
    (parts : Parts .double x.code whole fraction) :
    Spelling x (signChars x.negative ++ (whole ++ '.' :: fraction))

theorem text_document (d : Decimal) :
    d.text .document = d.positionalText NumberStyle.document.wholeSuffix := rfl

theorem spelling_chars (x : Binary .double) : Spelling x (x.chars .document) := by
  unfold Binary.chars
  by_cases hnan : x.isNaN = true
  · rw [if_pos hnan]
    exact .noNumber hnan
  · rw [if_neg hnan]
    have hle : x.code ≤ Format.double.infinity := by
      simpa [Binary.isNaN] using hnan
    by_cases hinf : x.isInfinite = true
    · rw [if_pos hinf]
      exact .infinite (eq_of_beq hinf)
    · rw [if_neg hinf]
      have hlt : x.code < Format.double.infinity :=
        Nat.lt_of_le_of_ne hle (fun h => hinf (beq_iff_eq.mpr h))
      obtain ⟨whole, fraction, htext, hparts⟩ :=
        Decimal.positionalText_parts .double (Decimal.shortest .double x.code)
      rw [Decimal.code_shortest Format.wide_double hlt] at hparts
      rw [text_document, htext]
      exact .finite hlt hparts

theorem canonical_of_le {x : Binary .double} (h : x.code ≤ Format.double.infinity) :
    x.canonical = x := by
  refine if_neg ?_
  simpa [Binary.isNaN] using h

theorem namedReal_inf (negative : Bool) :
    namedReal (signChars negative ++ ['i', 'n', 'f'] ++ '\n' :: rest) =
      some (.infinity .double negative, '\n' :: rest) := by
  cases negative <;> rfl

theorem real_spelling {x : Binary .double} {cs : List Char} (h : Spelling x cs) :
    real (cs ++ '\n' :: rest) = some (x.canonical, '\n' :: rest) := by
  unfold real Reader.or
  cases h with
  | noNumber h =>
    have hdigits : digitReal ('n' :: 'a' :: 'n' :: '\n' :: rest) = none :=
      digitReal_none false (by decide) (by decide) rfl
    have hcanonical : x.canonical = .nan .double := if_pos h
    rw [hcanonical]
    simp only [List.cons_append, List.nil_append, hdigits, Option.none_or]
    rfl
  | infinite h =>
    have hdigits : digitReal (signChars x.negative ++ ['i', 'n', 'f'] ++ '\n' :: rest) = none := by
      rw [List.append_assoc]
      exact digitReal_none x.negative (by decide) (by decide) rfl
    have hx : Binary.infinity .double x.negative = x := by
      unfold Binary.infinity
      rw [← h, Binary.ofCode_code]
    rw [hdigits, Option.none_or, namedReal_inf, hx, canonical_of_le (Nat.le_of_eq h)]
  | @finite h whole fraction hparts =>
    have hdigits : digitReal (signChars x.negative ++ (whole ++ '.' :: (fraction ++ '\n' :: rest))) =
        some (.ofCode .double x.negative x.code, '\n' :: rest) :=
      digitReal_parts x.negative hparts h
    rw [Binary.ofCode_code] at hdigits
    rw [List.append_assoc, List.append_assoc, List.cons_append, hdigits, Option.some_or,
      canonical_of_le (Nat.le_of_lt h)]

/-- The text of a double is read as that double. -/
theorem real_chars (x : Binary .double) :
    real (x.chars .document ++ '\n' :: rest) = some (x.canonical, '\n' :: rest) :=
  real_spelling (spelling_chars x)

end Toml

end Aggregate
