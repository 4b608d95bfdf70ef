import Aggregate.Decimal.Shortest
import Aggregate.Proofs.Binary.Rounding

/-
  Shortest numerals read back

  Two numerals of one value are read as one code: a zero may move between the
  coefficient and the exponent (`code_mul_ten`). The exact numeral of a finite
  number is read as that number (`code_exact`), and so is its shortest one
  (`code_shortest`), whether a grid of few digits settled it or not.
-/

namespace Aggregate.Decimal

variable {f : Format}

theorem code_of_coefficient_zero {d : Decimal} (h : d.coefficient = 0) : d.code f = 0 := if_pos h

/-! ## Moving a zero -/

theorem digits_mul_ten {c : Nat} (h : 0 < c) : digits (c * 10) = digits c ++ ['0'] := by
  unfold digits
  rw [Nat.toDigits_of_base_le (by decide) (by omega), Nat.mul_div_cancel c (by decide),
    Nat.mul_mod_left]
  rfl

theorem place_mul_ten {c : Nat} (h : 0 < c) (e : Int) : place ⟨c * 10, e⟩ = place ⟨c, e + 1⟩ := by
  unfold place
  rw [digits_mul_ten h, List.length_append]
  simp only [List.length_cons, List.length_nil]
  omega

theorem round_units_mul_ten (f : Format) (c : Nat) (e : Int) :
    f.round (units f ⟨c * 10, e⟩).1 (units f ⟨c * 10, e⟩).2 =
      f.round (units f ⟨c, e + 1⟩).1 (units f ⟨c, e + 1⟩).2 := by
  have hpow (n : Nat) : Nat.pow 10 (n + 1) = Nat.pow 10 n * 10 := rfl
  -- Powers of ten stand above the line from zero on and below it before that.
  by_cases h0 : 0 ≤ e
  · have hsucc : (e + 1).toNat = e.toNat + 1 := by omega
    have hnum : c * 10 * Nat.pow 10 e.toNat = c * Nat.pow 10 (e.toNat + 1) := by
      rw [hpow, Nat.mul_assoc, Nat.mul_comm 10]
    simp only [units, if_pos h0, if_pos (show 0 ≤ e + 1 by omega), hsucc, hnum]
  · have hnum : c * 10 * Nat.pow 2 f.unitExponent = c * Nat.pow 2 f.unitExponent * 10 :=
      Nat.mul_right_comm _ _ _
    by_cases h1 : e = -1
    · subst h1
      have hscale := f.round_mul_mul (c * Nat.pow 2 f.unitExponent) 1 (show 0 < 10 by decide)
      rw [← hnum] at hscale
      simpa [units] using hscale
    · have hneg : (-e).toNat = (-(e + 1)).toNat + 1 := by omega
      simp only [units, if_neg h0, if_neg (show ¬0 ≤ e + 1 by omega), hnum, hneg, hpow]
      exact f.round_mul_mul _ _ (by decide)

theorem code_mul_ten (f : Format) (c : Nat) (e : Int) : code f ⟨c * 10, e⟩ = code f ⟨c, e + 1⟩ := by
  rcases Nat.eq_zero_or_pos c with rfl | hc
  · simp [code]
  · have hc0 : c ≠ 0 := Nat.ne_of_gt hc
    have hc10 : c * 10 ≠ 0 := by omega
    simp only [code, if_neg hc0, if_neg hc10, place_mul_ten hc, round_units_mul_ten]

/-- Zeros at the end of a coefficient count as so many powers of ten. -/
theorem code_mul_pow (f : Format) (c n : Nat) (e : Int) :
    code f ⟨c * Nat.pow 10 n, e⟩ = code f ⟨c, e + n⟩ := by
  induction n generalizing e with
  | zero => simp
  | succ n ih =>
    have hpow : c * Nat.pow 10 (n + 1) = c * Nat.pow 10 n * 10 := (Nat.mul_assoc _ _ _).symm
    rw [hpow, code_mul_ten, ih]
    congr 2
    omega

/-! ## Exact numerals -/

theorem coefficient_exact (f : Format) (code : Nat) :
    (exact f code).coefficient = f.units code * Nat.pow 5 f.unitExponent := rfl

theorem exponent_exact (f : Format) (code : Nat) :
    (exact f code).exponent = -(f.unitExponent : Int) := rfl

theorem round_units_exact {code : Nat} (h : code < f.infinity) :
    f.round ((exact f code).units f).1 ((exact f code).units f).2 = code := by
  have hpow : Nat.pow 5 f.unitExponent * Nat.pow 2 f.unitExponent = Nat.pow 10 f.unitExponent :=
    (Nat.mul_pow 5 2 _).symm
  by_cases h0 : f.unitExponent = 0
  · simpa [units, exact, h0] using Format.round_units h
  · have hneg : ¬(0 : Int) ≤ -f.unitExponent := by omega
    have hexp : (-(-(f.unitExponent : Int))).toNat = f.unitExponent := by omega
    have hscale := f.round_mul_mul (f.units code) 1 (show 0 < Nat.pow 10 f.unitExponent from Nat.pow_pos (by decide))
    rw [Nat.one_mul, Format.round_units h] at hscale
    simp only [units, exact, if_neg hneg, hexp, Nat.mul_assoc, hpow]
    exact hscale

theorem place_exact_le (hf : f.Wide) {code : Nat} (h : code < f.infinity) :
    (exact f code).place ≤ reach f := by
  have hlt : f.units code * Nat.pow 5 f.unitExponent <
      Nat.pow 10 (Nat.pow 2 (f.exponentBits - 1) + f.unitExponent) := by
    calc f.units code * Nat.pow 5 f.unitExponent
        < Nat.pow 2 (Nat.pow 2 (f.exponentBits - 1) + f.unitExponent) * Nat.pow 5 f.unitExponent :=
          Nat.mul_lt_mul_of_pos_right (hf.units_lt h) (Nat.pow_pos (by decide))
      _ ≤ Nat.pow 2 (Nat.pow 2 (f.exponentBits - 1) + f.unitExponent) *
            Nat.pow 5 (Nat.pow 2 (f.exponentBits - 1) + f.unitExponent) :=
          Nat.mul_le_mul_left _ (Nat.pow_le_pow_right (by decide) (Nat.le_add_left _ _))
      _ = Nat.pow 10 (Nat.pow 2 (f.exponentBits - 1) + f.unitExponent) := (Nat.mul_pow 2 5 _).symm
  have hhalf := hf.two_le_half
  have hlength : (digits (f.units code * Nat.pow 5 f.unitExponent)).length ≤
      Nat.pow 2 (f.exponentBits - 1) + f.unitExponent :=
    (Nat.length_toDigits_le_iff (by decide) (by omega)).mpr hlt
  have hreach : reach f = 2 * Nat.pow 2 (f.exponentBits - 1) := hf.pow_exponentBits
  unfold place
  rw [coefficient_exact, exponent_exact, hreach]
  omega

theorem le_place_exact (hf : f.Wide) (code : Nat) : -(reach f : Int) ≤ (exact f code).place := by
  have hunit : f.unitExponent ≤ reach f := hf.unitExponent_le
  unfold place
  rw [exponent_exact]
  omega

theorem code_exact (hf : f.Wide) {code : Nat} (h : code < f.infinity) :
    (exact f code).code f = code := by
  by_cases h0 : (exact f code).coefficient = 0
  · have hpow : Nat.pow 5 f.unitExponent ≠ 0 := Nat.ne_of_gt (Nat.pow_pos (by decide))
    have hunits : f.units code = 0 := (Nat.mul_eq_zero.mp h0).resolve_right hpow
    rw [code_of_coefficient_zero h0]
    exact (Format.units_eq_zero.mp hunits).symm
  · unfold Decimal.code
    rw [if_neg h0, if_neg (Int.not_lt.mpr (le_place_exact hf code)),
      if_neg (Int.not_lt.mpr (place_exact_le hf h))]
    exact round_units_exact h

/-! ## Shortest numerals -/

theorem code_trim (f : Format) (n : Nat) (d : Decimal) : (trim n d).code f = d.code f := by
  induction n generalizing d with
  | zero => rfl
  | succ n ih =>
    unfold trim
    split
    · next h0 =>
      have hcoefficient : d.coefficient / 10 * 10 = d.coefficient :=
        Nat.div_mul_cancel (Nat.dvd_of_mod_eq_zero h0)
      rw [ih, ← code_mul_ten, hcoefficient]
    · rfl

theorem code_dropping {code drop : Nat} {d e : Decimal} (h : dropping? f code d drop = some e) :
    e.code f = code := by
  have hfound := List.find?_some h
  exact eq_of_beq hfound

/-- The shortest numeral of a finite number is read as that number. -/
theorem code_shortest (hf : f.Wide) {code : Nat} (h : code < f.infinity) :
    (shortest f code).code f = code := by
  unfold shortest
  rw [code_trim]
  -- Either some grid settled the number, or the exact numeral stands.
  cases hfound : (List.range' 1 (maxDigits f)).findSome? fun count =>
      dropping? f code (exact f code) ((digits (exact f code).coefficient).length - count) with
  | none => exact code_exact hf h
  | some d =>
    obtain ⟨count, -, hcount⟩ := List.exists_of_findSome?_eq_some hfound
    exact code_dropping hcount

end Aggregate.Decimal
