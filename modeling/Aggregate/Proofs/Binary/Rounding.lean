import Aggregate.Binary.Format

/-
  Rounding of exact magnitudes

  A magnitude that a format can hold is rounded to its own code
  (`round_units`), and rounding looks at the quotient only, so a factor common
  to numerator and denominator does not matter (`round_mul_mul`). Together they
  say that a numeral denoting a finite magnitude exactly is read as its code.
-/

namespace Aggregate.Format

variable {f : Format}

/-! ## Quotients -/

theorem roundDiv_mul_mul (num den : Nat) {k : Nat} (hk : 0 < k) :
    roundDiv (num * k) (den * k) = roundDiv num den := by
  have hq : num * k / (den * k) = num / den := Nat.mul_div_mul_right num den hk
  have hr : num * k % (den * k) = num % den * k := Nat.mul_mod_mul_right k num den
  have hassoc : 2 * (num % den * k) = 2 * (num % den) * k := (Nat.mul_assoc _ _ _).symm
  have hlt : 2 * (num % den) * k < den * k ↔ 2 * (num % den) < den :=
    Nat.mul_lt_mul_right hk
  have heq : 2 * (num % den) * k = den * k ↔ 2 * (num % den) = den :=
    Nat.mul_left_inj (Nat.ne_of_gt hk)
  unfold roundDiv
  simp only [hq, hr, hassoc, hlt, heq]

theorem roundDiv_mul_right (q : Nat) {den : Nat} (hden : 0 < den) : roundDiv (q * den) den = q := by
  unfold roundDiv
  rw [Nat.mul_div_cancel q hden, Nat.mul_mod_left]
  exact if_pos (Or.inl hden)

theorem stepExponent_mul_mul (f : Format) (num den : Nat) {k : Nat} (hk : 0 < k) :
    f.stepExponent (num * k) (den * k) = f.stepExponent num den := by
  unfold stepExponent
  rw [Nat.mul_div_mul_right num den hk]

theorem round_mul_mul (f : Format) (num den : Nat) {k : Nat} (hk : 0 < k) :
    f.round (num * k) (den * k) = f.round num den := by
  unfold round
  simp only [stepExponent_mul_mul f num den hk, Nat.mul_right_comm den k]
  rw [roundDiv_mul_mul num _ hk]

/-! ## Codes -/

theorem code_eq (f : Format) (code : Nat) :
    code / Nat.pow 2 f.fractionBits * Nat.pow 2 f.fractionBits + code % Nat.pow 2 f.fractionBits =
      code := by
  rw [Nat.mul_comm]
  exact Nat.div_add_mod code _

theorem infinity_lt (f : Format) : f.infinity < Nat.pow 2 f.codeBits := by
  calc (Nat.pow 2 f.exponentBits - 1) * Nat.pow 2 f.fractionBits
      < Nat.pow 2 f.exponentBits * Nat.pow 2 f.fractionBits :=
        Nat.mul_lt_mul_of_pos_right (Nat.sub_lt (Nat.two_pow_pos _) (by decide)) (Nat.two_pow_pos _)
    _ = Nat.pow 2 f.codeBits := (Nat.pow_add 2 _ _).symm

theorem exponent_lt {code : Nat} (h : code < f.infinity) :
    code / Nat.pow 2 f.fractionBits < Nat.pow 2 f.exponentBits - 1 :=
  (Nat.div_lt_iff_lt_mul (Nat.two_pow_pos _)).mpr h

theorem units_eq_zero {code : Nat} : f.units code = 0 ↔ code = 0 := by
  have hfraction := Nat.two_pow_pos f.fractionBits
  constructor
  · intro h
    have hcode := code_eq f code
    unfold units at h
    simp only at h
    split at h
    · next hexp => rw [hexp, h] at hcode; omega
    · have hpos : 0 < (Nat.pow 2 f.fractionBits + code % Nat.pow 2 f.fractionBits) *
          Nat.pow 2 (code / Nat.pow 2 f.fractionBits - 1) :=
        Nat.mul_pos (Nat.add_pos_left hfraction _) (Nat.two_pow_pos _)
      omega
  · rintro rfl
    simp [units]

theorem units_lt {code : Nat} (h : code < f.infinity) :
    f.units code < Nat.pow 2 (Nat.pow 2 f.exponentBits - 2 + f.fractionBits) := by
  have hexp := exponent_lt h
  have hfraction : code % Nat.pow 2 f.fractionBits < Nat.pow 2 f.fractionBits :=
    Nat.mod_lt _ (Nat.two_pow_pos _)
  unfold units
  simp only
  -- Without a hidden bit the magnitude is below that bit; with it, below twice its place.
  split
  · next h0 =>
    exact Nat.lt_of_lt_of_le hfraction
      (Nat.pow_le_pow_right (by decide) (Nat.le_add_left _ _))
  · next h0 =>
    generalize code / Nat.pow 2 f.fractionBits = e at hexp h0
    calc (Nat.pow 2 f.fractionBits + code % Nat.pow 2 f.fractionBits) * Nat.pow 2 (e - 1)
        < Nat.pow 2 (f.fractionBits + 1) * Nat.pow 2 (e - 1) := by
          refine Nat.mul_lt_mul_of_pos_right ?_ (Nat.two_pow_pos _)
          have hdouble : Nat.pow 2 (f.fractionBits + 1) = Nat.pow 2 f.fractionBits * 2 := rfl
          omega
      _ = Nat.pow 2 (f.fractionBits + 1 + (e - 1)) := (Nat.pow_add 2 _ _).symm
      _ ≤ Nat.pow 2 (Nat.pow 2 f.exponentBits - 2 + f.fractionBits) :=
          Nat.pow_le_pow_right (by decide) (by omega)

theorem stepExponent_units (f : Format) (code : Nat) :
    f.stepExponent (f.units code) 1 = code / Nat.pow 2 f.fractionBits - 1 := by
  have hfraction : code % Nat.pow 2 f.fractionBits < Nat.pow 2 f.fractionBits :=
    Nat.mod_lt _ (Nat.two_pow_pos _)
  unfold stepExponent units
  rw [Nat.div_one]
  simp only
  split
  · next hexp =>
    rw [hexp, Nat.zero_sub]
    rcases Nat.eq_zero_or_pos (code % Nat.pow 2 f.fractionBits) with h0 | hpos
    · rw [h0]
      simp
    · have hlog := (Nat.log2_lt (Nat.ne_of_gt hpos)).mpr hfraction
      omega
  · next hexp =>
    generalize code / Nat.pow 2 f.fractionBits - 1 = e
    -- The hidden bit is the leading one.
    have hlog : ((Nat.pow 2 f.fractionBits + code % Nat.pow 2 f.fractionBits) *
        Nat.pow 2 e).log2 = f.fractionBits + e := by
      have hpos : 0 < (Nat.pow 2 f.fractionBits + code % Nat.pow 2 f.fractionBits) * Nat.pow 2 e :=
        Nat.mul_pos (Nat.add_pos_left (Nat.two_pow_pos _) _) (Nat.two_pow_pos _)
      refine (Nat.log2_eq_iff (Nat.ne_of_gt hpos)).mpr ⟨?_, ?_⟩
      · rw [Nat.pow_add]
        exact Nat.mul_le_mul_right _ (Nat.le_add_right _ _)
      · rw [Nat.add_right_comm, Nat.pow_add, Nat.pow_succ]
        refine Nat.mul_lt_mul_of_pos_right ?_ (Nat.two_pow_pos _)
        have : Nat.pow 2 f.fractionBits = 2 ^ f.fractionBits := rfl
        omega
    rw [hlog]
    omega

/-- A finite magnitude is rounded to its own code. -/
theorem round_units {code : Nat} (h : code < f.infinity) : f.round (f.units code) 1 = code := by
  have hcode := code_eq f code
  have hround : (code / Nat.pow 2 f.fractionBits - 1) * Nat.pow 2 f.fractionBits +
      roundDiv (f.units code) (1 * Nat.pow 2 (code / Nat.pow 2 f.fractionBits - 1)) = code := by
    rw [Nat.one_mul]
    unfold units
    simp only
    split
    · next hexp =>
      have hexact := roundDiv_mul_right (code % Nat.pow 2 f.fractionBits) Nat.one_pos
      rw [Nat.mul_one] at hexact
      rw [hexp] at hcode ⊢
      simp only [Nat.zero_sub, Nat.zero_mul, Nat.zero_add] at hcode ⊢
      exact hexact.trans hcode
    · next hexp =>
      have hstep : 0 < Nat.pow 2 (code / Nat.pow 2 f.fractionBits - 1) := Nat.two_pow_pos _
      rw [roundDiv_mul_right _ hstep, ← Nat.add_assoc, ← Nat.succ_mul]
      -- The hidden bit counts as one exponent more.
      have hsucc : (code / Nat.pow 2 f.fractionBits - 1).succ = code / Nat.pow 2 f.fractionBits :=
        Nat.sub_one_add_one hexp
      rw [hsucc]
      exact hcode
  unfold round
  simp only [stepExponent_units]
  rw [hround]
  exact Nat.min_eq_left (Nat.le_of_lt h)

/-! ## Reach -/

/-- The exponent of a format is wide enough for its fraction. Numbers of such a format lie well
within the powers of ten that numerals are cut off at. -/
structure Wide (f : Format) : Prop where
  exponent : 2 ≤ f.exponentBits
  fraction : f.fractionBits ≤ Nat.pow 2 (f.exponentBits - 1)

theorem wide_double : Wide double := ⟨by decide, by decide⟩

theorem Wide.pow_exponentBits (h : Wide f) :
    Nat.pow 2 f.exponentBits = 2 * Nat.pow 2 (f.exponentBits - 1) := by
  have hexponent := h.exponent
  have hsucc : f.exponentBits = f.exponentBits - 1 + 1 := by omega
  calc Nat.pow 2 f.exponentBits = Nat.pow 2 (f.exponentBits - 1 + 1) := by rw [← hsucc]
    _ = 2 * Nat.pow 2 (f.exponentBits - 1) := Nat.mul_comm _ _

theorem Wide.two_le_half (h : Wide f) : 2 ≤ Nat.pow 2 (f.exponentBits - 1) :=
  Nat.pow_le_pow_right (show 0 < 2 by decide) (show 1 ≤ f.exponentBits - 1 by have := h.exponent; omega)

theorem Wide.unitExponent_le (h : Wide f) : f.unitExponent ≤ Nat.pow 2 f.exponentBits := by
  have hfraction := h.fraction
  rw [h.pow_exponentBits]
  unfold unitExponent
  omega

/-- In a wide format a finite magnitude, counted in ones, has fewer binary places than half the
exponents. -/
theorem Wide.units_lt (hf : Wide f) {code : Nat} (h : code < f.infinity) :
    f.units code < Nat.pow 2 (Nat.pow 2 (f.exponentBits - 1) + f.unitExponent) := by
  have hhalf := hf.two_le_half
  have hplaces : Nat.pow 2 f.exponentBits - 2 + f.fractionBits =
      Nat.pow 2 (f.exponentBits - 1) + f.unitExponent := by
    rw [hf.pow_exponentBits]
    unfold unitExponent
    omega
  rw [← hplaces]
  exact Format.units_lt h

end Aggregate.Format
