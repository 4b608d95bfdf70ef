import Mathlib.Data.Nat.Factorization.Basic
import Aggregate.Proofs.Word

/-
  What folding a word loses

  Folding takes the xor of two words to the xor of their folds (`fold_xor`), so
  two words fold to the same value exactly if their difference folds to zero. A
  word and its successor differ in a run of low bits, the carry and where it ends
  (`xor_succ`). Such a run folds to zero exactly if it is made of pairs of digits
  (`fold_lowMask`), which says of which words the fold does not tell the
  successor apart (`fold_succ`).
-/

namespace Aggregate

variable {n : Nat}

/-! ## Runs of low bits -/

theorem getLsbD_lowMask (size k : Nat) :
    (lowMask size : BitVec n).getLsbD k = (decide (k < size) && decide (k < n)) := by
  rw [lowMask]
  split
  · next h =>
    rw [BitVec.getLsbD_allOnes]
    by_cases hk : k < n
    · simp [hk, Nat.lt_of_lt_of_le hk h]
    · simp [hk]
  · rw [BitVec.getLsbD_ofNat]
    simp [Nat.testBit_two_pow_sub_one, Bool.and_comm]

theorem lowMask_zero : (lowMask 0 : BitVec n) = 0#n := by
  apply BitVec.eq_of_getLsbD_eq
  intro k _
  simp [getLsbD_lowMask]

theorem lowMask_ushiftRight {a b : Nat} (h : b ≤ n) :
    (lowMask b : BitVec n) >>> a = lowMask (b - a) := by
  apply BitVec.eq_of_getLsbD_eq
  intro k hk
  rw [BitVec.getLsbD_ushiftRight, getLsbD_lowMask, getLsbD_lowMask]
  by_cases hlt : a + k < b
  · simp [hlt, show k < b - a by omega, show a + k < n by omega, hk]
  · simp [hlt, show ¬ k < b - a by omega]

theorem lowMask_and (a b : Nat) :
    (lowMask a : BitVec n) &&& lowMask b = lowMask (min a b) := by
  apply BitVec.eq_of_getLsbD_eq
  intro k hk
  rw [BitVec.getLsbD_and, getLsbD_lowMask, getLsbD_lowMask, getLsbD_lowMask]
  simp [hk]

theorem lowMask_inj {a b : Nat} (ha : a ≤ n) (hb : b ≤ n)
    (h : (lowMask a : BitVec n) = lowMask b) : a = b := by
  have hbit : ∀ k : Nat, k < n → (k < a ↔ k < b) := by
    intro k hk
    have hsame : (lowMask a : BitVec n).getLsbD k = (lowMask b : BitVec n).getLsbD k := by rw [h]
    simpa only [getLsbD_lowMask, hk, decide_true, Bool.and_true, decide_eq_decide] using hsame
  rcases Nat.lt_trichotomy a b with hlt | heq | hgt
  · exact absurd ((hbit a (by omega)).mpr hlt) (Nat.lt_irrefl a)
  · exact heq
  · exact absurd ((hbit b (by omega)).mp hgt) (Nat.lt_irrefl b)

/-! ## Folding is linear -/

section
variable {size : Nat}

@[simp] theorem xorDigits_zero (pos : 0 < size) : xorDigits size pos 0#n = 0#n := by
  rw [xorDigits]
  exact dif_pos rfl

theorem xorDigits_eq (pos : 0 < size) (v : BitVec n) :
    xorDigits size pos v = (v &&& lowMask size) ^^^ xorDigits size pos (v >>> size) := by
  by_cases h : v = 0
  · subst h
    simp
  · conv_lhs => rw [xorDigits, dif_neg h]

/-- What is gathered piece by piece from a word takes xors to xors if the pieces do. -/
theorem gathered_xor {m : Nat} (pos : 0 < size) {piece gathered : BitVec m → BitVec n}
    (hnone : gathered 0 = 0) (hrest : ∀ v, gathered v = piece v ^^^ gathered (v >>> size))
    (hpiece : ∀ a b, piece (a ^^^ b) = piece a ^^^ piece b) (a b : BitVec m) :
    gathered (a ^^^ b) = gathered a ^^^ gathered b := by
  -- By induction on what is left of the first word, as the digits are walked.
  induction a using xorDigits.induct size pos generalizing b with
  | case1 =>
    have hzero : (0 : BitVec m) ^^^ b = b := BitVec.zero_xor
    rw [hzero, hnone]
    exact BitVec.zero_xor.symm
  | case2 a _ ih =>
    rw [hrest (a ^^^ b), hrest a, hrest b, BitVec.ushiftRight_xor_distrib, ih, hpiece]
    ac_rfl

theorem and_xor_distrib (a b mask : BitVec n) :
    (a ^^^ b) &&& mask = (a &&& mask) ^^^ (b &&& mask) := by
  apply BitVec.eq_of_getLsbD_eq
  intro k _
  simp [Bool.and_xor_distrib_right]

theorem xorDigits_xor (pos : 0 < size) (a b : BitVec n) :
    xorDigits size pos (a ^^^ b) = xorDigits size pos a ^^^ xorDigits size pos b :=
  gathered_xor pos (xorDigits_zero pos) (xorDigits_eq pos)
    (fun a b => and_xor_distrib a b (lowMask size)) a b

theorem fold_xor (a b : BitVec n) (size : Nat) :
    fold (a ^^^ b) size = fold a size ^^^ fold b size := by
  by_cases hn : n ≤ size
  · rw [fold, fold, fold, if_pos hn, if_pos hn, if_pos hn]
  · by_cases hs : size = 0
    · simp only [fold, if_neg hn, dif_pos hs]
      exact BitVec.xor_zero.symm
    · simp only [fold, if_neg hn, dif_neg hs]
      exact xorDigits_xor _ a b

/-- Below the whole width, folding is the xor of the digits. -/
theorem fold_eq_xorDigits (pos : 0 < size) (h : size < n) (v : BitVec n) :
    fold v size = xorDigits size pos v := by
  rw [fold, if_neg (Nat.not_le.mpr h), dif_neg (Nat.pos_iff_ne_zero.mp pos)]

theorem fold_eq_iff (a b : BitVec n) (size : Nat) :
    fold a size = fold b size ↔ fold (a ^^^ b) size = 0 := by
  rw [fold_xor]
  exact BitVec.xor_eq_zero_iff.symm

theorem fold_width (v : BitVec n) : fold v n = v := if_pos (Nat.le_refl n)

theorem fold_of_lt {v : BitVec n} (pos : 0 < size) (hv : v.toNat < Nat.pow 2 size) :
    fold v size = v := by
  rcases Nat.lt_or_ge size n with hlt | hge
  · have hlow : v &&& lowMask size = v := by
      apply BitVec.eq_of_toNat_eq
      rw [toNat_and_lowMask v hlt]
      exact Nat.mod_eq_of_lt hv
    rw [fold_eq_xorDigits pos hlt, xorDigits_eq, hlow, ushiftRight_of_lt hv, xorDigits_zero]
    exact BitVec.xor_zero
  · exact if_pos hge

/-! ## Folding a run of low bits -/

theorem xorDigits_lowMask_add (pos : 0 < size) {t : Nat} (h : size + t ≤ n) :
    xorDigits size pos (lowMask (size + t) : BitVec n) =
      lowMask size ^^^ xorDigits size pos (lowMask t) := by
  rw [xorDigits_eq, lowMask_and, lowMask_ushiftRight h, Nat.min_eq_right (by omega),
    Nat.add_sub_cancel_left]

theorem xorDigits_lowMask_lt (pos : 0 < size) {t : Nat} (hn : t ≤ n) (h : t < size) :
    xorDigits size pos (lowMask t : BitVec n) = lowMask t := by
  rw [xorDigits_eq, lowMask_and, lowMask_ushiftRight hn, Nat.min_eq_left (by omega),
    Nat.sub_eq_zero_of_le (by omega), lowMask_zero, xorDigits_zero, BitVec.xor_zero]

/-- A run of low bits folds to zero if it is made of pairs of digits. -/
theorem xorDigits_lowMask (pos : 0 < size) (t : Nat) (h : t ≤ n) :
    xorDigits size pos (lowMask t : BitVec n) = 0 ↔ 2 * size ∣ t := by
  induction t using Nat.strong_induction_on with
  | _ t ih =>
    rcases Nat.lt_or_ge t size with hlt | hge
    · -- Less than one digit: only the empty run.
      rw [xorDigits_lowMask_lt pos h hlt]
      constructor
      · intro hzero
        have ht : t = 0 := lowMask_inj h (Nat.zero_le n) (hzero.trans lowMask_zero.symm)
        exact ht ▸ Nat.dvd_zero _
      · intro hdvd
        rw [Nat.eq_zero_of_dvd_of_lt hdvd (by omega)]
        exact lowMask_zero
    · obtain ⟨u, rfl⟩ := Nat.exists_eq_add_of_le hge
      rw [xorDigits_lowMask_add pos h]
      rcases Nat.lt_or_ge u size with hlt | hge
      · -- One digit and less than another one.
        rw [xorDigits_lowMask_lt pos (by omega) hlt]
        constructor
        · intro hzero
          have hsame : size = u :=
            lowMask_inj (by omega) (by omega) (BitVec.xor_eq_zero_iff.mp hzero)
          omega
        · intro hdvd
          have hle := Nat.le_of_dvd (by omega) hdvd
          omega
      · -- Two digits cancel.
        obtain ⟨t, rfl⟩ := Nat.exists_eq_add_of_le hge
        rw [xorDigits_lowMask_add pos (by omega), ← BitVec.xor_assoc, BitVec.xor_self,
          BitVec.zero_xor, ih t (by omega) (by omega), ← Nat.add_assoc, ← Nat.two_mul]
        exact (Nat.dvd_add_right (Nat.dvd_refl _)).symm

theorem fold_lowMask (pos : 0 < size) (hsize : size < n) {t : Nat} (h : t ≤ n) :
    fold (lowMask t : BitVec n) size = 0 ↔ 2 * size ∣ t := by
  rw [fold_eq_xorDigits pos hsize]
  exact xorDigits_lowMask pos t h

end

/-! ## A word and its successor -/

/-- Counting from `a` to the next number changes the lowest `t` bits: it carries over all but the
last of them. -/
def Carries (a t : Nat) : Prop := 0 < t ∧ (a + 1) % 2 ^ t = 2 ^ (t - 1)

instance (a t : Nat) : Decidable (Carries a t) := inferInstanceAs (Decidable (_ ∧ _))

theorem exists_carries (a : Nat) : ∃ t, Carries a t := by
  obtain ⟨k, m, ⟨q, rfl⟩, heq⟩ := Nat.exists_eq_two_pow_mul_odd (Nat.add_one_ne_zero a)
  refine ⟨k + 1, Nat.succ_pos k, ?_⟩
  rw [heq, Nat.pow_succ, Nat.mul_mod_mul_left, Nat.add_sub_cancel,
    show (2 * q + 1) % 2 = 1 by omega, Nat.mul_one]

theorem Carries.xor {a t : Nat} (h : Carries a t) : a ^^^ (a + 1) = 2 ^ t - 1 := by
  obtain ⟨hpos, hmod⟩ := h
  obtain ⟨k, rfl⟩ : ∃ k, t = k + 1 := ⟨t - 1, by omega⟩
  rw [Nat.add_sub_cancel] at hmod
  have hlow : 2 ^ k < 2 ^ (k + 1) := Nat.pow_lt_pow_right (by decide) (Nat.lt_succ_self k)
  have hnext : a + 1 = 2 ^ (k + 1) * ((a + 1) / 2 ^ (k + 1)) + 2 ^ k := by
    rw [← hmod, Nat.div_add_mod]
  have hone : 0 < 2 ^ k := Nat.two_pow_pos k
  have hself : a = 2 ^ (k + 1) * ((a + 1) / 2 ^ (k + 1)) + (2 ^ k - 1) := by omega
  generalize (a + 1) / 2 ^ (k + 1) = q at hnext hself
  apply Nat.eq_of_testBit_eq
  intro j
  -- Above the run the bits are those of the quotient in both numbers.
  rw [Nat.testBit_xor, hnext, hself, Nat.testBit_two_pow_mul_add q hlow,
    Nat.testBit_two_pow_mul_add q (by omega), Nat.testBit_two_pow_sub_one,
    Nat.testBit_two_pow_sub_one, Nat.testBit_two_pow]
  by_cases hj : j < k + 1
  · rcases Nat.lt_succ_iff_lt_or_eq.mp hj with hlt | rfl
    · simp [hj, hlt, Nat.ne_of_gt hlt]
    · simp
  · simp [hj]

/-- Words differ from their successors as numbers do, as far as they go. -/
theorem xor_succ {v : BitVec n} {t : Nat} (h : Carries v.toNat t) :
    v ^^^ (v + 1) = lowMask t := by
  apply BitVec.eq_of_getLsbD_eq
  intro j hj
  have hsucc : (v + 1).getLsbD j = (v.toNat + 1).testBit j := by
    have hnat : (v + 1).toNat = (v.toNat + 1) % 2 ^ n := by
      rw [BitVec.toNat_add]
      exact Nat.add_mod_mod _ _ _
    rw [← BitVec.testBit_toNat, hnat, Nat.testBit_mod_two_pow, decide_eq_true hj, Bool.true_and]
  rw [BitVec.getLsbD_xor, hsucc, ← BitVec.testBit_toNat, ← Nat.testBit_xor, h.xor,
    Nat.testBit_two_pow_sub_one, getLsbD_lowMask]
  simp [hj]

/-- The fold does not tell a word from its successor if the carry runs over pairs of digits. -/
theorem fold_succ {size : Nat} (pos : 0 < size) (hsize : size < n) {v : BitVec n} {t : Nat}
    (h : Carries v.toNat t) : fold (v + 1) size = fold v size ↔ 2 * size ∣ min t n := by
  have hrun : (lowMask t : BitVec n) = lowMask (min t n) := by
    apply BitVec.eq_of_getLsbD_eq
    intro k hk
    simp only [getLsbD_lowMask, lt_min_iff, hk, and_true]
  rw [eq_comm, fold_eq_iff, xor_succ h, hrun, fold_lowMask pos hsize (Nat.min_le_right t n)]

end Aggregate
