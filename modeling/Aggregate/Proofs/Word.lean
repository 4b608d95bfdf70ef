import Aggregate.Word

/-
  Bounds on folded and rotated words

  A frame of `size` bits placed at bit `k` must not reach beyond bit `k + size`
  while the trace has room for it. `fold_lt` bounds a folded value by its frame,
  and `rotateLeft_lt` bounds it once it stands in its place. Both are stated on
  the numbers the words stand for.
-/

namespace Aggregate

variable {n : Nat}

theorem toNat_lowMask {size : Nat} (h : size < n) :
    (lowMask size : BitVec n).toNat = Nat.pow 2 size - 1 := by
  have hlt : Nat.pow 2 size < Nat.pow 2 n := Nat.pow_lt_pow_right (by decide) h
  have hpos : 0 < Nat.pow 2 size := Nat.two_pow_pos size
  rw [lowMask, if_neg (Nat.not_le.mpr h), BitVec.toNat_ofNat]
  exact Nat.mod_eq_of_lt (Nat.lt_of_le_of_lt (Nat.sub_le _ _) hlt)

/-- The mask of `size` bits is the greatest word that fits in them. -/
theorem le_lowMask_iff {v : BitVec n} {size : Nat} (h : size ≤ n) :
    v ≤ lowMask size ↔ v.toNat < Nat.pow 2 size := by
  rcases Nat.lt_or_eq_of_le h with hlt | rfl
  · have hpos : 0 < Nat.pow 2 size := Nat.two_pow_pos size
    rw [BitVec.le_def, toNat_lowMask hlt]
    omega
  · have hmask : (lowMask size : BitVec size) = BitVec.allOnes size := if_pos (Nat.le_refl size)
    rw [hmask, BitVec.le_def, BitVec.toNat_allOnes]
    exact iff_of_true (Nat.le_sub_one_of_lt v.isLt) v.isLt

theorem toNat_and_lowMask (v : BitVec n) {size : Nat} (h : size < n) :
    (v &&& lowMask size).toNat = v.toNat % Nat.pow 2 size := by
  rw [BitVec.toNat_and, toNat_lowMask h]
  exact Nat.and_two_pow_sub_one_eq_mod v.toNat size

theorem xorDigits_lt {size : Nat} (pos : 0 < size) (h : size < n) (v : BitVec n) :
    (xorDigits size pos v).toNat < Nat.pow 2 size := by
  induction v using xorDigits.induct size pos with
  | case1 =>
    rw [xorDigits, dif_pos rfl]
    exact Nat.two_pow_pos size
  | case2 v hv ih =>
    rw [xorDigits, dif_neg hv, BitVec.toNat_xor]
    have hdigit : (v &&& lowMask size).toNat < Nat.pow 2 size := by
      rw [toNat_and_lowMask v h]
      exact Nat.mod_lt _ (Nat.two_pow_pos size)
    exact Nat.xor_lt_two_pow hdigit ih

theorem fold_lt (v : BitVec n) {size : Nat} (h : size < n) :
    (fold v size).toNat < Nat.pow 2 size := by
  rw [fold, if_neg (Nat.not_le.mpr h)]
  split
  · next hs => subst hs; simp
  · next hs => exact xorDigits_lt (Nat.pos_of_ne_zero hs) h v

theorem ushiftRight_of_lt {v : BitVec n} {k : Nat} (h : v.toNat < Nat.pow 2 k) : v >>> k = 0#n := by
  apply BitVec.eq_of_toNat_eq
  rw [BitVec.toNat_ushiftRight, Nat.shiftRight_eq_div_pow]
  exact Nat.div_eq_of_lt h

theorem getLsbD_of_lt {v : BitVec n} {used k : Nat} (h : v.toNat < Nat.pow 2 used) (hk : used ≤ k) :
    v.getLsbD k = false := by
  rw [← BitVec.testBit_toNat]
  exact Nat.testBit_lt_two_pow (Nat.lt_of_lt_of_le h (Nat.pow_le_pow_right (by decide) hk))

/-- A value rotated up where there is room for it is shifted up: nothing comes round. -/
theorem rotateLeft_of_lt {v : BitVec n} {k size : Nat} (hv : v.toNat < Nat.pow 2 size)
    (hk : k < n) (h : k + size ≤ n) : v.rotateLeft k = v <<< k := by
  have hout : v >>> (n - k) = 0#n :=
    ushiftRight_of_lt (Nat.lt_of_lt_of_le hv (Nat.pow_le_pow_right (by decide) (by omega)))
  rw [BitVec.rotateLeft_def, Nat.mod_eq_of_lt hk, hout, BitVec.or_zero]

theorem rotateLeft_lt {v : BitVec n} {k size : Nat} (hv : v.toNat < Nat.pow 2 size)
    (hk : k < n) (h : k + size ≤ n) : (v.rotateLeft k).toNat < Nat.pow 2 (k + size) := by
  rw [rotateLeft_of_lt hv hk h, BitVec.toNat_shiftLeft]
  refine Nat.lt_of_le_of_lt (Nat.mod_le _ _) ?_
  rw [Nat.shiftLeft_eq, show Nat.pow 2 (k + size) = Nat.pow 2 size * Nat.pow 2 k by
    rw [Nat.add_comm]; exact Nat.pow_add 2 size k]
  exact Nat.mul_lt_mul_of_pos_right hv (Nat.two_pow_pos k)

end Aggregate
