import Mathlib.Algebra.Group.Nat.Defs
import Aggregate.Proofs.Digest.Steps
import Aggregate.Proofs.Word

/-
  Locations of one file are told apart

  The line of a location is spread over the whole digest by a multiplication
  before the column comes in, so two steps that are one to one do not yet keep
  (line, column) pairs apart: a column might make up for a line. It does not,
  because a column reaches the lowest 32 bits only and the prime is 2^40 and a
  little more: two states that differ within their lowest 24 bits are taken to
  products that differ beyond the lowest 32 bits (`eq_of_products`). Which name
  the file has does not matter, so lines up to 2^24 and all columns are told.

  Names of one length that differ in one byte are told by the steps alone.
-/

namespace Aggregate

namespace Digest

/-! ## Lines and columns -/

theorem xor_high {n k : Nat} {v : BitVec n} (hv : v.toNat < Nat.pow 2 k) (d : BitVec n) :
    (d ^^^ v).toNat / 2 ^ k = d.toNat / 2 ^ k := by
  rw [← Nat.shiftRight_eq_div_pow, ← Nat.shiftRight_eq_div_pow, ← BitVec.toNat_ushiftRight,
    ← BitVec.toNat_ushiftRight, BitVec.ushiftRight_xor_distrib, ushiftRight_of_lt hv,
    BitVec.xor_zero]

theorem high_ne {p q : Nat} (hfar : p + 2 ^ 39 ≤ q) (hnear : q + 2 ^ 39 ≤ p + 2 ^ 64) :
    p % 2 ^ 64 / 2 ^ 32 ≠ q % 2 ^ 64 / 2 ^ 32 := by
  omega

/-- Of two numbers that differ within their lowest 24 bits the products with the prime do not
agree beyond the lowest 32 bits. -/
theorem products_ne {x y : Nat} (hlt : x < y) (hblock : x / 2 ^ 24 = y / 2 ^ 24) :
    x * (2 ^ 40 + 435) % 2 ^ 64 / 2 ^ 32 ≠ y * (2 ^ 40 + 435) % 2 ^ 64 / 2 ^ 32 :=
  high_ne (by omega) (by omega)

theorem eq_of_products {x y : Nat} (hblock : x / 2 ^ 24 = y / 2 ^ 24)
    (hhigh : x * prime.toNat % 2 ^ 64 / 2 ^ 32 = y * prime.toNat % 2 ^ 64 / 2 ^ 32) : x = y := by
  have hprime : prime.toNat = 2 ^ 40 + 435 := by decide
  rw [hprime] at hhigh
  rcases Nat.lt_trichotomy x y with hlt | heq | hgt
  · exact absurd hhigh (products_ne hlt hblock)
  · exact heq
  · exact absurd hhigh.symm (products_ne hgt hblock.symm)

/-- A line below 2^24 and a column taken in one after the other are both told. -/
theorem absorb_pair_inj {v w a b : BitVec 64} (d : BitVec 64) (hv : v.toNat < Nat.pow 2 24)
    (hw : w.toNat < Nat.pow 2 24) (ha : a.toNat < Nat.pow 2 32) (hb : b.toNat < Nat.pow 2 32) :
    absorb (absorb d v) a = absorb (absorb d w) b ↔ v = w ∧ a = b := by
  refine ⟨fun h => ?_, fun h => by rw [h.1, h.2]⟩
  rw [absorb_eq_iff] at h
  have hblock : (d ^^^ v).toNat / 2 ^ 24 = (d ^^^ w).toNat / 2 ^ 24 :=
    (xor_high hv d).trans (xor_high hw d).symm
  have hhigh : (absorb d v).toNat / 2 ^ 32 = (absorb d w).toNat / 2 ^ 32 := by
    rw [← xor_high ha (absorb d v), ← xor_high hb (absorb d w), h]
  have hstate : d ^^^ v = d ^^^ w := by
    apply BitVec.eq_of_toNat_eq
    rw [absorb, absorb, BitVec.toNat_mul, BitVec.toNat_mul] at hhigh
    exact eq_of_products hblock hhigh
  have hline : v = w := (BitVec.xor_right_inj d).mp hstate
  rw [hline] at h
  exact ⟨hline, (BitVec.xor_right_inj _).mp h⟩

/-- The step that takes in a byte of the name. -/
def absorbByte (d : BitVec 64) (byte : UInt8) : BitVec 64 := absorb d (byte.toBitVec.setWidth 64)

theorem ofLocation_eq (file : List UInt8) (line column : UInt32) :
    ofLocation file line column =
      absorb (absorb (file.foldl absorbByte basis) (line.toBitVec.setWidth 64))
        (column.toBitVec.setWidth 64) := rfl

theorem toNat_widened (n : UInt32) : (n.toBitVec.setWidth 64).toNat = n.toNat :=
  BitVec.toNat_setWidth_of_le (by decide)

theorem ofLocation_inj (file : List UInt8) {line line' : UInt32} (column column' : UInt32)
    (hline : line.toNat < 2 ^ 24) (hline' : line'.toNat < 2 ^ 24) :
    ofLocation file line column = ofLocation file line' column' ↔
      line = line' ∧ column = column' := by
  have hbound : ∀ n : UInt32, (n.toBitVec.setWidth 64).toNat < Nat.pow 2 32 := by
    intro n
    rw [toNat_widened]
    exact n.toNat_lt
  rw [← toNat_widened] at hline hline'
  rw [ofLocation_eq, ofLocation_eq, absorb_pair_inj _ hline hline' (hbound column) (hbound column'),
    widened_inj (by decide), widened_inj (by decide), UInt32.toBitVec_inj, UInt32.toBitVec_inj]

/-! ## Names -/

theorem absorb_state {v d e : BitVec 64} (h : absorb d v = absorb e v) : d = e :=
  (BitVec.xor_left_inj v).mp ((absorb_eq_iff d e v v).mp h)

theorem absorb_byte {a b : UInt8} (hne : a ≠ b) (d : BitVec 64) :
    absorbByte d a ≠ absorbByte d b := by
  intro h
  have hbyte := (BitVec.xor_right_inj d).mp ((absorb_eq_iff _ _ _ _).mp h)
  exact hne (UInt8.toBitVec_inj.mp ((widened_inj (by decide)).mp hbyte))

theorem named_ne {file file' : List UInt8} (h : DifferInOne file file') :
    file.foldl absorbByte basis ≠ file'.foldl absorbByte basis := by
  obtain ⟨before, a, b, after, rfl, rfl, hne⟩ := differInOne_iff.mp h
  have hstate : ∀ (a : UInt8) (d e : BitVec 64), absorbByte d a = absorbByte e a → d = e :=
    fun _ _ _ => absorb_state
  exact foldl_ne hstate (absorb_byte hne) basis

theorem ofLocation_ne {file file' : List UInt8} (h : DifferInOne file file')
    (line column : UInt32) : ofLocation file line column ≠ ofLocation file' line column := by
  rw [ofLocation_eq, ofLocation_eq]
  intro hsame
  have hlined := absorb_state hsame
  exact named_ne h (absorb_state hlined)

end Digest

/-! ## Identifiers of source locations -/

/-- On a long trace, two locations of one file, whatever its name, with lines below 2^24 have the
same identifier exactly if they have the same line and the same column; and two files whose names
are of one length and differ in one byte have different identifiers at the same line and column. -/
theorem locations_told (file : String) :
    (∀ line line' column column' : UInt32, line.toNat < 2 ^ 24 → line'.toNat < 2 ^ 24 →
      (codePoint .long file line column = codePoint .long file line' column' ↔
        line = line' ∧ column = column')) ∧
    ∀ file' : String, DifferInOne file.toUTF8.toList file'.toUTF8.toList →
      ∀ line column : UInt32,
        codePoint .long file line column ≠ codePoint .long file' line column := by
  refine ⟨fun line line' column column' hline hline' => ?_, fun file' hdiffer line column => ?_⟩
  · rw [codePoint, codePoint, narrow_long, narrow_long]
    exact Digest.ofLocation_inj _ column column' hline hline'
  · rw [codePoint, codePoint, narrow_long, narrow_long]
    exact Digest.ofLocation_ne hdiffer line column

/-- The last line that is told and the line before it, at the last column and at the first one, and
two neighbouring names. -/
theorem locations_told_neighbours :
    (16777215 : UInt32).toNat < 2 ^ 24 ∧
      codePoint .long "src/a.rs" 16777215 4294967295 ≠ codePoint .long "src/a.rs" 16777214 0 ∧
      DifferInOne "src/a.rs".toUTF8.toList "src/b.rs".toUTF8.toList ∧
      codePoint .long "src/a.rs" 7 1 ≠ codePoint .long "src/b.rs" 7 1 := by
  obtain ⟨hlines, hnames⟩ := locations_told "src/a.rs"
  have hdiffer : DifferInOne "src/a.rs".toUTF8.toList "src/b.rs".toUTF8.toList :=
    differInOne_iff.mpr ⟨[115, 114, 99, 47], 97, 98, [46, 114, 115], by decide +kernel,
      by decide +kernel, by decide⟩
  refine ⟨by decide, fun hsame => ?_, hdiffer, hnames "src/b.rs" hdiffer 7 1⟩
  have hline := ((hlines _ _ _ _ (by decide) (by decide)).mp hsame).1
  exact absurd hline (by decide)

end Aggregate
