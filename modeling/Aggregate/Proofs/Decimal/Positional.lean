import Aggregate.Decimal.Text
import Aggregate.Proofs.Decimal.ReadBack
import Aggregate.Proofs.Toml.Digits

/-
  Numerals with a point

  Written positionally, with a fraction of zero behind a whole number, every
  numeral has digits on both sides of its point, and those digits denote what
  the numeral does (`positionalText_parts`). The point falls behind the digits,
  between them or before them, as the place of the numeral says.
-/

namespace Aggregate.Decimal

open Toml (AllDigits Whole numberOf)

variable {f : Format} {d : Decimal}

/-- The numeral that digits before and behind a point denote. -/
def ofParts (whole fraction : List Char) : Decimal :=
  ⟨numberOf 10 (whole ++ fraction), -fraction.length⟩

/-- Digits before and behind a point, and the code that they denote. -/
structure Parts (f : Format) (code : Nat) (whole fraction : List Char) : Prop where
  isWhole : Whole whole
  allDigits : AllDigits fraction
  ne_nil : fraction ≠ []
  code_eq : (ofParts whole fraction).code f = code

/-! ## Behind, between and before the digits -/

theorem parts_whole (f : Format) (hc : 0 < d.coefficient) (he : 0 ≤ d.exponent) :
    Parts f (d.code f) (digits d.coefficient ++ List.replicate d.exponent.toNat '0') ['0'] := by
  obtain ⟨c, ds, hds, hne⟩ := digits_eq_cons hc
  have hall := Toml.allDigits_digits d.coefficient
  refine ⟨?_, Toml.allDigits_replicate_zero 1, List.cons_ne_nil _ _, ?_⟩
  · have hzeros := hall.append (Toml.allDigits_replicate_zero d.exponent.toNat)
    rw [hds, List.cons_append] at hzeros ⊢
    exact Toml.whole_of_head hzeros hne
  · have hzeros : List.replicate d.exponent.toNat '0' ++ ['0'] =
        List.replicate (d.exponent.toNat + 1) '0' := List.replicate_succ'.symm
    -- The zero of the fraction counts as one more behind the digits.
    unfold ofParts
    rw [List.append_assoc, hzeros, Toml.numberOf_append_zeros, Toml.numberOf_digits, code_mul_pow]
    congr 2
    simp only [List.length_cons, List.length_nil]
    omega

theorem parts_between (f : Format) (he : d.exponent < 0) (hp : 0 < d.place) :
    Parts f (d.code f) ((digits d.coefficient).take d.place.toNat)
      ((digits d.coefficient).drop d.place.toNat) := by
  have hall := Toml.allDigits_digits d.coefficient
  have hplace : d.place = (digits d.coefficient).length + d.exponent := rfl
  have hlength : d.place.toNat < (digits d.coefficient).length := by omega
  have hne : (digits d.coefficient).drop d.place.toNat ≠ [] := by
    rw [Ne, List.drop_eq_nil_iff]
    omega
  refine ⟨?_, fun c hc => hall c (List.mem_of_mem_drop hc), hne, ?_⟩
  · have htake : AllDigits ((digits d.coefficient).take d.place.toNat) :=
      fun c hc => hall c (List.mem_of_mem_take hc)
    -- A zero has one digit, and the point cannot fall between that.
    have hc : 0 < d.coefficient := by
      rcases Nat.eq_zero_or_pos d.coefficient with h0 | h0
      · rw [h0, digits_zero] at hlength
        simp only [List.length_cons, List.length_nil] at hlength
        omega
      · exact h0
    obtain ⟨c, ds, hds, hhead⟩ := digits_eq_cons hc
    have hsucc : d.place.toNat = d.place.toNat - 1 + 1 := by omega
    rw [hds, hsucc, List.take_succ_cons] at htake ⊢
    exact Toml.whole_of_head htake hhead
  · unfold ofParts
    rw [List.take_append_drop, Toml.numberOf_digits, List.length_drop]
    have hexponent : -(((digits d.coefficient).length - d.place.toNat : Nat) : Int) = d.exponent := by
      omega
    rw [hexponent]

theorem parts_before (f : Format) (hp : d.place ≤ 0) :
    Parts f (d.code f) ['0']
      (List.replicate (-d.place).toNat '0' ++ digits d.coefficient) := by
  have hplace : d.place = (digits d.coefficient).length + d.exponent := rfl
  have hfraction := (Toml.allDigits_replicate_zero (-d.place).toNat).append
    (Toml.allDigits_digits d.coefficient)
  refine ⟨Toml.whole_zero, hfraction, ?_, ?_⟩
  · exact List.append_ne_nil_of_right_ne_nil _ (digits_ne_nil _)
  · have hzeros : ['0'] ++ (List.replicate (-d.place).toNat '0' ++ digits d.coefficient) =
        List.replicate ((-d.place).toNat + 1) '0' ++ digits d.coefficient := rfl
    unfold ofParts
    rw [hzeros, Toml.numberOf_zeros_append, Toml.numberOf_digits, List.length_append,
      List.length_replicate]
    have hexponent :
        -(((-d.place).toNat + (digits d.coefficient).length : Nat) : Int) = d.exponent := by
      omega
    rw [hexponent]

/-- A positional text that gives whole numbers a fraction of zero has digits on both sides of its
point, and they denote what the numeral does. -/
theorem positionalText_parts (f : Format) (d : Decimal) :
    ∃ whole fraction, d.positionalText NumberStyle.document.wholeSuffix = whole ++ '.' :: fraction ∧
      Parts f (d.code f) whole fraction := by
  unfold positionalText
  simp only
  split
  · next h0 =>
    refine ⟨['0'], ['0'], rfl, Toml.whole_zero, Toml.allDigits_replicate_zero 1,
      List.cons_ne_nil _ _, ?_⟩
    have hzero : (ofParts ['0'] ['0']).coefficient = 0 := rfl
    rw [code_of_coefficient_zero hzero, code_of_coefficient_zero h0]
  · next hc =>
    split
    · next he => exact ⟨_, ['0'], rfl, parts_whole f (Nat.pos_of_ne_zero hc) he⟩
    · next he =>
      split
      · next hp => exact ⟨_, _, rfl, parts_between f (Int.not_le.mp he) hp⟩
      · next hp => exact ⟨['0'], _, rfl, parts_before f (Int.not_lt.mp hp)⟩

end Aggregate.Decimal
