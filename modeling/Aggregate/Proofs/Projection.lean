import Aggregate.Proofs.Digest.Steps
import Aggregate.Proofs.Trace.Arithmetic
import Aggregate.Proofs.Trace.Folding

/-
  Folding is a projection

  A word is folded into a frame, and a digest into the width of a trace, by two
  loops of one kind: a piece from the low end of what is left is xored into what
  has been gathered, what is left is shifted down over it, and the loop goes on
  while something is left. Every round takes a digit off, so both loops end
  (`ends_of_shifting`); they may end early, since the digits that they do not
  come to are zero. What they gather is the xor of all digits (`toNat_xorDigits`,
  `narrow_short`). It takes xors to xors and keeps what fits, so folding once more
  changes nothing (`folding_projects`).
-/

namespace Aggregate

/-! ## The loops -/

/-- A loop under way: what is left of a value, and what has been gathered from it. -/
structure Gathering (m n : Nat) where
  rest : BitVec m
  out : BitVec n

/-- A loop that goes on while something is left ends after so many rounds with the given result. A
round that gives `none` stops the machine, and such a loop does not end. -/
inductive Gathering.Ends {m n : Nat} (round? : Gathering m n → Option (Gathering m n)) :
    Gathering m n → Nat → BitVec n → Prop where
  | done (out : BitVec n) : Ends round? ⟨0, out⟩ 0 out
  | round {s t : Gathering m n} {rounds : Nat} {result : BitVec n} (left : s.rest ≠ 0)
      (step : round? s = some t) (ends : Ends round? t rounds result) :
      Ends round? s (rounds + 1) result

/-- A round of folding a word: its lowest digit is gathered and shifted out, where a shift by the
whole word or more stops the machine. -/
def foldRound? {n : Nat} (size : Nat) (s : Gathering n n) : Option (Gathering n n) :=
  (shiftDown? s.rest size).map fun rest => ⟨rest, s.out ^^^ (s.rest &&& lowMask size)⟩

/-- A round of narrowing a digest: its lowest limb is gathered and shifted out. Where that would be
a shift by the whole digest or more, nothing is left. -/
def narrowRound? (w : Width) (s : Gathering 64 w.bits) : Option (Gathering 64 w.bits) :=
  some ⟨(shiftDown? s.rest w.bits).getD 0, s.out ^^^ s.rest.setWidth w.bits⟩

theorem shifted_lt {n size count : Nat} {v : BitVec n} (h : v.toNat < 2 ^ ((count + 1) * size)) :
    (v >>> size).toNat < 2 ^ (count * size) := by
  rw [BitVec.toNat_ushiftRight, Nat.shiftRight_eq_div_pow]
  refine Nat.div_lt_of_lt_mul ?_
  rw [← Nat.pow_add, Nat.add_comm, ← Nat.succ_mul]
  exact h

section
variable {m n size : Nat} {round? : Gathering m n → Option (Gathering m n)}
  {piece gathered : BitVec m → BitVec n}

theorem ends_of_nothing_left (hnone : gathered 0 = 0) {s : Gathering m n} (h : s.rest = 0) :
    s.Ends round? 0 (s.out ^^^ gathered s.rest) := by
  obtain ⟨rest, out⟩ := s
  obtain rfl : rest = 0 := h
  have hkept : out ^^^ gathered 0 = out := by
    rw [hnone]
    exact BitVec.xor_zero
  show Gathering.Ends round? ⟨0, out⟩ 0 (out ^^^ gathered 0)
  rw [hkept]
  exact .done out

/-- A loop ends that takes the digits off what is left one by one, and what it has gathered then is
what the pieces make together. -/
theorem ends_of_shifting
    (hround : ∀ s, round? s = some ⟨s.rest >>> size, s.out ^^^ piece s.rest⟩)
    (hnone : gathered 0 = 0) (hrest : ∀ v, gathered v = piece v ^^^ gathered (v >>> size))
    (count : Nat) :
    ∀ s : Gathering m n, s.rest.toNat < 2 ^ (count * size) →
      ∃ rounds ≤ count, s.Ends round? rounds (s.out ^^^ gathered s.rest) := by
  -- By induction on the number of digits that may be left.
  induction count with
  | zero =>
    intro s h
    have hzero : s.rest = 0 := BitVec.eq_of_toNat_eq (by simpa using h)
    exact ⟨0, Nat.le_refl 0, ends_of_nothing_left hnone hzero⟩
  | succ count ih =>
    intro s h
    by_cases hzero : s.rest = 0
    · exact ⟨0, Nat.zero_le _, ends_of_nothing_left hnone hzero⟩
    · have hless : (s.rest >>> size).toNat < 2 ^ (count * size) := shifted_lt h
      obtain ⟨rounds, hle, hends⟩ := ih ⟨s.rest >>> size, s.out ^^^ piece s.rest⟩ hless
      refine ⟨rounds + 1, Nat.succ_le_succ hle, .round hzero (hround s) ?_⟩
      rw [hrest s.rest, ← BitVec.xor_assoc]
      exact hends

theorem ends_from_start
    (hround : ∀ s, round? s = some ⟨s.rest >>> size, s.out ^^^ piece s.rest⟩)
    (hnone : gathered 0 = 0) (hrest : ∀ v, gathered v = piece v ^^^ gathered (v >>> size))
    {count : Nat} {v : BitVec m} (h : v.toNat < 2 ^ (count * size)) :
    ∃ rounds ≤ count, Gathering.Ends round? ⟨v, 0⟩ rounds (gathered v) := by
  obtain ⟨rounds, hle, hends⟩ := ends_of_shifting hround hnone hrest count ⟨v, 0⟩ h
  have hstart : 0 ^^^ gathered v = gathered v := BitVec.zero_xor
  rw [hstart] at hends
  exact ⟨rounds, hle, hends⟩

end

theorem foldRound?_eq {n size : Nat} (h : size < n) (s : Gathering n n) :
    foldRound? size s = some ⟨s.rest >>> size, s.out ^^^ (s.rest &&& lowMask size)⟩ := by
  rw [foldRound?, shiftDown?, if_pos h]
  rfl

theorem narrowRound?_eq (w : Width) (s : Gathering 64 w.bits) :
    narrowRound? w s = some ⟨s.rest >>> w.bits, s.out ^^^ s.rest.setWidth w.bits⟩ := by
  have hshift : (shiftDown? s.rest w.bits).getD 0 = s.rest >>> w.bits := by
    unfold shiftDown?
    split
    · rfl
    · next h =>
      -- A shift by the whole digest leaves nothing, as the loop has it.
      exact (ushiftRight_of_lt (Nat.lt_of_lt_of_le s.rest.isLt
        (Nat.pow_le_pow_right (by decide) (Nat.not_lt.mp h)))).symm
  rw [narrowRound?, hshift]

/-! ## Digits -/

/-- The xor of the first terms. -/
def xorSum (terms : Nat → Nat) : Nat → Nat
  | 0 => 0
  | count + 1 => xorSum terms count ^^^ terms count

theorem xorSum_succ (terms : Nat → Nat) (count : Nat) :
    xorSum terms (count + 1) = terms 0 ^^^ xorSum (fun i => terms (i + 1)) count := by
  induction count with
  | zero => exact Nat.xor_comm _ _
  | succ count ih => rw [xorSum, ih, xorSum, Nat.xor_assoc]

theorem toNat_xorDigits {n size : Nat} (pos : 0 < size) (h : size < n) (count : Nat) :
    ∀ v : BitVec n, v.toNat < 2 ^ (count * size) →
      (xorDigits size pos v).toNat =
        xorSum (fun i => v.toNat >>> (i * size) % 2 ^ size) count := by
  induction count with
  | zero =>
    intro v hv
    have hzero : v = 0 := BitVec.eq_of_toNat_eq (by simpa using hv)
    subst hzero
    exact congrArg BitVec.toNat (xorDigits_zero pos)
  | succ count ih =>
    intro v hv
    have hshift : ∀ i, v.toNat >>> size >>> (i * size) = v.toNat >>> ((i + 1) * size) := by
      intro i
      rw [← Nat.shiftRight_add, Nat.succ_mul, Nat.add_comm]
    rw [xorDigits_eq, BitVec.toNat_xor, toNat_and_lowMask v h, ih _ (shifted_lt hv),
      xorSum_succ, BitVec.toNat_ushiftRight]
    simp only [hshift, Nat.zero_mul, Nat.shiftRight_zero]
    rfl

/-! ## Limbs -/

/-- The sixteen bits of a digest from a place on. -/
def limb (d : BitVec 64) (start : Nat) : Word .short := d.extractLsb' start 16

theorem narrow_short_shifted (d : BitVec 64) (start : Nat) :
    narrow .short (d >>> start) = limb d start ^^^ narrow .short (d >>> (start + 16)) := by
  have hlimb : (d >>> start).setWidth Width.short.bits = limb d start := by
    apply BitVec.eq_of_toNat_eq
    simp [limb, Width.bits]
  rw [narrow_eq, hlimb, BitVec.shiftRight_add]
  rfl

/-- A digest narrowed to a short word is the xor of its four limbs. -/
theorem narrow_short (d : BitVec 64) :
    narrow .short d = limb d 0 ^^^ limb d 16 ^^^ limb d 32 ^^^ limb d 48 := by
  have hlast : limb d 48 ^^^ narrow .short (d >>> 64) = limb d 48 := by
    rw [ushiftRight_of_lt d.isLt, narrow_zero]
    exact BitVec.xor_zero
  calc narrow .short d = narrow .short (d >>> 0) := by rw [BitVec.ushiftRight_zero]
    _ = limb d 0 ^^^ (limb d 16 ^^^ (limb d 32 ^^^ (limb d 48 ^^^ narrow .short (d >>> 64)))) := by
        rw [narrow_short_shifted d 0, narrow_short_shifted d 16, narrow_short_shifted d 32,
          narrow_short_shifted d 48]
    _ = limb d 0 ^^^ limb d 16 ^^^ limb d 32 ^^^ limb d 48 := by
        rw [hlast, BitVec.xor_assoc, BitVec.xor_assoc]

theorem narrow_xor (w : Width) (d e : BitVec 64) :
    narrow w (d ^^^ e) = narrow w d ^^^ narrow w e :=
  gathered_xor w.bits_pos (narrow_zero w) (narrow_eq w) (fun _ _ => BitVec.setWidth_xor) d e

/-! ## Both loops end with what folding is -/

theorem fold_ends {n size : Nat} (pos : 0 < size) (h : size < n) (v : BitVec n) :
    ∃ rounds, rounds * size < n + size ∧
      Gathering.Ends (foldRound? size) ⟨v, 0⟩ rounds (fold v size) := by
  -- As many digits as cover the word, with the last one perhaps reaching over its end.
  obtain ⟨count, hcover, hleast⟩ : ∃ count, n ≤ count * size ∧ count * size < n + size := by
    have hdiv := Nat.lt_div_mul_add pos (a := n + size - 1)
    have hmul := Nat.div_mul_le_self (n + size - 1) size
    exact ⟨(n + size - 1) / size, by omega, by omega⟩
  have hv : v.toNat < 2 ^ (count * size) :=
    Nat.lt_of_lt_of_le v.isLt (Nat.pow_le_pow_right (by decide) hcover)
  obtain ⟨rounds, hle, hends⟩ :=
    ends_from_start (foldRound?_eq h) (xorDigits_zero pos) (xorDigits_eq pos) hv
  refine ⟨rounds, Nat.lt_of_le_of_lt (Nat.mul_le_mul_right size hle) hleast, ?_⟩
  rw [fold_eq_xorDigits pos h]
  exact hends

theorem narrow_ends (w : Width) (d : BitVec 64) :
    ∃ rounds, rounds * w.bits ≤ 64 ∧
      Gathering.Ends (narrowRound? w) ⟨d, 0⟩ rounds (narrow w d) := by
  have hcover : 64 / w.bits * w.bits = 64 := by cases w <;> rfl
  have hd : d.toNat < 2 ^ (64 / w.bits * w.bits) := hcover.symm ▸ d.isLt
  obtain ⟨rounds, hle, hends⟩ :=
    ends_from_start (narrowRound?_eq w) (narrow_zero w) (narrow_eq w) hd
  exact ⟨rounds, hcover ▸ Nat.mul_le_mul_right w.bits hle, hends⟩

/-! ## What folding is -/

/-- Folding a word into fewer bits than it has ends after at most as many rounds as it has digits
of that size, and gives the xor of all its digits. The result fits, words that fit are kept, so
folding once more changes nothing, and folding the xor of two words is the xor of their folds.
Narrowing a digest ends as well: it is the digest itself on long traces and the xor of its four
limbs on short ones, and takes xors to xors. -/
theorem folding_projects (w : Width) :
    (∀ size : Nat, 0 < size → size < w.bits → ∀ v : Word w,
      (∃ rounds, rounds * size < w.bits + size ∧
        Gathering.Ends (foldRound? size) ⟨v, 0⟩ rounds (fold v size)) ∧
      (∀ count, w.bits ≤ count * size →
        (fold v size).toNat = xorSum (fun i => v.toNat >>> (i * size) % 2 ^ size) count) ∧
      (fold v size).toNat < 2 ^ size ∧
      (v.toNat < 2 ^ size → fold v size = v) ∧
      fold (fold v size) size = fold v size ∧
      ∀ u : Word w, fold (v ^^^ u) size = fold v size ^^^ fold u size) ∧
    ∀ d : BitVec 64,
      (∃ rounds, rounds * w.bits ≤ 64 ∧
        Gathering.Ends (narrowRound? w) ⟨d, 0⟩ rounds (narrow w d)) ∧
      narrow .long d = d ∧
      narrow .short d = limb d 0 ^^^ limb d 16 ^^^ limb d 32 ^^^ limb d 48 ∧
      ∀ e : BitVec 64, narrow w (d ^^^ e) = narrow w d ^^^ narrow w e := by
  refine ⟨fun size pos h v => ?_, fun d => ?_⟩
  · have hfits : (fold v size).toNat < 2 ^ size := fold_lt v h
    refine ⟨fold_ends pos h v, fun count hcover => ?_, hfits, fun hv => fold_of_lt pos hv,
      fold_of_lt pos hfits, fun u => fold_xor v u size⟩
    rw [fold_eq_xorDigits pos h]
    exact toNat_xorDigits pos h count v
      (Nat.lt_of_lt_of_le v.isLt (Nat.pow_le_pow_right (by decide) hcover))
  · exact ⟨narrow_ends w d, narrow_long d, narrow_short d, narrow_xor w d⟩

/-- A short word has three digits of five bits and one bit that is left over. -/
theorem folding_projects_uneven :
    0 < 5 ∧ 5 < Width.short.bits ∧ fold (0xbeef : Word .short) 5 = 22 ∧
      fold (22 : Word .short) 5 = 22 ∧
      ∃ rounds, rounds * 5 < 21 ∧
        Gathering.Ends (foldRound? 5) ⟨(0xbeef : Word .short), 0⟩ rounds 22 := by
  obtain ⟨hends, hsum, -, -, hagain, -⟩ :=
    (folding_projects .short).1 5 (by decide) (by decide) 0xbeef
  have hvalue : fold (0xbeef : Word .short) 5 = 22 :=
    BitVec.eq_of_toNat_eq ((hsum 4 (by decide)).trans (by decide))
  rw [hvalue] at hends hagain
  exact ⟨by decide, by decide, hvalue, hagain, hends⟩

end Aggregate
