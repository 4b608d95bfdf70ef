/-
  Words of a trace

  A build keeps its trace hashes in words of 16 or of 64 bits. This module
  holds the two widths and the two ways a value is squeezed into fewer bits
  than it has: `fold`, which xors the digits of a word together, and `narrow`,
  which xors the limbs of a 64-bit digest together. Both walk the value from
  its low end and stop as soon as nothing is left, so both end on every input.
-/

namespace Aggregate

inductive Width where
  | short
  | long
  deriving DecidableEq, Repr

def Width.bits : Width → Nat
  | .short => 16
  | .long => 64

/-- Bits that the frame of a short tag takes. -/
def Width.frameBits : Width → Nat
  | .short => 4
  | .long => 8

/-- A trace hash, a tag or a key. -/
abbrev Word (w : Width) := BitVec w.bits

theorem Width.bits_pos (w : Width) : 0 < w.bits := by cases w <;> decide

theorem Width.frameBits_pos (w : Width) : 0 < w.frameBits := by cases w <;> decide

theorem Width.frameBits_lt_bits (w : Width) : w.frameBits < w.bits := by cases w <;> decide

/-- A shift by a positive amount makes a word other than zero smaller. -/
theorem toNat_ushiftRight_lt {n : Nat} {v : BitVec n} {k : Nat} (hk : 0 < k) (hv : v ≠ 0) :
    (v >>> k).toNat < v.toNat := by
  rw [BitVec.toNat_ushiftRight, Nat.shiftRight_eq_div_pow]
  exact Nat.div_lt_self (Nat.pos_of_ne_zero fun h => hv (BitVec.eq_of_toNat_eq (by simpa using h)))
    (Nat.one_lt_two_pow (Nat.pos_iff_ne_zero.mp hk))

/-- The word whose lowest `size` bits are set. -/
def lowMask {n : Nat} (size : Nat) : BitVec n :=
  if n ≤ size then BitVec.allOnes n else BitVec.ofNat n (Nat.pow 2 size - 1)

/-- Xor of the digits of `v` in base `2 ^ size`, lowest first, until the rest is zero. -/
def xorDigits {n : Nat} (size : Nat) (pos : 0 < size) (v : BitVec n) : BitVec n :=
  if h : v = 0 then 0
  else (v &&& lowMask size) ^^^ xorDigits size pos (v >>> size)
termination_by v.toNat
decreasing_by exact toNat_ushiftRight_lt pos h

/-- The word xor-folded into its lowest `size` bits; a size of the whole width keeps it. -/
def fold {n : Nat} (v : BitVec n) (size : Nat) : BitVec n :=
  if n ≤ size then v
  else if h : size = 0 then 0
  else xorDigits size (Nat.pos_of_ne_zero h) v

/-- A 64-bit digest folded into the width of a trace: the xor of its limbs, lowest first. -/
def narrow (w : Width) (digest : BitVec 64) : Word w :=
  if _ : digest = 0 then 0
  else digest.setWidth w.bits ^^^ narrow w (digest >>> w.bits)
termination_by digest.toNat
decreasing_by exact toNat_ushiftRight_lt w.bits_pos ‹_›

end Aggregate
