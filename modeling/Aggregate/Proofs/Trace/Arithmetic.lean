import Aggregate.Proofs.Trace.Path

/-
  Traces on a machine that checks its arithmetic

  The total size of the frames is a count of 32 bits and the hash a word, and a
  machine that checks its arithmetic stops where a sum passes the largest count,
  a difference passes below zero, or a word is shifted by its whole width or
  more. This module writes pushing, popping and reading the hash with every such
  step explicit, `none` standing for the stop, and proves that on the trace of a
  path none of them stops and that they give what the unchecked operations give
  (`pushFrame?_eq`, `pop?_eq`, `salted?_eq`).
-/

namespace Aggregate

/-! ## Checked steps -/

def countSum? (a b : Nat) : Option Nat := if a + b < Trace.sizeLimit then some (a + b) else none

/-- The difference of two counts, not below zero. -/
def countDifference? (a b : Nat) : Option Nat := if b ≤ a then some (a - b) else none

/-- The difference of two words, not below zero. -/
def wordDifference? {n : Nat} (a b : BitVec n) : Option (BitVec n) :=
  if b.toNat ≤ a.toNat then some (a - b) else none

/-- A word shifted up by less than its width. -/
def shiftUp? {n : Nat} (v : BitVec n) (k : Nat) : Option (BitVec n) :=
  if k < n then some (v <<< k) else none

def shiftDown? {n : Nat} (v : BitVec n) (k : Nat) : Option (BitVec n) :=
  if k < n then some (v >>> k) else none

/-- The word whose lowest `size` bits are set: one shifted up, less one. -/
def lowMask? {n : Nat} (size : Nat) : Option (BitVec n) :=
  if n ≤ size then some (BitVec.allOnes n)
  else (shiftUp? 1#n size).bind fun bit => wordDifference? bit 1#n

/-- Collect the digits of `rest` into `out` until nothing is left. -/
def collectDigits? {n : Nat} (size : Nat) (pos : 0 < size) (mask rest out : BitVec n) :
    Option (BitVec n) :=
  if _ : rest = 0 then some out
  else (shiftDown? rest size).bind fun _ =>
    collectDigits? size pos mask (rest >>> size) (out ^^^ (rest &&& mask))
termination_by rest.toNat
decreasing_by exact toNat_ushiftRight_lt pos ‹_›

/-- The word xor-folded into its lowest `size` bits. -/
def fold? {n : Nat} (v : BitVec n) (size : Nat) : Option (BitVec n) :=
  if n ≤ size then some v
  else if h : size = 0 then some 0
  else (lowMask? size).bind fun mask =>
    collectDigits? size (Nat.pos_of_ne_zero h) mask v 0

variable {w : Width}

/-- Push a value as a frame of the given size. A reporting build compares the value with the
mask of the frame and the new total size with the width first. -/
def Trace.pushFrame? (reporting : Bool) (t : Trace w) (value : Word w) (size : Nat) :
    Option (Trace w) := do
  let _ ← if reporting then (lowMask? size : Option (Word w)) else some 0
  let _ ← if reporting then countSum? t.used size else some 0
  let digits ← fold? value size
  let used ← countSum? t.used size
  let bits := digits.rotateLeft t.offset
  return ⟨t.hash ^^^ bits, used, ⟨bits, size⟩ :: t.frames⟩

/-- Remove the most recent frame, if there is one. -/
def Trace.pop? (t : Trace w) : Option (Trace w) :=
  match t.frames with
  | [] => some t
  | frame :: below => (countDifference? t.used frame.size).map fun used =>
    ⟨t.hash ^^^ frame.bits, used, below⟩

/-- The hash together with a salt. A reporting build compares the salt with the mask of the bits
above the frames first. -/
def Trace.salted? (reporting : Bool) (t : Trace w) (salt : Word w) : Option (Word w) :=
  if t.isSaturated then some (t.hash ^^^ salt.rotateLeft t.offset)
  else do
    let room ← if reporting then countDifference? w.bits t.used else some 0
    let _ ← if reporting then (lowMask? room : Option (Word w)) else some 0
    let above ← shiftUp? salt t.used
    return t.hash ||| above

/-! ## None of them stops -/

theorem lowMask?_eq {n : Nat} (size : Nat) :
    lowMask? size = some (lowMask size : BitVec n) := by
  rw [lowMask?]
  split
  · next h => rw [lowMask, if_pos h]
  · next h =>
    have hlt : size < n := Nat.not_le.mp h
    -- One shifted up by less than the width is still there, so the difference is not below zero.
    have hone : (1#n).toNat = 1 := by
      rw [BitVec.toNat_ofNat]
      exact Nat.mod_eq_of_lt (Nat.one_lt_two_pow (by omega))
    have hbit : (1#n <<< size).toNat = 2 ^ size := by
      rw [BitVec.toNat_shiftLeft, hone, Nat.one_shiftLeft]
      exact Nat.mod_eq_of_lt (Nat.pow_lt_pow_right (by decide) hlt)
    have hle : (1#n).toNat ≤ (1#n <<< size).toNat := by
      rw [hone, hbit]
      exact Nat.two_pow_pos size
    rw [shiftUp?, if_pos hlt, Option.bind_some]
    refine (if_pos hle).trans (congrArg some ?_)
    apply BitVec.eq_of_toNat_eq
    rw [BitVec.toNat_sub_of_le hle, hone, hbit, toNat_lowMask hlt]
    rfl

theorem collectDigits?_eq {n : Nat} {size : Nat} (pos : 0 < size) (h : size < n)
    (rest out : BitVec n) :
    collectDigits? size pos (lowMask size) rest out = some (out ^^^ xorDigits size pos rest) := by
  induction rest using xorDigits.induct size pos generalizing out with
  | case1 =>
    rw [collectDigits?, dif_pos rfl, xorDigits, dif_pos rfl]
    exact congrArg some (BitVec.xor_zero).symm
  | case2 rest hrest ih =>
    have hdigits : xorDigits size pos rest =
        (rest &&& lowMask size) ^^^ xorDigits size pos (rest >>> size) := by
      rw [xorDigits, dif_neg hrest]
    rw [collectDigits?, dif_neg hrest, shiftDown?, if_pos h, Option.bind_some, ih, hdigits,
      BitVec.xor_assoc]

theorem fold?_eq {n : Nat} (v : BitVec n) (size : Nat) : fold? v size = some (fold v size) := by
  rw [fold?, fold]
  split
  · rfl
  · next h =>
    split
    · rfl
    · next hs =>
      rw [lowMask?_eq, Option.bind_some,
        collectDigits?_eq (Nat.pos_of_ne_zero hs) (Nat.not_le.mp h)]
      exact congrArg some BitVec.zero_xor

theorem Trace.pushFrame?_eq (reporting : Bool) (t : Trace w) (value : Word w) {size : Nat}
    (h : t.used + size < Trace.sizeLimit) :
    t.pushFrame? reporting value size = some (t.pushFrame reporting value size).trace := by
  have hsum : countSum? t.used size = some (t.used + size) := if_pos h
  have hpush : (t.pushFrame reporting value size).trace =
      ⟨t.hash ^^^ t.placed value size, t.used + size, ⟨t.placed value size, size⟩ :: t.frames⟩ := by
    rw [Trace.pushFrame, if_pos h]
  rw [hpush, Trace.pushFrame?, fold?_eq, lowMask?_eq, hsum]
  cases reporting <;> rfl

theorem Trace.pop?_eq (t : Trace w) (h : t.used = total (t.frames.map Frame.size)) :
    t.pop? = some t.pop.trace := by
  rw [Trace.pop?, Trace.pop]
  cases hf : t.frames with
  | nil => rfl
  | cons frame below =>
    -- The frame on top is one of those that the total counts.
    have hle : frame.size ≤ t.used := by
      rw [h, hf, List.map_cons, total_cons]
      exact Nat.le_add_right _ _
    simp only [countDifference?, if_pos hle, Option.map_some]

theorem Trace.salted?_eq (reporting : Bool) (t : Trace w) (salt : Word w) :
    t.salted? reporting salt = some (t.salted salt) := by
  rw [Trace.salted?, Trace.salted]
  cases hs : t.isSaturated with
  | true => rfl
  | false =>
    have hlt : t.used < w.bits := by simpa [Trace.isSaturated] using hs
    have hroom : countDifference? w.bits t.used = some (w.bits - t.used) :=
      if_pos (Nat.le_of_lt hlt)
    have habove : shiftUp? salt t.used = some (salt <<< t.used) := if_pos hlt
    rw [hroom, habove]
    cases reporting with
    | false => rfl
    | true =>
      show (lowMask? (w.bits - t.used) : Option (Word w)).bind _ = _
      rw [lowMask?_eq]
      rfl

end Aggregate
