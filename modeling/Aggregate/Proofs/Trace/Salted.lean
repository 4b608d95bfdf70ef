import Aggregate.Proofs.Trace.Path
import Aggregate.Proofs.Trace.Folding

/-
  What a salted hash tells

  The salt of a hash stands above the frames while they leave room, so the frames
  can be read off the hash (`salted_frames`), and so can a salt that fits there
  (`salted_salt`). Once the frames fill the word the salt lies over them, and only
  the same salt tells the same frames (`salted_same`).

  `salted_pushed` is what this says of two values pushed in each other's place.
-/

namespace Aggregate

section
variable {n used : Nat} {hash salt : BitVec n}

theorem xor_shiftLeft (h : hash.toNat < Nat.pow 2 used) (salt : BitVec n) :
    hash ^^^ salt <<< used = hash ||| salt <<< used := by
  apply BitVec.eq_of_getLsbD_eq
  intro k hk
  rw [BitVec.getLsbD_xor, BitVec.getLsbD_or, BitVec.getLsbD_shiftLeft]
  by_cases hlow : k < used
  · simp [hlow]
  · rw [getLsbD_of_lt h (Nat.le_of_not_lt hlow), Bool.false_xor, Bool.false_or]

theorem placed_eq (h : hash.toNat < Nat.pow 2 used) (hused : used < n)
    (hsalt : salt.toNat < Nat.pow 2 (n - used)) :
    hash ^^^ salt.rotateLeft used = hash ||| salt <<< used := by
  rw [rotateLeft_of_lt hsalt hused (by omega)]
  exact xor_shiftLeft h salt

theorem shiftLeft_eq_iff {a b : BitVec n} {k : Nat} (h : k ≤ n) :
    a <<< k = b <<< k ↔ a.toNat % 2 ^ (n - k) = b.toNat % 2 ^ (n - k) := by
  have hshift : ∀ v : BitVec n, (v <<< k).toNat = v.toNat % 2 ^ (n - k) * 2 ^ k := by
    intro v
    have hwidth : 2 ^ n = 2 ^ (n - k) * 2 ^ k := by rw [← Nat.pow_add, Nat.sub_add_cancel h]
    rw [BitVec.toNat_shiftLeft, Nat.shiftLeft_eq, hwidth, Nat.mul_mod_mul_right]
  rw [← BitVec.toNat_inj, hshift, hshift]
  exact Nat.mul_left_inj (Nat.pos_iff_ne_zero.mp (Nat.two_pow_pos k))

theorem salted_low (h : hash.toNat < Nat.pow 2 used) :
    (hash ||| salt <<< used) &&& lowMask used = hash := by
  apply BitVec.eq_of_getLsbD_eq
  intro k hk
  rw [BitVec.getLsbD_and, BitVec.getLsbD_or, BitVec.getLsbD_shiftLeft, getLsbD_lowMask]
  by_cases hlow : k < used
  · simp [hlow, hk]
  · rw [getLsbD_of_lt h (Nat.le_of_not_lt hlow)]
    simp [hlow]

theorem salted_high (h : hash.toNat < Nat.pow 2 used) (hused : used < n)
    (hsalt : salt.toNat < Nat.pow 2 (n - used)) : (hash ||| salt <<< used) >>> used = salt := by
  have hback : salt <<< used >>> used = salt := by
    apply BitVec.eq_of_toNat_eq
    have hroom : salt.toNat * 2 ^ used < 2 ^ n := by
      calc salt.toNat * 2 ^ used < 2 ^ (n - used) * 2 ^ used :=
            Nat.mul_lt_mul_of_pos_right hsalt (Nat.two_pow_pos used)
        _ = 2 ^ n := by rw [← Nat.pow_add, Nat.sub_add_cancel (Nat.le_of_lt hused)]
    rw [BitVec.toNat_ushiftRight, BitVec.toNat_shiftLeft, Nat.shiftLeft_eq,
      Nat.mod_eq_of_lt hroom, Nat.shiftRight_eq_div_pow,
      Nat.mul_div_cancel _ (Nat.two_pow_pos used)]
  rw [BitVec.ushiftRight_or_distrib, ushiftRight_of_lt h, hback, BitVec.zero_or]

theorem rotateLeft_inj {a b : BitVec n} {k : Nat} (hk : k < n) :
    a.rotateLeft k = b.rotateLeft k ↔ a = b := by
  refine ⟨fun h => BitVec.eq_of_getLsbD_eq fun i hi => ?_, fun h => by rw [h]⟩
  have hbit : ∀ j, (a.rotateLeft k).getLsbD j = (b.rotateLeft k).getLsbD j := by rw [h]; simp
  simp only [BitVec.getLsbD_rotateLeft, Nat.mod_eq_of_lt hk] at hbit
  by_cases hwrap : i + k < n
  · have hup := hbit (i + k)
    simpa [show ¬ i + k < k by omega, hwrap, hi] using hup
  · have hdown := hbit (i + k - n)
    simpa [show i + k - n < k by omega, show n - k + (i + k - n) = i by omega, hi] using hdown

end

variable {w : Width}

namespace Trace

theorem salted_zero (t : Trace w) : t.salted 0 = t.hash := by
  rw [salted]
  split
  · have hrotate : (0#w.bits).rotateLeft t.offset = 0#w.bits := by simp [BitVec.rotateLeft_def]
    exact (congrArg (t.hash ^^^ ·) hrotate).trans BitVec.xor_zero
  · have hshift : 0#w.bits <<< t.used = 0#w.bits := BitVec.zero_shiftLeft t.used
    exact (congrArg (t.hash ||| ·) hshift).trans BitVec.or_zero

/-- A reporting build warns of the salts that do not fit above the frames. -/
theorem saltWarnings_eq (t : Trace w) (salt : Word w) :
    t.saltWarnings salt =
      if t.isSaturated = false ∧ 2 ^ (w.bits - t.used) ≤ salt.toNat then
        [.saltTruncated salt.toNat t.used]
      else [] := by
  have hmask : lowMask (w.bits - t.used) < salt ↔ 2 ^ (w.bits - t.used) ≤ salt.toNat := by
    rw [← BitVec.not_le, le_lowMask_iff (Nat.sub_le _ _), Nat.not_lt]
    rfl
  simp only [saltWarnings, Bool.and_eq_true, Bool.not_eq_true', decide_eq_true_iff, hmask]

end Trace

namespace Path

variable {p q : Path w} {s t : Word w}

theorem salted_room (hroom : p.size < w.bits) :
    p.trace.salted s = p.trace.hash ||| s <<< p.size := by
  rw [Trace.salted, Trace.isSaturated, trace_used, decide_eq_false (Nat.not_le.mpr hroom)]
  rfl

theorem salted_full (hfull : w.bits ≤ p.size) :
    p.trace.salted s = p.trace.hash ^^^ s.rotateLeft (p.size % w.bits) := by
  rw [Trace.salted, Trace.isSaturated, trace_used, decide_eq_true hfull]
  rfl

/-- A salt that fits, or that lies over a full word, stands where a frame for it would be pushed. -/
theorem salted_eq_hash {size : Nat} (hfold : fold s size = s)
    (h : w.bits ≤ p.size ∨ s.toNat < Nat.pow 2 (w.bits - p.size)) :
    p.trace.salted s = (trace (⟨s, size⟩ :: p)).hash := by
  show _ = p.trace.hash ^^^ (fold s size).rotateLeft (p.size % w.bits)
  rw [hfold]
  rcases Nat.lt_or_ge p.size w.bits with hroom | hfull
  · have hsalt := h.resolve_left (Nat.not_le.mpr hroom)
    rw [salted_room hroom, Nat.mod_eq_of_lt hroom]
    exact (placed_eq (p.hash_lt hroom) hroom hsalt).symm
  · exact salted_full hfull

theorem salted_inj_full (hfull : w.bits ≤ p.size) :
    p.trace.salted s = p.trace.salted t ↔ s = t := by
  rw [salted_full hfull, salted_full hfull, BitVec.xor_right_inj,
    rotateLeft_inj (Nat.mod_lt _ w.bits_pos)]

theorem salted_inj_room (hroom : p.size < w.bits) :
    p.trace.salted s = p.trace.salted t ↔
      s.toNat % 2 ^ (w.bits - p.size) = t.toNat % 2 ^ (w.bits - p.size) := by
  have hhash := p.hash_lt hroom
  rw [salted_room hroom, salted_room hroom, ← xor_shiftLeft hhash, ← xor_shiftLeft hhash,
    BitVec.xor_right_inj, shiftLeft_eq_iff (Nat.le_of_lt hroom)]

theorem salted_frames (hsize : p.size = q.size) (hroom : p.size < w.bits)
    (h : p.trace.salted s = q.trace.salted t) : p.trace.hash = q.trace.hash := by
  have hroom' : q.size < w.bits := hsize ▸ hroom
  rw [salted_room hroom, salted_room hroom'] at h
  calc p.trace.hash = (p.trace.hash ||| s <<< p.size) &&& lowMask p.size :=
        (salted_low (p.hash_lt hroom)).symm
    _ = (q.trace.hash ||| t <<< q.size) &&& lowMask q.size := by rw [h, hsize]
    _ = q.trace.hash := salted_low (q.hash_lt hroom')

theorem salted_salt (hsize : p.size = q.size) (hroom : p.size < w.bits)
    (hs : s.toNat < Nat.pow 2 (w.bits - p.size)) (ht : t.toNat < Nat.pow 2 (w.bits - p.size))
    (h : p.trace.salted s = q.trace.salted t) : s = t := by
  have hroom' : q.size < w.bits := hsize ▸ hroom
  rw [salted_room hroom, salted_room hroom'] at h
  calc s = (p.trace.hash ||| s <<< p.size) >>> p.size :=
        (salted_high (p.hash_lt hroom) hroom hs).symm
    _ = (q.trace.hash ||| t <<< q.size) >>> q.size := by rw [h, hsize]
    _ = t := salted_high (q.hash_lt hroom') hroom' (hsize ▸ ht)

/-- The same salt tells the same frames, also once they fill the word. -/
theorem salted_same (hsize : p.size = q.size) :
    p.trace.salted s = q.trace.salted s ↔ p.trace.hash = q.trace.hash := by
  rcases Nat.lt_or_ge p.size w.bits with hroom | hfull
  · refine ⟨salted_frames hsize hroom, fun h => ?_⟩
    rw [salted_room hroom, salted_room (hsize ▸ hroom), h, hsize]
  · rw [salted_full hfull, salted_full (hsize ▸ hfull), hsize]
    exact BitVec.xor_left_inj _

/-- Of two values pushed in each other's place the hash tells what it tells of their folds. -/
theorem salted_pushed (p : Path w) (a b : Word w) (size : Nat) (s : Word w) :
    (trace (⟨a, size⟩ :: p)).salted s = (trace (⟨b, size⟩ :: p)).salted s ↔
      fold a size = fold b size := by
  have hoffset : p.size % w.bits < w.bits := Nat.mod_lt _ w.bits_pos
  rw [salted_same (by simp)]
  show p.trace.hash ^^^ (fold a size).rotateLeft _ = p.trace.hash ^^^ (fold b size).rotateLeft _ ↔ _
  rw [BitVec.xor_right_inj, rotateLeft_inj hoffset]

end Path

end Aggregate
