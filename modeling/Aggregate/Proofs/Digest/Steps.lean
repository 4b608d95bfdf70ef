import Aggregate.Digest
import Aggregate.Proofs.Places

/-
  A digest carries a difference to its end

  A step of either digest xors the next word into the state and multiplies with
  an odd constant, which has an inverse, so a step is one to one in the word and
  in the state (`mul_inj_of_inverse`). Hence a difference in one place of what is
  digested makes the states differ there, and no later step brings them together
  again (`foldl_ne`). What a long trace makes of a digest is the digest itself
  (`narrow_long`).
-/

namespace Aggregate

/-! ## Lists that differ in one place -/

section
variable {α β : Type} {xs ys : List α}

/-- Lists of one length that have different members in exactly one place. -/
def DifferInOne (xs ys : List α) : Prop :=
  xs.length = ys.length ∧ ∃ k : Nat, xs[k]? ≠ ys[k]? ∧ ∀ i : Nat, i ≠ k → xs[i]? = ys[i]?

theorem differInOne_iff :
    DifferInOne xs ys ↔
      ∃ before a b after, xs = before ++ a :: after ∧ ys = before ++ b :: after ∧ a ≠ b := by
  constructor
  · rintro ⟨hlength, k, hk, hothers⟩
    -- The place lies within both lists: beyond their end they agree.
    have hlt : k < xs.length := by
      rcases Nat.lt_or_ge k xs.length with hlt | hge
      · exact hlt
      · exact absurd ((List.getElem?_eq_none hge).trans
          (List.getElem?_eq_none (hlength ▸ hge)).symm) hk
    obtain ⟨before, after, hsplit, hset⟩ := split_at (List.getElem?_eq_getElem hlt)
    have hlt' : k < ys.length := hlength ▸ hlt
    have hys : ys = xs.set k ys[k] := by
      refine List.ext_getElem? fun i => ?_
      rcases Nat.decEq i k with hne | rfl
      · rw [List.getElem?_set_ne (Ne.symm hne), hothers i hne]
      · rw [List.getElem?_set_self hlt, List.getElem?_eq_getElem]
    refine ⟨before, xs[k], ys[k], after, hsplit, hys.trans (hset _), fun heq => ?_⟩
    rw [List.getElem?_eq_getElem hlt, List.getElem?_eq_getElem hlt', heq] at hk
    exact hk rfl
  · rintro ⟨before, a, b, after, rfl, rfl, hne⟩
    refine ⟨by simp, before.length, by simpa using hne, fun i hi => ?_⟩
    rcases Nat.lt_or_gt_of_ne hi with hlt | hgt
    · rw [List.getElem?_append_left hlt, List.getElem?_append_left hlt]
    · obtain ⟨j, rfl⟩ := Nat.exists_eq_add_of_lt hgt
      rw [List.getElem?_append_right (by omega), List.getElem?_append_right (by omega),
        show before.length + j + 1 - before.length = j + 1 by omega, List.getElem?_cons_succ,
        List.getElem?_cons_succ]

theorem DifferInOne.append (h : DifferInOne xs ys) (rest : List α) :
    DifferInOne (xs ++ rest) (ys ++ rest) := by
  obtain ⟨before, a, b, after, rfl, rfl, hne⟩ := differInOne_iff.mp h
  exact differInOne_iff.mpr ⟨before, a, b, after ++ rest, by simp, by simp, hne⟩

theorem differInOne_singleton {a b : α} (h : a ≠ b) : DifferInOne [a] [b] :=
  differInOne_iff.mpr ⟨[], a, b, [], rfl, rfl, h⟩

theorem foldl_inj {step : β → α → β} (hstate : ∀ a s t, step s a = step t a → s = t) (xs : List α) :
    ∀ {s t : β}, xs.foldl step s = xs.foldl step t → s = t := by
  induction xs with
  | nil => exact fun h => h
  | cons a xs ih => exact fun h => hstate a _ _ (ih h)

/-- A difference in one place is carried to the end. -/
theorem foldl_ne {step : β → α → β} (hstate : ∀ a s t, step s a = step t a → s = t)
    {before after : List α} {a b : α} (hvalue : ∀ s, step s a ≠ step s b) (s : β) :
    (before ++ a :: after).foldl step s ≠ (before ++ b :: after).foldl step s := by
  rw [List.foldl_append, List.foldl_append, List.foldl_cons, List.foldl_cons]
  intro h
  exact hvalue _ (foldl_inj hstate after h)

end

/-! ## Steps -/

theorem mul_inj_of_inverse {n : Nat} {u v : BitVec n} (h : u * v = 1#n) (a b : BitVec n) :
    a * u = b * u ↔ a = b := by
  refine ⟨fun hab => ?_, fun hab => by rw [hab]⟩
  calc a = a * u * v := by rw [BitVec.mul_assoc, h, BitVec.mul_one]
    _ = b * u * v := by rw [hab]
    _ = b := by rw [BitVec.mul_assoc, h, BitVec.mul_one]

namespace Digest

theorem multiplier_inverse : multiplier * 0x2040003d780970bd#64 = 1#64 := by decide

theorem prime_inverse : prime * 0xce965057aff6957b#64 = 1#64 := by decide

theorem widened_inj {n : Nat} (h : n ≤ 64) {a b : BitVec n} :
    a.setWidth 64 = b.setWidth 64 ↔ a = b := by
  rw [← BitVec.toNat_inj, BitVec.toNat_setWidth_of_le h, BitVec.toNat_setWidth_of_le h,
    BitVec.toNat_inj]

theorem absorb_eq_iff (d e v w : BitVec 64) : absorb d v = absorb e w ↔ d ^^^ v = e ^^^ w :=
  mul_inj_of_inverse prime_inverse _ _

end Digest

/-! ## Limbs of a digest -/

theorem narrow_zero (w : Width) : narrow w 0#64 = 0#w.bits := by
  rw [narrow]
  exact dif_pos rfl

/-- The lowest limb and the others. This holds of zero as well. -/
theorem narrow_eq (w : Width) (d : BitVec 64) :
    narrow w d = d.setWidth w.bits ^^^ narrow w (d >>> w.bits) := by
  by_cases h : d = 0
  · subst h
    simp [narrow_zero]
  · conv =>
      lhs
      rw [narrow, dif_neg h]

theorem narrow_of_shifted {w : Width} {d : BitVec 64} (h : d >>> w.bits = 0#64) :
    narrow w d = d.setWidth w.bits := by
  rw [narrow_eq, h, narrow_zero, BitVec.xor_zero]

theorem narrow_long (d : BitVec 64) : narrow .long d = d := by
  have hrest : d >>> Width.long.bits = 0#64 := by
    apply BitVec.eq_of_toNat_eq
    rw [BitVec.toNat_ushiftRight, Nat.shiftRight_eq_div_pow]
    exact Nat.div_eq_of_lt d.isLt
  exact (narrow_of_shifted hrest).trans (BitVec.setWidth_eq d)

end Aggregate
