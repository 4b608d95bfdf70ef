import Aggregate.Proofs.Trace.Iteration
import Aggregate.Proofs.Trace.Restoration

/-
  What the hash tells of sibling regions

  Regions opened over the same trace, one instead of the other, have their frames
  in the same place. Whatever lies below them, and whatever the salt, the hash
  tells two of them apart exactly if their frames do, that is if their values have
  different folds (`siblings_told`). A key fills its frame, so keys are told apart
  if they differ at all. Tags and counters are so if they agree in all but their
  lowest digit (`fold_inj_of_block`), and otherwise as far as the fold goes.
-/

namespace Aggregate

/-! ## Folds that differ -/

section
variable {n size : Nat} {a b : BitVec n}

theorem fold_inj_of_block (pos : 0 < size) (h : a.toNat / 2 ^ size = b.toNat / 2 ^ size) :
    fold a size = fold b size ↔ a = b := by
  refine ⟨fun hfold => ?_, fun h => by rw [h]⟩
  have hhigh : a >>> size = b >>> size := by
    apply BitVec.eq_of_toNat_eq
    rw [BitVec.toNat_ushiftRight, BitVec.toNat_ushiftRight, Nat.shiftRight_eq_div_pow,
      Nat.shiftRight_eq_div_pow, h]
  -- The difference lies within the digit, and there folding changes nothing.
  have hdiff : (a ^^^ b) >>> size = 0#n := by
    rw [BitVec.ushiftRight_xor_distrib, hhigh, BitVec.xor_self]
  have hlt : (a ^^^ b).toNat < Nat.pow 2 size := by
    have hzero : (a ^^^ b).toNat / 2 ^ size = 0 := by
      rw [← Nat.shiftRight_eq_div_pow, ← BitVec.toNat_ushiftRight, hdiff, BitVec.toNat_zero]
    exact (Nat.div_eq_zero_iff_lt (Nat.two_pow_pos size)).mp hzero
  rw [fold_eq_iff, fold_of_lt pos hlt] at hfold
  exact BitVec.xor_eq_zero_iff.mp hfold

end

variable {w : Width}

/-! ## Operations that push -/

/-- The value that a region is opened with, and the size of its frame. -/
def Region.pushes? : Region w → Option (Word w × Nat)
  | .call value | .apply value | .cycle value => some (value, w.frameBits)
  | .key value => some (value, w.bits)
  | .reset => none

/-- The value that an operation pushes, and the size of its frame. -/
def Operation.pushes? : Operation w → Option (Word w × Nat)
  | .act action => action.pushes?
  | .enter region => region.pushes?
  | .leave | .unwind | .observe => none

/-- The hash, with a salt, after one more operation. -/
def Context.hashAfter (reporting : Bool) (salt : Word w) (op : Operation w) (c : Context w) :
    Word w :=
  (op.perform reporting c).trace.salted salt

section
variable {c : Context w} {s : Shadow w} {op op' : Operation w} {value a b : Word w} {size : Nat}

theorem pushes_size (h : op.pushes? = some (value, size)) : size = w.frameBits ∨ size = w.bits := by
  cases op with
  | act action => cases action <;> cases h <;> simp
  | enter region => cases region <;> cases h <;> simp
  | leave | unwind | observe => cases h

theorem pushes_path (h : op.pushes? = some (value, size)) (s : Shadow w) :
    (s.perform op).path = ⟨value, size⟩ :: s.path := by
  cases op with
  | act action => cases action <;> cases h <;> rfl
  | enter region => cases region <;> cases h <;> rfl
  | leave | unwind | observe => cases h

theorem pushes_trace (reporting : Bool) (h : c.Follows s)
    (room : s.path.size + w.bits < Trace.sizeLimit) (hop : op.pushes? = some (value, size)) :
    (op.perform reporting c).trace = Path.trace (⟨value, size⟩ :: s.path) := by
  have hsize : size ≤ w.bits := by
    rcases pushes_size hop with rfl | rfl
    · exact Nat.le_of_lt w.frameBits_lt_bits
    · exact Nat.le_refl _
  have hpath := pushes_path hop s
  have hfits : (s.perform op).Fits := by
    rw [Shadow.Fits, hpath, Path.size_cons]
    show size + s.path.size < Trace.sizeLimit
    omega
  rw [(follows_perform h hfits).trace, hpath]

theorem hashAfter_eq_iff (reporting : Bool) (h : c.Follows s)
    (room : s.path.size + w.bits < Trace.sizeLimit) (hop : op.pushes? = some (a, size))
    (hop' : op'.pushes? = some (b, size)) (salt : Word w) :
    c.hashAfter reporting salt op = c.hashAfter reporting salt op' ↔ fold a size = fold b size := by
  rw [Context.hashAfter, Context.hashAfter, pushes_trace reporting h room hop,
    pushes_trace reporting h room hop']
  exact Path.salted_pushed s.path a b size salt

/-- A cycle opened at a counter and then moved on has the frame of the counter it has come to. -/
theorem moved_trace (reporting : Bool) (h : c.Follows s)
    (room : s.path.size + w.bits < Trace.sizeLimit) (start n : Word w) :
    (Operation.perform reporting (.act (.add n))
        (Operation.perform reporting (.enter (.cycle start)) c)).trace =
      Path.trace (⟨start + n, w.frameBits⟩ :: s.path) := by
  have hbits := w.frameBits_lt_bits
  have hroom : w.frameBits + s.path.size < Trace.sizeLimit := by omega
  have hopened : (s.perform (.enter (.cycle start))).Fits := hroom
  have hmoved : (s.perform (.enter (.cycle start))).perform (.act (.add n)) =
      ⟨⟨start + n, w.frameBits⟩ :: s.path, .cycle (s.path.length + 1) (start + n) :: s.scopes,
        s.slots⟩ := rewrite_path (s := s.enter (.cycle start)) (· + n) rfl rfl
  have hfits : ((s.perform (.enter (.cycle start))).perform (.act (.add n))).Fits := by
    rw [hmoved]
    exact hroom
  rw [(follows_perform (follows_perform h hopened) hfits).trace, hmoved]

end

/-! ## Siblings -/

/-- After every run from the empty trace that leaves room for one more frame, and with every salt:
two values pushed as short frames in each other's place, as a tag, as a call or as the counter of a
cycle, give the same hash exactly if they have the same fold, so not if they differ in their lowest
digit only; two values pushed as keys give the same hash only if they are the same; and a cycle
shows the same hash at two counters exactly if these have the same fold. -/
theorem siblings_told (reporting : Bool) (ops : List (Operation w)) (a b salt : Word w)
    (fits : Shadow.new.FitsAlong ops)
    (room : (Shadow.new.operate ops).path.size + w.bits < Trace.sizeLimit) :
    let c := (Context.onTrace .empty).operate reporting ops
    (∀ op op' : Operation w, op.pushes? = some (a, w.frameBits) →
      op'.pushes? = some (b, w.frameBits) →
        (c.hashAfter reporting salt op = c.hashAfter reporting salt op' ↔
          fold a w.frameBits = fold b w.frameBits) ∧
        (a.toNat / 2 ^ w.frameBits = b.toNat / 2 ^ w.frameBits →
          (c.hashAfter reporting salt op = c.hashAfter reporting salt op' ↔ a = b))) ∧
    (∀ op op' : Operation w, op.pushes? = some (a, w.bits) → op'.pushes? = some (b, w.bits) →
      (c.hashAfter reporting salt op = c.hashAfter reporting salt op' ↔ a = b)) ∧
    ∀ start n m : Word w, start + n = a → start + m = b →
      let cycle := Operation.perform reporting (.enter (.cycle start)) c
      (cycle.hashAfter reporting salt (.act (.add n)) =
          cycle.hashAfter reporting salt (.act (.add m)) ↔
        fold a w.frameBits = fold b w.frameBits) := by
  intro c
  have hfollows : c.Follows (Shadow.new.operate ops) := follows_operate ops follows_new fits
  refine ⟨fun op op' hop hop' => ?_, fun op op' hop hop' => ?_, fun start n m ha hb => ?_⟩
  · have htold := hashAfter_eq_iff reporting hfollows room hop hop' salt
    exact ⟨htold, fun hblock => htold.trans (fold_inj_of_block w.frameBits_pos hblock)⟩
  · rw [hashAfter_eq_iff reporting hfollows room hop hop' salt, fold_width, fold_width]
  · intro cycle
    rw [Context.hashAfter, Context.hashAfter, moved_trace reporting hfollows room,
      moved_trace reporting hfollows room, ha, hb]
    exact Path.salted_pushed _ a b w.frameBits salt

/-- A key, and a cycle that is stepped over it. -/
def underKey : List (Operation .short) :=
  [.act (.pushWide 0xBEEF), .enter (.cycle 127), .act .advance]

/-- A call with the tag 0x13 reads as a cycle at 2 there, but not as one at 0x12. -/
theorem siblings_told_underKey :
    let c := (Context.onTrace .empty).operate true underKey
    c.hashAfter true 5 (.enter (.call 0x13)) = c.hashAfter true 5 (.enter (.cycle 2)) ∧
      c.hashAfter true 5 (.enter (.call 0x13)) ≠ c.hashAfter true 5 (.enter (.cycle 0x12)) := by
  intro c
  have hfits : Shadow.new.FitsAlong underKey := by decide
  have hroom : (Shadow.new.operate underKey).path.size + Width.short.bits < Trace.sizeLimit := by
    decide
  have htold := (siblings_told true underKey 0x13 2 5 hfits hroom).1
    (.enter (.call 0x13)) (.enter (.cycle 2)) rfl rfl
  have hblock := (siblings_told true underKey 0x13 0x12 5 hfits hroom).1
    (.enter (.call 0x13)) (.enter (.cycle 0x12)) rfl rfl
  refine ⟨htold.1.mpr (by cbv), fun hsame => ?_⟩
  exact absurd ((hblock.2 (by decide)).mp hsame) (by decide)

end Aggregate
