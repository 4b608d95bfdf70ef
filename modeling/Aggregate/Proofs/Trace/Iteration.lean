import Aggregate.Proofs.Trace.Shadow
import Aggregate.Proofs.Trace.Salted

/-
  Rounds of a cycle

  A cycle steps by replacing its frame with one for the next counter. The frame
  holds a fold of the counter, so the hash tells two rounds apart exactly if the
  fold does: which trace lies below, and which salt is asked for, does not matter
  (`stepped_salted`). From one round to the next it does not where the carry runs
  over pairs of digits of the fold (`Lost`). This happens first at the counter
  half-way through the second digit, and no shorter count meets it
  (`not_lost_of_lt`).
-/

namespace Aggregate

variable {w : Width}

/-! ## Cycles in their place -/

/-- The innermost scope is a cycle at the given counter, and its frame is on top. -/
def Shadow.AtCycle (s : Shadow w) (i : Word w) : Prop :=
  ∃ below outer, s.path = ⟨i, w.frameBits⟩ :: below ∧
    s.scopes = .cycle (below.length + 1) i :: outer

section
variable {s : Shadow w} {i : Word w}

theorem atCycle_enter (s : Shadow w) (start : Word w) :
    (s.enter (.cycle start)).AtCycle start := ⟨s.path, s.scopes, rfl, rfl⟩

theorem rewrite_path {below : Path w} {outer : List (Scope w)} (step : Word w → Word w)
    (hpath : s.path = ⟨i, w.frameBits⟩ :: below)
    (hscopes : s.scopes = .cycle (below.length + 1) i :: outer) :
    s.rewrite step = ⟨⟨step i, w.frameBits⟩ :: below, .cycle (below.length + 1) (step i) :: outer,
      s.slots⟩ := by
  simp only [Shadow.rewrite, hpath, hscopes, List.length_cons, if_true]

theorem stepped_salted {c : Context w} {reporting : Bool} (h : c.Follows s) (fits : s.Fits)
    (hcycle : s.AtCycle i) (step : Word w → Word w) (salt : Word w) :
    (c.rewrite reporting step).context.trace.salted salt = c.trace.salted salt ↔
      fold (step i) w.frameBits = fold i w.frameBits := by
  obtain ⟨below, outer, hpath, hscopes⟩ := hcycle
  have hrewrite := rewrite_path step hpath hscopes
  have hfits : (s.rewrite step).Fits := by
    rw [Shadow.Fits, hpath] at fits
    rw [hrewrite]
    exact fits
  have hstepped : (c.rewrite reporting step).context.Follows (s.rewrite step) :=
    follows_rewrite h hfits
  rw [hstepped.trace, h.trace, hrewrite, hpath]
  exact Path.salted_pushed below (step i) i w.frameBits salt

end

/-! ## Lost steps -/

/-- The counters whose next one has the same fold. -/
def Lost (i : Word w) : Prop :=
  ∃ t, Carries i.toNat t ∧ 2 * w.frameBits ∣ min t w.bits

theorem fold_succ_iff (i : Word w) :
    fold (i + 1) w.frameBits = fold i w.frameBits ↔ Lost i := by
  constructor
  · intro h
    obtain ⟨t, ht⟩ := exists_carries i.toNat
    exact ⟨t, ht, (fold_succ w.frameBits_pos w.frameBits_lt_bits ht).mp h⟩
  · rintro ⟨t, ht, hdvd⟩
    exact (fold_succ w.frameBits_pos w.frameBits_lt_bits ht).mpr hdvd

theorem fold_pred_iff (i : Word w) :
    fold (i - 1) w.frameBits = fold i w.frameBits ↔ Lost (i - 1) := by
  have hback : i - 1 + 1 = i := BitVec.sub_add_cancel i 1
  rw [← fold_succ_iff, hback, eq_comm]

/-- No step is lost before the counter has gone half-way through its second digit. -/
theorem not_lost_of_lt {i : Word w} (h : i.toNat + 1 < 2 ^ (2 * w.frameBits - 1)) : ¬ Lost i := by
  rintro ⟨t, ⟨hpos, hmod⟩, hdvd⟩
  have hbits : 2 * w.frameBits ≤ w.bits := by cases w <;> decide
  have hmin : 0 < min t w.bits := Nat.lt_min.mpr ⟨hpos, w.bits_pos⟩
  -- The carry would run over at least one pair of digits.
  have hlong : 2 * w.frameBits ≤ t := Nat.le_trans (Nat.le_of_dvd hmin hdvd) (Nat.min_le_left _ _)
  have hreach : 2 ^ (t - 1) ≤ i.toNat + 1 := hmod ▸ Nat.mod_le _ _
  have hleast : 2 ^ (2 * w.frameBits - 1) ≤ 2 ^ (t - 1) :=
    Nat.pow_le_pow_right (by decide) (by omega)
  omega

/-! ## The hashes of a run -/

section
variable {c : Context w} {s : Shadow w} {i : Word w} {reporting : Bool}

theorem advance_salted (h : c.Follows s) (fits : s.Fits) (hcycle : s.AtCycle i) (salt : Word w) :
    (Operation.perform reporting (.act .advance) c).trace.salted salt = c.trace.salted salt ↔
      Lost i := by
  rw [← fold_succ_iff]
  show (c.stepCycle reporting (· + 1)).context.trace.salted salt = _ ↔ _
  rw [stepCycle_context]
  exact stepped_salted h fits hcycle (· + 1) salt

theorem retreat_salted (h : c.Follows s) (fits : s.Fits) (hcycle : s.AtCycle i) (salt : Word w) :
    (Operation.perform reporting (.act .retreat) c).trace.salted salt = c.trace.salted salt ↔
      Lost (i - 1) := by
  rw [← fold_pred_iff]
  show (c.stepCycle reporting (· - 1)).context.trace.salted salt = _ ↔ _
  rw [stepCycle_context]
  exact stepped_salted h fits hcycle (· - 1) salt

end

/-- Over every run from the empty trace that fits, with a cycle open and its frame on top, and for
every salt: moving the cycle on leaves the hash as it was exactly if the counter is lost, and moving
it back exactly if the counter before it is. -/
theorem next_round_told (reporting : Bool) (ops : List (Operation w)) (i salt : Word w)
    (fits : Shadow.new.FitsAlong ops) (hcycle : (Shadow.new.operate ops).AtCycle i) :
    let c := (Context.onTrace .empty).operate reporting ops
    ((Operation.perform reporting (.act .advance) c).trace.salted salt = c.trace.salted salt ↔
        Lost i) ∧
      ((Operation.perform reporting (.act .retreat) c).trace.salted salt = c.trace.salted salt ↔
        Lost (i - 1)) := by
  intro c
  have hfollows : c.Follows (Shadow.new.operate ops) := follows_operate ops follows_new fits
  exact ⟨advance_salted hfollows fits.last hcycle salt,
    retreat_salted hfollows fits.last hcycle salt⟩

/-- A cycle inside a call, in its first round. -/
def firstRound : List (Operation .short) := [.enter (.call 5), .enter (.cycle 0)]

/-- The next round has another hash than the first one, but the round before it has the same. -/
theorem next_round_told_first :
    let c := (Context.onTrace .empty).operate false firstRound
    (Operation.perform false (.act .advance) c).trace.salted 3 ≠ c.trace.salted 3 ∧
      (Operation.perform false (.act .retreat) c).trace.salted 3 = c.trace.salted 3 := by
  intro c
  obtain ⟨hadvance, hretreat⟩ := next_round_told false firstRound 0 3 (by decide) ⟨_, _, rfl, rfl⟩
  refine ⟨fun hsame => ?_, hretreat.mpr ⟨17, by decide, by decide⟩⟩
  have hlost := hadvance.mp hsame
  exact not_lost_of_lt (by decide) hlost

/-- A cycle half-way through its second digit. -/
def halfWay : List (Operation .short) := [.enter (.cycle 127)]

/-- The hash does not tell every round from the next one. -/
theorem next_round_untold :
    ¬ ∀ (w : Width) (reporting : Bool) (ops : List (Operation w)) (i salt : Word w),
      Shadow.new.FitsAlong ops → (Shadow.new.operate ops).AtCycle i →
        let c := (Context.onTrace .empty).operate reporting ops
        (Operation.perform reporting (.act .advance) c).trace.salted salt ≠ c.trace.salted salt ∧
          (Operation.perform reporting (.act .retreat) c).trace.salted salt ≠
            c.trace.salted salt := by
  intro h
  have hfits : Shadow.new.FitsAlong halfWay := by decide
  have hcycle : (Shadow.new.operate halfWay).AtCycle 127 := atCycle_enter .new 127
  have hlost : Lost (127 : Word .short) := ⟨8, by decide, by decide⟩
  have hfollows : (Context.operate true halfWay (.onTrace .empty)).Follows _ :=
    follows_operate halfWay follows_new hfits
  refine (h .short true halfWay 127 0 hfits hcycle).1 ?_
  exact (advance_salted hfollows hfits.last hcycle 0).mpr hlost

end Aggregate
