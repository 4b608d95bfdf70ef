import Aggregate.Proofs.Trace.Siblings

/-
  Salting and pushing

  A salt is to the hash what one more frame would be. Where it fits above the
  frames, or lies over a word that they fill, the salted hash is the hash of the
  trace with the salt pushed as a key, and as a tag if it is as short as one
  (`salted_eq_hash`). Hence salts are told apart as far as they fit, and a
  reporting build warns of those that do not (`salting_is_pushing`).
-/

namespace Aggregate

variable {w : Width} {c : Context w} {s : Shadow w} {op : Operation w} {salt : Word w} {size : Nat}

theorem salted_eq_hashAfter (reporting : Bool) (h : c.Follows s)
    (room : s.path.size + w.bits < Trace.sizeLimit) (hop : op.pushes? = some (salt, size))
    (hfold : fold salt size = salt)
    (hfit : c.trace.isSaturated = true ∨ salt.toNat < 2 ^ (w.bits - c.trace.used)) :
    c.trace.salted salt = c.hashAfter reporting 0 op := by
  rw [h.trace] at hfit
  have hplace := hfit.imp_left of_decide_eq_true
  rw [Context.hashAfter, pushes_trace reporting h room hop, Trace.salted_zero, h.trace]
  exact Path.salted_eq_hash hfold hplace

theorem salted_inj_iff (h : c.Follows s) (salt salt' : Word w) :
    c.trace.salted salt = c.trace.salted salt' ↔
      if c.trace.isSaturated then salt = salt'
      else salt.toNat % 2 ^ (w.bits - c.trace.used) = salt'.toNat % 2 ^ (w.bits - c.trace.used) := by
  rw [h.trace]
  rcases Nat.lt_or_ge s.path.size w.bits with hroom | hfull
  · have hsaturated : s.path.trace.isSaturated = false := decide_eq_false (Nat.not_le.mpr hroom)
    rw [hsaturated, if_neg (by decide)]
    exact Path.salted_inj_room hroom
  · have hsaturated : s.path.trace.isSaturated = true := decide_eq_true hfull
    rw [if_pos hsaturated]
    exact Path.salted_inj_full hfull

/-- After every run from the empty trace that leaves room for one more frame. A salt that fits above
the frames, or any salt once these fill the word, gives the hash that the trace has with the salt
pushed as a key, and as a tag if it fits a short frame; no salt gives the bare hash. Two salts give
the same hash if they are the same, or while the frames leave room if they agree as far as they fit.
Exactly of those that do not fit a reporting build warns. -/
theorem salting_is_pushing (reporting : Bool) (ops : List (Operation w))
    (fits : Shadow.new.FitsAlong ops)
    (room : (Shadow.new.operate ops).path.size + w.bits < Trace.sizeLimit) :
    let c := (Context.onTrace .empty).operate reporting ops
    (∀ salt : Word w, c.trace.isSaturated = true ∨ salt.toNat < 2 ^ (w.bits - c.trace.used) →
      c.trace.salted salt = c.hashAfter reporting 0 (.act (.pushWide salt)) ∧
        (salt.toNat < 2 ^ w.frameBits →
          c.trace.salted salt = c.hashAfter reporting 0 (.act (.push salt)))) ∧
    c.trace.salted 0 = c.trace.hash ∧
    (∀ salt salt' : Word w, c.trace.salted salt = c.trace.salted salt' ↔
      if c.trace.isSaturated then salt = salt'
      else salt.toNat % 2 ^ (w.bits - c.trace.used) =
        salt'.toNat % 2 ^ (w.bits - c.trace.used)) ∧
    ∀ salt : Word w, ((Action.hash salt).perform true c).context.pending = c.pending ++
      if c.trace.isSaturated = false ∧ 2 ^ (w.bits - c.trace.used) ≤ salt.toNat then
        [.saltTruncated salt.toNat c.trace.used]
      else [] := by
  intro c
  have hfollows : c.Follows (Shadow.new.operate ops) := follows_operate ops follows_new fits
  refine ⟨fun salt hfit => ⟨?_, fun hshort => ?_⟩, c.trace.salted_zero, salted_inj_iff hfollows,
    fun salt => ?_⟩
  · exact salted_eq_hashAfter reporting hfollows room rfl (fold_width salt) hfit
  · exact salted_eq_hashAfter reporting hfollows room rfl (fold_of_lt w.frameBits_pos hshort) hfit
  · exact congrArg (c.pending ++ ·) (c.trace.saltWarnings_eq salt)

/-- A call around a cycle, with two digits left above them. -/
def halfFull : List (Operation .short) := [.enter (.call 5), .enter (.cycle 127), .act .advance]

/-- The salt 0xAB fills the two digits, and 0x1AB gives the same hash, with a warning. -/
theorem salting_is_pushing_halfFull :
    let c := (Context.onTrace .empty).operate true halfFull
    c.trace.salted 0xAB = c.hashAfter true 0 (.act (.pushWide 0xAB)) ∧
      c.trace.salted 0xAB = c.trace.salted 0x1AB ∧
        ((Action.hash 0x1AB).perform true c).context.pending =
          c.pending ++ [.saltTruncated 0x1AB 8] := by
  intro c
  obtain ⟨hpushed, -, htold, hwarned⟩ := salting_is_pushing true halfFull (by decide) (by decide)
  refine ⟨(hpushed 0xAB (.inr (by decide))).1, (htold 0xAB 0x1AB).mpr (by decide), ?_⟩
  exact (hwarned 0x1AB).trans (congrArg (c.pending ++ ·) (if_pos (by decide)))

end Aggregate
