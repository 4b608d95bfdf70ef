import Aggregate.Proofs.Trace.Shadow
import Aggregate.Proofs.Trace.Salted

/-
  What equal traces have in common

  Two traces are equal exactly if the paths that they stand for match: they are of
  one length, and value by value of one size and with the same fold (`trace_eq_iff`).
  The rotation of a frame is undone from the bottom up, where the frames below are
  known to be of the same total size.

  Runs leave nothing else in a trace. What was taken away or cleared, how often a
  cycle was stepped and which panics were caught shows neither in the trace nor in
  anything that can be read off it (`equal_iff_paths_match`).
-/

namespace Aggregate

variable {w : Width}

/-- Two values pushed with one size that fill their frame alike. -/
def Pushed.Matches (x y : Pushed w) : Prop :=
  x.size = y.size ∧ fold x.value x.size = fold y.value y.size

namespace Path

/-- Two paths of one length that match value by value. -/
def Matches (p q : Path w) : Prop := List.Forall₂ Pushed.Matches p q

variable {p q : Path w}

/-! ## Traces of paths that match -/

theorem trace_eq_iff_frames : p.trace = q.trace ↔ p.frames = q.frames := by
  constructor
  · exact congrArg Trace.frames
  · intro h
    have hsize : p.size = q.size := by rw [← frames_size, ← frames_size, h]
    rw [trace, trace, hsize, h]

theorem frame_eq_iff {x y : Pushed w} (h : p.size = q.size) :
    frame p x = frame q y ↔ x.Matches y := by
  have hoffset : q.size % w.bits < w.bits := Nat.mod_lt _ w.bits_pos
  rw [frame, frame, h, Frame.mk.injEq, rotateLeft_inj hoffset, Pushed.Matches, and_comm]

/-- Frame by frame the values that were pushed are known up to their folds. -/
theorem frames_eq_iff : p.frames = q.frames ↔ p.Matches q := by
  induction p generalizing q with
  | nil => cases q <;> simp [frames, Matches]
  | cons x below ih =>
    cases q with
    | nil => simp [frames, Matches]
    | cons y below' =>
      rw [frames, frames, List.cons.injEq, Matches, List.forall₂_cons, ih]
      -- Which place the top frame has depends on the frames below it.
      refine and_congr_left fun hbelow => frame_eq_iff ?_
      rw [← frames_size, ← frames_size, ih.mpr hbelow]

theorem trace_eq_iff : p.trace = q.trace ↔ p.Matches q :=
  trace_eq_iff_frames.trans frames_eq_iff

end Path

/-! ## Traces of runs -/

/-- Two runs from the empty trace, in builds that report or do not, as long as the sizes on either
path total less than the limit. -/
theorem equal_iff_paths_match (reporting reporting' : Bool) (ops ops' : List (Operation w))
    (fits : Shadow.new.FitsAlong ops) (fits' : Shadow.new.FitsAlong ops') :
    let t := ((Context.onTrace .empty).operate reporting ops).trace
    let t' := ((Context.onTrace .empty).operate reporting' ops').trace
    let p := (Shadow.new.operate ops).path
    let p' := (Shadow.new.operate ops').path
    (t = t' ↔ p.Matches p') ∧
      (p.Matches p' → (∀ salt : Word w, t.salted salt = t'.salted salt) ∧ t.depth = t'.depth ∧
        t.isSaturated = t'.isSaturated) := by
  intro t t' p p'
  have ht : t = p.trace := (follows_operate ops follows_new fits).trace
  have ht' : t' = p'.trace := (follows_operate ops' follows_new fits').trace
  have hequal : t = t' ↔ p.Matches p' := by rw [ht, ht']; exact Path.trace_eq_iff
  refine ⟨hequal, fun hmatch => ?_⟩
  rw [hequal.mpr hmatch]
  exact ⟨fun _ => rfl, rfl, rfl⟩

/-- A call with a tag that is too wide for its frame. -/
def wideCall : List (Operation .short) := [.enter (.call 0x13)]

/-- A key taken away, a trace cleared, a cycle left by a panic, and another one that has been
stepped to the counter that the tag is folded to. -/
def longWay : List (Operation .short) :=
  [.act (.pushWide 9), .act .pop, .act (.push 4), .act .clear, .enter (.cycle 5), .act .advance,
    .act .retreat, .act (.raise "stop"), .unwind, .enter (.cycle 1), .act .advance]

theorem equal_iff_paths_match_longWay :
    let t := ((Context.onTrace .empty).operate false wideCall).trace
    let t' := ((Context.onTrace .empty).operate true longWay).trace
    t = t' ∧ t.salted 3 = t'.salted 3 := by
  intro t t'
  -- The digits 1 and 3 of the tag fold to 2.
  have hmatch : (Shadow.new.operate wideCall).path.Matches (Shadow.new.operate longWay).path :=
    .cons ⟨rfl, by cbv⟩ .nil
  obtain ⟨hequal, hread⟩ := equal_iff_paths_match false true wideCall longWay (by decide) (by decide)
  exact ⟨hequal.mpr hmatch, (hread hmatch).1 3⟩

end Aggregate
