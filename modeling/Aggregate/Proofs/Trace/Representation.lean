import Aggregate.Proofs.Trace.Arithmetic
import Aggregate.Proofs.Trace.Runs

/-
  The representation invariant of a trace over whole runs

  A run starts from the empty trace and carries out operations in any order and
  nesting. After any number of them the trace records exactly the values pushed
  and not taken away again, each with the size it was pushed with, and no step of
  its arithmetic can stop a push, a pop or the reading of the hash. What was
  pushed and taken away is told by the shadow of the run, which knows no words.
-/

namespace Aggregate

variable {w : Width}

/-- On a machine that checks its arithmetic no operation on the trace stops in the middle: popping
and reading the hash never do, and a push does not while the total size stays within its limit. -/
structure Trace.RunsChecked (reporting : Bool) (t : Trace w) : Prop where
  pop : t.pop? = some t.pop.trace
  salted : ∀ salt : Word w, t.salted? reporting salt = some (t.salted salt)
  pushFrame : ∀ (value : Word w) (size : Nat), size = w.frameBits ∨ size = w.bits →
    t.used + size < Trace.sizeLimit →
      t.pushFrame? reporting value size = some (t.pushFrame reporting value size).trace

theorem Trace.Records.runsChecked {t : Trace w} {p : Path w} (h : t.Records p)
    (reporting : Bool) : t.RunsChecked reporting where
  pop := t.pop?_eq h.used
  salted := t.salted?_eq reporting
  pushFrame := fun value _ _ hroom => t.pushFrame?_eq reporting value hroom

/-! ## Frames come in two sizes -/

/-- Every value was pushed as a short tag or as a key of the whole width. -/
def Path.Framed (p : Path w) : Prop := ∀ x ∈ p, x.size = w.frameBits ∨ x.size = w.bits

/-- The path and all copies of earlier ones are framed. -/
structure Shadow.Framed (s : Shadow w) : Prop where
  path : s.path.Framed
  slots : ∀ e ∈ s.slots, e.2.Framed

theorem framed_nil : Path.Framed ([] : Path w) := fun _ h => by cases h

theorem framed_cons {x : Pushed w} {p : Path w} (hx : x.size = w.frameBits ∨ x.size = w.bits)
    (hp : p.Framed) : Path.Framed (x :: p) := by
  intro y hy
  rcases List.mem_cons.mp hy with rfl | hy
  · exact hx
  · exact hp y hy

theorem framed_tail {p : Path w} (hp : p.Framed) : Path.Framed p.tail :=
  fun x hx => hp x (List.mem_of_mem_tail hx)

theorem framed_rewrite {s : Shadow w} {step : Word w → Word w} (h : s.Framed) :
    (s.rewrite step).Framed := by
  rw [Shadow.rewrite]
  split
  · next depth counter outer x below hs hp =>
    split
    -- A stepped cycle has its frame replaced by another short one.
    · have hbelow : Path.Framed below := fun y hy => h.path y (by rw [hp]; simp [hy])
      exact ⟨framed_cons (.inl rfl) hbelow, h.slots⟩
    · exact h
  · exact h

theorem framed_act {s : Shadow w} (a : Action w) (h : s.Framed) : (s.act a).Framed := by
  cases a with
  | push tag => exact ⟨framed_cons (.inl rfl) h.path, h.slots⟩
  | pushWide key => exact ⟨framed_cons (.inr rfl) h.path, h.slots⟩
  | pop => exact ⟨framed_tail h.path, h.slots⟩
  | clear => exact ⟨framed_nil, h.slots⟩
  | save slot =>
    refine ⟨h.path, fun e he => ?_⟩
    rcases List.mem_cons.mp he with rfl | he
    · exact h.path
    · exact h.slots e (List.mem_filter.mp he).1
  | restore slot =>
    rw [Shadow.act]
    split
    · exact h
    · next p hp =>
      obtain ⟨before, after, hslots, -⟩ := List.lookup_eq_some_iff.mp hp
      exact ⟨h.slots (slot, p) (by rw [hslots]; simp), h.slots⟩
  | add n => exact framed_rewrite h
  | sub n => exact framed_rewrite h
  | hash salt => exact h
  | describe => exact h
  | same slot => exact h
  | raise message => exact h
  | index => exact h
  | compare n => exact h

theorem framed_enter {s : Shadow w} (r : Region w) (h : s.Framed) : (s.enter r).Framed := by
  cases r with
  | call tag => exact ⟨framed_cons (.inl rfl) h.path, h.slots⟩
  | apply tag => exact ⟨framed_cons (.inl rfl) h.path, h.slots⟩
  | key key => exact ⟨framed_cons (.inr rfl) h.path, h.slots⟩
  | cycle start => exact ⟨framed_cons (.inl rfl) h.path, h.slots⟩
  | reset => exact ⟨framed_nil, h.slots⟩

theorem framed_leave {s : Shadow w} (h : s.Framed) : s.leave.Framed := by
  rw [Shadow.leave]
  split
  · exact h
  · split
    · exact ⟨framed_nil, h.slots⟩
    · refine ⟨?_, h.slots⟩
      dsimp only
      split
      · exact framed_tail h.path
      · exact h.path

theorem framed_unwind {s : Shadow w} (h : s.Framed) : s.unwind.Framed := by
  rw [Shadow.unwind]
  split
  · exact h
  · split
    · exact ⟨framed_nil, h.slots⟩
    · exact ⟨framed_tail h.path, h.slots⟩

theorem framed_perform {s : Shadow w} (op : Operation w) (h : s.Framed) :
    (s.perform op).Framed := by
  cases op with
  | act a => exact framed_act a h
  | enter r => exact framed_enter r h
  | leave => exact framed_leave h
  | unwind => exact framed_unwind h
  | observe => exact h

theorem framed_operate (ops : List (Operation w)) :
    ∀ {s : Shadow w}, s.Framed → (s.operate ops).Framed := by
  induction ops with
  | nil => intro s h; exact h
  | cons op ops ih => intro s h; exact ih (framed_perform op h)

theorem framed_new : (Shadow.new : Shadow w).Framed := ⟨framed_nil, fun _ h => by cases h⟩

/-! ## The invariant -/

/-- Operations that fit lead to a trace that records the path. -/
theorem records_operate {ops : List (Operation w)} (reporting : Bool)
    (fits : Shadow.new.FitsAlong ops) :
    ((Context.onTrace .empty).operate reporting ops).trace.Records
      (Shadow.new.operate ops).path := by
  rw [(follows_operate ops follows_new fits).trace]
  exact records_trace _

/-- Over every run from the empty trace, as long as the sizes on the path total less than the
limit, the trace after each operation records the path: its total size is that of its frames; the
frame of each value holds the folded value rotated to the total size of the frames below, modulo
the width; the hash is the xor of what the frames hold, and below the width has no bit beyond them.
No step of the arithmetic of a push, a pop or a reading of the hash stops there. -/
theorem trace_records_path (reporting : Bool) (ops : List (Operation w))
    (fits : Shadow.new.FitsAlong ops) (k : Nat) :
    let t := ((Context.onTrace .empty).operate reporting (ops.take k)).trace
    let p := (Shadow.new.operate (ops.take k)).path
    t.Records p ∧ p.Framed ∧ t.RunsChecked reporting := by
  have hrecords := records_operate reporting (fits.of_isPrefix (List.take_prefix k ops))
  exact ⟨hrecords, (framed_operate _ framed_new).path, hrecords.runsChecked reporting⟩

/-- A cycle stepped inside a call, left with two more frames on top of its own, and the call unwound. -/
def strayRun : List (Operation .short) :=
  [.enter (.call 5), .enter (.cycle 127), .act (.add 1), .act (.pushWide 0xBEEF), .act (.push 9),
    .leave, .unwind]

theorem trace_records_path_stray :
    Shadow.new.FitsAlong strayRun ∧
    ((Context.onTrace .empty).operate true (strayRun.take 7)).trace.Records
      [⟨0xBEEF, 16⟩, ⟨128, 4⟩, ⟨5, 4⟩] :=
  ⟨by decide, (trace_records_path true strayRun (by decide) 7).1⟩

/-- A program carries out operations, and if these fit every entry it writes shows a trace that
records the path at that point. -/
theorem run_records_path (reporting : Bool) (code : Code w) :
    ∃ ops, (code.run reporting (.onTrace .empty)).context =
        (Context.onTrace .empty).operate reporting ops ∧
      (Shadow.new.FitsAlong ops → ∀ e ∈ (code.run reporting (.onTrace .empty)).entries,
        ∃ done, done <+: ops ∧ e.trace.Records (Shadow.new.operate done).path) := by
  obtain ⟨ops, hctx, hent⟩ := run_along reporting code (.onTrace .empty)
  refine ⟨ops, hctx, fun fits e he => ?_⟩
  obtain ⟨done, hdone, htrace⟩ := hent e he
  refine ⟨done, hdone, ?_⟩
  rw [htrace]
  exact records_operate reporting (fits.of_isPrefix hdone)

end Aggregate
