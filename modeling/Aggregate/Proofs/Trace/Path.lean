import Aggregate.Proofs.Places
import Aggregate.Proofs.Trace.Steps
import Aggregate.Proofs.Word

/-
  Paths and the traces that stand for them

  A `Path` is what a trace summarises: the values pushed and not taken away
  again, each with the size of the frame it was pushed as. `Path.trace` is the
  trace of a path, written down without reference to any operation; a path with
  one value more stands for the trace with one frame more (`trace_cons`), so a
  trace that was built from the empty one is the trace of its path.

  `Trace.Records` is what a trace then says about the path, field by field, and
  `records_trace` is that every `Path.trace` satisfies it.
-/

namespace Aggregate

variable {w : Width}

/-- A value pushed, with the size of the frame it was pushed as. -/
structure Pushed (w : Width) where
  value : Word w
  size : Nat
  deriving DecidableEq, Repr

/-- The values pushed and not taken away again, the last one first. -/
abbrev Path (w : Width) := List (Pushed w)

/-- The xor of the bits that frames recorded. -/
def xorBits (frames : List (Frame w)) : Word w := frames.foldr (fun f h => h ^^^ f.bits) 0

theorem total_reverse (sizes : List Nat) : total sizes.reverse = total sizes := by
  induction sizes with
  | nil => rfl
  | cons size sizes ih =>
    rw [List.reverse_cons, total_append, ih, total_cons, total_cons, total_nil, Nat.add_zero,
      Nat.add_comm]

namespace Path

/-- Total size of the frames of a path. -/
def size (p : Path w) : Nat := total (p.map Pushed.size)

/-- The frame of a value pushed on a path. -/
def frame (below : Path w) (x : Pushed w) : Frame w :=
  ⟨(fold x.value x.size).rotateLeft (below.size % w.bits), x.size⟩

/-- The frames of a path, top first. -/
def frames : Path w → List (Frame w)
  | [] => []
  | x :: below => frame below x :: frames below

/-- The trace that stands for a path. -/
def trace (p : Path w) : Trace w := ⟨xorBits p.frames, p.size, p.frames⟩

@[simp] theorem size_nil : size ([] : Path w) = 0 := rfl

@[simp] theorem size_cons (x : Pushed w) (p : Path w) : size (x :: p) = x.size + size p := by
  simp [size]

theorem size_reverse (p : Path w) : size p.reverse = size p := by
  rw [size, List.map_reverse, total_reverse]
  rfl

@[simp] theorem length_frames (p : Path w) : p.frames.length = p.length := by
  induction p with
  | nil => rfl
  | cons x below ih => simp [frames, ih]

theorem frames_size (p : Path w) : total (p.frames.map Frame.size) = p.size := by
  induction p with
  | nil => rfl
  | cons x below ih => simp [frames, frame, ih]

@[simp] theorem trace_nil : trace ([] : Path w) = .empty := rfl

@[simp] theorem trace_used (p : Path w) : p.trace.used = p.size := rfl

@[simp] theorem trace_depth (p : Path w) : p.trace.depth = p.length := length_frames p

/-- A value more on the path is a frame more on the trace. -/
theorem trace_cons (x : Pushed w) (p : Path w) :
    trace (x :: p) = p.trace.pushed x.value x.size := by
  rw [trace, size_cons, Nat.add_comm]
  rfl

/-! ## What the trace of a path says -/

/-- Below the width the hash has no bit beyond the frames. -/
theorem hash_lt (p : Path w) (h : p.size < w.bits) : p.trace.hash.toNat < Nat.pow 2 p.size := by
  induction p with
  | nil => exact Nat.two_pow_pos 0
  | cons x below ih =>
    rw [size_cons] at h ⊢
    have hx : x.size < w.bits := by omega
    have hbelow : size below < w.bits := by omega
    -- Below the width the rotation moves the folded value up and nothing comes round.
    have hframe : (frame below x).bits.toNat < Nat.pow 2 (size below + x.size) := by
      rw [frame, Nat.mod_eq_of_lt hbelow]
      exact rotateLeft_lt (fold_lt x.value hx) hbelow (by omega)
    have hrest : (trace below).hash.toNat < Nat.pow 2 (size below + x.size) :=
      Nat.lt_of_lt_of_le (ih hbelow) (Nat.pow_le_pow_right (by decide) (Nat.le_add_right _ _))
    rw [Nat.add_comm x.size]
    show ((trace below).hash ^^^ (frame below x).bits).toNat < _
    rw [BitVec.toNat_xor]
    exact Nat.xor_lt_two_pow hrest hframe

/-- The frames from the bottom: each is the frame of its value on the values pushed before. -/
theorem frames_getElem? (p : Path w) (i : Nat) :
    p.frames.reverse[i]? = p.reverse[i]?.map (frame (p.reverse.take i)) := by
  induction p with
  | nil => simp [frames]
  | cons x below ih =>
    simp only [frames, List.reverse_cons]
    -- The new value comes last in both lists, which are as long as each other.
    rcases Nat.lt_trichotomy i below.length with hlt | heq | hgt
    · rw [List.getElem?_append_left (by simpa using hlt),
        List.getElem?_append_left (by simpa using hlt), ih,
        List.take_append_of_le_length (by simpa using Nat.le_of_lt hlt)]
    · subst heq
      have htake : (below.reverse ++ [x]).take below.length = below.reverse := by
        rw [List.take_append_of_le_length (by simp), List.take_of_length_le (by simp)]
      have hframe : frame below.reverse x = frame below x := by
        rw [frame, frame, size_reverse]
      rw [htake, List.getElem?_append_right (by simp), List.getElem?_append_right (by simp)]
      simp [hframe]
    · rw [List.getElem?_eq_none (by simp; omega), List.getElem?_eq_none (by simp; omega)]
      rfl

end Path

/-- What a trace records of a path: its total size, one frame for each value, counted from the
bottom, and the xor of the bits of the frames, which lie below the total size while that is below
the width. -/
structure Trace.Records (t : Trace w) (p : Path w) : Prop where
  used : t.used = total (t.frames.map Frame.size)
  frame : ∀ i : Nat, t.frames.reverse[i]? = p.reverse[i]?.map fun x =>
    ⟨(fold x.value x.size).rotateLeft (total ((p.reverse.take i).map Pushed.size) % w.bits), x.size⟩
  hash : t.hash = xorBits t.frames
  hash_lt : t.used < w.bits → t.hash.toNat < Nat.pow 2 t.used

theorem records_trace (p : Path w) : p.trace.Records p where
  used := (p.frames_size).symm
  frame := p.frames_getElem?
  hash := rfl
  hash_lt := p.hash_lt

end Aggregate
