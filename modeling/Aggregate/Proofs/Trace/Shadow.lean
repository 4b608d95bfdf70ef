import Aggregate.Trace.Code
import Aggregate.Proofs.Trace.Path

/-
  Operations on a context and on its path

  A run of a program on a trace is a sequence of operations: single actions,
  regions opened, scopes left at the end of their body or while a panic unwinds,
  and entries written. `Operation` lists them and `Context.operate` carries them
  out one after the other, in whatever order they come.

  A `Shadow` is a context with paths in place of traces. It goes through the same
  operations by list operations alone, without words, offsets or totals.
  `follows_operate` is the simulation: as long as the sizes on the path total
  less than the limit, the context is what its shadow stands for.
-/

namespace Aggregate

variable {w : Width}

/-- One operation of a run. -/
inductive Operation (w : Width) where
  | act (action : Action w)
  | enter (region : Region w)
  | leave
  | unwind
  | observe
  deriving DecidableEq, Repr

/-- The context that an operation leaves, whether it completes or faults. An entry takes the
pending warnings with it. -/
def Operation.perform (reporting : Bool) : Operation w → Context w → Context w
  | .act a, c => (a.perform reporting c).context
  | .enter r, c => (c.enter reporting r).context
  | .leave, c => c.leave.context
  | .unwind, c => c.unwind.context
  | .observe, c => { c with pending := [] }

/-- The context after a sequence of operations. -/
def Context.operate (reporting : Bool) (ops : List (Operation w)) (c : Context w) : Context w :=
  ops.foldl (fun c op => op.perform reporting c) c

theorem operate_append {reporting : Bool} (ops more : List (Operation w)) (c : Context w) :
    c.operate reporting (ops ++ more) = (c.operate reporting ops).operate reporting more := by
  simp [Context.operate, List.foldl_append]

/-- A context with paths in place of traces. -/
structure Shadow (w : Width) where
  path : Path w
  scopes : List (Scope w)
  slots : List (String × Path w)
  deriving DecidableEq, Repr

namespace Shadow

/-- The shadow of a new trace. -/
def new : Shadow w := ⟨[], [], []⟩

/-- Push a value. -/
def push (value : Word w) (size : Nat) (s : Shadow w) : Shadow w :=
  { s with path := ⟨value, size⟩ :: s.path }

/-- Take the last value away, if there is one. -/
def pop (s : Shadow w) : Shadow w := { s with path := s.path.tail }

/-- Put a new value into the innermost cycle, if its frame is the one on top. -/
def rewrite (step : Word w → Word w) (s : Shadow w) : Shadow w :=
  match s.scopes, s.path with
  | .cycle depth counter :: outer, x :: below =>
    if (x :: below).length = depth then
      ⟨⟨step counter, w.frameBits⟩ :: below, .cycle depth (step counter) :: outer, s.slots⟩
    else s
  | _, _ => s

/-- The shadow after an action. -/
def act : Action w → Shadow w → Shadow w
  | .push tag, s => s.push tag w.frameBits
  | .pushWide key, s => s.push key w.bits
  | .pop, s => s.pop
  | .clear, s => { s with path := [] }
  | .save slot, s => { s with slots := (slot, s.path) :: s.slots.filter (·.1 != slot) }
  | .restore slot, s =>
    match s.slots.lookup slot with
    | none => s
    | some p => { s with path := p }
  | .add n, s => s.rewrite (· + n)
  | .sub n, s => s.rewrite (· - n)
  | .hash _, s | .describe, s | .same _, s | .raise _, s | .index, s | .compare _, s => s

/-- Push the frame of a scope and open it. -/
def pushScope (value : Word w) (size : Nat) (scope : Nat → Scope w) (s : Shadow w) : Shadow w :=
  { s.push value size with scopes := scope (s.path.length + 1) :: s.scopes }

def enter : Region w → Shadow w → Shadow w
  | .call tag => pushScope tag w.frameBits .call
  | .apply tag => pushScope tag w.frameBits .apply
  | .key key => pushScope key w.bits .key
  | .cycle start => pushScope start w.frameBits (.cycle · start)
  | .reset => fun s => { s with path := [], scopes := .reset :: s.scopes }

/-- Leave the innermost scope at the end of its body: its value is taken away if it is on top. -/
def leave (s : Shadow w) : Shadow w :=
  match s.scopes with
  | [] => s
  | scope :: outer =>
    match scope.depth? with
    | none => { s with path := [], scopes := outer }
    | some depth => { s with
        path := if s.path.length = depth then s.path.tail else s.path, scopes := outer }

/-- Leave the innermost scope while a panic unwinds: whatever is on top is taken away. -/
def unwind (s : Shadow w) : Shadow w :=
  match s.scopes with
  | [] => s
  | scope :: outer =>
    match scope.depth? with
    | none => { s with path := [], scopes := outer }
    | some _ => { s with path := s.path.tail, scopes := outer }

/-- The shadow after an operation. -/
def perform : Operation w → Shadow w → Shadow w
  | .act a, s => s.act a
  | .enter r, s => s.enter r
  | .leave, s => s.leave
  | .unwind, s => s.unwind
  | .observe, s => s

/-- The shadow after a sequence of operations. -/
def operate (ops : List (Operation w)) (s : Shadow w) : Shadow w :=
  ops.foldl (fun s op => s.perform op) s

/-- The sizes on the path total less than the limit. -/
def Fits (s : Shadow w) : Prop := s.path.size < Trace.sizeLimit

instance (s : Shadow w) : Decidable s.Fits := inferInstanceAs (Decidable (_ < _))

/-- They do so after any number of the operations. -/
def FitsAlong (ops : List (Operation w)) (s : Shadow w) : Prop :=
  ∀ k ≤ ops.length, (s.operate (ops.take k)).Fits

instance (ops : List (Operation w)) (s : Shadow w) : Decidable (s.FitsAlong ops) :=
  inferInstanceAs (Decidable (∀ k ≤ ops.length, (s.operate (ops.take k)).Fits))

theorem FitsAlong.of_isPrefix {ops done : List (Operation w)} {s : Shadow w}
    (h : s.FitsAlong ops) (hdone : done <+: ops) : s.FitsAlong done := by
  intro k hk
  have htake : done.take k = ops.take k := by
    rw [List.prefix_iff_eq_take.mp hdone, List.take_take, Nat.min_eq_left hk]
  rw [htake]
  exact h k (Nat.le_trans hk hdone.length_le)

theorem FitsAlong.last {ops : List (Operation w)} {s : Shadow w} (h : s.FitsAlong ops) :
    (s.operate ops).Fits := by
  have hlast := h ops.length (Nat.le_refl _)
  rwa [List.take_length] at hlast

end Shadow

/-- The context is what the shadow stands for. -/
structure Context.Follows (c : Context w) (s : Shadow w) : Prop where
  trace : c.trace = s.path.trace
  scopes : c.scopes = s.scopes
  slots : c.slots = s.slots.map fun e => (e.1, e.2.trace)

theorem follows_new : (Context.onTrace .empty : Context w).Follows .new := ⟨rfl, rfl, rfl⟩

theorem follows_depth {c : Context w} {s : Shadow w} (h : c.Follows s) :
    c.trace.depth = s.path.length := by
  rw [h.trace, Path.trace_depth]

/-! ## Each operation keeps the context behind its shadow -/

section
variable {c : Context w} {s : Shadow w} {reporting : Bool}

theorem fits_push {value : Word w} {size : Nat} (h : c.Follows s)
    (fits : (s.push value size).Fits) : c.trace.used + size < Trace.sizeLimit := by
  rw [h.trace, Path.trace_used, Nat.add_comm, ← Path.size_cons ⟨value, size⟩]
  exact fits

theorem follows_pushFrame {value : Word w} {size : Nat} (h : c.Follows s)
    (fits : (s.push value size).Fits) :
    (c.pushFrame reporting value size).context.Follows (s.push value size) := by
  rw [Context.pushFrame_fits value (fits_push h fits)]
  refine ⟨?_, h.scopes, h.slots⟩
  show c.trace.pushed value size = _
  rw [h.trace]
  exact (Path.trace_cons ⟨value, size⟩ s.path).symm

theorem follows_popFrame (h : c.Follows s) : c.popFrame.context.Follows s.pop := by
  have ht := h.trace
  rw [Shadow.pop]
  cases hp : s.path with
  | nil =>
    -- Popping an empty trace is a fault, but it leaves the trace empty.
    rw [hp] at ht
    rw [Context.popFrame_empty ht]
    exact ⟨ht, h.scopes, h.slots⟩
  | cons x below =>
    rw [hp, Path.trace_cons] at ht
    rw [Context.popFrame_pushed ht]
    exact ⟨rfl, h.scopes, h.slots⟩

theorem follows_pushScope {value : Word w} {size : Nat} {scope : Nat → Scope w}
    (h : c.Follows s) (fits : (s.pushScope value size scope).Fits) :
    (c.pushScope reporting value size scope).context.Follows (s.pushScope value size scope) := by
  have hpushed : (c.pushFrame reporting value size).context.Follows (s.push value size) :=
    follows_pushFrame h fits
  rw [Context.pushFrame_fits value (fits_push h fits)] at hpushed
  rw [Context.pushScope_fits value scope (fits_push h fits), follows_depth h, h.scopes]
  exact ⟨hpushed.trace, rfl, h.slots⟩

theorem follows_enter {r : Region w} (h : c.Follows s) (fits : (s.enter r).Fits) :
    (c.enter reporting r).context.Follows (s.enter r) := by
  cases r with
  | call tag => exact follows_pushScope h fits
  | apply tag => exact follows_pushScope h fits
  | key key => exact follows_pushScope h fits
  | cycle start => exact follows_pushScope h fits
  | reset => exact ⟨rfl, congrArg (Scope.reset :: ·) h.scopes, h.slots⟩

/-- A scope is closed before its frame is given back. -/
theorem follows_closed (h : c.Follows s) (outer : List (Scope w)) :
    Context.Follows { c with scopes := outer } { s with scopes := outer } :=
  ⟨h.trace, rfl, h.slots⟩

theorem follows_leave (h : c.Follows s) : c.leave.context.Follows s.leave := by
  have hscopes := h.scopes
  rw [Shadow.leave]
  cases hs : s.scopes with
  | nil =>
    rw [Context.leave_nil (hscopes.trans hs)]
    exact h
  | cons scope outer =>
    rw [hs] at hscopes
    cases hd : scope.depth? with
    | none =>
      -- A scope without a frame clears the trace on the way out.
      rw [Context.leave_reset hscopes hd]
      simp only [hd]
      exact ⟨rfl, rfl, h.slots⟩
    | some depth =>
      simp only [hd]
      by_cases hb : s.path.length = depth
      · rw [if_pos hb, Context.leave_balanced hscopes hd ((follows_depth h).trans hb)]
        exact follows_popFrame (follows_closed h outer)
      · rw [if_neg hb, Context.leave_unbalanced hscopes hd (fun e => hb ((follows_depth h).symm.trans e))]
        exact follows_closed h outer

theorem follows_unwind (h : c.Follows s) : c.unwind.context.Follows s.unwind := by
  have hscopes := h.scopes
  rw [Shadow.unwind]
  cases hs : s.scopes with
  | nil =>
    rw [Context.unwind_nil (hscopes.trans hs)]
    exact h
  | cons scope outer =>
    rw [hs] at hscopes
    cases hd : scope.depth? with
    | none =>
      rw [Context.unwind_reset hscopes hd]
      simp only [hd]
      exact ⟨rfl, rfl, h.slots⟩
    | some depth =>
      simp only [hd]
      rw [Context.unwind_frame hscopes hd]
      exact follows_popFrame (follows_closed h outer)

theorem follows_rewrite {step : Word w → Word w} (h : c.Follows s)
    (fits : (s.rewrite step).Fits) :
    (c.rewrite reporting step).context.Follows (s.rewrite step) := by
  have hscopes := h.scopes
  have ht := h.trace
  rw [Shadow.rewrite] at fits ⊢
  split at fits
  · next depth counter outer x below hs hp =>
    rw [hs] at hscopes
    rw [hp, Path.trace_cons] at ht
    -- The frame of the cycle is replaced only while it is the one on top.
    by_cases hb : (x :: below).length = depth
    · rw [if_pos hb] at fits ⊢
      have hdepth : c.trace.depth = depth := by rw [follows_depth h, hp, hb]
      rw [Context.rewrite_balanced hscopes hdepth ht]
      have hbelow : Context.Follows
          { c with trace := Path.trace below, scopes := .cycle depth (step counter) :: outer }
          ⟨below, .cycle depth (step counter) :: outer, s.slots⟩ := ⟨rfl, rfl, h.slots⟩
      exact follows_pushFrame hbelow fits
    · rw [if_neg hb]
      have hdepth : c.trace.depth ≠ depth := by rw [follows_depth h, hp]; exact hb
      rw [Context.rewrite_unbalanced hscopes hdepth]
      exact h
  · next hno =>
    -- No cycle is innermost, or no frame is left to replace.
    cases hc : c.counter? with
    | none =>
      rw [Context.rewrite_other hc]
      exact h
    | some counter =>
      obtain ⟨depth, outer, hcycle⟩ := Context.scopes_of_counter? hc
      have hp : s.path = [] := by
        cases hp : s.path with
        | nil => rfl
        | cons x below => exact absurd hp (hno _ _ _ _ _ (hscopes.symm.trans hcycle))
      rw [hp] at ht
      rw [Context.rewrite_empty hcycle ht]
      exact h

theorem stepCycle_context (step : Word w → Word w) :
    (c.stepCycle reporting step).context = (c.rewrite reporting step).context := by
  rw [Context.stepCycle]
  split <;> simp_all

theorem follows_save (h : c.Follows s) (slot : String) :
    (c.save slot).Follows (s.act (.save slot)) := by
  refine ⟨h.trace, h.scopes, ?_⟩
  show (slot, c.trace) :: c.slots.filter (·.1 != slot) = _
  rw [h.trace, h.slots, List.filter_map]
  rfl

theorem follows_restore (h : c.Follows s) (slot : String) :
    (c.restore slot).Follows (s.act (.restore slot)) := by
  have hslot : c.slot? slot = (s.slots.lookup slot).map Path.trace := by
    rw [Context.slot?, h.slots]
    exact lookup_map Path.trace s.slots slot
  rw [Context.restore, hslot, Shadow.act]
  cases s.slots.lookup slot with
  | none => exact h
  | some p => exact ⟨rfl, h.scopes, h.slots⟩

theorem follows_act {a : Action w} (h : c.Follows s) (fits : (s.act a).Fits) :
    (a.perform reporting c).context.Follows (s.act a) := by
  cases a with
  | push tag => exact follows_pushFrame h fits
  | pushWide key => exact follows_pushFrame h fits
  | pop => exact follows_popFrame h
  | clear => exact ⟨rfl, h.scopes, h.slots⟩
  | save slot => exact follows_save h slot
  | restore slot => exact follows_restore h slot
  | add n =>
    show (c.stepCycle reporting (· + n)).context.Follows _
    rw [stepCycle_context]
    exact follows_rewrite h fits
  | sub n =>
    show (c.stepCycle reporting (· - n)).context.Follows _
    rw [stepCycle_context]
    exact follows_rewrite h fits
  | hash salt => exact ⟨h.trace, h.scopes, h.slots⟩
  | describe => exact h
  | same slot => exact h
  | raise message => exact h
  | index => exact h
  | compare n => exact h

theorem follows_perform {op : Operation w} (h : c.Follows s) (fits : (s.perform op).Fits) :
    (op.perform reporting c).Follows (s.perform op) := by
  cases op with
  | act a => exact follows_act h fits
  | enter r => exact follows_enter h fits
  | leave => exact follows_leave h
  | unwind => exact follows_unwind h
  | observe => exact ⟨h.trace, h.scopes, h.slots⟩

end

/-! ## Whole runs -/

/-- After any number of operations the context is what its shadow stands for, if the sizes on the
path have totalled less than the limit all along. -/
theorem follows_operate {reporting : Bool} (ops : List (Operation w)) :
    ∀ {c : Context w} {s : Shadow w}, c.Follows s → s.FitsAlong ops →
      (c.operate reporting ops).Follows (s.operate ops) := by
  induction ops with
  | nil => intro c s h _; exact h
  | cons op ops ih =>
    intro c s h fits
    -- The bound after one operation is the first of those promised, and the rest are the others.
    have hfirst : (s.perform op).Fits := fits 1 (Nat.succ_pos _)
    apply ih (follows_perform h hfirst)
    intro k hk
    exact fits (k + 1) (Nat.succ_le_succ hk)

end Aggregate
