import Aggregate.Trace.Scope

/-
  What each step does

  One lemma for each way that a step on a trace or on a context can go: a push
  within the limit of the total size, a pop with and without a frame, a scope
  left or stepped with its frame on top and with another one there. Everything
  later is derived from these and opens none of the steps again.
-/

namespace Aggregate

variable {w : Width}

theorem xor_cancel {n : Nat} (a b : BitVec n) : a ^^^ b ^^^ b = a := by
  rw [BitVec.xor_assoc, BitVec.xor_self, BitVec.xor_zero]

namespace Trace

/-- The trace with one frame more. -/
def pushed (t : Trace w) (value : Word w) (size : Nat) : Trace w :=
  ⟨t.hash ^^^ t.placed value size, t.used + size, ⟨t.placed value size, size⟩ :: t.frames⟩

@[simp] theorem pushed_used (t : Trace w) (value : Word w) (size : Nat) :
    (t.pushed value size).used = t.used + size := rfl

@[simp] theorem pushed_depth (t : Trace w) (value : Word w) (size : Nat) :
    (t.pushed value size).depth = t.depth + 1 := rfl

theorem pushFrame_fits (reporting : Bool) {t : Trace w} (value : Word w) {size : Nat}
    (h : t.used + size < sizeLimit) :
    t.pushFrame reporting value size = ⟨t.pushed value size, none⟩ := by
  rw [pushFrame, if_pos h]
  rfl

/-- A pop takes back the last push. -/
@[simp] theorem pop_pushed (t : Trace w) (value : Word w) (size : Nat) :
    (t.pushed value size).pop = ⟨t, none⟩ := by
  have hhash : t.hash ^^^ t.placed value size ^^^ t.placed value size = t.hash := xor_cancel _ _
  have hused : t.used + size - size = t.used := Nat.add_sub_cancel _ _
  simp only [pop, pushed, hhash, hused]

end Trace

namespace Context

variable {c : Context w} {t : Trace w} {reporting : Bool}

/-! ## Pushing and popping -/

theorem pushFrame_fits (value : Word w) {size : Nat} (h : c.trace.used + size < Trace.sizeLimit) :
    c.pushFrame reporting value size =
      ⟨c.accept reporting (c.trace.frameWarnings value size) ⟨c.trace.pushed value size, none⟩,
        .ok ()⟩ := by
  rw [pushFrame, Trace.pushFrame_fits reporting value h]
  rfl

theorem popFrame_pushed {value : Word w} {size : Nat} (h : c.trace = t.pushed value size) :
    c.popFrame = ⟨{ c with trace := t }, .ok ()⟩ := by
  rw [popFrame, h, Trace.pop_pushed]
  rfl

theorem popFrame_empty (h : c.trace = .empty) : c.popFrame = ⟨c, .error .emptyPop⟩ := by
  have hc : { c with trace := .empty } = c := by rw [← h]
  rw [popFrame, h]
  exact congrArg (fun c => (⟨c, .error .emptyPop⟩ : Step w Unit)) hc

/-! ## Opening a region -/

theorem pushScope_fits (value : Word w) {size : Nat} (scope : Nat → Scope w)
    (h : c.trace.used + size < Trace.sizeLimit) :
    c.pushScope reporting value size scope =
      ⟨{ c.accept reporting (c.trace.frameWarnings value size) ⟨c.trace.pushed value size, none⟩ with
          scopes := scope (c.trace.depth + 1) :: c.scopes }, .ok ()⟩ := by
  rw [pushScope, pushFrame_fits value h]
  rfl

/-! ## Leaving a scope -/

theorem leave_nil (h : c.scopes = []) : c.leave = ⟨c, .ok ()⟩ := by
  rw [leave, h]

theorem leave_reset {scope : Scope w} {outer : List (Scope w)} (h : c.scopes = scope :: outer)
    (hd : scope.depth? = none) :
    c.leave = ⟨{ c with trace := .empty, scopes := outer }, .ok ()⟩ := by
  simp only [leave, h, hd]

theorem leave_balanced {scope : Scope w} {outer : List (Scope w)} {depth : Nat}
    (h : c.scopes = scope :: outer) (hd : scope.depth? = some depth)
    (hb : c.trace.depth = depth) : c.leave = popFrame { c with scopes := outer } := by
  simp only [leave, h, hd, balanced?, if_pos hb]

theorem leave_unbalanced {scope : Scope w} {outer : List (Scope w)} {depth : Nat}
    (h : c.scopes = scope :: outer) (hd : scope.depth? = some depth)
    (hb : c.trace.depth ≠ depth) :
    c.leave = ⟨{ c with scopes := outer }, .error (.unbalanced c.trace.depth depth)⟩ := by
  simp only [leave, h, hd, balanced?, if_neg hb]

theorem unwind_nil (h : c.scopes = []) : c.unwind = ⟨c, .ok ()⟩ := by
  rw [unwind, h]

theorem unwind_reset {scope : Scope w} {outer : List (Scope w)} (h : c.scopes = scope :: outer)
    (hd : scope.depth? = none) :
    c.unwind = ⟨{ c with trace := .empty, scopes := outer }, .ok ()⟩ := by
  simp only [unwind, h, hd]

theorem unwind_frame {scope : Scope w} {outer : List (Scope w)} {depth : Nat}
    (h : c.scopes = scope :: outer) (hd : scope.depth? = some depth) :
    c.unwind = popFrame { c with scopes := outer } := by
  simp only [unwind, h, hd]

/-! ## Stepping a cycle -/

theorem rewrite_unbalanced {step : Word w → Word w} {depth : Nat} {counter : Word w}
    {outer : List (Scope w)} (h : c.scopes = .cycle depth counter :: outer)
    (hb : c.trace.depth ≠ depth) :
    c.rewrite reporting step = ⟨c, .error (.unbalanced c.trace.depth depth)⟩ := by
  simp only [rewrite, h, balanced?, if_neg hb]

theorem rewrite_balanced {step : Word w → Word w} {depth : Nat} {counter : Word w}
    {outer : List (Scope w)} {value : Word w} {size : Nat}
    (h : c.scopes = .cycle depth counter :: outer) (hb : c.trace.depth = depth)
    (ht : c.trace = t.pushed value size) :
    c.rewrite reporting step = pushFrame reporting (step counter) w.frameBits
      { c with trace := t, scopes := .cycle depth (step counter) :: outer } := by
  simp only [rewrite, h, balanced?, if_pos hb, popFrame_pushed ht]

theorem rewrite_empty {step : Word w → Word w} {depth : Nat} {counter : Word w}
    {outer : List (Scope w)} (h : c.scopes = .cycle depth counter :: outer)
    (ht : c.trace = .empty) : (c.rewrite reporting step).context = c := by
  by_cases hb : c.trace.depth = depth
  -- The pop fails before anything has changed.
  · simp only [rewrite, h, balanced?, if_pos hb, popFrame_empty ht]
  · rw [rewrite_unbalanced h hb]

theorem scopes_of_counter? {counter : Word w} (h : c.counter? = some counter) :
    ∃ depth outer, c.scopes = .cycle depth counter :: outer := by
  rw [counter?] at h
  split at h
  · next hs => exact ⟨_, _, by rw [hs, Option.some.inj h]⟩
  · cases h

/-- Only a cycle can be stepped. -/
theorem rewrite_other {step : Word w → Word w} (h : c.counter? = none) :
    c.rewrite reporting step = ⟨c, .ok ()⟩ := by
  rw [rewrite]
  split
  · next hs => simp only [counter?, hs, reduceCtorEq] at h
  · rfl

end Context

end Aggregate
