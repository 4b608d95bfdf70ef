import Aggregate.Proofs.Trace.Restoration
import Aggregate.Proofs.Trace.Shadow

/-
  Stray frames are detected

  A scope counts the frames when it is opened, and when it is left it only
  compares the number. This is enough for every program that is `isOrderly`: one
  that pushes as it likes, whose panics may be caught, and that takes a frame away
  by hand only while there are more than the innermost scope expects. Under that
  discipline the trace never sinks below the frame of an open scope, so it always
  lies over it (`Trace.Over`), and with the right number of frames it is that very
  trace. Hence a scope that is left without a panic has given back what it found,
  and one that is left or stepped under frames of others reports them and touches
  nothing (`stray_frames_detected`).

  The induction is on the program and keeps a seat as for tidy programs, with any
  number of stray frames on it.
-/

namespace Aggregate

variable {w : Width}

/-! ## Orderly programs -/

/-- The number of frames that the innermost scope expects, if there is one with a frame. -/
def Context.floor? (c : Context w) : Option Nat := c.scopes.head?.bind Scope.depth?

/-- Whether an action keeps to the discipline: a push has room for its frame, a pop takes away no
frame that the innermost scope counts on, and the trace is not replaced. -/
def Action.isOrderly (c : Context w) : Action w → Bool
  | .push _ => decide (c.trace.used + w.frameBits < Trace.sizeLimit)
  | .pushWide _ => decide (c.trace.used + w.bits < Trace.sizeLimit)
  | .pop => c.floor?.all fun depth => decide (depth < c.trace.depth)
  | .clear | .restore _ => false
  | _ => true

/-- Whether a region keeps to the discipline: it has a frame, and there is room for it. -/
def Region.isOrderly (c : Context w) (region : Region w) : Bool :=
  decide (region ≠ .reset ∧ c.trace.used + region.size < Trace.sizeLimit)

/-- Whether a condition holds where the run ends, if it comes to its end. -/
def Run.passes (condition : Context w → Bool) (r : Run w) : Bool :=
  match r.ending with
  | .finished => condition r.context
  | _ => true

theorem passes_finished {condition : Context w → Bool} {r : Run w}
    (h : r.passes condition = true) (hf : r.ending = .finished) : condition r.context = true := by
  rwa [Run.passes, hf] at h

/-- A round of a loop: its body, and the step of the cycle. -/
def Run.round (reporting : Bool) (label : String) (stride : Word w) (body : Context w → Run w)
    (c : Context w) : Run w :=
  (body c).andThen fun c => (c.rewrite reporting (· + stride)).silent.run label

/-- Whether all rounds of a loop keep to the discipline, each from where the last one ended. -/
def Run.roundsOrderly (reporting : Bool) (label : String) (bound stride : Word w)
    (body : Context w → Run w) (orderly : Context w → Bool) : Nat → Context w → Bool
  | 0, _ => true
  | limit + 1, c =>
    if c.below bound then
      orderly c && (Run.round reporting label stride body c).passes
        (roundsOrderly reporting label bound stride body orderly limit)
    else true

/-- Whether a program keeps to the discipline, run in a context: every action and every region
that it comes to does. -/
def Code.isOrderly (reporting : Bool) : Code w → Context w → Bool
  | .done, _ => true
  | .act label action next, c =>
    action.isOrderly c && ((action.perform reporting c).run label).passes (next.isOrderly reporting)
  | .within opened closed region body next, c =>
    region.isOrderly c &&
      match c.enter reporting region with
      | ⟨_, .error _⟩ => true
      | ⟨c, .ok ()⟩ =>
        (c.observe opened .nothing).passes (body.isOrderly reporting) &&
          (c.visit reporting opened closed body).passes (next.isOrderly reporting)
  | .attempt label body next, c =>
    body.isOrderly reporting c &&
      ((body.run reporting c).rescue label).passes (next.isOrderly reporting)
  | .loop label finished limit bound stride body next, c =>
    Run.roundsOrderly reporting label bound stride (body.run reporting) (body.isOrderly reporting)
        limit c &&
      (Run.iterate reporting label finished bound stride (body.run reporting) limit 0 c).passes
        (next.isOrderly reporting)

/-- The rounds of a loop that its run comes to, each with the context it starts in. -/
inductive Run.Rounds (reporting : Bool) (label : String) (bound stride : Word w)
    (body : Context w → Run w) : Nat → Context w → Context w → Prop where
  | first {limit : Nat} {c : Context w} :
      c.below bound = true → Rounds reporting label bound stride body (limit + 1) c c
  | later {limit : Nat} {c d : Context w} :
      c.below bound = true → (Run.round reporting label stride body c).ending = .finished →
      Rounds reporting label bound stride body limit
        (Run.round reporting label stride body c).context d →
      Rounds reporting label bound stride body (limit + 1) c d

/-- The parts of a program that its run comes to, each with the context it is run in. -/
inductive Code.ComesTo (reporting : Bool) : Code w → Context w → Code w → Context w → Prop where
  | self {code : Code w} {c : Context w} : ComesTo reporting code c code c
  | act {label : String} {action : Action w} {next part : Code w} {c d : Context w} :
      ((action.perform reporting c).run label).ending = .finished →
      ComesTo reporting next ((action.perform reporting c).run label).context part d →
      ComesTo reporting (.act label action next) c part d
  | inside {opened closed : String} {region : Region w} {body next part : Code w}
      {c c' d : Context w} :
      c.enter reporting region = ⟨c', .ok ()⟩ →
      ComesTo reporting body (c'.observe opened .nothing).context part d →
      ComesTo reporting (.within opened closed region body next) c part d
  | after {opened closed : String} {region : Region w} {body next part : Code w}
      {c c' d : Context w} :
      c.enter reporting region = ⟨c', .ok ()⟩ →
      (c'.visit reporting opened closed body).ending = .finished →
      ComesTo reporting next (c'.visit reporting opened closed body).context part d →
      ComesTo reporting (.within opened closed region body next) c part d
  | attempted {label : String} {body next part : Code w} {c d : Context w} :
      ComesTo reporting body c part d → ComesTo reporting (.attempt label body next) c part d
  | rescued {label : String} {body next part : Code w} {c d : Context w} :
      ((body.run reporting c).rescue label).ending = .finished →
      ComesTo reporting next ((body.run reporting c).rescue label).context part d →
      ComesTo reporting (.attempt label body next) c part d
  | round {label finished : String} {limit : Nat} {bound stride : Word w}
      {body next part : Code w} {c c' d : Context w} :
      Run.Rounds reporting label bound stride (body.run reporting) limit c c' →
      ComesTo reporting body c' part d →
      ComesTo reporting (.loop label finished limit bound stride body next) c part d
  | looped {label finished : String} {limit : Nat} {bound stride : Word w}
      {body next part : Code w} {c d : Context w} :
      (Run.iterate reporting label finished bound stride (body.run reporting) limit 0 c).ending =
        .finished →
      ComesTo reporting next
        (Run.iterate reporting label finished bound stride (body.run reporting) limit 0 c).context
        part d →
      ComesTo reporting (.loop label finished limit bound stride body next) c part d

section
variable {reporting : Bool} {code part : Code w} {c d : Context w}

theorem rounds_orderly {label : String} {bound stride : Word w} {body : Context w → Run w}
    {orderly : Context w → Bool} {limit : Nat}
    (h : Run.Rounds reporting label bound stride body limit c d)
    (ho : Run.roundsOrderly reporting label bound stride body orderly limit c = true) :
    orderly d = true := by
  induction h with
  | first hbelow =>
    rw [Run.roundsOrderly, if_pos hbelow] at ho
    exact (Bool.and_eq_true_iff.mp ho).1
  | later hbelow hround _ ih =>
    rw [Run.roundsOrderly, if_pos hbelow] at ho
    exact ih (passes_finished (Bool.and_eq_true_iff.mp ho).2 hround)

/-- Every part of an orderly program is orderly where the run comes to it. -/
theorem orderly_part (h : code.ComesTo reporting c part d)
    (ho : code.isOrderly reporting c = true) : part.isOrderly reporting d = true := by
  induction h with
  | self => exact ho
  | act hf _ ih => exact ih (passes_finished (Bool.and_eq_true_iff.mp ho).2 hf)
  | inside henter _ ih =>
    obtain ⟨-, hrest⟩ := Bool.and_eq_true_iff.mp ho
    rw [henter] at hrest
    exact ih (passes_finished (Bool.and_eq_true_iff.mp hrest).1 rfl)
  | after henter hf _ ih =>
    obtain ⟨-, hrest⟩ := Bool.and_eq_true_iff.mp ho
    rw [henter] at hrest
    exact ih (passes_finished (Bool.and_eq_true_iff.mp hrest).2 hf)
  | attempted _ ih => exact ih (Bool.and_eq_true_iff.mp ho).1
  | rescued hf _ ih => exact ih (passes_finished (Bool.and_eq_true_iff.mp ho).2 hf)
  | round hrounds _ ih => exact ih (rounds_orderly hrounds (Bool.and_eq_true_iff.mp ho).1)
  | looped hf _ ih => exact ih (passes_finished (Bool.and_eq_true_iff.mp ho).2 hf)

end

/-! ## Traces over a trace -/

/-- A trace with any number of frames pushed on it. -/
inductive Trace.Over (base : Trace w) : Trace w → Prop where
  | refl : Over base base
  | pushed {t : Trace w} (value : Word w) (size : Nat) :
      Over base t → Over base (t.pushed value size)

namespace Trace.Over

variable {base middle t : Trace w}

theorem trans (h : Over base middle) (h' : Over middle t) : Over base t := by
  induction h' with
  | refl => exact h
  | pushed value size _ ih => exact .pushed value size ih

theorem of_pushed {value : Word w} {size : Nat} (h : Over (base.pushed value size) t) :
    Over base t :=
  (refl.pushed value size).trans h

theorem depth_le (h : Over base t) : base.depth ≤ t.depth := by
  induction h with
  | refl => exact Nat.le_refl _
  | pushed value size _ ih =>
    rw [pushed_depth]
    omega

theorem eq_of_depth (h : Over base t) (hd : t.depth = base.depth) : t = base := by
  cases h with
  | refl => rfl
  | pushed value size h =>
    have hle := h.depth_le
    rw [pushed_depth] at hd
    omega

theorem exists_pushed (h : Over base t) (hd : base.depth < t.depth) :
    ∃ below value size, t = below.pushed value size ∧ Over base below := by
  cases h with
  | refl => exact absurd hd (Nat.lt_irrefl _)
  | pushed value size h => exact ⟨_, value, size, rfl, h⟩

end Trace.Over

/-! ## Seats under stray frames -/

/-- The context keeps the seat, with any number of frames on it. -/
def Seat.Carries (seat : Seat w) (c : Context w) : Prop :=
  ∃ c₀, seat.Holds c₀ ∧ c₀.trace.Over c.trace ∧ c.scopes = c₀.scopes

/-- The run keeps the seat under whatever frames it leaves, and is not aborted. -/
structure Run.Bears (seat : Seat w) (r : Run w) : Prop where
  carries : seat.Carries r.context
  ending : r.ending ≠ .aborted

theorem Seat.Holds.carries {seat : Seat w} {c : Context w} (h : seat.Holds c) : seat.Carries c :=
  ⟨c, h, .refl, rfl⟩

namespace Seat.Carries

variable {seat : Seat w} {c c' : Context w} {t : Trace w} {outer : List (Scope w)}

theorem congr (h : seat.Carries c) (ht : c'.trace = c.trace) (hs : c'.scopes = c.scopes) :
    seat.Carries c' := by
  obtain ⟨c₀, hholds, hover, hscopes⟩ := h
  exact ⟨c₀, hholds, by rw [ht]; exact hover, hs.trans hscopes⟩

theorem mono (h : seat.Carries c) (ht : c.trace.Over c'.trace) (hs : c'.scopes = c.scopes) :
    seat.Carries c' := by
  obtain ⟨c₀, hholds, hover, hscopes⟩ := h
  exact ⟨c₀, hholds, hover.trans ht, hs.trans hscopes⟩

/-- Inside a scope: its frame on the trace it was opened over, and the strays on that. -/
theorem exists_over (hseat : seat.Inside t outer) (h : seat.Carries c) :
    ∃ value size scope, (t.pushed value size).Over c.trace ∧ c.scopes = scope :: outer ∧
      scope.depth? = some (t.depth + 1) := by
  obtain ⟨c₀, hholds, hover, hscopes⟩ := h
  obtain ⟨value, size, scope, ht, hs, hd⟩ := hseat c₀ hholds
  exact ⟨value, size, scope, by rw [← ht]; exact hover, hscopes.trans hs, hd⟩

theorem depth_le (hseat : seat.Inside t outer) (h : seat.Carries c) :
    t.depth + 1 ≤ c.trace.depth := by
  obtain ⟨value, size, scope, hover, -, -⟩ := h.exists_over hseat
  exact hover.depth_le

theorem floor_eq (hseat : seat.Inside t outer) (h : seat.Carries c) :
    c.floor? = some (t.depth + 1) := by
  obtain ⟨value, size, scope, -, hs, hd⟩ := h.exists_over hseat
  rw [Context.floor?, hs]
  exact hd

/-- The frame on top is a stray or the scope's own. What is below it lies over the trace that the
scope was opened over, and in the second case is that trace. -/
theorem exists_top (hseat : seat.Inside t outer) (h : seat.Carries c) :
    ∃ below value size, c.trace = below.pushed value size ∧ t.Over below ∧
      (t.depth + 1 < c.trace.depth → seat.Carries { c with trace := below }) ∧
      (c.trace.depth = t.depth + 1 → below = t) := by
  obtain ⟨c₀, hholds, hover, hscopes⟩ := h
  obtain ⟨value, size, scope, ht, hs, hd⟩ := hseat c₀ hholds
  have hdepth : c₀.trace.depth = t.depth + 1 := by rw [ht, Trace.pushed_depth]
  rcases Nat.lt_or_ge c₀.trace.depth c.trace.depth with hstray | hle
  · obtain ⟨below, v, s, htop, hbelow⟩ := hover.exists_pushed hstray
    have hbase : t.Over below := by
      rw [ht] at hbelow
      exact hbelow.of_pushed
    refine ⟨below, v, s, htop, hbase, fun _ => ⟨c₀, hholds, hbelow, hscopes⟩, fun heq => ?_⟩
    omega
  · have hsame : c.trace = c₀.trace := hover.eq_of_depth (Nat.le_antisymm hle hover.depth_le)
    refine ⟨t, value, size, hsame.trans ht, .refl, fun hlt => ?_, fun _ => rfl⟩
    rw [hsame] at hlt
    omega

end Seat.Carries

/-! ## Steps on a seat under stray frames -/

section
variable {seat : Seat w} {c : Context w} {t : Trace w} {outer : List (Scope w)} {reporting : Bool}

theorem carries_rewrite (hseat : seat.Inside t outer) (hsteps : seat.Steps)
    (fits : seat.used < Trace.sizeLimit) (h : seat.Carries c) (step : Word w → Word w) :
    seat.Carries (c.rewrite reporting step).context := by
  obtain ⟨c₀, hholds, hover, hscopes⟩ := h
  obtain ⟨value, size, scope, ht, hs, hd⟩ := hseat c₀ hholds
  have hdepth : c₀.trace.depth = t.depth + 1 := by rw [ht, Trace.pushed_depth]
  have hle := hover.depth_le
  rcases Nat.eq_or_lt_of_le hle with heq | hstray
  -- With the frame on top there are no strays, and it is replaced.
  · have hsame : c.trace = c₀.trace := hover.eq_of_depth heq.symm
    exact (holds_rewrite reporting (hholds.congr hsame hscopes) hsteps fits step).1.carries
  · have hunchanged : (c.rewrite reporting step).context = c := by
      cases scope with
      | cycle own counter =>
        have hown : own = t.depth + 1 := Option.some.inj hd
        rw [Context.rewrite_unbalanced (hscopes.trans hs) (by omega)]
      | call _ | apply _ | key _ | reset =>
        rw [Context.rewrite_other (by simp only [Context.counter?, hscopes, hs])]
    rw [hunchanged]
    exact ⟨c₀, hholds, hover, hscopes⟩

theorem carries_perform (hseat : seat.Inside t outer) (hsteps : seat.Steps)
    (fits : seat.used < Trace.sizeLimit) (h : seat.Carries c) {a : Action w}
    (ha : a.isOrderly c = true) : seat.Carries (a.perform reporting c).context := by
  have hpush : ∀ {value : Word w} {size : Nat}, c.trace.used + size < Trace.sizeLimit →
      seat.Carries (c.pushFrame reporting value size).context := by
    intro value size hroom
    rw [Context.pushFrame_fits value hroom]
    exact h.mono (.pushed value size .refl) rfl
  have hstep : ∀ step, seat.Carries (c.stepCycle reporting step).context := by
    intro step
    rw [stepCycle_context]
    exact carries_rewrite hseat hsteps fits h step
  cases a with
  | push tag => exact hpush (of_decide_eq_true ha)
  | pushWide key => exact hpush (of_decide_eq_true ha)
  | pop =>
    obtain ⟨below, value, size, htop, -, hstray, -⟩ := h.exists_top hseat
    have hlt : t.depth + 1 < c.trace.depth := by
      rw [Action.isOrderly, h.floor_eq hseat] at ha
      exact of_decide_eq_true ha
    show seat.Carries c.popFrame.context
    rw [Context.popFrame_pushed htop]
    exact hstray hlt
  | clear | restore _ => cases ha
  | add n | sub n => exact hstep _
  | hash _ | describe | save _ | same _ | raise _ | index | compare _ => exact h.congr rfl rfl

end

/-! ## Runs on a seat under stray frames -/

namespace Run.Bears

variable {seat : Seat w} {r : Run w} {c : Context w} {t : Trace w} {outer : List (Scope w)}

theorem observe (h : seat.Carries c) (label : String) (reading : Reading w) :
    (c.observe label reading).Bears seat :=
  ⟨h.congr rfl rfl, by simp [Context.observe]⟩

theorem step {s : Step w (Reading w)} (h : seat.Carries s.context) (label : String) :
    (s.run label).Bears seat := by
  rw [Step.run]
  split
  · exact observe h label _
  · exact ⟨h, by simp⟩

theorem andThen {next : Context w → Run w} (h : r.Bears seat)
    (hnext : r.ending = .finished → (next r.context).Bears seat) :
    (r.andThen next).Bears seat := by
  rw [Run.andThen]
  split
  · next hf => exact ⟨(hnext hf).carries, (hnext hf).ending⟩
  · exact h

theorem rescue (h : r.Bears seat) (label : String) : (r.rescue label).Bears seat := by
  rw [Run.rescue]
  split
  · exact ⟨h.carries.congr rfl rfl, by simp⟩
  · exact h

theorem iterate {label finished : String} {bound stride : Word w} {body : Context w → Run w}
    {orderly : Context w → Bool} {reporting : Bool}
    (hbody : ∀ c, seat.Carries c → orderly c = true → (body c).Bears seat)
    (hrewrite : ∀ c, seat.Carries c → seat.Carries (c.rewrite reporting (· + stride)).context)
    (limit : Nat) : ∀ (rounds : Nat) (c : Context w), seat.Carries c →
      Run.roundsOrderly reporting label bound stride body orderly limit c = true →
      (Run.iterate reporting label finished bound stride body limit rounds c).Bears seat := by
  induction limit with
  | zero => intro rounds c h _; exact observe h _ _
  | succ limit ih =>
    intro rounds c h ho
    rw [Run.roundsOrderly] at ho
    rw [Run.iterate]
    split at ho
    · next hbelow =>
      rw [if_pos hbelow]
      obtain ⟨hfirst, hrest⟩ := Bool.and_eq_true_iff.mp ho
      have hround : (Run.round reporting label stride body c).Bears seat :=
        (hbody c h hfirst).andThen fun _ => step (hrewrite _ (hbody c h hfirst).carries) label
      exact hround.andThen fun hf => ih _ _ hround.carries (passes_finished hrest hf)
    · next hbelow =>
      rw [if_neg hbelow]
      exact observe h _ _

end Run.Bears

/-! ## Leaving a scope under stray frames -/

/-- How a scope that was opened over a trace is left, after a body that ended in one way or
another: with its frame still there, on the trace it was opened over if there is no panic, and not
without one if there are strays, which then all stay. -/
structure Run.LeavesOver (t : Trace w) (ended left : Run w) : Prop where
  kept : t.depth + 1 ≤ ended.context.trace.depth
  ending : ended.ending ≠ .aborted
  restored : left.ending = .finished → left.context.trace = t
  clean : ended.ending = .finished → ended.context.trace.depth = t.depth + 1 →
    left.ending = .finished
  stray : ended.ending = .finished → t.depth + 1 < ended.context.trace.depth →
    left.ending = .panicked (.unbalanced ended.context.trace.depth (t.depth + 1)) ∧
      left.context.trace = ended.context.trace
  unwound : ∀ fault, ended.ending = .panicked fault → left.ending = .panicked fault

section
variable {seat : Seat w} {r : Run w} {c : Context w} {t : Trace w} {outer : List (Scope w)}
  {code body next : Code w}

theorem carries_fixed {below : Trace w} (ht : c.trace = below) (hs : c.scopes = outer)
    (h : t.Over below) : (Seat.fixed t outer).Carries c :=
  ⟨{ c with trace := t }, ⟨rfl, hs⟩, by rw [ht]; exact h, rfl⟩

theorem Run.Bears.leave_finished (hseat : seat.Inside t outer) (h : r.Bears seat)
    (hf : r.ending = .finished) (label : String) :
    (r.leave label).Bears (.fixed t outer) ∧ r.LeavesOver t (r.leave label) := by
  obtain ⟨value, size, scope, hover, hs, hd⟩ := h.carries.exists_over hseat
  obtain ⟨below, v, s, htop, hbelow, -, hown⟩ := h.carries.exists_top hseat
  have hkept := h.carries.depth_le hseat
  have hnot : ∀ fault, r.ending ≠ .panicked fault := by simp [hf]
  rcases Nat.eq_or_lt_of_le hkept with hdepth | hstray
  · have hbase := hown hdepth.symm
    have hleave : r.context.leave = ⟨{ r.context with trace := below, scopes := outer }, .ok ()⟩ :=
      (Context.leave_balanced hs hd hdepth.symm).trans (Context.popFrame_pushed htop)
    simp only [Run.leave, hf, Run.andThen, hleave]
    refine ⟨⟨carries_fixed rfl rfl hbelow, by simp [Context.observe]⟩, ?_⟩
    exact {
      kept := hkept
      ending := h.ending
      restored := fun _ => hbase
      clean := fun _ _ => rfl
      stray := fun _ hlt => absurd hdepth (Nat.ne_of_lt hlt)
      unwound := fun fault hp => absurd hp (hnot fault) }
  · have hleave := Context.leave_unbalanced hs hd (by omega : r.context.trace.depth ≠ t.depth + 1)
    simp only [Run.leave, hf, Run.andThen, hleave]
    refine ⟨⟨carries_fixed rfl rfl hover.of_pushed, by simp⟩, ?_⟩
    exact {
      kept := hkept
      ending := h.ending
      restored := fun hend => by cases hend
      clean := fun _ hdepth => absurd hdepth (Nat.ne_of_gt hstray)
      stray := fun _ _ => ⟨rfl, rfl⟩
      unwound := fun fault hp => absurd hp (hnot fault) }

/-- A panic takes away the frame on top, whosever it is. -/
theorem Run.Bears.leave_panicked (hseat : seat.Inside t outer) (h : r.Bears seat) {fault : Fault}
    (hp : r.ending = .panicked fault) (label : String) :
    (r.leave label).Bears (.fixed t outer) ∧ r.LeavesOver t (r.leave label) := by
  obtain ⟨value, size, scope, -, hs, hd⟩ := h.carries.exists_over hseat
  obtain ⟨below, v, s, htop, hbelow, -, -⟩ := h.carries.exists_top hseat
  have hunwind : r.context.unwind = ⟨{ r.context with trace := below, scopes := outer }, .ok ()⟩ :=
    (Context.unwind_frame hs hd).trans (Context.popFrame_pushed htop)
  have hnot : r.ending ≠ .finished := by simp [hp]
  simp only [Run.leave, hp, hunwind]
  refine ⟨⟨carries_fixed rfl rfl hbelow, by simp⟩, ?_⟩
  exact {
    kept := h.carries.depth_le hseat
    ending := h.ending
    restored := fun hend => by cases hend
    clean := fun hf _ => absurd hf hnot
    stray := fun hf _ => absurd hf hnot
    unwound := fun fault' hp' => hp.symm.trans hp' }

theorem Run.Bears.leave (hseat : seat.Inside t outer) (h : r.Bears seat) (label : String) :
    (r.leave label).Bears (.fixed t outer) ∧ r.LeavesOver t (r.leave label) := by
  cases hend : r.ending with
  | finished => exact h.leave_finished hseat hend label
  | panicked fault => exact h.leave_panicked hseat hend label
  | aborted => exact absurd hend h.ending

/-! ## Programs -/

variable (reporting : Bool)

theorem bears_region {region : Region w} {opened closed : String}
    (hbody : ∀ (seat : Seat w) (t : Trace w) (outer : List (Scope w)) (c : Context w),
      seat.Inside t outer → seat.Steps → seat.used < Trace.sizeLimit → seat.Carries c →
      body.isOrderly reporting c = true → (body.run reporting c).Bears seat)
    (ho : (Code.within opened closed region body next).isOrderly reporting c = true) :
    ∃ c', c.enter reporting region = ⟨c', .ok ()⟩ ∧
      (c'.visit reporting opened closed body).Bears (.fixed c.trace c.scopes) ∧
      ((c'.observe opened .nothing).andThen (body.run reporting)).LeavesOver c.trace
        (c'.visit reporting opened closed body) ∧
      (c'.visit reporting opened closed body).passes (next.isOrderly reporting) = true := by
  obtain ⟨hregion, hrest⟩ := Bool.and_eq_true_iff.mp ho
  obtain ⟨hframed, hroom⟩ := of_decide_eq_true hregion
  obtain ⟨c', henter, inner, hinner, hsteps, hinside, hused⟩ := enter_framed reporting hframed hroom
  rw [henter] at hrest
  obtain ⟨hopen, hnext⟩ := Bool.and_eq_true_iff.mp hrest
  have hobserved : (c'.observe opened .nothing).Bears inner :=
    .observe hinner.carries opened .nothing
  have hrun : ((c'.observe opened .nothing).andThen (body.run reporting)).Bears inner :=
    hobserved.andThen fun hf => hbody inner c.trace c.scopes _ hinside hsteps (by omega)
      hobserved.carries (passes_finished hopen hf)
  obtain ⟨hbears, hleaves⟩ := hrun.leave hinside closed
  exact ⟨c', henter, hbears, hleaves, hnext⟩

/-- Run inside a scope an orderly program never takes away the frame of the scope. -/
theorem bears_orderly (code : Code w) :
    ∀ (seat : Seat w) (t : Trace w) (outer : List (Scope w)) (c : Context w),
      seat.Inside t outer → seat.Steps → seat.used < Trace.sizeLimit → seat.Carries c →
      code.isOrderly reporting c = true → (code.run reporting c).Bears seat := by
  induction code with
  | done => intro seat t outer c _ _ _ h _; exact ⟨h, by simp [Code.run]⟩
  | act label action next ih =>
    intro seat t outer c hinside hsteps fits h ho
    obtain ⟨haction, hnext⟩ := Bool.and_eq_true_iff.mp ho
    have hstep : ((action.perform reporting c).run label).Bears seat :=
      .step (carries_perform hinside hsteps fits h haction) label
    exact hstep.andThen fun hf =>
      ih seat t outer _ hinside hsteps fits hstep.carries (passes_finished hnext hf)
  | within opened closed region body next ihbody ihnext =>
    intro seat t outer c hinside hsteps fits h ho
    obtain ⟨c', henter, hvisit, -, hnext⟩ := bears_region reporting ihbody ho
    -- What the region leaves over the trace it was opened over lies on the seat as well.
    have hseat : (c'.visit reporting opened closed body).Bears seat := by
      obtain ⟨c₀, ⟨ht, hs⟩, hover, hscopes⟩ := hvisit.carries
      rw [ht] at hover
      exact ⟨h.mono hover (hscopes.trans hs), hvisit.ending⟩
    rw [run_within henter]
    exact hseat.andThen fun hf =>
      ihnext seat t outer _ hinside hsteps fits hseat.carries (passes_finished hnext hf)
  | attempt label body next ihbody ihnext =>
    intro seat t outer c hinside hsteps fits h ho
    obtain ⟨hbody, hnext⟩ := Bool.and_eq_true_iff.mp ho
    have hcaught := (ihbody seat t outer c hinside hsteps fits h hbody).rescue label
    exact hcaught.andThen fun hf =>
      ihnext seat t outer _ hinside hsteps fits hcaught.carries (passes_finished hnext hf)
  | loop label finished limit bound stride body next ihbody ihnext =>
    intro seat t outer c hinside hsteps fits h ho
    obtain ⟨hrounds, hnext⟩ := Bool.and_eq_true_iff.mp ho
    have hloop : (Run.iterate reporting label finished bound stride (body.run reporting) limit 0
        c).Bears seat :=
      .iterate (fun c h hbody => ihbody seat t outer c hinside hsteps fits h hbody)
        (fun c h => carries_rewrite hinside hsteps fits h _) limit 0 c h hrounds
    exact hloop.andThen fun hf =>
      ihnext seat t outer _ hinside hsteps fits hloop.carries (passes_finished hnext hf)

end

/-- Every scope that an orderly program comes to, on whatever trace, can be opened, and its body
never takes away its frame. Left without a panic, it has given back the trace it was opened over.
Left at the end of its body with frames of others on its own, it panics and leaves them all there.
A cycle stepped under such frames panics and changes neither its counter nor the trace. -/
theorem stray_frames_detected (reporting : Bool) {code : Code w} {c : Context w}
    (orderly : code.isOrderly reporting c = true) :
    (∀ (opened closed : String) (region : Region w) (body next : Code w) (d : Context w),
      code.ComesTo reporting c (.within opened closed region body next) d →
      ∃ d', d.enter reporting region = ⟨d', .ok ()⟩ ∧
        ((d'.observe opened .nothing).andThen (body.run reporting)).LeavesOver d.trace
          (d'.visit reporting opened closed body)) ∧
    ∀ (d : Context w) (depth : Nat) (counter : Word w) (outer : List (Scope w)),
      d.scopes = .cycle depth counter :: outer → depth < d.trace.depth →
        (∀ step, d.rewrite reporting step = ⟨d, .error (.unbalanced d.trace.depth depth)⟩) ∧
        ∀ (a : Action w) (label : String), a.isStep = true →
          (a.perform reporting d).run label =
            ⟨d, [], .panicked (.unbalanced d.trace.depth depth)⟩ := by
  constructor
  · intro opened closed region body next d hpart
    obtain ⟨d', henter, -, hleaves, -⟩ :=
      bears_region reporting (bears_orderly reporting body) (orderly_part hpart orderly)
    exact ⟨d', henter, hleaves⟩
  · intro d depth counter outer hs hstray
    have hne : d.trace.depth ≠ depth := Nat.ne_of_gt hstray
    exact ⟨fun step => Context.rewrite_unbalanced hs hne,
      fun a label ha => step_unbalanced reporting ha hs hne label⟩

/-- The body of a call: a key that panics over a stray frame and is caught, a pop of what it left,
and a cycle that panics as it is stepped over a stray frame and leaves its own. -/
def strayBody : Code .short :=
  .attempt "caught"
    (.within "key+" "key" (.key 0xBEEF)
      (.act "push" (.push 3) (.act "panic" (.raise "inner") .done)) .done)
    (.act "pop" .pop
      (.attempt "caught"
        (.within "cycle+" "cycle" (.cycle 7)
          (.act "push_wide" (.pushWide 9) (.act "advance" .advance .done)) .done) .done))

theorem stray_frames_detected_strayBody :
    (Code.within "call+" "call" (.call 5) strayBody .done).isOrderly true
        (.onTrace ⟨0x1234, 16, [⟨0x1234, 16⟩]⟩) = true ∧
      ∃ d', (Context.onTrace ⟨0x1234, 16, [⟨0x1234, 16⟩]⟩).enter true (.call 5) = ⟨d', .ok ()⟩ ∧
        ((d'.observe "call+" .nothing).andThen (strayBody.run true)).LeavesOver
          ⟨0x1234, 16, [⟨0x1234, 16⟩]⟩ (d'.visit true "call+" "call" strayBody) ∧
        (d'.visit true "call+" "call" strayBody).ending = .panicked (.unbalanced 3 2) := by
  have orderly : (Code.within "call+" "call" (.call 5) strayBody .done).isOrderly true
      (.onTrace ⟨0x1234, 16, [⟨0x1234, 16⟩]⟩) = true := by decide
  obtain ⟨d', henter, hleaves⟩ := (stray_frames_detected true orderly).1 _ _ _ _ _ _ .self
  refine ⟨orderly, d', henter, hleaves, ?_⟩
  obtain rfl : _ = d' := congrArg Step.context henter
  exact (hleaves.stray (by decide) (by decide)).1

end Aggregate
