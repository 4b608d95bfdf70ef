import Aggregate.Trace.Code
import Aggregate.Proofs.Trace.Steps

/-
  Scoped regions restore the trace

  A program is `Tidy` when whatever it adds to the trace is given back on every
  way out: its regions give back their own frame, and a direct push is followed
  by its pop, with nothing between them that panics or steps a cycle opened
  outside. Running a tidy program leaves the trace as it was, whether the run ends
  normally or by a panic that unwinds out of it, and only a panic of the program
  itself that it does not catch gets out (`tidy_run_restores`).

  The induction is on the program. What it keeps is a `Seat`: either the whole
  trace, or, in the body of a cycle, the trace below the frame of the cycle, with
  that frame on top and holding the counter. There is one lemma for each way that
  runs are put together.
-/

namespace Aggregate

variable {w : Width}

/-! ## Tidy programs -/

/-- An action that leaves the trace and the scopes alone. -/
def Action.isReading : Action w → Bool
  | .hash _ | .describe | .save _ | .same _ | .index | .compare _ => true
  | _ => false

/-- An action that steps the innermost cycle. -/
def Action.isStep : Action w → Bool
  | .add _ | .sub _ => true
  | _ => false

/-- The value that an action pushes, and the size of its frame. -/
def Action.pushes? : Action w → Option (Word w × Nat)
  | .push tag => some (tag, w.frameBits)
  | .pushWide key => some (key, w.bits)
  | _ => none

/-- The size of the frame of a region. -/
def Region.size : Region w → Nat
  | .call _ | .apply _ | .cycle _ => w.frameBits
  | .key _ => w.bits
  | .reset => 0

/-- The messages of the panics that a program raises and does not catch. -/
def Code.escaping : Code w → List String
  | .done => []
  | .act _ (.raise message) next => message :: next.escaping
  | .act _ _ next => next.escaping
  | .within _ _ _ body next => body.escaping ++ next.escaping
  | .attempt _ _ next => next.escaping
  | .loop _ _ _ _ _ body next => body.escaping ++ next.escaping

/-- Programs that give back what they add to the trace. `room` bounds the total size of the frames
they have open at a time; `steps` tells whether the cycle they start in, if there is one, may be
stepped. -/
inductive Code.Tidy : Nat → Bool → Code w → Prop where
  | done {room : Nat} {steps : Bool} : Tidy room steps .done
  | reading {room : Nat} {steps : Bool} {label : String} {action : Action w} {next : Code w} :
      action.isReading = true → Tidy room steps next → Tidy room steps (.act label action next)
  | raise {room : Nat} {steps : Bool} {label message : String} {next : Code w} :
      Tidy room steps next → Tidy room steps (.act label (.raise message) next)
  | step {room : Nat} {label : String} {action : Action w} {next : Code w} :
      action.isStep = true → Tidy room true next → Tidy room true (.act label action next)
  | pair {room inner size : Nat} {steps : Bool} {opened closed : String} {action : Action w}
      {value : Word w} {body next : Code w} :
      action.pushes? = some (value, size) → size + inner ≤ room → Tidy inner false body →
      body.escaping = [] → Tidy room steps next →
      Tidy room steps (.act opened action (body.append (.act closed .pop next)))
  | within {room inner : Nat} {steps : Bool} {opened closed : String} {region : Region w}
      {body next : Code w} :
      region ≠ .reset → region.size + inner ≤ room → Tidy inner true body →
      Tidy room steps next → Tidy room steps (.within opened closed region body next)
  | attempt {room : Nat} {steps : Bool} {label : String} {body next : Code w} :
      Tidy room steps body → Tidy room steps next → Tidy room steps (.attempt label body next)
  | loop {room limit : Nat} {round finished : String} {bound stride : Word w}
      {body next : Code w} :
      Tidy room true body → Tidy room true next →
      Tidy room true (.loop round finished limit bound stride body next)

/-! ## Seats -/

/-- What a run keeps: the trace and the open scopes, or those around the innermost cycle. -/
inductive Seat (w : Width) where
  | fixed (trace : Trace w) (scopes : List (Scope w))
  | cycle (base : Trace w) (outer : List (Scope w))

/-- The context keeps the seat. In a cycle the frame on top is its own and holds the counter. -/
def Seat.Holds (c : Context w) : Seat w → Prop
  | .fixed trace scopes => c.trace = trace ∧ c.scopes = scopes
  | .cycle base outer => ∃ counter, c.trace = base.pushed counter w.frameBits ∧
      c.scopes = .cycle (base.depth + 1) counter :: outer

/-- The total size of the frames in the seat. -/
def Seat.used : Seat w → Nat
  | .fixed trace _ => trace.used
  | .cycle base _ => base.used + w.frameBits

/-- Stepping keeps the seat: there is no cycle to step, or the one there is in its place. -/
def Seat.Steps : Seat w → Prop
  | .fixed _ scopes => ∀ depth counter outer, scopes ≠ .cycle depth counter :: outer
  | .cycle _ _ => True

theorem Seat.Holds.used {seat : Seat w} {c : Context w} (h : seat.Holds c) :
    c.trace.used = seat.used := by
  cases seat with
  | fixed trace scopes => rw [h.1]; rfl
  | cycle base outer =>
    obtain ⟨counter, ht, -⟩ := h
    rw [ht]
    rfl

theorem Seat.Holds.congr {seat : Seat w} {c c' : Context w} (h : seat.Holds c)
    (ht : c'.trace = c.trace) (hs : c'.scopes = c.scopes) : seat.Holds c' := by
  cases seat with
  | fixed trace scopes => exact ⟨ht.trans h.1, hs.trans h.2⟩
  | cycle base outer =>
    obtain ⟨counter, hct, hcs⟩ := h
    exact ⟨counter, ht.trans hct, hs.trans hcs⟩

/-- The seat is that of the body of a scope opened over a trace and other scopes. -/
def Seat.Inside (t : Trace w) (outer : List (Scope w)) (seat : Seat w) : Prop :=
  ∀ c, seat.Holds c → ∃ value size scope, c.trace = t.pushed value size ∧
    c.scopes = scope :: outer ∧ scope.depth? = some (t.depth + 1)

/-! ## Runs that keep a seat -/

/-- The run keeps the seat, and ends normally or by a panic with one of the messages. -/
structure Run.Keeps (seat : Seat w) (messages : List String) (r : Run w) : Prop where
  holds : seat.Holds r.context
  ending : r.ending = .finished ∨ ∃ m ∈ messages, r.ending = .panicked (.raised m)

namespace Run.Keeps

variable {seat : Seat w} {messages more : List String} {r : Run w} {c : Context w}
  {reporting : Bool}

theorem mono (h : r.Keeps seat messages) (hsub : ∀ m ∈ messages, m ∈ more) :
    r.Keeps seat more := by
  refine ⟨h.holds, ?_⟩
  rcases h.ending with hf | ⟨m, hm, hp⟩
  · exact .inl hf
  · exact .inr ⟨m, hsub m hm, hp⟩

theorem reseat {seat' : Seat w} (h : r.Keeps seat messages)
    (hseat : ∀ c, seat.Holds c → seat'.Holds c) : r.Keeps seat' messages :=
  ⟨hseat _ h.holds, h.ending⟩

theorem andThen {next : Context w → Run w} (h : r.Keeps seat messages)
    (hnext : ∀ c, seat.Holds c → (next c).Keeps seat more) :
    (r.andThen next).Keeps seat (messages ++ more) := by
  rw [Run.andThen]
  -- The second part is run only after a normal end.
  rcases h.ending with hf | ⟨m, hm, hp⟩
  · have hn := hnext _ h.holds
    simp only [hf]
    refine ⟨hn.holds, ?_⟩
    rcases hn.ending with hf' | ⟨m, hm, hp'⟩
    · exact .inl hf'
    · exact .inr ⟨m, List.mem_append_right _ hm, hp'⟩
  · simp only [hp]
    exact ⟨h.holds, .inr ⟨m, List.mem_append_left _ hm, hp⟩⟩

theorem bind {seat' : Seat w} {next : Context w → Run w} (h : r.Keeps seat [])
    (hnext : ∀ c, seat.Holds c → (next c).Keeps seat' messages) :
    (r.andThen next).Keeps seat' messages := by
  rcases h.ending with hf | ⟨m, hm, -⟩
  · have hn := hnext _ h.holds
    simp only [Run.andThen, hf]
    exact ⟨hn.holds, hn.ending⟩
  · cases hm

theorem observe (h : seat.Holds c) (label : String) (reading : Reading w) :
    (c.observe label reading).Keeps seat messages :=
  ⟨h.congr rfl rfl, .inl rfl⟩

theorem step {s : Step w (Reading w)} {reading : Reading w} (label : String)
    (h : seat.Holds s.context) (hok : s.result = .ok reading) :
    (s.run label).Keeps seat messages := by
  rw [Step.run, hok]
  exact observe h label reading

theorem leave {t : Trace w} {outer : List (Scope w)} (hseat : seat.Inside t outer)
    (h : r.Keeps seat messages) (label : String) :
    (r.leave label).Keeps (.fixed t outer) messages := by
  obtain ⟨value, size, scope, ht, hs, hd⟩ := hseat _ h.holds
  have hclosed : Context.popFrame { r.context with scopes := outer } =
      ⟨{ r.context with trace := t, scopes := outer }, .ok ()⟩ := Context.popFrame_pushed ht
  rw [Run.leave]
  -- At the end of the body the frame is checked for its place; a panic takes it as it is.
  rcases h.ending with hf | ⟨m, hm, hp⟩
  · have hdepth : r.context.trace.depth = t.depth + 1 := by rw [ht, Trace.pushed_depth]
    have hleave := (Context.leave_balanced hs hd hdepth).trans hclosed
    simp only [Run.andThen, hf, hleave]
    exact ⟨⟨rfl, rfl⟩, .inl rfl⟩
  · have hunwind := (Context.unwind_frame hs hd).trans hclosed
    simp only [hp, hunwind]
    exact ⟨⟨rfl, rfl⟩, .inr ⟨m, hm, rfl⟩⟩

theorem rescue (h : r.Keeps seat messages) (label : String) :
    (r.rescue label).Keeps seat [] := by
  rw [Run.rescue]
  rcases h.ending with hf | ⟨m, hm, hp⟩
  · simp only [hf]
    exact ⟨h.holds, .inl hf⟩
  · simp only [hp]
    exact ⟨h.holds.congr rfl rfl, .inl rfl⟩

end Run.Keeps

/-! ## Steps that keep a seat -/

section
variable {seat : Seat w} {messages : List String} {c : Context w} {reporting : Bool}

theorem counter?_of_steps {t : Trace w} {scopes : List (Scope w)}
    (hsteps : (Seat.fixed t scopes).Steps) (hs : c.scopes = scopes) : c.counter? = none := by
  rw [Context.counter?, hs]
  split
  · exact absurd rfl (hsteps _ _ _)
  · rfl

theorem holds_rewrite (reporting : Bool) (h : seat.Holds c) (hsteps : seat.Steps)
    (fits : seat.used < Trace.sizeLimit) (step : Word w → Word w) :
    seat.Holds (c.rewrite reporting step).context ∧ (c.rewrite reporting step).result = .ok () := by
  cases seat with
  | fixed trace scopes =>
    rw [Context.rewrite_other (counter?_of_steps hsteps h.2)]
    exact ⟨h, rfl⟩
  | cycle base outer =>
    obtain ⟨counter, ht, hs⟩ := h
    have hdepth : c.trace.depth = base.depth + 1 := by rw [ht, Trace.pushed_depth]
    rw [Context.rewrite_balanced hs hdepth ht, Context.pushFrame_fits _ fits]
    exact ⟨⟨step counter, rfl, rfl⟩, rfl⟩

theorem stepCycle_ok {step : Word w → Word w} (h : (c.rewrite reporting step).result = .ok ()) :
    c.stepCycle reporting step = ⟨(c.rewrite reporting step).context,
      .ok (c.rewrite reporting step).context.counterReading⟩ := by
  rw [Context.stepCycle]
  rcases hr : c.rewrite reporting step with ⟨c', r⟩
  rw [hr] at h
  subst h
  rfl

/-- A cycle that is stepped where the number of frames is not its own reports that, and leaves the
trace and the counter as they are. -/
theorem step_unbalanced (reporting : Bool) {a : Action w} (ha : a.isStep = true) {depth : Nat}
    {counter : Word w} {outer : List (Scope w)} (hs : c.scopes = .cycle depth counter :: outer)
    (hb : c.trace.depth ≠ depth) (label : String) :
    (a.perform reporting c).run label = ⟨c, [], .panicked (.unbalanced c.trace.depth depth)⟩ := by
  have hstep : ∀ step, c.stepCycle reporting step =
      ⟨c, .error (.unbalanced c.trace.depth depth)⟩ := by
    intro step
    rw [Context.stepCycle, Context.rewrite_unbalanced hs hb]
  have hrun : ∀ step, (c.stepCycle reporting step).run label =
      ⟨c, [], .panicked (.unbalanced c.trace.depth depth)⟩ := by
    intro step
    rw [hstep]
    rfl
  cases a <;> first | exact hrun _ | cases ha

theorem keeps_step {a : Action w} (ha : a.isStep = true) (h : seat.Holds c) (hsteps : seat.Steps)
    (fits : seat.used < Trace.sizeLimit) (label : String) :
    ((a.perform reporting c).run label).Keeps seat messages := by
  have hstep : ∀ step, ((c.stepCycle reporting step).run label).Keeps seat messages := by
    intro step
    obtain ⟨hholds, hok⟩ := holds_rewrite reporting h hsteps fits step
    rw [stepCycle_ok hok]
    exact .step label hholds rfl
  cases a <;> first | exact hstep _ | cases ha

theorem keeps_reading {a : Action w} (ha : a.isReading = true) (h : seat.Holds c)
    (label : String) : ((a.perform reporting c).run label).Keeps seat messages := by
  have hread : ∀ {c' : Context w} {reading : Reading w}, c'.trace = c.trace → c'.scopes = c.scopes →
      ((⟨c', .ok reading⟩ : Step w (Reading w)).run label).Keeps seat messages :=
    fun ht hs => .step label (h.congr ht hs) rfl
  cases a <;> first | exact hread rfl rfl | cases ha

/-- A loop that steps the innermost cycle, by induction on the rounds that are left. -/
theorem keeps_iterate {round finished : String} {bound stride : Word w}
    {body : Context w → Run w} (hbody : ∀ c, seat.Holds c → (body c).Keeps seat messages)
    (hsteps : seat.Steps) (fits : seat.used < Trace.sizeLimit) (limit : Nat) :
    ∀ (rounds : Nat) (c : Context w), seat.Holds c →
      (Run.iterate reporting round finished bound stride body limit rounds c).Keeps seat messages := by
  induction limit with
  | zero => intro rounds c h; exact .observe h _ _
  | succ limit ih =>
    intro rounds c h
    rw [Run.iterate]
    split
    · have hround : ∀ c, seat.Holds c →
          ((c.rewrite reporting (· + stride)).silent.run round).Keeps seat messages := by
        intro c h
        obtain ⟨hholds, hok⟩ := holds_rewrite reporting h hsteps fits (· + stride)
        exact .step round hholds (by rw [Step.silent, hok]; rfl)
      exact (((hbody c h).andThen hround).andThen (ih _)).mono (by simp)
    · exact .observe h _ _

/-- Opening a region that has a frame: the scope is opened over the trace with that frame, and its
body keeps a seat of its own, in which it may be stepped if it is a cycle. -/
theorem enter_framed (reporting : Bool) {r : Region w} (hr : r ≠ .reset)
    (fits : c.trace.used + r.size < Trace.sizeLimit) :
    ∃ c', c.enter reporting r = ⟨c', .ok ()⟩ ∧ ∃ inner : Seat w, inner.Holds c' ∧ inner.Steps ∧
      inner.Inside c.trace c.scopes ∧ inner.used = c.trace.used + r.size := by
  -- A scope that is no cycle fixes all of the trace.
  have hother : ∀ (value : Word w) (size : Nat) (scope : Scope w),
      scope.depth? = some (c.trace.depth + 1) → (∀ depth i, scope ≠ .cycle depth i) →
      (Seat.fixed (c.trace.pushed value size) (scope :: c.scopes)).Steps ∧
      (Seat.fixed (c.trace.pushed value size) (scope :: c.scopes)).Inside c.trace c.scopes := by
    intro value size scope hd hno
    refine ⟨fun depth i outer h => hno depth i (List.cons.inj h).1, fun c' h => ?_⟩
    exact ⟨value, size, scope, h.1, h.2, hd⟩
  cases r with
  | reset => exact absurd rfl hr
  | call tag =>
    obtain ⟨hsteps, hinside⟩ := hother tag w.frameBits (.call _) rfl (by simp)
    exact ⟨_, Context.pushScope_fits tag .call fits, .fixed _ _, ⟨rfl, rfl⟩, hsteps, hinside, rfl⟩
  | apply tag =>
    obtain ⟨hsteps, hinside⟩ := hother tag w.frameBits (.apply _) rfl (by simp)
    exact ⟨_, Context.pushScope_fits tag .apply fits, .fixed _ _, ⟨rfl, rfl⟩, hsteps, hinside, rfl⟩
  | key key =>
    obtain ⟨hsteps, hinside⟩ := hother key w.bits (.key _) rfl (by simp)
    exact ⟨_, Context.pushScope_fits key .key fits, .fixed _ _, ⟨rfl, rfl⟩, hsteps, hinside, rfl⟩
  | cycle start =>
    refine ⟨_, Context.pushScope_fits start (.cycle · start) fits, .cycle c.trace c.scopes,
      ⟨start, rfl, rfl⟩, trivial, fun c' h => ?_, rfl⟩
    obtain ⟨counter, ht, hs⟩ := h
    exact ⟨counter, w.frameBits, _, ht, hs, rfl⟩

end

/-! ## Programs -/

/-- The run of a region, from where it is open to where it is closed. -/
def Context.visit (reporting : Bool) (opened closed : String) (body : Code w) (c : Context w) :
    Run w :=
  ((c.observe opened .nothing).andThen (body.run reporting)).leave closed

theorem run_within {reporting : Bool} {opened closed : String} {region : Region w}
    {body next : Code w} {c c' : Context w} (h : c.enter reporting region = ⟨c', .ok ()⟩) :
    (Code.within opened closed region body next).run reporting c =
      (c'.visit reporting opened closed body).andThen (next.run reporting) := by
  rw [Code.run, h]
  rfl

theorem andThen_assoc (r : Run w) (f g : Context w → Run w) :
    (r.andThen f).andThen g = r.andThen fun c => (f c).andThen g := by
  rcases r with ⟨c, entries, ending⟩
  cases ending with
  | finished =>
    rcases hf : f c with ⟨c', more, ending'⟩
    simp only [Run.andThen, hf]
    cases ending' <;> simp
  | panicked fault => rfl
  | aborted => rfl

theorem run_append (reporting : Bool) (code rest : Code w) :
    (code.append rest).run reporting =
      fun c => (code.run reporting c).andThen (rest.run reporting) := by
  -- By induction on the program that comes first, which ends where the other begins.
  induction code with
  | done => funext c; simp [Code.append, Code.run, Run.andThen]
  | act label action next ih =>
    funext c
    simp only [Code.append, Code.run, andThen_assoc, ih]
  | within opened closed region body next _ ih =>
    funext c
    simp only [Code.append, Code.run, ih]
    split
    · rfl
    · simp only [andThen_assoc]
  | attempt label body next _ ih =>
    funext c
    simp only [Code.append, Code.run, andThen_assoc, ih]
  | loop round finished limit bound stride body next _ ih =>
    funext c
    simp only [Code.append, Code.run, andThen_assoc, ih]

theorem escaping_append (code rest : Code w) :
    (code.append rest).escaping = code.escaping ++ rest.escaping := by
  induction code with
  | done => rfl
  | act label action next ih => cases action <;> simp [Code.append, Code.escaping, ih]
  | within opened closed region body next _ ih => simp [Code.append, Code.escaping, ih]
  | attempt label body next _ ih => simp [Code.append, Code.escaping, ih]
  | loop round finished limit bound stride body next _ ih => simp [Code.append, Code.escaping, ih]

/-- What a push leaves, if it is followed by code that keeps it and by its pop. -/
theorem keeps_pair {seat : Seat w} {messages : List String} {c : Context w} {reporting : Bool}
    {opened closed : String} {a : Action w} {value : Word w} {size : Nat} {body next : Code w}
    (ha : a.pushes? = some (value, size)) (h : seat.Holds c)
    (fits : c.trace.used + size < Trace.sizeLimit)
    (hbody : ∀ c', Seat.Holds c' (.fixed (c.trace.pushed value size) c.scopes) →
      (body.run reporting c').Keeps (.fixed (c.trace.pushed value size) c.scopes) [])
    (hnext : ∀ c, seat.Holds c → (next.run reporting c).Keeps seat messages) :
    ((Code.act opened a (body.append (.act closed .pop next))).run reporting c).Keeps
      seat messages := by
  have hpush : a.perform reporting c = (c.pushFrame reporting value size).silent := by
    cases a <;> first | (cases ha; rfl) | cases ha
  have hopen : ((a.perform reporting c).run opened).Keeps
      (.fixed (c.trace.pushed value size) c.scopes) [] := by
    rw [hpush, Context.pushFrame_fits value fits]
    exact .step opened ⟨rfl, rfl⟩ rfl
  have hclose : ∀ c', Seat.Holds c' (.fixed (c.trace.pushed value size) c.scopes) →
      ((Code.act closed .pop next).run reporting c').Keeps seat messages := by
    intro c' h'
    have hpop := Context.popFrame_pushed h'.1
    have hrun : (((Action.pop : Action w).perform reporting c').run closed).Keeps seat [] := by
      show (c'.popFrame.silent.run closed).Keeps seat []
      rw [hpop]
      exact .step closed (h.congr rfl h'.2) rfl
    exact hrun.bind hnext
  rw [Code.run, run_append]
  exact hopen.bind fun c' h' => (hbody c' h').bind hclose

/-- Running a tidy program keeps every seat with room for it. -/
theorem tidy_run_keeps (reporting : Bool) {room : Nat} {steps : Bool} {code : Code w}
    (tidy : code.Tidy room steps) :
    ∀ (seat : Seat w) (c : Context w), (steps = true → seat.Steps) →
      seat.used + room < Trace.sizeLimit → seat.Holds c →
      (code.run reporting c).Keeps seat code.escaping := by
  induction tidy with
  | done => intro seat c _ _ h; exact ⟨h, .inl rfl⟩
  | @reading room steps label action next ha _ ih =>
    intro seat c hsteps fits h
    have hescaping : (Code.act label action next).escaping = next.escaping := by
      cases action <;> first | rfl | cases ha
    rw [hescaping]
    exact (keeps_reading ha h label).bind fun c h => ih seat c hsteps fits h
  | @raise room steps label message next _ _ =>
    intro seat c _ _ h
    exact ⟨h, .inr ⟨message, by simp [Code.escaping], rfl⟩⟩
  | @step room label action next ha _ ih =>
    intro seat c hsteps fits h
    have hescaping : (Code.act label action next).escaping = next.escaping := by
      cases action <;> first | rfl | cases ha
    rw [hescaping]
    exact (keeps_step ha h (hsteps rfl) (by omega) label).bind fun c h => ih seat c hsteps fits h
  | @pair room inner size steps opened closed action value body next ha hroom _ hcalm _ ihbody
      ihnext =>
    -- The body runs on the trace with the pushed frame fixed, so no cycle outside is stepped.
    intro seat c hsteps fits h
    have hused := h.used
    have hescaping : (Code.act opened action (body.append (.act closed .pop next))).escaping =
        next.escaping := by
      cases action <;> first | (cases ha; done) | simp [Code.escaping, escaping_append, hcalm]
    rw [hescaping]
    refine keeps_pair ha h (by omega) (fun c' h' => ?_) (fun c h => ihnext seat c hsteps fits h)
    have hkeeps := ihbody _ c' (by simp) (by simp only [Seat.used, Trace.pushed_used]; omega) h'
    rwa [hcalm] at hkeeps
  | @within room bodyRoom steps opened closed region body next hr hroom _ _ ihbody ihnext =>
    -- The body keeps the seat inside the region, and leaving the region gives the outer one back.
    intro seat c hsteps fits h
    have hused := h.used
    obtain ⟨c', henter, inner, hinner, histeps, hinside, hiused⟩ :=
      enter_framed reporting hr (c := c) (by omega)
    have hbody := (Run.Keeps.observe hinner opened .nothing).bind fun c h =>
      ihbody inner c (fun _ => histeps) (by omega) h
    rw [Code.run, henter]
    have hleft := (hbody.leave hinside closed).reseat fun c' h' => h.congr h'.1 h'.2
    exact hleft.andThen fun c h => ihnext seat c hsteps fits h
  | @attempt room steps label body next _ _ ihbody ihnext =>
    intro seat c hsteps fits h
    exact ((ihbody seat c hsteps fits h).rescue label).bind fun c h => ihnext seat c hsteps fits h
  | @loop room limit round finished bound stride body next _ _ ihbody ihnext =>
    intro seat c hsteps fits h
    exact (keeps_iterate (fun c h => ihbody seat c hsteps fits h) (hsteps rfl) (by omega)
      limit 0 c h).andThen fun c h => ihnext seat c hsteps fits h

/-- Running a tidy program on a trace with room for its frames leaves the trace as it was, and
ends normally or by a panic that the program raises and does not catch. -/
theorem tidy_run_restores (reporting : Bool) {room : Nat} {steps : Bool} {code : Code w}
    (tidy : code.Tidy room steps) (t : Trace w) (fits : t.used + room < Trace.sizeLimit) :
    (code.run reporting (.onTrace t)).context.trace = t ∧
      ((code.run reporting (.onTrace t)).ending = .finished ∨
        ∃ m ∈ code.escaping, (code.run reporting (.onTrace t)).ending = .panicked (.raised m)) := by
  have hkeeps := tidy_run_keeps reporting tidy (.fixed t []) (.onTrace t)
    (fun _ => by simp [Seat.Steps]) fits ⟨rfl, rfl⟩
  exact ⟨hkeeps.holds.1, hkeeps.ending⟩

/-- A call that pushes a key, steps a cycle over it, catches the panic of the cycle, pops the key
and panics itself. -/
def panickingCall : Code .short :=
  .within "call+" "call" (.call 5)
    (.act "push_wide" (.pushWide 0xBEEF)
      ((Code.attempt "caught"
          (.within "cycle+" "cycle" (.cycle 127)
            (.act "advance" .advance (.act "panic" (.raise "inner") .done)) .done) .done).append
        (.act "pop" .pop (.act "panic" (.raise "outer") .done)))) .done

theorem panickingCall_tidy : panickingCall.Tidy 24 true := by
  have hcycle : Code.Tidy 0 true (w := .short)
      (.act "advance" .advance (.act "panic" (.raise "inner") .done)) :=
    .step rfl (.raise .done)
  have hkey : Code.Tidy 4 false (.attempt "caught" (.within "cycle+" "cycle" (.cycle 127)
      (.act "advance" .advance (.act "panic" (.raise "inner") .done)) .done) .done) :=
    .attempt (.within (by decide) (by decide) hcycle .done) .done
  unfold panickingCall
  refine .within (by decide) (by decide : Region.size (.call (w := .short) 5) + 20 ≤ 24) ?_ .done
  exact .pair rfl (by decide : Width.short.bits + 4 ≤ 20) hkey rfl (.raise .done)

theorem tidy_run_restores_panickingCall :
    panickingCall.Tidy 24 true ∧ (⟨0x1234, 16, [⟨0x1234, 16⟩]⟩ : Trace .short).used + 24 <
      Trace.sizeLimit ∧
    (panickingCall.run true (.onTrace ⟨0x1234, 16, [⟨0x1234, 16⟩]⟩)).context.trace =
      ⟨0x1234, 16, [⟨0x1234, 16⟩]⟩ :=
  ⟨panickingCall_tidy, by decide, (tidy_run_restores true panickingCall_tidy _ (by decide)).1⟩

end Aggregate
