import Aggregate.Proofs.Trace.Stray
import Aggregate.Proofs.Trace.Operations

/-
  Cycles forget the way they came

  A step of a cycle pops its frame and pushes one for the new counter at the same
  place. So what an open cycle is depends on its counter alone: however it was
  stepped, and whatever ran in it and gave back what it took, it is the cycle that
  would be opened at that counter now. `Context.AtCounter` says so of a context;
  `atCounter_turn` is one step or one body, `atCounter_operate` any sequence of
  them, whose counter is the start plus the signed sum of the steps.

  A loop that advances its cycle below a bound is such a sequence. Below the bound
  the counter has room for one more, so it does not wrap around, and the number of
  rounds is the distance to the bound (`below_begun`). What the loop writes is what
  its rounds write, one after the other (`iterate_begun`).
-/

namespace Aggregate

variable {w : Width}

/-! ## Cycles over a trace -/

/-- The context is in a cycle over a trace and other scopes, and its frame holds the counter. -/
structure Context.AtCounter (base : Trace w) (outer : List (Scope w)) (i : Word w)
    (c : Context w) : Prop where
  trace : c.trace = base.pushed i w.frameBits
  scopes : c.scopes = .cycle (base.depth + 1) i :: outer

section
variable {base : Trace w} {outer : List (Scope w)} {i : Word w} {c d : Context w}
  {reporting : Bool}

theorem Context.AtCounter.congr (h : c.AtCounter base outer i) (ht : d.trace = c.trace)
    (hs : d.scopes = c.scopes) : d.AtCounter base outer i :=
  ⟨ht.trans h.trace, hs.trans h.scopes⟩

theorem Context.AtCounter.counter? (h : c.AtCounter base outer i) : c.counter? = some i := by
  rw [Context.counter?, h.scopes]

theorem Context.AtCounter.below (h : c.AtCounter base outer i) (bound : Word w) :
    c.below bound = decide (i < bound) := by
  rw [Context.below, h.counter?]

theorem enter_cycle (reporting : Bool) (start : Word w)
    (fits : c.trace.used + w.frameBits < Trace.sizeLimit) :
    ∃ d, c.enter reporting (.cycle start) = ⟨d, .ok ()⟩ ∧ d.AtCounter c.trace c.scopes start :=
  ⟨_, Context.pushScope_fits start (.cycle · start) fits, rfl, rfl⟩

theorem atCounter_rewrite (reporting : Bool) (fits : base.used + w.frameBits < Trace.sizeLimit)
    (h : c.AtCounter base outer i) (step : Word w → Word w) :
    ∃ d, c.rewrite reporting step = ⟨d, .ok ()⟩ ∧ d.AtCounter base outer (step i) := by
  have hdepth : c.trace.depth = base.depth + 1 := by rw [h.trace, Trace.pushed_depth]
  rw [Context.rewrite_balanced h.scopes hdepth h.trace, Context.pushFrame_fits _ fits]
  exact ⟨_, rfl, rfl, rfl⟩

theorem atCounter_stepCycle (reporting : Bool) (fits : base.used + w.frameBits < Trace.sizeLimit)
    (h : c.AtCounter base outer i) (step : Word w → Word w) :
    ∃ d, c.stepCycle reporting step = ⟨d, .ok (.word (step i))⟩ ∧
      d.AtCounter base outer (step i) := by
  obtain ⟨d, hrewrite, hd⟩ := atCounter_rewrite reporting fits h step
  refine ⟨d, ?_, hd⟩
  rw [Context.stepCycle, hrewrite]
  simp only [Context.counterReading, hd.counter?]

end

/-- A context in a cycle that was opened in another context, beside a cycle opened there now: the
counter, the whole trace and the open scopes are those of that cycle, stepping it completes, and
leaving it gives back what lay below. -/
structure Context.LikeFresh (reporting : Bool) (d c : Context w) (i : Word w) : Prop where
  index : Action.index.perform reporting d = ⟨d, .ok (.word i)⟩
  trace : d.trace = (c.enter reporting (.cycle i)).context.trace
  scopes : d.scopes = (c.enter reporting (.cycle i)).context.scopes
  below : d.trace.pop = ⟨c.trace, none⟩
  add : ∀ n, ((Action.add n).perform reporting d).result = .ok (.word (i + n))
  sub : ∀ n, ((Action.sub n).perform reporting d).result = .ok (.word (i - n))
  leave : d.leave = ⟨{ d with trace := c.trace, scopes := c.scopes }, .ok ()⟩

theorem Context.AtCounter.likeFresh {c d : Context w} {i : Word w} (reporting : Bool)
    (fits : c.trace.used + w.frameBits < Trace.sizeLimit) (h : d.AtCounter c.trace c.scopes i) :
    d.LikeFresh reporting c i := by
  obtain ⟨fresh, henter, hfresh⟩ := enter_cycle reporting i fits
  refine ⟨?_, ?_, ?_, ?_, fun n => ?_, fun n => ?_, ?_⟩
  · simp only [Action.perform, Context.counterReading, h.counter?]
  · rw [henter, h.trace, hfresh.trace]
  · rw [henter, h.scopes, hfresh.scopes]
  · rw [h.trace, Trace.pop_pushed]
  · obtain ⟨next, hstep, -⟩ := atCounter_stepCycle reporting fits h (· + n)
    exact congrArg Step.result hstep
  · obtain ⟨next, hstep, -⟩ := atCounter_stepCycle reporting fits h (· - n)
    exact congrArg Step.result hstep
  · have hdepth : d.trace.depth = c.trace.depth + 1 := by rw [h.trace, Trace.pushed_depth]
    rw [Context.leave_balanced h.scopes rfl hdepth]
    exact Context.popFrame_pushed h.trace

/-! ## Sequences of steps and bodies -/

/-- What is done to an open cycle: it is stepped forth or back, also by one at a time, or something
runs in it. -/
inductive Turn (w : Width) where
  | add (n : Word w)
  | sub (n : Word w)
  | body (operations : List (Operation w))

namespace Turn

def operations : Turn w → List (Operation w)
  | .add n => [.act (.add n)]
  | .sub n => [.act (.sub n)]
  | .body operations => operations

/-- How far a step goes. -/
def change : Turn w → Int
  | .add n => n.toNat
  | .sub n => -n.toNat
  | .body _ => 0

/-- The signed sum of the steps. -/
def net : List (Turn w) → Int
  | [] => 0
  | turn :: turns => turn.change + net turns

/-- What runs in the cycle leaves the trace and the open scopes as they were. -/
def Restores (reporting : Bool) (c : Context w) : Turn w → Prop
  | .add _ | .sub _ => True
  | .body operations => (c.operate reporting operations).trace = c.trace ∧
      (c.operate reporting operations).scopes = c.scopes

/-- Everything that runs in the cycle does, each from where what came before it has led. -/
def Restoring (reporting : Bool) : List (Turn w) → Context w → Prop
  | [], _ => True
  | turn :: turns, c =>
    turn.Restores reporting c ∧ Restoring reporting turns (c.operate reporting turn.operations)

end Turn

/-- The context after a sequence of steps and bodies. -/
def Context.takeTurns (reporting : Bool) (turns : List (Turn w)) (c : Context w) : Context w :=
  c.operate reporting (turns.flatMap Turn.operations)

section
variable {base : Trace w} {outer : List (Scope w)} {reporting : Bool}

theorem Turn.Restoring.of_append {done rest : List (Turn w)} : ∀ {c : Context w},
    Turn.Restoring reporting (done ++ rest) c → Turn.Restoring reporting done c := by
  induction done with
  | nil => intro c _; trivial
  | cons turn done ih => intro c h; exact ⟨h.1, ih h.2⟩

theorem add_ofInt_zero {n : Nat} (i : BitVec n) : i + BitVec.ofInt n 0 = i := by simp

theorem add_ofInt_toNat {n : Nat} (i a : BitVec n) : i + BitVec.ofInt n a.toNat = i + a := by
  rw [BitVec.ofInt_natCast, BitVec.ofNat_toNat, BitVec.setWidth_eq]

theorem sub_ofInt_toNat {n : Nat} (i a : BitVec n) : i + BitVec.ofInt n (-a.toNat) = i - a := by
  rw [BitVec.ofInt_neg, BitVec.ofInt_natCast, BitVec.ofNat_toNat, BitVec.setWidth_eq,
    BitVec.sub_eq_add_neg]

theorem atCounter_turn (fits : base.used + w.frameBits < Trace.sizeLimit) {turn : Turn w}
    {c : Context w} {i : Word w} (h : c.AtCounter base outer i)
    (hrest : turn.Restores reporting c) :
    (c.operate reporting turn.operations).AtCounter base outer
      (i + BitVec.ofInt w.bits turn.change) := by
  cases turn with
  | add n =>
    obtain ⟨d, hstep, hd⟩ := atCounter_stepCycle reporting fits h (· + n)
    have hcontext : c.operate reporting (Turn.add n).operations = d := congrArg Step.context hstep
    rw [hcontext, Turn.change, add_ofInt_toNat]
    exact hd
  | sub n =>
    obtain ⟨d, hstep, hd⟩ := atCounter_stepCycle reporting fits h (· - n)
    have hcontext : c.operate reporting (Turn.sub n).operations = d := congrArg Step.context hstep
    rw [hcontext, Turn.change, sub_ofInt_toNat]
    exact hd
  | body operations =>
    rw [Turn.change, add_ofInt_zero]
    exact h.congr hrest.1 hrest.2

theorem atCounter_takeTurns (fits : base.used + w.frameBits < Trace.sizeLimit)
    (turns : List (Turn w)) : ∀ {c : Context w} {i : Word w}, c.AtCounter base outer i →
      Turn.Restoring reporting turns c →
      (c.takeTurns reporting turns).AtCounter base outer
        (i + BitVec.ofInt w.bits (Turn.net turns)) := by
  induction turns with
  | nil =>
    intro c i h _
    rw [Turn.net, add_ofInt_zero]
    exact h
  | cons turn turns ih =>
    intro c i h hrest
    have hturns := ih (atCounter_turn fits h hrest.1) hrest.2
    rw [Context.takeTurns, List.flatMap_cons, operate_append, Turn.net, BitVec.ofInt_add,
      ← BitVec.add_assoc]
    exact hturns

end

/-! ## Loops below a bound -/

/-- The context in which a round of a loop begins, the first round being number zero. -/
def Run.begun (reporting : Bool) (label : String) (stride : Word w) (body : Context w → Run w) :
    Nat → Context w → Context w
  | 0, c => c
  | k + 1, c =>
    begun reporting label stride body k (Run.round reporting label stride body c).context

/-- The run comes to its end and leaves the trace and the open scopes as they were. -/
structure Run.Restores (r : Run w) (c : Context w) : Prop where
  ending : r.ending = .finished
  trace : r.context.trace = c.trace
  scopes : r.context.scopes = c.scopes

/-- Tidy code that catches its panics and steps no cycle that it finds open is such a run. -/
theorem Code.Tidy.restores (reporting : Bool) {room : Nat} {code : Code w} {c : Context w}
    (tidy : code.Tidy room false) (calm : code.escaping = [])
    (fits : c.trace.used + room < Trace.sizeLimit) : (code.run reporting c).Restores c := by
  have hkeeps := tidy_run_keeps reporting tidy (.fixed c.trace c.scopes) c (by simp) fits ⟨rfl, rfl⟩
  rw [calm] at hkeeps
  rcases hkeeps.ending with hfinished | ⟨m, hm, -⟩
  · exact ⟨hfinished, hkeeps.holds.1, hkeeps.holds.2⟩
  · cases hm

theorem Run.Restores.turn {reporting : Bool} {code : Code w} {c : Context w}
    (h : (code.run reporting c).Restores c) :
    (Turn.body (code.operations reporting c)).Restores reporting c := by
  have hcontext := (operations_run reporting code c).context
  exact ⟨hcontext ▸ h.trace, hcontext ▸ h.scopes⟩

section
variable {base : Trace w} {outer : List (Scope w)} {reporting : Bool} {label finished : String}
  {bound stride : Word w} {body : Context w → Run w}

theorem atCounter_round (reporting : Bool) (label : String) (stride : Word w)
    (fits : base.used + w.frameBits < Trace.sizeLimit) {c : Context w} {i : Word w}
    (h : c.AtCounter base outer i) (hbody : (body c).Restores c) :
    (Run.round reporting label stride body c).ending = .finished ∧
      (Run.round reporting label stride body c).context.AtCounter base outer (i + stride) := by
  obtain ⟨d, hstep, hd⟩ :=
    atCounter_rewrite reporting fits (h.congr hbody.trace hbody.scopes) (· + stride)
  simp only [Run.round, Run.andThen, hbody.ending, hstep, Step.silent, Step.run, Except.map]
  exact ⟨rfl, hd.congr rfl rfl⟩

theorem atCounter_begun (fits : base.used + w.frameBits < Trace.sizeLimit) (k : Nat) :
    ∀ {c : Context w} {i : Word w}, c.AtCounter base outer i →
      (∀ j < k, (body (Run.begun reporting label 1 body j c)).Restores
        (Run.begun reporting label 1 body j c)) →
      (Run.begun reporting label 1 body k c).AtCounter base outer (i + BitVec.ofNat w.bits k) := by
  induction k with
  | zero => intro c i h _; simpa [Run.begun] using h
  | succ k ih =>
    intro c i h hbody
    have hround := (atCounter_round reporting label 1 fits h (hbody 0 (Nat.succ_pos k))).2
    have hcounter : i + BitVec.ofNat w.bits (k + 1) = i + 1 + BitVec.ofNat w.bits k := by
      rw [Nat.add_comm k 1, BitVec.ofNat_add, ← BitVec.add_assoc]
      rfl
    rw [hcounter]
    exact ih hround fun j hj => hbody (j + 1) (Nat.succ_lt_succ hj)

/-- A loop whose rounds come to their end below the bound until one does not begin any more is
these rounds, one after the other. -/
theorem iterate_begun (finished : String) (rounds : Nat) :
    ∀ {c : Context w} (count limit : Nat), rounds ≤ limit →
    (∀ k < rounds, (Run.begun reporting label stride body k c).below bound = true ∧
      (Run.round reporting label stride body (Run.begun reporting label stride body k c)).ending =
        .finished) →
    (Run.begun reporting label stride body rounds c).below bound = false →
    Run.iterate reporting label finished bound stride body limit count c =
      let last := (Run.begun reporting label stride body rounds c).observe finished
        (.rounds (count + rounds))
      ⟨last.context, ((List.range rounds).flatMap fun k =>
          (Run.round reporting label stride body
            (Run.begun reporting label stride body k c)).entries) ++ last.entries, .finished⟩ := by
  induction rounds with
  | zero =>
    intro c count limit _ _ hend
    cases limit with
    | zero => rfl
    | succ limit =>
      rw [Run.iterate, if_neg (by rw [Run.begun] at hend; simp [hend])]
      rfl
  | succ rounds ih =>
    intro c count limit hlimit hround hend
    obtain ⟨limit, rfl⟩ : ∃ left, limit = left + 1 := ⟨limit - 1, by omega⟩
    obtain ⟨hbelow, hfinished⟩ := hround 0 (Nat.succ_pos rounds)
    rw [Run.begun] at hbelow hfinished
    have hrest := ih (count + 1) limit (Nat.le_of_succ_le_succ hlimit)
      (fun k hk => hround (k + 1) (Nat.succ_lt_succ hk)) hend
    have hcount : count + 1 + rounds = count + (rounds + 1) := by omega
    rw [hcount] at hrest
    rw [Run.iterate, if_pos hbelow, ← Run.round]
    simp only [Run.andThen, hfinished, hrest, Run.begun, List.range_succ_eq_map, List.flatMap_cons,
      List.flatMap_map, List.append_assoc]

theorem toNat_counter {start bound : Word w} {k : Nat} (hk : k ≤ bound.toNat - start.toNat) :
    (start + BitVec.ofNat w.bits k).toNat = start.toNat + k := by
  have hstart := start.isLt
  have hbound := bound.isLt
  rw [BitVec.toNat_add, BitVec.toNat_ofNat, Nat.add_mod_mod]
  exact Nat.mod_eq_of_lt (by omega)

theorem counter_eq (start : Word w) (k : Nat) :
    start + BitVec.ofNat w.bits k = BitVec.ofNat w.bits (start.toNat + k) := by
  rw [BitVec.ofNat_add, BitVec.ofNat_toNat, BitVec.setWidth_eq]

/-- The rounds that begin below the bound are as many as it takes to get there. -/
theorem below_begun {c : Context w} {start : Word w} {k : Nat}
    (hk : k ≤ bound.toNat - start.toNat)
    (h : c.AtCounter base outer (start + BitVec.ofNat w.bits k)) :
    c.below bound = decide (k < bound.toNat - start.toNat) := by
  have hlt : start + BitVec.ofNat w.bits k < bound ↔ k < bound.toNat - start.toNat := by
    rw [BitVec.lt_def, toNat_counter hk]
    omega
  rw [h.below]
  exact decide_eq_decide.mpr hlt

theorem run_loop (reporting : Bool) (limit : Nat) (part : Code w) (c : Context w) :
    (Code.loop label finished limit bound stride part .done).run reporting c =
      Run.iterate reporting label finished bound stride (part.run reporting) limit 0 c := by
  rw [Code.run]
  generalize Run.iterate reporting label finished bound stride _ limit 0 c = r
  rcases r with ⟨c', entries, ending⟩
  cases ending <;> simp [Run.andThen, Code.run]

/-- A loop that advances its cycle below a bound, with a body that restores the trace: where its
rounds begin, and all that it leaves. -/
theorem run_loop_begun (finished : String) (fits : base.used + w.frameBits < Trace.sizeLimit)
    {c : Context w} {start : Word w} (h : c.AtCounter base outer start) (part : Code w)
    {limit : Nat} (hlimit : bound.toNat - start.toNat ≤ limit)
    (hbody : ∀ k < bound.toNat - start.toNat,
      (part.run reporting (Run.begun reporting label 1 (part.run reporting) k c)).Restores
        (Run.begun reporting label 1 (part.run reporting) k c)) :
    let rounds := bound.toNat - start.toNat
    let begun := fun k => Run.begun reporting label 1 (part.run reporting) k c
    let last := (begun rounds).observe finished (.rounds rounds)
    (∀ k ≤ rounds, (begun k).AtCounter base outer (start + BitVec.ofNat w.bits k) ∧
        (begun k).below bound = decide (k < rounds)) ∧
      (Code.loop label finished limit bound 1 part .done).run reporting c =
        ⟨last.context, ((List.range rounds).flatMap fun k =>
          (Run.round reporting label 1 (part.run reporting) (begun k)).entries) ++ last.entries,
          .finished⟩ := by
  intro rounds begun last
  have hbegun : ∀ k ≤ rounds, (begun k).AtCounter base outer (start + BitVec.ofNat w.bits k) ∧
      (begun k).below bound = decide (k < rounds) := by
    intro k hk
    have hat : (begun k).AtCounter base outer (start + BitVec.ofNat w.bits k) :=
      atCounter_begun fits k h fun j hj => hbody j (Nat.lt_of_lt_of_le hj hk)
    exact ⟨hat, below_begun hk hat⟩
  have hround : ∀ k < rounds, (begun k).below bound = true ∧
      (Run.round reporting label 1 (part.run reporting) (begun k)).ending = .finished := by
    intro k hk
    obtain ⟨hat, hbelow⟩ := hbegun k (Nat.le_of_lt hk)
    have hended := (atCounter_round reporting label 1 fits hat (hbody k hk)).1
    exact ⟨hbelow.trans (decide_eq_true hk), hended⟩
  have hend : (begun rounds).below bound = false :=
    (hbegun rounds (Nat.le_refl _)).2.trans (decide_eq_false (Nat.lt_irrefl _))
  have hloop := iterate_begun finished rounds 0 limit hlimit hround hend
  rw [Nat.zero_add] at hloop
  exact ⟨hbegun, (run_loop reporting limit part c).trans hloop⟩

end

/-- A cycle opened on a trace with room for its frame, stepped forth and back in any way, with
anything run in between that leaves the trace as it was: at every point its counter is the start
plus the signed sum of the steps, up to multiples of the number of words, and it is as a cycle
opened at that counter now, over the frames that were there before. A loop that advances it below a
bound, with such a body, ends after as many rounds as the start lies below the bound, whatever
larger number of rounds it is allowed; each round sees the cycle as opened at the start plus the
number of the round, the loop writes what its rounds write, and the cycle ends at the bound, or at
the start if that lies beyond. -/
theorem cycle_path_independent (reporting : Bool) (c : Context w) (start : Word w)
    (fits : c.trace.used + w.frameBits < Trace.sizeLimit) :
    let opened := (c.enter reporting (.cycle start)).context
    (c.enter reporting (.cycle start)).result = .ok () ∧
      (∀ turns, Turn.Restoring reporting turns opened → ∀ done, done <+: turns →
        (opened.takeTurns reporting done).LikeFresh reporting c
          (BitVec.ofInt w.bits (start.toNat + Turn.net done))) ∧
      (∀ (label finished : String) (bound : Word w) (body : Code w) (limit : Nat),
        let rounds := bound.toNat - start.toNat
        let begun := fun k => Run.begun reporting label 1 (body.run reporting) k opened
        let r := (Code.loop label finished limit bound 1 body .done).run reporting opened
        rounds ≤ limit →
        (∀ k < rounds, (body.run reporting (begun k)).Restores (begun k)) →
        (∀ k < rounds, (begun k).below bound = true ∧
            (begun k).LikeFresh reporting c (BitVec.ofNat w.bits (start.toNat + k))) ∧
          r.ending = .finished ∧
          r.entries = (List.range rounds).flatMap (fun k =>
              (Run.round reporting label 1 (body.run reporting) (begun k)).entries) ++
            ((begun rounds).observe finished (.rounds rounds)).entries ∧
          r.context.below bound = false ∧
          r.context.LikeFresh reporting c
            (BitVec.ofNat w.bits (max start.toNat bound.toNat))) := by
  intro opened
  obtain ⟨_, henter, hopened⟩ := enter_cycle reporting start fits
  have hresult : (c.enter reporting (.cycle start)).result = .ok () := by rw [henter]
  have hat : opened.AtCounter c.trace c.scopes start := by
    have hopen : opened = _ := congrArg Step.context henter
    rw [hopen]
    exact hopened
  refine ⟨hresult, fun turns hrest done hdone => ?_, ?_⟩
  · obtain ⟨rest, rfl⟩ := hdone
    have hdone := atCounter_takeTurns fits done hat hrest.of_append
    rw [BitVec.ofInt_add, BitVec.ofInt_natCast, BitVec.ofNat_toNat, BitVec.setWidth_eq]
    exact hdone.likeFresh reporting fits
  · intro label finished bound body limit rounds begun r hlimit hbody
    obtain ⟨hbegun, hrun⟩ := run_loop_begun finished fits hat body hlimit hbody
    obtain ⟨hend, hstopped⟩ := hbegun rounds (Nat.le_refl _)
    have hcontext : r.context = { begun rounds with pending := [] } := congrArg Run.context hrun
    refine ⟨fun k hk => ?_, congrArg Run.ending hrun, congrArg Run.entries hrun, ?_, ?_⟩
    · obtain ⟨hround, hbelow⟩ := hbegun k (Nat.le_of_lt hk)
      rw [← counter_eq]
      exact ⟨hbelow.trans (decide_eq_true hk), hround.likeFresh reporting fits⟩
    · rw [hcontext]
      exact hstopped.trans (decide_eq_false (Nat.lt_irrefl _))
    · have hmax : start.toNat + rounds = max start.toNat bound.toNat := by omega
      have hlast : r.context.AtCounter c.trace c.scopes (start + BitVec.ofNat w.bits rounds) := by
        rw [hcontext]
        exact hend.congr rfl rfl
      rw [counter_eq, hmax] at hlast
      exact hlast.likeFresh reporting fits

/-- A trace whose next frame runs over the end of the word. -/
def nearlyFull : Context .short := .onTrace ⟨0x1234, 14, [⟨0x1234, 14⟩]⟩

/-- A call with a panic inside that is caught. -/
def calmBody : Code .short :=
  .within "call+" "call" (.call 5)
    (.attempt "caught" (.within "key+" "key" (.key 9)
      (.act "raise" (.raise "inner") .done) .done) .done) .done

theorem calmBody_restores {c : Context .short} (fits : c.trace.used + 20 < Trace.sizeLimit) :
    (calmBody.run false c).Restores c := by
  have hkey : Code.Tidy 16 true (w := .short) (.attempt "caught" (.within "key+" "key" (.key 9)
      (.act "raise" (.raise "inner") .done) .done) .done) :=
    .attempt (.within (by decide) (by decide : Region.size (.key (w := .short) 9) + 0 ≤ 16)
      (.raise .done) .done) .done
  have htidy : calmBody.Tidy 20 false :=
    .within (by decide) (by decide : Region.size (.call (w := .short) 5) + 16 ≤ 20) hkey .done
  exact htidy.restores false rfl fits

/-- The cycle that is opened at two. -/
def fromTwo : Context .short := (nearlyFull.enter false (.cycle 2)).context

/-- A step forth, a run of the body, and a step back beyond zero. -/
def thereAndBack : List (Turn .short) :=
  [.add 3, .body (calmBody.operations false (fromTwo.takeTurns false [.add 3])), .sub 7]

/-- From two the steps lead to the last counter but one, and the loop to its bound. -/
theorem cycle_path_independent_nearlyFull :
    (fromTwo.takeTurns false thereAndBack).LikeFresh false nearlyFull 65534 ∧
      ((Code.loop "round" "end" 10 4 1 calmBody .done).run false fromTwo).context.LikeFresh false
        nearlyFull 4 := by
  obtain ⟨-, hturns, hloop⟩ := cycle_path_independent false nearlyFull 2 (by decide)
  have hbody : (calmBody.run false (fromTwo.takeTurns false [.add 3])).Restores
      (fromTwo.takeTurns false [.add 3]) := calmBody_restores (by decide)
  have hrounds : ∀ k < 2, (calmBody.run false
      (Run.begun false "round" 1 (calmBody.run false) k fromTwo)).Restores
        (Run.begun false "round" 1 (calmBody.run false) k fromTwo) := by
    intro k hk
    match k, hk with
    | 0, _ => exact calmBody_restores (by decide)
    | 1, _ => exact calmBody_restores (by decide)
  exact ⟨hturns thereAndBack ⟨trivial, hbody.turn, trivial, trivial⟩ thereAndBack
      (List.prefix_refl _),
    (hloop "round" "end" 4 calmBody 10 (by decide) hrounds).2.2.2.2⟩

end Aggregate
