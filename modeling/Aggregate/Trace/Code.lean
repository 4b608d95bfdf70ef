import Aggregate.Trace.Scope

/-
  Programs over a trace

  `Code` is a program that acts on a trace, opens regions around parts of
  itself, catches panics and repeats a body while a cycle is below a bound. Its
  meaning is `Code.run`, a function of the program and the context it starts
  in. What can be seen of a run is a list of entries, one after each step that
  completed, and its ending.

  A panic unwinds: every scope it passes through is left by `Context.unwind`,
  up to the nearest block that catches it. A second fault on the way aborts the
  run, and nothing catches that.
-/

namespace Aggregate

inductive Action (w : Width) where
  | push (tag : Word w)
  | pushWide (key : Word w)
  | pop
  | clear
  | hash (salt : Word w)
  | describe
  | save (slot : String)
  | restore (slot : String)
  | same (slot : String)
  | raise (message : String)
  | add (n : Word w)
  | sub (n : Word w)
  | index
  | compare (n : Word w)
  deriving DecidableEq, Repr

/-- Move the innermost cycle to its next iteration. -/
def Action.advance {w : Width} : Action w := .add 1

/-- Move the innermost cycle back to its previous iteration. -/
def Action.retreat {w : Width} : Action w := .sub 1

/-- What a step shows beside the trace. -/
inductive Reading (w : Width) where
  | nothing
  | word (value : Word w)
  | text (value : String)
  | flag (value : Bool)
  | order (value : Ordering)
  | rounds (count : Nat)
  | fault (value : Fault)
  deriving DecidableEq, Repr

/-- A program; the labels name the entries it writes. -/
inductive Code (w : Width) where
  | done
  | act (label : String) (action : Action w) (next : Code w)
  | within (opened closed : String) (region : Region w) (body next : Code w)
  | attempt (label : String) (body next : Code w)
  | loop (round finished : String) (limit : Nat) (bound stride : Word w) (body next : Code w)
  deriving DecidableEq, Repr

def Code.append {w : Width} : Code w → Code w → Code w
  | .done, rest => rest
  | .act label action next, rest => .act label action (next.append rest)
  | .within opened closed region body next, rest =>
    .within opened closed region body (next.append rest)
  | .attempt label body next, rest => .attempt label body (next.append rest)
  | .loop round finished limit bound stride body next, rest =>
    .loop round finished limit bound stride body (next.append rest)

/-- The trace after a step, what the step showed, and the warnings since the last entry. -/
structure Entry (w : Width) where
  label : String
  reading : Reading w
  trace : Trace w
  warnings : List Warning
  deriving DecidableEq, Repr

inductive Ending where
  | finished
  | panicked (fault : Fault)
  | aborted
  deriving DecidableEq, Repr

/-- A run: the context it leaves, its entries in order, and its ending. -/
structure Run (w : Width) where
  context : Context w
  entries : List (Entry w)
  ending : Ending
  deriving DecidableEq, Repr

variable {w : Width}

/-! ## Steps -/

/-- The reading of the counter of the innermost cycle. -/
def Context.counterReading (c : Context w) : Reading w :=
  match c.counter? with
  | some counter => .word counter
  | none => .nothing

/-- Step the innermost cycle and read its counter. -/
def Context.stepCycle (reporting : Bool) (step : Word w → Word w) (c : Context w) :
    Step w (Reading w) :=
  match c.rewrite reporting step with
  | ⟨c, .ok ()⟩ => ⟨c, .ok c.counterReading⟩
  | ⟨c, .error fault⟩ => ⟨c, .error fault⟩

def Step.silent (s : Step w Unit) : Step w (Reading w) :=
  ⟨s.context, s.result.map fun _ => .nothing⟩

def Action.perform (reporting : Bool) (a : Action w) (c : Context w) : Step w (Reading w) :=
  match a with
  | .push tag => (c.pushFrame reporting tag w.frameBits).silent
  | .pushWide key => (c.pushFrame reporting key w.bits).silent
  | .pop => c.popFrame.silent
  | .clear => ⟨{ c with trace := .empty }, .ok .nothing⟩
  | .hash salt =>
    ⟨c.accept reporting (c.trace.saltWarnings salt) ⟨c.trace, none⟩,
      .ok (.word (c.trace.salted salt))⟩
  | .describe => ⟨c, .ok (.text c.text)⟩
  | .save slot => ⟨c.save slot, .ok .nothing⟩
  | .restore slot => ⟨c.restore slot, .ok .nothing⟩
  | .same slot => ⟨c, .ok (.flag (decide (c.slot? slot = some c.trace)))⟩
  | .raise message => ⟨c, .error (.raised message)⟩
  | .add n => c.stepCycle reporting (· + n)
  | .sub n => c.stepCycle reporting (· - n)
  | .index => ⟨c, .ok c.counterReading⟩
  | .compare n =>
    ⟨c, .ok (match c.counter? with
      | some counter => .order (compareOfLessAndEq counter n)
      | none => .nothing)⟩

/-! ## Runs -/

def Context.observe (label : String) (reading : Reading w) (c : Context w) : Run w :=
  ⟨{ c with pending := [] }, [⟨label, reading, c.trace, c.pending⟩], .finished⟩

/-- A step as a run: an entry with its reading, or a panic. -/
def Step.run (label : String) (s : Step w (Reading w)) : Run w :=
  match s.result with
  | .ok reading => s.context.observe label reading
  | .error fault => ⟨s.context, [], .panicked fault⟩

def Run.andThen (r : Run w) (next : Context w → Run w) : Run w :=
  match r.ending with
  | .finished =>
    let s := next r.context
    ⟨s.context, r.entries ++ s.entries, s.ending⟩
  | _ => r

/-- What leaving the innermost scope shows: an `apply` scope hands on the hash that its body
ended with. -/
def Context.parting (c : Context w) : Reading w :=
  match c.scopes with
  | .apply _ :: _ => .word (c.trace.salted 0)
  | _ => .nothing

/-- Leave the scope that a run took place in. -/
def Run.leave (label : String) (r : Run w) : Run w :=
  match r.ending with
  | .finished =>
    r.andThen fun c =>
      match c.leave with
      | ⟨after, .ok ()⟩ => after.observe label c.parting
      | ⟨after, .error fault⟩ => ⟨after, [], .panicked fault⟩
  | .panicked fault =>
    match r.context.unwind with
    | ⟨after, .ok ()⟩ => ⟨after, r.entries, .panicked fault⟩
    | ⟨after, .error _⟩ => ⟨after, r.entries, .aborted⟩
  | .aborted => r

def Run.rescue (label : String) (r : Run w) : Run w :=
  match r.ending with
  | .panicked fault =>
    let caught := r.context.observe label (.fault fault)
    ⟨caught.context, r.entries ++ caught.entries, .finished⟩
  | _ => r

/-- Whether the innermost scope is a cycle below the bound. -/
def Context.below (bound : Word w) (c : Context w) : Bool :=
  match c.counter? with
  | some counter => decide (counter < bound)
  | none => false

/-- Repeat a body while the innermost cycle is below the bound, stepping it by `stride` after
each round, for at most the given number of rounds. -/
def Run.iterate (reporting : Bool) (round finished : String) (bound stride : Word w)
    (body : Context w → Run w) : Nat → Nat → Context w → Run w
  | 0, rounds, c => c.observe finished (.rounds rounds)
  | limit + 1, rounds, c =>
    if c.below bound then
      ((body c).andThen fun c => (c.rewrite reporting (· + stride)).silent.run round).andThen
        (iterate reporting round finished bound stride body limit (rounds + 1))
    else c.observe finished (.rounds rounds)

/-- Run a program in a context. -/
def Code.run (reporting : Bool) : Code w → Context w → Run w
  | .done, c => ⟨c, [], .finished⟩
  | .act label action next, c =>
    ((action.perform reporting c).run label).andThen (next.run reporting)
  | .within opened closed region body next, c =>
    match c.enter reporting region with
    | ⟨c, .error fault⟩ => ⟨c, [], .panicked fault⟩
    | ⟨c, .ok ()⟩ =>
      (((c.observe opened .nothing).andThen (body.run reporting)).leave closed).andThen
        (next.run reporting)
  | .attempt label body next, c =>
    ((body.run reporting c).rescue label).andThen (next.run reporting)
  | .loop round finished limit bound stride body next, c =>
    (Run.iterate reporting round finished bound stride (body.run reporting) limit 0 c).andThen
      (next.run reporting)

/-- The entries of a program on a new trace: one for the new trace itself, then its own. -/
def Code.transcript (reporting : Bool) (began : String) (code : Code w) : List (Entry w) :=
  (((Context.onTrace .empty).observe began .nothing).andThen (code.run reporting)).entries

end Aggregate
