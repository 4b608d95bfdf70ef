import Aggregate.Execution.Turns

/-
  Loops over indices

  The workers of a loop share one counter. Each in turn takes the counter's
  value and advances it, in one atomic step; it stops at a value that is no
  index, and else goes on to call the body for that index. The body itself goes
  in atomic steps on a store that all workers share. Between any two steps of a
  worker, also between taking an index and calling the body for it, other workers
  may take theirs. A body that panics ends its worker, and the loop panics once
  all workers have ended. A schedule is the order in which the workers take their
  steps.

  A loop on the calling thread has neither workers nor a counter. It calls the body
  for one index after the other, and a call that panics ends it (`Body.forEach`).
-/

namespace Aggregate

/-- What a body has come to: it goes on, it has returned, or it has panicked. -/
inductive Progress (L : Type) where
  | running (state : L)
  | returned
  | panicked (message : String)
  deriving DecidableEq, Repr

/-- The body of a loop: the state it begins in for an index on a worker, and its steps on the
shared store. `none` is a step that has to wait. -/
structure Body (S L : Type) where
  enter : (index worker : Nat) → L
  step : L → S → Option (S × Progress L)

/-- What a loop over indices has come to: its calls in order, each with its worker, the panic that
it passes on, and the store. -/
structure Outline (S : Type) where
  calls : List (Nat × Nat)
  panic? : Option String
  store : S
  deriving DecidableEq, Repr

/-! ## On the calling thread -/

namespace Body

variable {S L : Type}

/-- Go on with a call until it ends, for at most so many steps: the store that it leaves, and its
panic. A call that has to wait never ends, as there is nobody to wait for. -/
def complete (body : Body S L) : Nat → L → S → Option (S × Option String)
  | 0, _, _ => none
  | steps + 1, state, store =>
    match body.step state store with
    | some (store, .running state) => body.complete steps state store
    | some (store, .returned) => some (store, none)
    | some (store, .panicked message) => some (store, some message)
    | none => none

/-- Call the body for one index after the other, up to a call that panics; the calling thread counts
as worker zero. Each call may take so many steps. -/
def forEach (body : Body S L) (steps : Nat) : List Nat → S → Option (Outline S)
  | [], store => some ⟨[], none, store⟩
  | index :: rest, store =>
    match body.complete steps (body.enter index 0) store with
    | some (store, none) =>
      (body.forEach steps rest store).map fun o => { o with calls := (index, 0) :: o.calls }
    | some (store, some message) => some ⟨[(index, 0)], some message, store⟩
    | none => none

/-- The loop on the calling thread comes to an end, and to this. -/
def ComesTo (body : Body S L) (len : Nat) (store : S) (o : Outline S) : Prop :=
  ∃ steps, body.forEach steps (List.range len) store = some o

end Body

/-! ## On workers -/

inductive Worker (L : Type) where
  | idle
  | holding (index : Nat)
  | busy (index : Nat) (state : L)
  | stopped
  | panicked (message : String)
  deriving DecidableEq, Repr

def Worker.hasEnded {L : Type} : Worker L → Bool
  | .idle | .holding _ | .busy _ _ => false
  | .stopped | .panicked _ => true

/-- Where a worker stands when its call for an index has come to this. -/
@[simp] def Worker.after {L : Type} (index : Nat) : Progress L → Worker L
  | .running state => .busy index state
  | .returned => .idle
  | .panicked message => .panicked message

/-- A loop under way: the shared counter, the workers, the shared store, and the calls made so far,
each with its worker, the last one first. -/
structure Loop (S L : Type) where
  next : Nat
  workers : List (Worker L)
  store : S
  calls : List (Nat × Nat)
  deriving Repr

namespace Loop

variable {S L : Type}

/-- The shared counter starts over at this value. -/
def counterLimit : Nat := UInt64.size

def start (workers : Nat) (store : S) : Loop S L :=
  ⟨0, List.replicate workers .idle, store, []⟩

/-- Record what a body has come to. -/
def proceed (l : Loop S L) (worker index : Nat) (store : S) (p : Progress L) : Loop S L :=
  { l with store := store, workers := l.workers.set worker (.after index p) }

/-- One step of a worker; a worker that has ended or must wait does nothing. -/
def step (len : Nat) (body : Body S L) (worker : Nat) (l : Loop S L) : Loop S L :=
  match l.workers[worker]? with
  | some .idle =>
    let taken := { l with next := (l.next + 1) % counterLimit }
    if l.next < len then { taken with workers := l.workers.set worker (.holding l.next) }
    else { taken with workers := l.workers.set worker .stopped }
  | some (.holding index) =>
    { l with
      workers := l.workers.set worker (.busy index (body.enter index worker))
      calls := (index, worker) :: l.calls }
  | some (.busy index state) =>
    match body.step state l.store with
    | some (store, p) => l.proceed worker index store p
    | none => l
  | _ => l

def run (len : Nat) (body : Body S L) (schedule : List Nat) (l : Loop S L) : Loop S L :=
  schedule.foldl (fun l worker => step len body worker l) l

def hasEnded (l : Loop S L) : Bool := l.workers.all (·.hasEnded)

/-- Let the workers take turns until all have ended, for at most so many turns of each. -/
def finish (len : Nat) (body : Body S L) (turns : Nat) (l : Loop S L) : Loop S L :=
  takeTurns (step len body) l.workers.length hasEnded turns l

/-- The panic that an ended loop passes on. -/
def panic? (l : Loop S L) : Option String :=
  l.workers.findSome? fun
    | .panicked message => some message
    | _ => none

def history (l : Loop S L) : List (Nat × Nat) := l.calls.reverse

def outline (l : Loop S L) : Outline S := ⟨l.history, l.panic?, l.store⟩

end Loop

end Aggregate
