import Aggregate.Execution.Workload

/-
  Threads that count

  Each of several threads adds one to a shared counter a number of times. In every
  round it takes the lock, reads the counter, writes back one more than it read and
  gives the lock back, each in a step of its own, and the other threads may take
  steps of theirs between any two of them. With a disabled lock nothing keeps their
  rounds apart. A schedule says whose step is next.
-/

namespace Aggregate

/-- A thread that counts: the rounds that it has not finished, and where it stands in the first of
them. -/
structure Rounds where
  left : Nat
  stage : Workload.Stage
  deriving DecidableEq, Repr

/-- Threads on one counter, and how many values they have written to it. -/
structure Race (enabled : Bool) where
  counter : Workload.Counter enabled
  threads : List Rounds
  writes : Nat
  deriving DecidableEq, Repr

def Workload.Stage.writes : Workload.Stage → Bool
  | .writing _ => true
  | _ => false

namespace Race

variable {enabled : Bool}

def start (enabled : Bool) (rounds : List Nat) : Race enabled :=
  ⟨⟨.new enabled, 0⟩, rounds.map (⟨·, .locking⟩), 0⟩

/-- Where a thread stands after a step of a round, with so many rounds after that one. -/
def proceed (left : Nat) : Progress Workload.Stage → Rounds
  | .running stage => ⟨left + 1, stage⟩
  | .returned => ⟨left, .locking⟩
  | .panicked _ => ⟨0, .locking⟩

/-- One step of a thread; one that has finished its rounds or has to wait for the lock does
nothing. -/
def step (k : Nat) (r : Race enabled) : Race enabled :=
  match r.threads[k]? with
  | some ⟨left + 1, stage⟩ =>
    match (Workload.increment enabled).step stage r.counter with
    | some (counter, p) =>
      ⟨counter, r.threads.set k (proceed left p), r.writes + stage.writes.toNat⟩
    | none => r
  | _ => r

def run (schedule : List Nat) (r : Race enabled) : Race enabled :=
  schedule.foldl (fun r k => step k r) r

def hasEnded (r : Race enabled) : Bool := r.threads.all (·.left == 0)

end Race

end Aggregate
