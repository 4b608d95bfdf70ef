import Aggregate.Execution.Turns

/-
  Loops until false

  Every worker calls a predicate again and again and stops the first time it is
  false. A call is one atomic step on a store that all workers share; a schedule
  is the order in which the workers make their calls. The calling thread does what
  every worker does, as worker zero.
-/

namespace Aggregate

/-- A loop until false under way: which workers still run, the shared store, and the calls made so
far with their answers, the last one first. -/
structure Polling (S : Type) where
  running : List Bool
  store : S
  calls : List (Nat × Bool)
  deriving Repr

namespace Polling

variable {S : Type}

def start (workers : Nat) (store : S) : Polling S := ⟨List.replicate workers true, store, []⟩

/-- One call of a worker; one that has stopped does nothing. -/
def step (predicate : Nat → S → Bool × S) (worker : Nat) (p : Polling S) : Polling S :=
  match p.running[worker]? with
  | some true =>
    let r := predicate worker p.store
    ⟨p.running.set worker r.1, r.2, (worker, r.1) :: p.calls⟩
  | _ => p

def run (predicate : Nat → S → Bool × S) (schedule : List Nat) (p : Polling S) : Polling S :=
  schedule.foldl (fun p worker => step predicate worker p) p

def hasEnded (p : Polling S) : Bool := p.running.all not

/-- Let the workers take turns until all have stopped, for at most so many turns of each. -/
def finish (predicate : Nat → S → Bool × S) (turns : Nat) (p : Polling S) : Polling S :=
  takeTurns (step predicate) p.running.length hasEnded turns p

end Polling

end Aggregate
