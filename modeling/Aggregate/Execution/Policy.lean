import Aggregate.Build
import Aggregate.Event
import Aggregate.Record

/-
  Execution policies

  A loop over devices runs on the calling thread or is spread over a pool of
  workers. A policy names the workers it wants; a loop that would gain nothing
  from them, or for which no pool can be had, runs on the calling thread, which
  then counts as worker zero.
-/

namespace Aggregate

/-- How a loop over devices is executed. -/
inductive Policy where
  | sequential
  | parallel (threads : Nat)
  deriving DecidableEq, Repr

namespace Policy

/-- Parallel with so many workers or sequential. -/
def general (parallel : Bool) (threads : Nat) : Policy :=
  if parallel then .parallel threads else .sequential

/-- The policy of a build on a machine with so many threads. -/
def ofBuild (b : Build) (threads : Nat) : Policy := general b.parallel threads

/-- Number of workers that a loop may run on. -/
def workers : Policy → Nat
  | .sequential => 1
  | .parallel threads => max threads 1

def text : Policy → String
  | .sequential => "Sequential"
  | .parallel threads => recordText "Parallel" [("threads", toString threads)]

/-- Whether a loop over indices asks for a pool. -/
def wantsPool (p : Policy) (len : Nat) : Bool := p.workers != 1 && decide (1 < len)

def wantsPoolForever (p : Policy) : Bool := p.workers != 1

/-- Number of workers of a loop over indices. -/
def forWorkers (p : Policy) (pool : Bool) (len : Nat) : Nat :=
  if p.wantsPool len && pool then p.workers else 1

def whileWorkers (p : Policy) (pool : Bool) : Nat :=
  if p.wantsPoolForever && pool then p.workers else 1

/-! ## Events -/

/-- The target that the events of loops are filed under. -/
def target : String := "fieldcalc_concurrency::execution"

/-- The event of a pool that could not be had. -/
def poolMissing (workers : Nat) : Event :=
  ⟨.warn, target, "worker pool unavailable, running sequentially", [("workers", toString workers)]⟩

/-- The events of a loop over indices. -/
def forEvents (p : Policy) (pool : Bool) (len : Nat) : List Event :=
  if !p.wantsPool len then []
  else if pool then
    [⟨.debug, target, "parallel_for", [("workers", toString p.workers), ("len", toString len)]⟩]
  else [poolMissing p.workers]

def whileEvents (p : Policy) (pool : Bool) : List Event :=
  if !p.wantsPoolForever then []
  else if pool then [⟨.debug, target, "parallel_while", [("workers", toString p.workers)]⟩]
  else [poolMissing p.workers]

end Policy

end Aggregate
