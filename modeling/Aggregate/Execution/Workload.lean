import Aggregate.Execution.For
import Aggregate.Execution.While
import Aggregate.Execution.Policy
import Aggregate.Lock.Basic

/-
  Workloads

  Loops whose outcome does not depend on the schedule: calls that are only
  recorded, a counter kept under a lock, workers with a limit of calls each, and
  a supply of work that all drain. Each is run to its end by letting the workers
  take turns; a loop over indices that has one worker runs on the calling thread.
-/

namespace Aggregate

namespace Workload

/-! ## Recorded calls -/

/-- A body of one step, which panics for one index if asked to. -/
def recorded (panicAt? : Option Nat) : Body Unit Nat where
  enter index _ := index
  step index store :=
    some (store, if panicAt? = some index then .panicked ("failed at " ++ toString index)
      else .returned)

/-- What comes of a loop over indices whose calls are recorded. -/
def record (workers len : Nat) (panicAt? : Option Nat) : Outline Unit :=
  if workers = 1 then
    ((recorded panicAt?).forEach 1 (List.range len) ()).getD ⟨[], none, ()⟩
  else (Loop.finish len (recorded panicAt?) (3 * len + 3) (.start workers ())).outline

/-! ## A counter under a lock -/

/-- Where a body that adds one to the counter stands. -/
inductive Stage where
  | locking
  | reading
  | writing (seen : Nat)
  | leaving
  deriving DecidableEq, Repr

structure Counter (enabled : Bool) where
  lock : Lock enabled
  value : Nat
  deriving DecidableEq, Repr

/-- Take the lock, read the counter, write back one more, and give the lock back. -/
def increment (enabled : Bool) : Body (Counter enabled) Stage where
  enter _ _ := .locking
  step stage c := match stage with
    | .locking => c.lock.acquire?.map fun taken => ({ c with lock := taken }, .running .reading)
    | .reading => some (c, .running (.writing c.value))
    | .writing seen => some ({ c with value := seen + 1 }, .running .leaving)
    | .leaving => some ({ c with lock := c.lock.release }, .returned)

/-- The counter after a loop over indices whose bodies each add one. -/
def count (enabled : Bool) (workers len : Nat) : Nat :=
  if workers = 1 then
    ((increment enabled).forEach 4 (List.range len) ⟨.new enabled, 0⟩).elim 0 (·.store.value)
  else (Loop.finish len (increment enabled) (6 * (len + 1) * (workers + 1))
    (.start workers ⟨.new enabled, 0⟩)).store.value

/-! ## Limits and supplies -/

/-- A worker goes on until its calls number its limit. -/
def limited (limits : List Nat) (worker : Nat) (counts : List Nat) : Bool × List Nat :=
  let made := counts.getD worker 0 + 1
  (decide (made < limits.getD worker 0), counts.set worker made)

def callsWithin (workers : Nat) (limits : List Nat) : List Nat :=
  (Polling.finish (limited limits) (limits.foldl max 0 + 1)
    (.start workers (limits.map fun _ => 0))).store

/-- Take a unit from the supply, and say whether there was one. -/
def takeUnit (_ : Nat) (supply : Nat) : Bool × Nat := (decide (0 < supply), supply - 1)

/-- The number of calls it takes to drain a supply, and what is left of it. -/
def drain (workers supply : Nat) : Nat × Nat :=
  let p := Polling.finish takeUnit (supply + 1) (.start workers supply)
  (p.calls.length, p.store)

end Workload

end Aggregate
