import Aggregate.Record

/-
  Locks that can be compiled out

  A `Lock enabled` excludes all but one holder if it is enabled; a disabled one
  has no state and every operation on it succeeds. Taking a lock that is held
  means waiting, which `acquire?` answers by `none`; each operation is one
  atomic step.
-/

namespace Aggregate

/-- A lock: held or free when enabled, without a state when not. -/
inductive Lock : Bool → Type where
  | real (held : Bool) : Lock true
  | bypass : Lock false
  deriving DecidableEq, Repr

namespace Lock

variable {enabled : Bool}

def new : (enabled : Bool) → Lock enabled
  | true => .real false
  | false => .bypass

def isFree : Lock enabled → Bool
  | .real held => !held
  | .bypass => true

/-- Take the lock; `none` if that means waiting. -/
def acquire? : Lock enabled → Option (Lock enabled)
  | .real false => some (.real true)
  | .real true => none
  | .bypass => some .bypass

/-- Take the lock if it is free, and say whether it was. -/
def tryAcquire (l : Lock enabled) : Bool × Lock enabled :=
  match l.acquire? with
  | some taken => (true, taken)
  | none => (false, l)

/-- Give the lock back. Only its holder may do so. -/
def release : Lock enabled → Lock enabled
  | .real _ => .real false
  | .bypass => .bypass

def describe (name : String) (enabled : Bool) : String :=
  recordText name [("enabled", boolText enabled)]

end Lock

end Aggregate
