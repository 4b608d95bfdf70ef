import Aggregate.Lock.Basic

/-
  Reader-writer locks that can be compiled out

  A `SharedLock enabled` lets in many readers or one writer if it is enabled; a
  disabled one has no state and lets everyone in. As with locks, `none` means
  waiting, and each operation is one atomic step.
-/

namespace Aggregate

inductive Access where
  | shared
  | exclusive
  deriving DecidableEq, Repr

def Access.guardName : Access → String
  | .shared => "SharedGuard"
  | .exclusive => "ExclusiveGuard"

/-- A reader-writer lock: its readers and its writer when enabled, without a state when not. -/
inductive SharedLock : Bool → Type where
  | real (readers : Nat) (writer : Bool) : SharedLock true
  | bypass : SharedLock false
  deriving DecidableEq, Repr

namespace SharedLock

variable {enabled : Bool}

def new : (enabled : Bool) → SharedLock enabled
  | true => .real 0 false
  | false => .bypass

/-- Take access; `none` if that means waiting. -/
def acquire? : Access → SharedLock enabled → Option (SharedLock enabled)
  | .shared, .real readers writer => if writer then none else some (.real (readers + 1) false)
  | .exclusive, .real readers writer =>
    if writer ∨ readers ≠ 0 then none else some (.real 0 true)
  | _, .bypass => some .bypass

def admits (l : SharedLock enabled) (access : Access) : Bool := (l.acquire? access).isSome

/-- Give access back. Only its holder may do so. -/
def release : Access → SharedLock enabled → SharedLock enabled
  | .shared, .real readers writer => .real (readers - 1) writer
  | .exclusive, .real readers _ => .real readers false
  | _, .bypass => .bypass

end SharedLock

end Aggregate
