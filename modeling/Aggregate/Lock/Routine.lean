import Aggregate.Lock.Threads
import Aggregate.SharedLock.Contexts

/-
  Routines

  A routine is what one thread does that is alone with a lock and a reader-writer
  lock. Which step it takes next may depend on all that it has seen: the steps it
  took so far, and whether it got what it tried to take. It does not see whether the
  locks are enabled.

  Nobody gives back a lock for which the thread has to wait: at such a step the
  routine stays where it is, and so it does at a step that it cannot take.
-/

namespace Aggregate

/-- Whether a step gets what it asks for. -/
def Lock.answer {enabled : Bool} (lock : Lock enabled) : Move → Bool
  | .test | .tryGuard => lock.tryAcquire.1
  | _ => true

/-- Whether a step gets what it asks for. -/
def SharedLock.answer {enabled : Bool} (lock : SharedLock enabled) : Move → Bool
  | .tryAcquire access => lock.admits access
  | _ => true

/-- While a panic unwinds a thread only drops guards. -/
def Lock.Phase.allowsShared : Lock.Phase → SharedLock.Move → Bool
  | .running, _ => true
  | .unwinding, .drop _ => true
  | _, _ => false

namespace Routine

inductive Step where
  | onLock (m : Lock.Move)
  | onShared (m : SharedLock.Move)
  deriving DecidableEq, Repr

/-- What a thread has of its own: where it stands with the lock, its guards of the reader-writer
lock, and its steps so far with what they got, the last one first. -/
structure Seen where
  thread : Lock.Thread
  guards : List Access
  history : List (Step × Bool)
  deriving DecidableEq, Repr

/-- The locks and the thread. -/
structure Session (enabled : Bool) where
  lock : Lock enabled
  shared : SharedLock enabled
  seen : Seen
  deriving DecidableEq, Repr

end Routine

/-- The next step after what has been seen; `none` when the routine is over. -/
abbrev Routine := List (Routine.Step × Bool) → Option Routine.Step

namespace Routine

variable {enabled : Bool}

def Session.start (enabled : Bool) : Session enabled :=
  ⟨.new enabled, .new enabled, ⟨.new, [], []⟩⟩

def Session.take (s : Session enabled) : Step → Option (Session enabled)
  | .onLock m =>
    (s.seen.thread.move s.lock m).map fun r =>
      ⟨r.1, s.shared, r.2, s.seen.guards, (.onLock m, s.lock.answer m) :: s.seen.history⟩
  | .onShared m =>
    if s.seen.thread.phase.allowsShared m then
      (s.shared.move s.seen.guards m).map fun r =>
        ⟨s.lock, r.1, s.seen.thread, r.2, (.onShared m, s.shared.answer m) :: s.seen.history⟩
    else none

/-- Take the next step of a routine. -/
def Session.next (routine : Routine) (s : Session enabled) : Session enabled :=
  match routine s.seen.history with
  | none => s
  | some step => (s.take step).getD s

/-- The session after so many steps of a routine. -/
def run (routine : Routine) (enabled : Bool) : Nat → Session enabled
  | 0 => .start enabled
  | n + 1 => (run routine enabled n).next routine

/-- Whether a step takes a lock, or tries to. -/
def Step.acquires : Step → Bool
  | .onLock .set | .onLock .test | .onLock .guard | .onLock .tryGuard => true
  | .onShared (.acquire _) | .onShared (.tryAcquire _) => true
  | _ => false

/-- Whether a step that takes a lock, or takes it again at the end of a scope for which it was given
up, finds it available. -/
def Session.finds (s : Session enabled) : Step → Bool
  | .onLock .set | .onLock .test | .onLock .guard | .onLock .tryGuard => s.lock.isFree
  | .onLock .leave =>
    match s.seen.thread.spans with
    | .gap _ :: _ => s.lock.isFree
    | _ => true
  | .onShared (.acquire access) | .onShared (.tryAcquire access) => s.shared.admits access
  | _ => true

end Routine

end Aggregate
