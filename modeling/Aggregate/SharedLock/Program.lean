import Aggregate.SharedLock.Basic
import Aggregate.Registers

/-
  Programs over a reader-writer lock

  A program takes and drops guards, which it keeps under names. It does not
  wait: a step that would have to is refused.
-/

namespace Aggregate.SharedLock

inductive Step where
  | acquire (guard : String) (access : Access)
  | tryAcquire (guard : String) (access : Access)
  | drop (guard : String)
  | other
  | describe
  deriving DecidableEq, Repr

inductive Reading where
  | nothing
  | wouldBlock
  | text (value : String)
  | flag (value : Bool)
  | admits (shared exclusive : Bool)
  deriving DecidableEq, Repr

/-- The lock and the guards held. -/
structure Session (enabled : Bool) where
  lock : SharedLock enabled
  held : Registers Access
  deriving DecidableEq, Repr

variable {enabled : Bool}

def Session.names (s : Session enabled) : List String :=
  (s.held.entries.map (·.1)).mergeSort

/-- Take access and keep the guard, or show why not. -/
def Session.take (guard : String) (access : Access) (refusal : Reading) (s : Session enabled) :
    Session enabled × Reading :=
  match s.lock.acquire? access with
  | some taken =>
    (⟨taken, s.held.put guard access⟩, .text (Lock.describe access.guardName enabled))
  | none => (s, refusal)

def Step.perform (step : Step) (s : Session enabled) : Session enabled × Reading :=
  match step with
  | .acquire guard access => s.take guard access .wouldBlock
  | .tryAcquire guard access => s.take guard access .nothing
  | .drop guard =>
    match s.held.get? guard with
    | some access => (⟨s.lock.release access, s.held.erase guard⟩, .flag true)
    | none => (s, .flag false)
  | .other => (s, .admits (s.lock.admits .shared) (s.lock.admits .exclusive))
  | .describe => (s, .text (Lock.describe "SharedLock" enabled))

/-- Run a program: what each step shows, and the session after it. -/
def run : List Step → Session enabled → List (Reading × Session enabled)
  | [], _ => []
  | step :: rest, s =>
    let r := step.perform s
    (r.2, r.1) :: run rest r.1

/-- The session that begins with a free lock. -/
def Session.start (enabled : Bool) : Session enabled := ⟨.new enabled, .empty⟩

end Aggregate.SharedLock
