import Aggregate.SharedLock.Basic

/-
  Contexts that share a reader-writer lock

  A context takes access, waiting for it or not, and has a guard for each access
  that it got; it drops its guards in any order. `SharedLock.move` is one atomic
  step of a context; `none` is a step that has to wait for the lock, or the drop of
  a guard that there is not. A context is free in the choice of its steps. A
  schedule says which context takes which step next.
-/

namespace Aggregate.SharedLock

variable {enabled : Bool}

/-- A step of a context. Its guards are told apart by their place, the one taken last being the
first. -/
inductive Move where
  | acquire (access : Access)
  | tryAcquire (access : Access)
  | drop (place : Nat)
  deriving DecidableEq, Repr

/-- A step of a context that has these guards. -/
def move (lock : SharedLock enabled) (guards : List Access) :
    Move → Option (SharedLock enabled × List Access)
  | .acquire access => (lock.acquire? access).map fun taken => (taken, access :: guards)
  | .tryAcquire access =>
    match lock.acquire? access with
    | some taken => some (taken, access :: guards)
    | none => some (lock, guards)
  | .drop place => guards[place]?.map fun access => (lock.release access, guards.eraseIdx place)

/-- A reader-writer lock and the contexts that share it, each with its guards. -/
structure System (enabled : Bool) where
  lock : SharedLock enabled
  contexts : List (List Access)
  deriving DecidableEq, Repr

namespace System

def start (enabled : Bool) (contexts : Nat) : System enabled :=
  ⟨.new enabled, List.replicate contexts []⟩

/-- All guards that are live. -/
def guards (s : System enabled) : List Access := s.contexts.flatten

/-- One step of a context; one that it cannot take now changes nothing. -/
def step (s : System enabled) (k : Nat) (m : Move) : System enabled :=
  match s.contexts[k]? with
  | none => s
  | some guards =>
    match s.lock.move guards m with
    | none => s
    | some (lock, now) => ⟨lock, s.contexts.set k now⟩

def run (s : System enabled) (schedule : List (Nat × Move)) : System enabled :=
  schedule.foldl (fun s turn => s.step turn.1 turn.2) s

end System

end Aggregate.SharedLock
