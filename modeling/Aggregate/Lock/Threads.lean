import Aggregate.Lock.Basic

/-
  Threads that share a lock

  A thread takes the lock and gives it back by hand, or holds it by a guard until
  the guard's scope ends; inside either it may give the lock up for a scope, at
  whose end it takes the lock again. A panic leaves the open scopes one after the
  other, each as at its normal end, until it is caught or the thread has none
  left.

  `Thread.move` is one atomic step of a thread; `none` is a step that has to wait
  for the lock, or one that the thread cannot take where it stands. A thread is free
  in the choice of its steps, and so goes through what any program made of them
  goes through, whatever that branches on and wherever it catches. A schedule
  says which thread takes which step next.
-/

namespace Aggregate.Lock

variable {enabled : Bool}

/-- A scope that a thread has open: that of a guard, or one for which it gave the lock up, which it
held by hand or else by a guard. -/
inductive Span where
  | guard
  | gap (byHand : Bool)
  deriving DecidableEq, Repr

inductive Phase where
  | running
  | unwinding
  | ended
  deriving DecidableEq, Repr

/-- A thread: whether it holds the lock by hand, not counting what it gave up, and the scopes it
has open, innermost first. -/
structure Thread where
  byHand : Bool
  spans : List Span
  phase : Phase
  deriving DecidableEq, Repr

/-- A step of a thread. `leave` ends the innermost scope. -/
inductive Move where
  | set
  | test
  | unset
  | guard
  | tryGuard
  | giveUp
  | leave
  | raise
  | rescue
  | finish
  deriving DecidableEq, Repr

/-- While a panic unwinds a thread does nothing but clean up, until the panic is caught. -/
def Phase.allows : Phase → Move → Bool
  | .running, .rescue => false
  | .running, _ => true
  | .unwinding, .unset | .unwinding, .leave | .unwinding, .rescue | .unwinding, .finish => true
  | _, _ => false

/-- The lock is held by hand, or by a guard within whose scope it has not been given up. -/
def isHeld (byHand : Bool) (spans : List Span) : Bool := byHand || spans.head? == some .guard

namespace Thread

def new : Thread := ⟨false, [], .running⟩

/-- The thread takes itself to be protected: it has taken the lock, and neither given it back nor
given it up for the scope that it is in. -/
def holds (t : Thread) : Bool := isHeld t.byHand t.spans

/-- Leave the innermost scope. A guard gives the lock back; after a gap it is taken again, which may
mean waiting. -/
def leave (lock : Lock enabled) (t : Thread) : Option (Lock enabled × Thread) :=
  match t.spans with
  | [] => none
  | .guard :: outer => some (lock.release, { t with spans := outer })
  | .gap byHand :: outer =>
    lock.acquire?.map fun taken => (taken, { t with byHand := byHand, spans := outer })

/-- Give the lock up for a scope. -/
def giveUp (lock : Lock enabled) (t : Thread) : Option (Lock enabled × Thread) :=
  if t.holds then
    some (lock.release, { t with byHand := false, spans := .gap t.byHand :: t.spans })
  else none

def act (lock : Lock enabled) (t : Thread) : Move → Option (Lock enabled × Thread)
  | .set => lock.acquire?.map fun taken => (taken, { t with byHand := true })
  | .test =>
    match lock.tryAcquire with
    | (true, taken) => some (taken, { t with byHand := true })
    | (false, lock) => some (lock, t)
  | .unset => if t.byHand then some (lock.release, { t with byHand := false }) else none
  | .guard => lock.acquire?.map fun taken => (taken, { t with spans := .guard :: t.spans })
  | .tryGuard =>
    match lock.tryAcquire with
    | (true, taken) => some (taken, { t with spans := .guard :: t.spans })
    | (false, lock) => some (lock, t)
  | .giveUp => t.giveUp lock
  | .leave => t.leave lock
  | .raise => some (lock, { t with phase := .unwinding })
  | .rescue => some (lock, { t with phase := .running })
  | .finish => if t.spans = [] then some (lock, { t with phase := .ended }) else none

def move (lock : Lock enabled) (t : Thread) (m : Move) : Option (Lock enabled × Thread) :=
  if t.phase.allows m then t.act lock m else none

end Thread

/-- A lock and the threads that share it. -/
structure System (enabled : Bool) where
  lock : Lock enabled
  threads : List Thread
  deriving DecidableEq, Repr

namespace System

def start (enabled : Bool) (threads : Nat) : System enabled :=
  ⟨.new enabled, List.replicate threads .new⟩

/-- One step of a thread; one that it cannot take now changes nothing. -/
def step (s : System enabled) (k : Nat) (m : Move) : System enabled :=
  match s.threads[k]? with
  | none => s
  | some t =>
    match t.move s.lock m with
    | none => s
    | some (lock, now) => ⟨lock, s.threads.set k now⟩

def run (s : System enabled) (schedule : List (Nat × Move)) : System enabled :=
  schedule.foldl (fun s turn => s.step turn.1 turn.2) s

end System

end Aggregate.Lock
