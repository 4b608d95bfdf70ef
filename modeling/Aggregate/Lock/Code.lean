import Aggregate.Lock.Basic

/-
  Programs over a lock

  `Code` is a program of one thread over one lock. It takes and gives back the
  lock by hand, holds it by a guard around a body, gives it up around a part of
  such a body and takes it again, raises panics and catches them. Guards are
  given back, and given-up locks taken again, on every way out of a body.

  The thread is careful: it keeps track of whether it holds the lock by hand, it
  gives back by hand only what it holds, it does not wait for a lock it may hold
  itself, and before a body ends it gives back what it took by hand within.
-/

namespace Aggregate.Lock

inductive Action where
  | set
  | test
  | unset
  | other
  | describe
  | raise (message : String)
  deriving DecidableEq, Repr

/-- The labels of the entries around a body: after it was entered, after it was left, and after the
lock was given back for it. -/
structure Labels where
  opened : String
  closed : String
  settled : String
  deriving DecidableEq, Repr

/-- A program; `ρ` is the type of the values that bodies without the lock yield. -/
inductive Code (ρ : Type) where
  | done
  | act (label : String) (action : Action) (next : Code ρ)
  | guarded (labels : Labels) (wait : Bool) (body next : Code ρ)
  | unlocked (labels : Labels) (result : ρ) (body next : Code ρ)
  | released (labels : Labels) (body next : Code ρ)
  | attempt (label : String) (body next : Code ρ)

inductive Reading (ρ : Type) where
  | nothing
  | flag (value : Bool)
  | text (value : String)
  | wouldBlock
  | notHeld
  | noGuard
  | yielded (value : ρ)
  | raised (message : String)

/-- What a step showed, and whether the lock was free after it. -/
structure Entry (ρ : Type) where
  label : String
  reading : Reading ρ
  free : Bool

/-- The lock, and whether the thread holds it by hand. -/
structure Session (enabled : Bool) where
  lock : Lock enabled
  manual : Bool
  deriving DecidableEq, Repr

/-- How a run ends; a run that waits for a lock it cannot get is stalled. -/
inductive Ending where
  | finished
  | panicked (message : String)
  | stalled
  deriving DecidableEq, Repr

/-- A run: the session it leaves, its entries in order, and its ending. -/
structure Run (ρ : Type) (enabled : Bool) where
  session : Session enabled
  entries : List (Entry ρ)
  ending : Ending

variable {ρ : Type} {enabled : Bool}

def Session.observe (label : String) (reading : Reading ρ) (s : Session enabled) : Run ρ enabled :=
  ⟨s, [⟨label, reading, s.lock.isFree⟩], .finished⟩

def Run.andThen (r : Run ρ enabled) (next : Session enabled → Run ρ enabled) : Run ρ enabled :=
  match r.ending with
  | .finished =>
    let s := next r.session
    ⟨s.session, r.entries ++ s.entries, s.ending⟩
  | _ => r

/-- Do something at the end of a run, whether it finished or panicked. -/
def Run.finally (r : Run ρ enabled) (last : Session enabled → Run ρ enabled) : Run ρ enabled :=
  match r.ending with
  | .stalled => r
  | ending =>
    let s := last r.session
    ⟨s.session, r.entries ++ s.entries, if s.ending = .finished then ending else s.ending⟩

def Run.rescue (label : String) (r : Run ρ enabled) : Run ρ enabled :=
  match r.ending with
  | .panicked message =>
    let caught := r.session.observe label (.raised message)
    ⟨caught.session, r.entries ++ caught.entries, .finished⟩
  | _ => r

def Session.quiet (s : Session enabled) : Run ρ enabled := ⟨s, [], .finished⟩

/-- Take the lock, waiting if it is held. -/
def Session.acquire (s : Session enabled) : Run ρ enabled :=
  match s.lock.acquire? with
  | some taken => quiet { s with lock := taken }
  | none => ⟨s, [], .stalled⟩

/-- Give the lock back. -/
def Session.release (s : Session enabled) : Session enabled := { s with lock := s.lock.release }

/-- Give back what was taken by hand since a body began without it. -/
def Session.settle (label : String) (before : Bool) (s : Session enabled) : Run ρ enabled :=
  if !before && s.manual then
    ({ s with lock := s.lock.release, manual := false } : Session enabled).observe label .nothing
  else s.quiet

def Action.perform (label : String) (a : Action) (s : Session enabled) : Run ρ enabled :=
  match a with
  | .set =>
    match s.lock.acquire? with
    | some taken => Session.observe label .nothing ⟨taken, true⟩
    | none => s.observe label .wouldBlock
  | .test =>
    let r := s.lock.tryAcquire
    Session.observe label (.flag r.1) ⟨r.2, s.manual || r.1⟩
  | .unset =>
    if s.manual then Session.observe label .nothing ⟨s.lock.release, false⟩
    else s.observe label .notHeld
  | .other => s.observe label (.flag s.lock.isFree)
  | .describe => s.observe label (.text (Lock.describe "Lock" enabled))
  | .raise message => ⟨s, [], .panicked message⟩

/-- Run a body that begins in the given session; before it ends, what it took by hand is given
back. -/
def within (labels : Labels) (opening : Reading ρ) (body : Session enabled → Run ρ enabled)
    (s : Session enabled) : Run ρ enabled :=
  ((s.observe labels.opened opening).andThen body).finally (Session.settle labels.settled s.manual)

/-- Run a program. `inGuard` says whether it is the body of a guard. -/
def Code.run : Bool → Code ρ → Session enabled → Run ρ enabled
  | _, .done, s => s.quiet
  | inGuard, .act label action next, s => (action.perform label s).andThen (next.run inGuard)
  | inGuard, .guarded labels wait body next, s =>
    (match s.lock.acquire? with
      | none => s.observe labels.closed (if wait then .wouldBlock else .flag false)
      | some taken =>
        ((within labels (.text (Lock.describe "LockGuard" enabled)) (body.run true)
          { s with lock := taken }).finally fun s => s.release.quiet).andThen
            (Session.observe labels.closed (.flag true))).andThen (next.run inGuard)
  | inGuard, .unlocked labels result body next, s =>
    (if inGuard then
      ((within labels .nothing (body.run false) s.release).finally Session.acquire).andThen
        (Session.observe labels.closed (.yielded result))
    else s.observe labels.closed .noGuard).andThen (next.run inGuard)
  | inGuard, .released labels body next, s =>
    (if s.manual then
      (((within labels (.text (Lock.describe "UnlockGuard" enabled)) (body.run false)
        ⟨s.lock.release, false⟩).finally Session.acquire).finally fun s =>
          ({ s with manual := true } : Session enabled).quiet).andThen
            (Session.observe labels.closed .nothing)
    else s.observe labels.closed .notHeld).andThen (next.run inGuard)
  | inGuard, .attempt label body next, s =>
    ((body.run inGuard s).rescue label).andThen (next.run inGuard)

/-- The entries of a program over a free lock. -/
def Code.transcript (enabled : Bool) (code : Code ρ) : List (Entry ρ) :=
  (code.run false (⟨.new enabled, false⟩ : Session enabled)).entries

end Aggregate.Lock
