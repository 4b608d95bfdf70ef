import Aggregate.Lock.Routine
import Aggregate.Proofs.Lock.Exclusion

/-
  Locks that are compiled out

  A routine that always finds its locks available does not notice whether they are
  enabled. What it sees after each step is the same with enabled and with disabled
  locks (`take_seen`), although the first have a state and the second none; so it
  goes on in the same way, and by induction the whole run is the same. Disabled
  locks are always available, so there every try succeeds.
-/

namespace Aggregate

/-! ## One step on either lock -/

namespace Lock

variable {lock : Lock true}

theorem acquire?_disabled (other : Lock false) : other.acquire? = some .bypass := by
  cases other
  rfl

theorem acquire?_free (hfree : lock.isFree = true) : lock.acquire? = some (.real true) := by
  cases lock with
  | real held =>
    cases held with
    | true => cases hfree
    | false => rfl

theorem tryAcquire_disabled (other : Lock false) : other.tryAcquire = (true, .bypass) := by
  rw [tryAcquire, acquire?_disabled]

theorem tryAcquire_free (hfree : lock.isFree = true) : lock.tryAcquire = (true, .real true) := by
  rw [tryAcquire, acquire?_free hfree]

/-- What a thread becomes by a step does not depend on the lock, if it is available to the step. -/
theorem Thread.act_same (t : Thread) (m : Move) (other : Lock false)
    (htake : m = .set ∨ m = .test ∨ m = .guard ∨ m = .tryGuard → lock.isFree = true)
    (hretake : ∀ byHand outer, m = .leave → t.spans = .gap byHand :: outer → lock.isFree = true) :
    (t.act other m).map Prod.snd = (t.act lock m).map Prod.snd ∧
      other.answer m = lock.answer m := by
  cases m with
  | set =>
    have hfree := htake (by simp)
    exact ⟨by simp [act, acquire?_disabled, acquire?_free hfree], rfl⟩
  | test =>
    have hfree := htake (by simp)
    exact ⟨by simp [act, tryAcquire_disabled, tryAcquire_free hfree],
      by simp [answer, tryAcquire_disabled, tryAcquire_free hfree]⟩
  | guard =>
    have hfree := htake (by simp)
    exact ⟨by simp [act, acquire?_disabled, acquire?_free hfree], rfl⟩
  | tryGuard =>
    have hfree := htake (by simp)
    exact ⟨by simp [act, tryAcquire_disabled, tryAcquire_free hfree],
      by simp [answer, tryAcquire_disabled, tryAcquire_free hfree]⟩
  | unset =>
    refine ⟨?_, rfl⟩
    cases hhand : t.byHand <;> simp [act, hhand]
  | giveUp =>
    refine ⟨?_, rfl⟩
    cases hheld : t.holds <;> simp [act, giveUp, hheld]
  | leave =>
    refine ⟨?_, rfl⟩
    obtain ⟨byHand, spans, phase⟩ := t
    cases spans with
    | nil => rfl
    | cons span outer =>
      cases span with
      | guard => rfl
      | gap inner =>
        have hfree := hretake inner outer rfl rfl
        simp [act, leave, acquire?_disabled, acquire?_free hfree]
  | raise => exact ⟨rfl, rfl⟩
  | rescue => exact ⟨rfl, rfl⟩
  | finish =>
    refine ⟨?_, rfl⟩
    by_cases hspans : t.spans = [] <;> simp [act, hspans]

end Lock

namespace SharedLock

theorem acquire?_disabled (access : Access) (other : SharedLock false) :
    other.acquire? access = some .bypass := by
  cases other
  cases access <;> rfl

theorem move_same {lock : SharedLock true} (guards : List Access) (m : Move)
    (other : SharedLock false)
    (hadmits : ∀ access, m = .acquire access ∨ m = .tryAcquire access →
      lock.admits access = true) :
    (other.move guards m).map Prod.snd = (lock.move guards m).map Prod.snd ∧
      other.answer m = lock.answer m := by
  cases m with
  | acquire access =>
    obtain ⟨taken, htaken⟩ := Option.isSome_iff_exists.mp (hadmits access (.inl rfl))
    exact ⟨by simp [move, acquire?_disabled, htaken], rfl⟩
  | tryAcquire access =>
    obtain ⟨taken, htaken⟩ := Option.isSome_iff_exists.mp (hadmits access (.inr rfl))
    exact ⟨by simp [move, acquire?_disabled, htaken],
      by simp [answer, admits, acquire?_disabled, htaken]⟩
  | drop place =>
    refine ⟨?_, rfl⟩
    simp only [move, Option.map_map]
    rfl

end SharedLock

/-! ## Routines -/

namespace Routine

section
variable {s : Session true} {t : Session false}

/-- A step that finds its lock available shows the same with disabled locks. -/
theorem take_seen {step : Step} (hseen : t.seen = s.seen) (hfinds : s.finds step = true) :
    (t.take step).map (·.seen) = (s.take step).map (·.seen) := by
  cases step with
  | onLock m =>
    have htake : m = .set ∨ m = .test ∨ m = .guard ∨ m = .tryGuard → s.lock.isFree = true := by
      rintro (rfl | rfl | rfl | rfl) <;> exact hfinds
    have hretake : ∀ byHand outer, m = .leave → s.seen.thread.spans = .gap byHand :: outer →
        s.lock.isFree = true := by
      rintro byHand outer rfl hspans
      simpa only [Session.finds, hspans] using hfinds
    obtain ⟨hact, hanswer⟩ := s.seen.thread.act_same m t.lock htake hretake
    have hmove : (s.seen.thread.move t.lock m).map Prod.snd =
        (s.seen.thread.move s.lock m).map Prod.snd := by
      rw [Lock.Thread.move, Lock.Thread.move]
      split
      · exact hact
      · rfl
    have hsame := congrArg (Option.map fun now : Lock.Thread =>
      (⟨now, s.seen.guards, (.onLock m, s.lock.answer m) :: s.seen.history⟩ : Seen)) hmove
    simp only [Option.map_map] at hsame
    simp only [Session.take, Option.map_map, hseen, hanswer]
    exact hsame
  | onShared m =>
    have hadmits : ∀ access, m = .acquire access ∨ m = .tryAcquire access →
        s.shared.admits access = true := by
      rintro access (rfl | rfl) <;> exact hfinds
    obtain ⟨hmove, hanswer⟩ := SharedLock.move_same s.seen.guards m t.shared hadmits
    have hsame := congrArg (Option.map fun guards : List Access =>
      (⟨s.seen.thread, guards, (.onShared m, s.shared.answer m) :: s.seen.history⟩ : Seen)) hmove
    simp only [Option.map_map] at hsame
    simp only [Session.take, hseen, hanswer]
    split
    · simp only [Option.map_map]
      exact hsame
    · rfl

theorem next_seen {routine : Routine} (hseen : t.seen = s.seen)
    (hfinds : ∀ step ∈ routine s.seen.history, s.finds step = true) :
    (t.next routine).seen = (s.next routine).seen := by
  rw [Session.next, Session.next, hseen]
  cases hroutine : routine s.seen.history with
  | none => exact hseen
  | some step =>
    have htake := take_seen hseen (hfinds step hroutine)
    cases hs : s.take step <;> cases ht : t.take step <;> simp only [hs, ht] at htake ⊢
    · exact hseen
    · cases htake
    · cases htake
    · exact Option.some.inj htake

theorem take_disabled (t : Session false) {step : Step} (hacquires : step.acquires = true)
    (hphase : t.seen.thread.phase = .running) :
    ∃ t', t.take step = some t' ∧ t'.seen.history = (step, true) :: t.seen.history := by
  cases step with
  | onLock m =>
    cases m
    case set | test | guard | tryGuard =>
      simp [Session.take, Lock.Thread.move, Lock.Thread.act, Lock.Phase.allows, hphase,
        Lock.acquire?_disabled, Lock.tryAcquire_disabled, Lock.answer]
    all_goals cases hacquires
  | onShared m =>
    cases m
    case acquire | tryAcquire =>
      simp [Session.take, SharedLock.move, Lock.Phase.allowsShared, hphase,
        SharedLock.acquire?_disabled, SharedLock.answer, SharedLock.admits]
    all_goals cases hacquires

end

/-- A routine of one thread over a lock and a reader-writer lock that, with enabled locks, finds
each lock available that it takes in its first `n` steps, takes the same steps with disabled ones,
gets the same from each, panics and catches at the same places, and has the same guards then. With
disabled locks every attempt to take one succeeds, in whatever state. -/
theorem disabled_unnoticed (routine : Routine) :
    (∀ n : Nat,
      (∀ m < n, ∀ step ∈ routine (run routine true m).seen.history,
        (run routine true m).finds step = true) →
      (run routine false n).seen = (run routine true n).seen) ∧
    ∀ (t : Session false) (step : Step), step.acquires = true → t.seen.thread.phase = .running →
      ∃ t', t.take step = some t' ∧ t'.seen.history = (step, true) :: t.seen.history := by
  refine ⟨fun n => ?_, fun t step => take_disabled t⟩
  induction n with
  | zero => intro _; rfl
  | succ n ih =>
    intro hfinds
    have hseen := ih fun m hm => hfinds m (Nat.lt_succ_of_lt hm)
    exact next_seen hseen (hfinds n (Nat.lt_succ_self n))

/-- Take these steps, as long as every one gets what it asks for. -/
def insistent (steps : List Step) : Routine := fun history =>
  if history.all (·.2) then steps[history.length]? else none

/-- A panic goes through a scope for which a guard gave the lock up, and that guard is still there
when it has been caught; meanwhile two readers leave in the order in which they came. -/
def interrupted : List Step :=
  [.onLock .tryGuard, .onShared (.acquire .shared), .onLock .giveUp, .onLock .test, .onLock .unset,
    .onShared (.tryAcquire .shared), .onLock .raise, .onShared (.drop 1), .onLock .leave,
    .onLock .rescue, .onShared (.drop 0), .onLock .leave]

theorem disabled_unnoticed_interrupted :
    (run (insistent interrupted) false 12).seen = (run (insistent interrupted) true 12).seen ∧
      (run (insistent interrupted) true 10).seen.thread = ⟨false, [.guard], .running⟩ ∧
      (run (insistent interrupted) true 12).seen.history.length = 12 ∧
      ∃ t, (Session.start false).take (.onLock .test) = some t ∧
        t.seen.history = [(.onLock .test, true)] := by
  obtain ⟨hsame, htries⟩ := disabled_unnoticed (insistent interrupted)
  exact ⟨hsame 12 (by decide), by decide, by decide, htries (.start false) (.onLock .test) rfl rfl⟩

end Routine

end Aggregate
