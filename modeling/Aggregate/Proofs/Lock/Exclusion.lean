import Aggregate.Lock.Threads
import Aggregate.Proofs.Lock.Admission

/-
  One thread at a time

  Whatever the threads do and in whatever order, at most one of them takes itself
  to be protected, and the lock is held while one does. What a thread takes itself
  to be is told by what it has open alone: the scopes for which it gave the lock up
  do not count, and a guard around such a scope waits there for the lock to be
  taken again.

  `Nested` says how the scopes of a thread lie in each other, and `act_effect` what
  a step can do: it takes the free lock, gives back one that the thread holds, or
  leaves both alone. From this follow the invariant of one step (`sound_step`) and
  of any schedule (`sound_run`).
-/

namespace Aggregate.Lock

section
variable {byHand now : Bool} {spans outer : List Span}

@[simp] theorem isHeld_nil : isHeld byHand [] = byHand := Bool.or_false byHand

@[simp] theorem isHeld_guard : isHeld byHand (.guard :: outer) = true := Bool.or_true byHand

@[simp] theorem isHeld_gap {inner : Bool} : isHeld byHand (.gap inner :: outer) = byHand :=
  Bool.or_false byHand

@[simp] theorem isHeld_true : isHeld true spans = true := rfl

/-! ## How scopes lie in each other -/

/-- A guard was taken by a thread that did not hold the lock, and the lock given up by one that
did. -/
def Nested : Bool → List Span → Prop
  | _, [] => True
  | byHand, .guard :: outer => isHeld byHand outer = false ∧ Nested byHand outer
  | _, .gap byHand :: outer => isHeld byHand outer = true ∧ Nested byHand outer

theorem Nested.isHeld_false (h : Nested true spans) : isHeld false spans = false := by
  cases spans with
  | nil => rfl
  | cons span outer =>
    cases span with
    | guard =>
      have hout := h.1
      cases hout
    | gap inner => rfl

/-- Whether something is held by hand does not matter outside of a guard. -/
theorem Nested.set (now : Bool) (h : Nested byHand spans) (hout : isHeld false spans = false) :
    Nested now spans := by
  cases spans with
  | nil => trivial
  | cons span outer =>
    cases span with
    | guard => cases hout
    | gap inner => exact h

theorem isHeld_of_byHand (h : isHeld byHand spans = false) :
    byHand = false ∧ isHeld false spans = false := by
  cases byHand with
  | true => cases h
  | false => exact ⟨rfl, h⟩

end

/-! ## What a step can do -/

variable {enabled : Bool}

/-- A step leaves the lock and what its thread holds as they were, or takes the lock, or gives it
back. -/
inductive Effect (lock lock' : Lock enabled) (old now : Bool) : Prop where
  | stay : lock' = lock → now = old → Effect lock lock' old now
  | acquire : lock.acquire? = some lock' → old = false → now = true → Effect lock lock' old now
  | release : lock' = lock.release → old = true → now = false → Effect lock lock' old now

section
variable {lock lock' : Lock enabled} {t now : Thread}

theorem tryAcquire_cases (lock : Lock enabled) :
    (∃ taken, lock.acquire? = some taken ∧ lock.tryAcquire = (true, taken)) ∨
      (lock.acquire? = none ∧ lock.tryAcquire = (false, lock)) := by
  rw [tryAcquire]
  cases h : lock.acquire? with
  | none => exact .inr ⟨rfl, rfl⟩
  | some taken => exact .inl ⟨taken, rfl, rfl⟩

theorem effect_byHand (hn : Nested t.byHand t.spans) (htaken : lock.acquire? = some lock')
    (hout : t.holds = false) :
    Nested true t.spans ∧ Effect lock lock' t.holds (isHeld true t.spans) := by
  obtain ⟨-, hspans⟩ := isHeld_of_byHand hout
  exact ⟨hn.set true hspans, .acquire htaken hout rfl⟩

theorem effect_guard (hn : Nested t.byHand t.spans) (htaken : lock.acquire? = some lock')
    (hout : t.holds = false) : Nested t.byHand (.guard :: t.spans) ∧
      Effect lock lock' t.holds (isHeld t.byHand (.guard :: t.spans)) :=
  ⟨⟨hout, hn⟩, .acquire htaken hout isHeld_guard⟩

theorem leave_effect (hn : Nested t.byHand t.spans)
    (hfree : ∀ taken, lock.acquire? = some taken → t.holds = false)
    (h : t.leave lock = some (lock', now)) :
    Nested now.byHand now.spans ∧ Effect lock lock' t.holds now.holds := by
  obtain ⟨byHand, spans, phase⟩ := t
  cases spans with
  | nil => cases h
  | cons span outer =>
    cases span with
    | guard =>
      cases h
      exact ⟨hn.2, .release rfl isHeld_guard hn.1⟩
    | gap inner =>
      obtain ⟨taken, htaken, heq⟩ := Option.map_eq_some_iff.mp h
      cases heq
      exact ⟨hn.2, .acquire htaken (hfree _ htaken) hn.1⟩

theorem act_effect {m : Move} (hn : Nested t.byHand t.spans)
    (hfree : ∀ taken, lock.acquire? = some taken → t.holds = false)
    (h : t.act lock m = some (lock', now)) :
    Nested now.byHand now.spans ∧ Effect lock lock' t.holds now.holds := by
  cases m with
  | set =>
    obtain ⟨taken, htaken, heq⟩ := Option.map_eq_some_iff.mp h
    cases heq
    exact effect_byHand hn htaken (hfree _ htaken)
  | test =>
    rw [Thread.act] at h
    rcases tryAcquire_cases lock with ⟨taken, htaken, htry⟩ | ⟨-, htry⟩
    · rw [htry] at h
      cases h
      exact effect_byHand hn htaken (hfree _ htaken)
    · rw [htry] at h
      cases h
      exact ⟨hn, .stay rfl rfl⟩
  | unset =>
    obtain ⟨byHand, spans, phase⟩ := t
    cases byHand with
    | false => cases h
    | true =>
      cases h
      have hspans := hn.isHeld_false
      exact ⟨hn.set false hspans, .release rfl rfl hspans⟩
  | guard =>
    obtain ⟨taken, htaken, heq⟩ := Option.map_eq_some_iff.mp h
    cases heq
    exact effect_guard hn htaken (hfree _ htaken)
  | tryGuard =>
    rw [Thread.act] at h
    rcases tryAcquire_cases lock with ⟨taken, htaken, htry⟩ | ⟨-, htry⟩
    · rw [htry] at h
      cases h
      exact effect_guard hn htaken (hfree _ htaken)
    · rw [htry] at h
      cases h
      exact ⟨hn, .stay rfl rfl⟩
  | giveUp =>
    rw [Thread.act, Thread.giveUp] at h
    split at h
    · next hheld =>
      cases h
      exact ⟨⟨hheld, hn⟩, .release rfl hheld isHeld_gap⟩
    · cases h
  | leave => exact leave_effect hn hfree h
  | raise => cases h; exact ⟨hn, .stay rfl rfl⟩
  | rescue => cases h; exact ⟨hn, .stay rfl rfl⟩
  | finish =>
    rw [Thread.act] at h
    split at h
    · cases h; exact ⟨hn, .stay rfl rfl⟩
    · cases h

theorem act_ended {m : Move} (hphase : t.phase ≠ .ended) (h : t.act lock m = some (lock', now))
    (hend : now.phase = .ended) : now.spans = [] := by
  cases m <;> grind [Thread.act, Thread.giveUp, Thread.leave, Option.map_eq_some_iff]

theorem move_eq_some {m : Move} (h : t.move lock m = some (lock', now)) :
    t.phase ≠ .ended ∧ t.act lock m = some (lock', now) := by
  rw [Thread.move] at h
  split at h
  · next hallows =>
    refine ⟨fun hend => ?_, h⟩
    rw [hend] at hallows
    cases m <;> cases hallows
  · cases h

end

/-! ## The invariant -/

/-- The lock is held while one thread holds it, the scopes of every thread lie in each other as
they were opened, and threads that have ended have none open. -/
structure Sound (s : System enabled) : Prop where
  admits : s.lock.Admits Thread.holds s.threads
  nested : ∀ t ∈ s.threads, Nested t.byHand t.spans
  closed : ∀ t ∈ s.threads, t.phase = .ended → t.spans = []

/-- What a step does to the lock and to its thread fits the other threads. -/
theorem Admits.effect {lock lock' : Lock enabled} {threads : List Thread} {k : Nat}
    {old now : Thread} (h : lock.Admits Thread.holds threads) (hold : threads[k]? = some old)
    (he : Effect lock lock' old.holds now.holds) :
    lock'.Admits Thread.holds (threads.set k now) := by
  cases he with
  | stay hlock hsame => rw [hlock]; exact h.stay hold hsame
  | acquire htaken hout hin => exact h.acquire hold htaken hout hin
  | release hlock hin hout => rw [hlock]; exact h.release hold hin hout

theorem sound_start (n : Nat) : Sound (System.start true n) where
  admits := by
    show (List.replicate n Thread.new).countP Thread.holds = 0
    rw [List.countP_replicate]
    rfl
  nested := by
    intro t ht
    rw [List.eq_of_mem_replicate ht]
    trivial
  closed := by
    intro t ht hend
    rw [List.eq_of_mem_replicate ht] at hend
    cases hend

theorem sound_step {s : System true} (h : Sound s) (k : Nat) (m : Move) : Sound (s.step k m) := by
  rw [System.step]
  split
  · exact h
  · next t hold =>
    split
    · exact h
    · next lock now hmove =>
      obtain ⟨hphase, hact⟩ := move_eq_some hmove
      have hmem := List.mem_of_getElem? hold
      obtain ⟨hnested, heffect⟩ := act_effect (h.nested t hmem)
        (fun _ htaken => h.admits.outside htaken t hmem) hact
      refine ⟨h.admits.effect hold heffect, fun u hu => ?_, fun u hu hend => ?_⟩
      · rcases List.mem_or_eq_of_mem_set hu with hu | rfl
        · exact h.nested u hu
        · exact hnested
      · rcases List.mem_or_eq_of_mem_set hu with hu | rfl
        · exact h.closed u hu hend
        · exact act_ended hphase hact hend

theorem sound_run (schedule : List (Nat × Move)) {s : System true} (h : Sound s) :
    Sound (s.run schedule) :=
  List.foldlRecOn schedule _ h fun _ h turn _ => sound_step h turn.1 turn.2

/-- Of threads that have all ended, none holds the lock but by hand. -/
theorem Sound.ended {s : System enabled} (h : Sound s) {t : Thread} (ht : t ∈ s.threads)
    (hend : t.phase = .ended) : t.holds = t.byHand := by
  rw [Thread.holds, h.closed t ht hend, isHeld_nil]

theorem tryAcquire_isFree (lock : Lock enabled) : lock.tryAcquire.1 = lock.isFree := by
  cases lock with
  | real held => cases held <;> rfl
  | bypass => rfl

theorem eq_new_iff (lock : Lock true) : lock = .new true ↔ lock.isFree = true := by
  cases lock with
  | real held => cases held <;> decide

/-- Over every run of any number of threads that share an enabled lock: at most one thread takes
itself to be protected; the lock is held while one does; it can be taken without waiting when none
does; and once all threads have ended, normally or by a panic, it is free unless one of them ended
without giving back what it took by hand. -/
theorem one_thread_inside (n : Nat) (schedule : List (Nat × Move)) :
    let s := (System.start true n).run schedule
    (∀ (j k : Nat) (t u : Thread), s.threads[j]? = some t → t.holds = true →
        s.threads[k]? = some u → u.holds = true → j = k) ∧
      (s.lock.isFree = false ↔ ∃ t ∈ s.threads, t.holds = true) ∧
      (s.lock.tryAcquire.1 = true ↔ ∀ t ∈ s.threads, t.holds = false) ∧
      ((∀ t ∈ s.threads, t.phase = .ended) →
        (s.lock = .new true ↔ ∀ t ∈ s.threads, t.byHand = false)) := by
  intro s
  have h : Sound s := sound_run schedule (sound_start n)
  have hfree : s.lock.isFree = true ↔ ∀ t ∈ s.threads, t.holds = false := h.admits.isFree_iff
  refine ⟨fun j k t u hj ht hk hu => ?_, ?_, ?_, fun hend => ?_⟩
  · exact place_unique h.admits.inside_le hj ht hk hu
  · rw [← Bool.not_eq_true, hfree]
    simp
  · rw [tryAcquire_isFree]
    exact hfree
  · rw [eq_new_iff, hfree]
    refine forall_congr' fun t => forall_congr' fun ht => ?_
    rw [h.ended ht (hend t ht)]

/-- Two threads, of which the second takes the lock while the first has given it up: the panic of the
first has to wait for the lock before it goes on. -/
def handOver : List (Nat × Move) :=
  [(0, .guard), (0, .giveUp), (1, .tryGuard), (0, .raise), (0, .leave), (1, .raise), (1, .leave),
    (1, .finish), (0, .leave), (0, .leave), (0, .finish)]

theorem one_thread_inside_handOver :
    ((System.start true 2).run (handOver.take 5)).lock.isFree = false ∧
      (∀ t ∈ ((System.start true 2).run handOver).threads, t.phase = .ended) ∧
      ((System.start true 2).run handOver).lock = .new true := by
  have hheld := (one_thread_inside 2 (handOver.take 5)).2.1
  have hend := (one_thread_inside 2 handOver).2.2.2
  have hended : ∀ t ∈ ((System.start true 2).run handOver).threads, t.phase = .ended := by decide
  exact ⟨hheld.mpr (by decide), hended, (hend hended).mpr (by decide)⟩

/-- Giving back what was taken by hand is a step of its own, which a panic skips: the lock stays held
when all threads have ended. -/
theorem section_cut_short_stays_held :
    ¬ ∀ (n : Nat) (schedule : List (Nat × Move)),
      (∀ t ∈ ((System.start true n).run schedule).threads, t.phase = .ended) →
        ((System.start true n).run schedule).lock = .new true := by
  intro h
  have hfree := h 1 [(0, .set), (0, .raise), (0, .finish)] (by decide)
  exact absurd hfree (by decide)

end Aggregate.Lock
