import Aggregate.Execution.Race
import Aggregate.Proofs.Lock.Admission

/-
  Updates are lost but never made up

  Threads add one to a counter by reading it and writing back one more. Without a
  lock a thread may write long after it read, over all that the others have
  written since; so the counter may fall behind the number of writes, and even go
  down. It never gets ahead of it: what a thread is about to write back was a value
  of the counter once, which the writes made so far bound (`Bounded`).

  With an enabled lock, or with one thread alone, what a thread has read is still
  there when it writes, because no two threads are between taking and giving back
  the lock at a time; then the counter is the number of writes (`Exact`).

  Either way the threads can always finish: who waits for the lock waits for a
  thread that does not wait, and every step leaves less to do (`can_finish`).
-/

namespace Aggregate.Race

variable {enabled : Bool}

/-- The writes that a thread has still to make. -/
def owed (t : Rounds) : Nat :=
  match t.stage with
  | .leaving => t.left - 1
  | _ => t.left

/-- Whether a thread is between taking the lock and giving it back. -/
def isInside (t : Rounds) : Bool :=
  match t.stage with
  | .locking => false
  | .reading | .writing _ | .leaving => true

/-- What holds of the threads whatever their lock does: the counter, and all that a thread is about
to write one more than, are at most the number of writes; the counter is not zero after a write;
the writes made and owed are those of all rounds; and who is inside has a round to finish. -/
structure Bounded (rounds : Nat) (r : Race enabled) : Prop where
  value_le : r.counter.value ≤ r.writes
  seen_le : ∀ k left seen : Nat, r.threads[k]? = some ⟨left, .writing seen⟩ → seen ≤ r.writes
  value_pos : 0 < r.writes → 0 < r.counter.value
  owed : r.writes + total (r.threads.map owed) = rounds
  busy : ∀ t ∈ r.threads, isInside t = true → 0 < t.left

/-- What holds of threads that the lock keeps apart: a thread about to write has read what is
there, and the counter is the number of writes. -/
structure Exact (r : Race enabled) : Prop where
  admits : r.counter.lock.Admits isInside r.threads
  fresh : ∀ k left seen : Nat, r.threads[k]? = some ⟨left, .writing seen⟩ → seen = r.counter.value
  value : r.counter.value = r.writes

variable {rounds k left : Nat} {r : Race enabled} {old now : Rounds}
  {counter : Workload.Counter enabled} {stage : Workload.Stage} {p : Progress Workload.Stage}

theorem step_cases (k : Nat) (r : Race enabled) :
    r.step k = r ∨ ∃ left stage counter p, r.threads[k]? = some ⟨left + 1, stage⟩ ∧
      (Workload.increment enabled).step stage r.counter = some (counter, p) ∧
      r.step k = ⟨counter, r.threads.set k (proceed left p), r.writes + stage.writes.toNat⟩ := by
  rw [step]
  split
  · next left stage hold =>
    split
    · next counter p hstep => exact .inr ⟨left, stage, counter, p, hold, hstep, rfl⟩
    · exact .inl rfl
  · exact .inl rfl

/-! ## Any lock -/

theorem Bounded.set (h : Bounded rounds r) (hold : r.threads[k]? = some old) {writes : Nat}
    (hwrites : writes + Race.owed now = r.writes + Race.owed old) (hmore : r.writes ≤ writes)
    (hvalue : counter.value ≤ writes) (hpos : 0 < writes → 0 < counter.value)
    (hseen : ∀ left seen, now = ⟨left, .writing seen⟩ → seen ≤ writes)
    (hbusy : isInside now = true → 0 < now.left) :
    Bounded rounds (⟨counter, r.threads.set k now, writes⟩ : Race enabled) := by
  refine ⟨hvalue, fun j left seen hj => ?_, hpos, ?_, fun t ht => ?_⟩
  · rcases place_set hj with ⟨-, heq⟩ | ⟨-, hother⟩
    · exact hseen left seen heq
    · exact Nat.le_trans (h.seen_le j left seen hother) hmore
  · have hsum := total_set_add Race.owed now hold
    have howed := h.owed
    show writes + total ((r.threads.set k now).map Race.owed) = rounds
    omega
  · rcases List.mem_or_eq_of_mem_set ht with ht | rfl
    · exact h.busy t ht
    · exact hbusy

theorem Bounded.body (h : Bounded rounds r) (hold : r.threads[k]? = some ⟨left + 1, stage⟩)
    (hstep : (Workload.increment enabled).step stage r.counter = some (counter, p)) :
    Bounded rounds
      (⟨counter, r.threads.set k (proceed left p), r.writes + stage.writes.toNat⟩ :
        Race enabled) := by
  cases stage with
  | locking =>
    obtain ⟨taken, -, hs⟩ := Option.map_eq_some_iff.mp hstep
    cases hs
    exact h.set hold rfl (Nat.le_refl _) h.value_le h.value_pos (by simp [proceed])
      fun _ => Nat.succ_pos left
  | reading =>
    cases hstep
    refine h.set hold rfl (Nat.le_refl _) h.value_le h.value_pos (fun left seen heq => ?_)
      fun _ => Nat.succ_pos left
    cases heq
    exact h.value_le
  | writing seen =>
    cases hstep
    -- What it read, however long ago, the writes made by now bound.
    have hseen := h.seen_le k _ seen hold
    exact h.set hold (Nat.add_right_comm ..) (Nat.le_succ _) (Nat.succ_le_succ hseen)
      (fun _ => Nat.succ_pos seen) (by simp [proceed]) fun _ => Nat.succ_pos left
  | leaving =>
    cases hstep
    exact h.set hold rfl (Nat.le_refl _) h.value_le h.value_pos (by simp [proceed])
      fun hinside => by cases hinside

theorem bounded_step (h : Bounded rounds r) (k : Nat) : Bounded rounds (r.step k) := by
  rcases step_cases k r with hsame | ⟨left, stage, counter, p, hold, hstep, hbody⟩
  · rwa [hsame]
  · rw [hbody]
    exact h.body hold hstep

theorem bounded_run (schedule : List Nat) (h : Bounded rounds r) :
    Bounded rounds (r.run schedule) :=
  List.foldlRecOn schedule _ h fun _ h k _ => bounded_step h k

theorem bounded_start (enabled : Bool) (rounds : List Nat) :
    Bounded (total rounds) (start enabled rounds) := by
  refine ⟨Nat.le_refl 0, fun k left seen hk => ?_, fun h => h, ?_, fun t ht hinside => ?_⟩
  · obtain ⟨n, -, heq⟩ := List.mem_map.mp (List.mem_of_getElem? hk)
    cases heq
  · have howed : owed ∘ (⟨·, .locking⟩) = id := rfl
    rw [start, List.map_map, howed, List.map_id]
    exact Nat.zero_add _
  · obtain ⟨n, -, rfl⟩ := List.mem_map.mp ht
    cases hinside

theorem Bounded.ended (h : Bounded rounds r) (ended : r.hasEnded = true) : r.writes = rounds := by
  have hnone : r.threads.map Race.owed = List.replicate r.threads.length 0 := by
    rw [List.map_eq_replicate_iff]
    intro t ht
    have hleft : t.left = 0 := by simpa using List.all_eq_true.mp ended t ht
    rw [Race.owed, hleft]
    cases t.stage <;> rfl
  have howed := h.owed
  rwa [hnone, total_replicate, Nat.mul_zero] at howed

/-! ## Threads kept apart -/

theorem Exact.body (h : Exact r) (hold : r.threads[k]? = some ⟨left + 1, stage⟩)
    (hstep : (Workload.increment enabled).step stage r.counter = some (counter, p)) :
    Exact (⟨counter, r.threads.set k (proceed left p), r.writes + stage.writes.toNat⟩ :
      Race enabled) := by
  have hfresh : ∀ {value : Nat} {now : Rounds}, value = r.counter.value →
      (∀ left seen, now = ⟨left, .writing seen⟩ → seen = value) → ∀ j left seen : Nat,
        (r.threads.set k now)[j]? = some ⟨left, .writing seen⟩ → seen = value := by
    intro value now hvalue hnow j left seen hj
    rcases place_set hj with ⟨-, heq⟩ | ⟨-, hother⟩
    · exact hnow left seen heq
    · exact (h.fresh j left seen hother).trans hvalue.symm
  cases stage with
  | locking =>
    obtain ⟨taken, htaken, hs⟩ := Option.map_eq_some_iff.mp hstep
    cases hs
    exact ⟨h.admits.acquire hold htaken rfl rfl, hfresh rfl (by simp [proceed]), h.value⟩
  | reading =>
    cases hstep
    exact ⟨h.admits.stay hold rfl, hfresh rfl (by simp +contextual [proceed]), h.value⟩
  | writing seen =>
    cases hstep
    have hseen := h.fresh k _ seen hold
    refine ⟨h.admits.stay hold rfl, fun j other value hj => ?_, ?_⟩
    · rcases place_set hj with ⟨-, heq⟩ | ⟨hne, hother⟩
      · cases heq
      · -- Another thread about to write would be inside as well.
        exact absurd (place_unique h.admits.inside_le hold rfl hother rfl) hne
    · exact congrArg (· + 1) (hseen.trans h.value)
  | leaving =>
    cases hstep
    exact ⟨h.admits.release hold rfl rfl, hfresh rfl (by simp [proceed]), h.value⟩

theorem exact_step (h : Exact r) (k : Nat) : Exact (r.step k) := by
  rcases step_cases k r with hsame | ⟨left, stage, counter, p, hold, hstep, hbody⟩
  · rwa [hsame]
  · rw [hbody]
    exact h.body hold hstep

theorem exact_run (schedule : List Nat) (h : Exact r) : Exact (r.run schedule) :=
  List.foldlRecOn schedule _ h fun _ h k _ => exact_step h k

/-- Threads that begin, with an enabled lock or one thread alone. -/
theorem exact_start {rounds : List Nat} (h : enabled = true ∨ rounds.length = 1) :
    Exact (start enabled rounds) := by
  refine ⟨?_, fun k left seen hk => ?_, rfl⟩
  · cases enabled with
    | true =>
      show (rounds.map _).countP isInside = 0
      rw [List.countP_map]
      exact List.countP_eq_zero.mpr fun n _ => Bool.false_ne_true
    | false =>
      rcases h with h | h
      · cases h
      · exact List.length_map _ |>.trans h
  · obtain ⟨n, -, heq⟩ := List.mem_map.mp (List.mem_of_getElem? hk)
    cases heq

/-! ## Progress -/

/-- The steps that a thread has still to take. -/
def effort (t : Rounds) : Nat :=
  4 * t.left - match t.stage with
    | .locking => 0
    | .reading => 1
    | .writing _ => 2
    | .leaving => 3

theorem proceed_effort
    (hstep : (Workload.increment enabled).step stage r.counter = some (counter, p)) :
    effort (proceed left p) < effort ⟨left + 1, stage⟩ := by
  cases stage with
  | locking =>
    obtain ⟨taken, -, hs⟩ := Option.map_eq_some_iff.mp hstep
    cases hs
    simp only [proceed, effort]
    omega
  | reading => cases hstep; simp only [proceed, effort]; omega
  | writing seen => cases hstep; simp only [proceed, effort]; omega
  | leaving => cases hstep; simp only [proceed, effort]; omega

theorem exists_step {t : Rounds} (ht : t ∈ r.threads) (hpos : 0 < t.left)
    (hgoes : (Workload.increment enabled).step t.stage r.counter ≠ none) :
    ∃ k, total ((r.step k).threads.map effort) < total (r.threads.map effort) := by
  obtain ⟨k, hold⟩ := List.getElem?_of_mem ht
  obtain ⟨left, stage⟩ := t
  obtain ⟨left, rfl⟩ := Nat.exists_eq_add_one_of_ne_zero (Nat.ne_of_gt hpos)
  obtain ⟨⟨counter, p⟩, hstep⟩ := Option.ne_none_iff_exists'.mp hgoes
  have hsum := total_set_add effort (proceed left p) hold
  have hless : effort (proceed left p) < effort ⟨left + 1, stage⟩ := proceed_effort hstep
  refine ⟨k, ?_⟩
  simp only [step, hold, hstep]
  omega

/-- A thread waits only for a lock that is held, and not once it is inside. -/
theorem goes_on {t : Rounds} {counter : Workload.Counter enabled}
    (h : isInside t = true ∨ counter.lock.acquire? ≠ none) :
    (Workload.increment enabled).step t.stage counter ≠ none := by
  obtain ⟨left, stage⟩ := t
  cases stage with
  | locking =>
    rcases h with hinside | hfree
    · cases hinside
    · simpa [Workload.increment] using hfree
  | reading => exact Option.some_ne_none _
  | writing seen => exact Option.some_ne_none _
  | leaving => exact Option.some_ne_none _

theorem exists_turn (h : Bounded rounds r) (hexact : enabled = true → Exact r)
    (hgo : r.hasEnded = false) :
    ∃ k, total ((r.step k).threads.map effort) < total (r.threads.map effort) := by
  obtain ⟨t, ht, hleft⟩ : ∃ t ∈ r.threads, t.left ≠ 0 := by simpa [hasEnded] using hgo
  by_cases hlock : r.counter.lock.acquire? = none
  · -- Somebody is inside and has the lock.
    cases enabled with
    | false =>
      cases hbypass : r.counter.lock
      rw [hbypass] at hlock
      cases hlock
    | true =>
      obtain ⟨holder, hholder, hinside⟩ := (hexact rfl).admits.exists_inside hlock
      exact exists_step hholder (h.busy holder hholder hinside) (goes_on (.inl hinside))
  · exact exists_step ht (Nat.pos_of_ne_zero hleft) (goes_on (.inr hlock))

/-- However the threads have been scheduled so far, they can all finish. -/
theorem can_finish (n : Nat) :
    ∀ {r : Race enabled}, Bounded rounds r → (enabled = true → Exact r) →
      total (r.threads.map effort) ≤ n → ∃ more, (r.run more).hasEnded = true := by
  induction n with
  | zero =>
    intro r h hexact heffort
    refine ⟨[], Bool.of_not_eq_false fun hgo => ?_⟩
    obtain ⟨k, hless⟩ := exists_turn h hexact hgo
    omega
  | succ n ih =>
    intro r h hexact heffort
    cases hended : r.hasEnded with
    | true => exact ⟨[], hended⟩
    | false =>
      obtain ⟨k, hless⟩ := exists_turn h hexact hended
      obtain ⟨more, hmore⟩ := ih (bounded_step h k) (fun he => exact_step (hexact he) k) (by omega)
      exact ⟨k :: more, hmore⟩

/-! ## Any lock and any schedule -/

/-- Threads that each add one to a counter a number of times, run under any schedule. Whatever their
lock does, the counter never exceeds the number of writes made so far; if the lock is enabled, or a
thread is alone, it is that number at every moment. The threads can always go on until all have
finished. Then the writes are those of all rounds: the counter is at most their number and not
zero if there were any, and with an enabled lock it is their number. -/
theorem writes_bound_counter (enabled : Bool) (rounds : List Nat) (schedule : List Nat) :
    let r : Race enabled := (start enabled rounds).run schedule
    r.counter.value ≤ r.writes ∧
      (enabled = true ∨ rounds.length = 1 → r.counter.value = r.writes) ∧
      (∃ more, (r.run more).hasEnded = true) ∧
      (r.hasEnded = true → r.writes = total rounds ∧ r.counter.value ≤ total rounds ∧
        (0 < total rounds → 1 ≤ r.counter.value) ∧
        (enabled = true → r.counter.value = total rounds)) := by
  intro r
  have hbounded : Bounded (total rounds) r := bounded_run schedule (bounded_start enabled rounds)
  have hexact : enabled = true ∨ rounds.length = 1 → Exact r :=
    fun h => exact_run schedule (exact_start h)
  have hfinish := can_finish _ hbounded (fun h => hexact (.inl h)) (Nat.le_refl _)
  refine ⟨hbounded.value_le, fun h => (hexact h).value, hfinish, fun ended => ?_⟩
  have hwrites := hbounded.ended ended
  rw [← hwrites]
  exact ⟨rfl, hbounded.value_le, hbounded.value_pos, fun h => (hexact (.inl h)).value⟩

/-- The first thread reads before the two rounds of the second one and writes after them. Without
the lock the counter goes down from two to one; with it the second thread has to wait. -/
def outdated : List Nat := [0, 0, 1, 1, 1, 1, 1, 1, 1, 1, 0, 0, 1, 1, 1, 1, 1, 1, 1, 1]

theorem writes_bound_counter_outdated :
    (∀ enabled, ((start enabled [1, 2]).run outdated).hasEnded = true) ∧
      ((start false [1, 2]).run (outdated.take 10)).counter.value = 2 ∧
      ((start false [1, 2]).run outdated).counter.value = 1 ∧
      ((start true [1, 2]).run outdated).counter.value = 3 := by
  have hended : ∀ enabled, ((start enabled [1, 2]).run outdated).hasEnded = true := by decide
  obtain ⟨-, -, -, hlost⟩ := writes_bound_counter false [1, 2] outdated
  obtain ⟨-, -, -, hkept⟩ := writes_bound_counter true [1, 2] outdated
  exact ⟨hended, by decide, Nat.le_antisymm (by decide) ((hlost (hended false)).2.2.1 (by decide)),
    (hkept (hended true)).2.2.2 rfl⟩

end Aggregate.Race
