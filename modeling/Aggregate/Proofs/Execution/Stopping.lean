import Aggregate.Execution.Workload
import Aggregate.Proofs.Execution.HandOut
import Aggregate.Proofs.Execution.Turns
import Aggregate.Proofs.Places

/-
  Workers that stop at false

  The workers of a loop until false share nothing but the store that their
  predicate reads and changes. What is recorded of the calls is what the predicate
  did: each call found the store that the calls before it left (`Explained`). For
  each worker, and however the others are scheduled, its answers are true until
  the false one at which it stops (`Polls`); so as many calls are false as there
  are workers that have stopped.

  For workers that drain a supply the rest follows from `Explained` alone: every
  true call has taken a unit, and a false one found none left. They come to an end
  when they take turns: a turn of all in which no unit is taken stops them all
  (`drain_eq`).
-/

namespace Aggregate

namespace Polling

variable {S : Type}

/-- The answers that a worker has had, in order. -/
def answers (p : Polling S) (worker : Nat) : List Bool :=
  (p.calls.reverse.filter (·.1 == worker)).map (·.2)

/-- The calls, the last one first, lead from one store to the other, each by the predicate on its
worker's number and with the answer that gave. -/
inductive Explained (predicate : Nat → S → Bool × S) (first : S) : List (Nat × Bool) → S → Prop
  | start : Explained predicate first [] first
  | call {calls : List (Nat × Bool)} {store : S} (worker : Nat) :
      Explained predicate first calls store →
        Explained predicate first ((worker, (predicate worker store).1) :: calls)
          (predicate worker store).2

/-- What holds of a loop until false with `n` workers: one that runs has had no false answer, one
that has stopped had it last. -/
structure Polls (predicate : Nat → S → Bool × S) (first : S) (n : Nat) (p : Polling S) : Prop where
  workers : p.running.length = n
  explained : Explained predicate first p.calls p.store
  worker_lt : ∀ call ∈ p.calls, call.1 < n
  answers : ∀ (k : Nat) (runs : Bool), p.running[k]? = some runs →
    ∃ trues : Nat, p.answers k = List.replicate trues true ++ if runs then [] else [false]
  stops : p.calls.countP (!·.2) = p.running.countP not

variable {predicate : Nat → S → Bool × S} {first : S} {n k : Nat} {p : Polling S}

theorem answers_call (p : Polling S) (running : List Bool) (store : S) (k worker : Nat)
    (answer : Bool) :
    (⟨running, store, (k, answer) :: p.calls⟩ : Polling S).answers worker =
      p.answers worker ++ if k = worker then [answer] else [] := by
  by_cases h : k = worker <;> simp [answers, List.filter_append, h]

theorem polls_start (predicate : Nat → S → Bool × S) (n : Nat) (store : S) :
    Polls predicate store n (start n store) where
  workers := List.length_replicate
  explained := .start
  worker_lt := by simp [start]
  answers := by
    intro k runs hk
    rw [List.eq_of_mem_replicate (List.mem_of_getElem? hk)]
    exact ⟨0, rfl⟩
  stops := by simp [start, List.countP_replicate]

theorem polls_step (h : Polls predicate first n p) (k : Nat) :
    Polls predicate first n (step predicate k p) := by
  rw [step]
  split
  · next hold =>
    refine ⟨by simpa using h.workers, .call k h.explained, ?_, fun worker runs hworker => ?_, ?_⟩
    · intro call hcall
      rcases List.mem_cons.mp hcall with rfl | hcall
      · rw [← h.workers]
        exact (List.getElem?_eq_some_iff.mp hold).1
      · exact h.worker_lt call hcall
    · rw [answers_call]
      rcases place_set hworker with ⟨rfl, hruns⟩ | ⟨hne, hother⟩
      · -- The worker has had only true answers so far.
        obtain ⟨trues, htrues⟩ := h.answers k true hold
        rw [htrues, if_pos rfl, ← hruns]
        cases (predicate k p.store).1 with
        | true => exact ⟨trues + 1, by simp [List.replicate_succ']⟩
        | false => exact ⟨trues, by simp⟩
      · obtain ⟨trues, htrues⟩ := h.answers worker runs hother
        exact ⟨trues, by rw [if_neg hne, List.append_nil, htrues]⟩
    · have hcount := countP_set_add not (predicate k p.store).1 hold
      have hstops := h.stops
      rw [List.countP_cons]
      cases hanswer : (predicate k p.store).1 <;>
        simp only [hanswer, Bool.not_true, Bool.not_false, Bool.toNat_true, Bool.toNat_false,
          if_true, Bool.false_eq_true, if_false] at hcount ⊢ <;> omega
  · exact h

theorem polls_run (schedule : List Nat) (h : Polls predicate first n p) :
    Polls predicate first n (run predicate schedule p) :=
  List.foldlRecOn schedule _ h fun _ h k _ => polls_step h k

theorem Polls.answers_ended (h : Polls predicate first n p) (ended : p.hasEnded = true)
    (hk : k < n) : ∃ trues : Nat, p.answers k = List.replicate trues true ++ [false] := by
  rw [← h.workers] at hk
  have hstopped : p.running[k] = false := by
    simpa using List.all_eq_true.mp ended _ (List.getElem_mem hk)
  obtain ⟨trues, htrues⟩ := h.answers k _ (List.getElem?_eq_getElem hk)
  rw [hstopped] at htrues
  exact ⟨trues, htrues⟩

theorem Polls.stops_ended (h : Polls predicate first n p) (ended : p.hasEnded = true) :
    p.calls.countP (!·.2) = n := by
  rw [h.stops, ← h.workers, List.countP_eq_length]
  exact List.all_eq_true.mp ended

/-! ## Supplies -/

/-- Every true call has taken a unit, and a false one has found none. -/
theorem Explained.supply {supply left : Nat} {calls : List (Nat × Bool)}
    (h : Explained Workload.takeUnit supply calls left) :
    left + calls.countP (·.2) = supply ∧ (0 < calls.countP (!·.2) → left = 0) := by
  induction h with
  | start => simp
  | @call calls left worker _ ih =>
    rw [List.countP_cons, List.countP_cons]
    cases left with
    | zero => simpa [Workload.takeUnit] using ih.1
    | succ left =>
      obtain ⟨htaken, hempty⟩ := ih
      simp only [Workload.takeUnit, Nat.succ_pos, decide_true, Bool.not_true, Bool.false_eq_true,
        if_true, if_false, Nat.add_zero, Nat.add_sub_cancel]
      exact ⟨by omega, fun hpos => absurd (hempty hpos) (Nat.succ_ne_zero left)⟩

theorem Polls.drained {supply : Nat} {p : Polling Nat}
    (h : Polls Workload.takeUnit supply n p) (hn : 0 < n) (ended : p.hasEnded = true) :
    p.store = 0 ∧ p.calls.countP (·.2) = supply ∧ p.calls.length = supply + n := by
  have hstops := h.stops_ended ended
  obtain ⟨htaken, hempty⟩ := h.explained.supply
  have hstore : p.store = 0 := hempty (by rw [hstops]; exact hn)
  have hlength := List.length_eq_countP_add_countP (l := p.calls) (p := (·.2))
  have hfalse : p.calls.countP (fun call => decide ¬call.2 = true) = p.calls.countP (!·.2) :=
    List.countP_congr fun call _ => by simp
  exact ⟨hstore, by omega, by omega⟩

/-! ## Taking turns -/

section
variable {predicate : Nat → S → Bool × S} {p : Polling S}

theorem run_cons (predicate : Nat → S → Bool × S) (k : Nat) (schedule : List Nat) (p : Polling S) :
    run predicate (k :: schedule) p = run predicate schedule (step predicate k p) := rfl

theorem stopped_step {j : Nat} (hstopped : p.running[j]? ≠ some true) (k : Nat) :
    (step predicate k p).running[j]? ≠ some true := by
  rw [step]
  split
  · next hold =>
    intro hj
    rcases place_set hj with ⟨rfl, -⟩ | ⟨-, hother⟩
    · exact hstopped hold
    · exact hstopped hother
  · exact hstopped

theorem stopped_run {j : Nat} (schedule : List Nat) (hstopped : p.running[j]? ≠ some true) :
    (run predicate schedule p).running[j]? ≠ some true :=
  List.foldlRecOn (motive := fun p : Polling S => p.running[j]? ≠ some true) schedule _ hstopped
    fun _ h k _ => stopped_step h k

theorem step_length (k : Nat) (p : Polling S) :
    (step predicate k p).running.length = p.running.length := by
  rw [step]
  split
  · exact List.length_set
  · rfl

theorem run_length (schedule : List Nat) (p : Polling S) :
    (run predicate schedule p).running.length = p.running.length :=
  List.foldlRecOn (motive := fun q : Polling S => q.running.length = p.running.length) schedule _
    rfl fun q h k _ => (step_length k q).trans h

end

theorem supply_step (k : Nat) (p : Polling Nat) :
    (step Workload.takeUnit k p).store ≤ p.store ∧
      ((step Workload.takeUnit k p).store = p.store →
        (step Workload.takeUnit k p).running[k]? ≠ some true) := by
  rw [step]
  split
  · next hold =>
    have hlt := (List.getElem?_eq_some_iff.mp hold).1
    cases hstore : p.store with
    | zero => simp [Workload.takeUnit, hlt]
    | succ left => simp [Workload.takeUnit]
  · next hold => exact ⟨Nat.le_refl _, fun _ htrue => hold htrue⟩

theorem supply_run (schedule : List Nat) :
    ∀ p : Polling Nat, (run Workload.takeUnit schedule p).store ≤ p.store ∧
      ((run Workload.takeUnit schedule p).store = p.store → ∀ k ∈ schedule,
        (run Workload.takeUnit schedule p).running[k]? ≠ some true) := by
  induction schedule with
  | nil => intro p; exact ⟨Nat.le_refl _, fun _ k hk => by cases hk⟩
  | cons k schedule ih =>
    intro p
    obtain ⟨hless, hstops⟩ := supply_step k p
    obtain ⟨hle, hsame⟩ := ih (step Workload.takeUnit k p)
    rw [run_cons]
    refine ⟨Nat.le_trans hle hless, fun heq j hj => ?_⟩
    rcases List.mem_cons.mp hj with rfl | hj
    · exact stopped_run schedule (hstops (by omega))
    · exact hsame (by omega) j hj

/-- Workers that take turns have drained a supply after one turn more than it has units. -/
theorem drain_ended (turns : Nat) {p : Polling Nat} (h : p.store < turns) :
    (finish Workload.takeUnit turns p).hasEnded = true := by
  refine takeTurns_ended (fun q => q.running.length = p.running.length) (·.store) ?_ turns rfl h
  intro q hlength _
  obtain ⟨hle, hsame⟩ := supply_run (List.range p.running.length) q
  refine ⟨(run_length _ q).trans hlength, ?_⟩
  by_cases heq : (run Workload.takeUnit (List.range p.running.length) q).store = q.store
  · -- Nobody has taken a unit, so all have stopped.
    have hended : (run Workload.takeUnit (List.range p.running.length) q).hasEnded = true := by
      rw [hasEnded, List.all_eq_true]
      intro runs hruns
      obtain ⟨k, hk⟩ := List.getElem?_of_mem hruns
      have hlt := (List.getElem?_eq_some_iff.mp hk).1
      rw [run_length, hlength] at hlt
      have hstopped := hsame heq k (List.mem_range.mpr hlt)
      rw [hk] at hstopped
      cases runs with
      | true => exact absurd rfl hstopped
      | false => rfl
    exact .inl hended
  · exact .inr (Nat.lt_of_le_of_ne hle heq)

theorem drain_can_end (p : Polling Nat) :
    ∃ more, (run Workload.takeUnit more p).hasEnded = true := by
  obtain ⟨more, hmore⟩ := finish_eq_run Workload.takeUnit (p.store + 1) p
  exact ⟨more, hmore ▸ drain_ended (p.store + 1) (Nat.lt_succ_self _)⟩

end Polling

/-- Draining a supply takes a call for each unit and one for each worker. -/
theorem Workload.drain_eq {workers : Nat} (hpos : 0 < workers) (supply : Nat) :
    drain workers supply = (supply + workers, 0) := by
  have hended := Polling.drain_ended (supply + 1) (p := .start workers supply) (Nat.lt_succ_self _)
  obtain ⟨schedule, hrun⟩ := Polling.finish_eq_run takeUnit (supply + 1) (.start workers supply)
  rw [hrun] at hended
  obtain ⟨hstore, -, hlength⟩ :=
    (Polling.polls_run schedule (Polling.polls_start takeUnit workers supply)).drained hpos hended
  simp only [drain, hrun, hstore, hlength]

namespace Policy

theorem whileWorkers_eq (p : Policy) (pool : Bool) :
    p.whileWorkers pool = if p.workers = 1 ∨ pool = false then 1 else p.workers := by
  rw [whileWorkers, wantsPoolForever]
  cases pool <;> by_cases h : p.workers = 1 <;> simp [h]

theorem whileWorkers_pos (p : Policy) (pool : Bool) : 0 < p.whileWorkers pool := by
  rw [whileWorkers]
  split
  · exact p.workers_pos
  · exact Nat.one_pos

theorem whileWorkers_le (p : Policy) (pool : Bool) : p.whileWorkers pool ≤ p.workers := by
  rw [whileWorkers]
  split
  · exact Nat.le_refl _
  · exact p.workers_pos

end Policy

/-- A loop until false, run under any schedule until all workers have stopped: each worker's answers
are true until its last one, which is false, and every call is for a number below that of the
policy's workers. Workers that drain a supply can always go on until all have stopped, and then
leave nothing of it; each unit is one true answer, and each worker asks once in vain. -/
theorem workers_stop_at_false (p : Policy) (pool : Bool) :
    (∀ {S : Type} (predicate : Nat → S → Bool × S) (store : S) (schedule : List Nat),
      let q := Polling.run predicate schedule (.start (p.whileWorkers pool) store)
      q.hasEnded = true →
        Polling.Explained predicate store q.calls q.store ∧
        (∀ call ∈ q.calls, call.1 < p.whileWorkers pool ∧ call.1 < p.workers) ∧
        ∀ worker < p.whileWorkers pool,
          ∃ trues : Nat, q.answers worker = List.replicate trues true ++ [false]) ∧
    ∀ (supply : Nat) (schedule : List Nat),
      let q := Polling.run Workload.takeUnit schedule (.start (p.whileWorkers pool) supply)
      (∃ more, (Polling.run Workload.takeUnit more q).hasEnded = true) ∧
      (q.hasEnded = true →
        q.store = 0 ∧ q.calls.countP (·.2) = supply ∧
        q.calls.length = supply + if p.workers = 1 ∨ pool = false then 1 else p.workers) := by
  constructor
  · intro S predicate store schedule q ended
    have h := Polling.polls_run schedule
      (Polling.polls_start predicate (p.whileWorkers pool) store)
    refine ⟨h.explained, fun call hcall => ?_, fun worker hworker => h.answers_ended ended hworker⟩
    have hlt := h.worker_lt call hcall
    exact ⟨hlt, Nat.lt_of_lt_of_le hlt (p.whileWorkers_le pool)⟩
  · intro supply schedule q
    refine ⟨Polling.drain_can_end q, fun ended => ?_⟩
    have h := Polling.polls_run schedule
      (Polling.polls_start Workload.takeUnit (p.whileWorkers pool) supply)
    rw [← p.whileWorkers_eq pool]
    exact h.drained (p.whileWorkers_pos pool) ended

/-- One of two workers does all the work; the other one only learns that there is none. -/
theorem workers_stop_at_false_uneven :
    let q := Polling.run Workload.takeUnit [1, 1, 0, 1]
      (.start ((Policy.parallel 2).whileWorkers true) 2)
    q.hasEnded = true ∧ q.answers 0 = [false] ∧ (∀ call ∈ q.calls, call.1 < 2) ∧
      (∃ trues, q.answers 1 = List.replicate trues true ++ [false]) ∧
      q.store = 0 ∧ q.calls.length = 4 := by
  intro q
  have hended : q.hasEnded = true := by decide
  obtain ⟨hpolls, hdrains⟩ := workers_stop_at_false (.parallel 2) true
  obtain ⟨-, hlt, hanswers⟩ := hpolls Workload.takeUnit 2 [1, 1, 0, 1] hended
  obtain ⟨hstore, -, hlength⟩ := (hdrains 2 [1, 1, 0, 1]).2 hended
  exact ⟨hended, by decide, fun call hcall => (hlt call hcall).2, hanswers 1 (by decide), hstore,
    hlength⟩

end Aggregate
