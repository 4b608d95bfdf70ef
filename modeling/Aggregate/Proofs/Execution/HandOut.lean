import Aggregate.Execution.Workload
import Aggregate.Proofs.Execution.Sequential
import Aggregate.Proofs.Places

/-
  Every index is handed out once

  The invariant of a loop over indices counts how often the shared counter was
  taken. The indices handed out so far, called or still held by a worker, are the
  first ones, each once; every taking beyond the last index has stopped a worker,
  so with room for one such taking by each worker the counter does not come round
  while anyone still reads it. `handsOut_step` is one step of any worker,
  `handsOut_run` any schedule, and `each_index_called_once` the loop that has
  ended. A policy that keeps to the calling thread has one worker here, which stands
  for the loop without workers (`Body.comesTo_iff_outline`).
-/

namespace Aggregate

variable {S L : Type}

/-- The index that a worker holds and has not called the body for. -/
def Worker.held? : Worker L → Option Nat
  | .holding index => some index
  | _ => none

/-- Whether a worker has seen the end of the indices. -/
def Worker.isStopped : Worker L → Bool
  | .stopped => true
  | _ => false

section
variable (index : Nat) (state : L) (message : String)

@[simp] theorem held?_idle : (Worker.idle : Worker L).held? = none := rfl
@[simp] theorem held?_holding : (Worker.holding index : Worker L).held? = some index := rfl
@[simp] theorem held?_busy : (Worker.busy index state).held? = none := rfl
@[simp] theorem held?_stopped : (Worker.stopped : Worker L).held? = none := rfl

@[simp] theorem isStopped_idle : (Worker.idle : Worker L).isStopped = false := rfl
@[simp] theorem isStopped_holding : (Worker.holding index : Worker L).isStopped = false := rfl
@[simp] theorem isStopped_busy : (Worker.busy index state).isStopped = false := rfl
@[simp] theorem isStopped_stopped : (Worker.stopped : Worker L).isStopped = true := rfl

end

/-- No step of the body panics. -/
def Body.NeverPanics (body : Body S L) : Prop :=
  ∀ state store store' message, body.step state store ≠ some (store', .panicked message)

namespace Loop

/-- What holds of a loop with `n` workers over `len` indices when the counter was taken `taken`
times. -/
structure HandsOut (len n taken : Nat) (l : Loop S L) : Prop where
  workers : l.workers.length = n
  counter : l.next = taken % counterLimit
  taken_le : taken ≤ len + l.workers.countP (·.isStopped)
  stopped : 0 < l.workers.countP (·.isStopped) → len ≤ taken
  handed : (l.calls.map Prod.fst ++ l.workers.filterMap (·.held?)).Perm
    (List.range (min taken len))
  worker_lt : ∀ call ∈ l.calls, call.2 < n
  increasing : l.calls.Pairwise fun later earlier => later.2 = earlier.2 → earlier.1 < later.1
  held_last : ∀ k index, l.workers[k]? = some (.holding index) →
    ∀ call ∈ l.calls, call.2 = k → call.1 < index

theorem handsOut_start (len n : Nat) (store : S) :
    HandsOut len n 0 (start n store : Loop S L) where
  workers := by simp [start]
  counter := rfl
  taken_le := Nat.zero_le _
  stopped := by simp [start, List.countP_replicate, Worker.isStopped]
  handed := by
    have hnone : (List.replicate n (Worker.idle : Worker L)).filterMap (·.held?) = [] := by
      rw [List.filterMap_eq_nil_iff]
      intro a ha
      rw [List.eq_of_mem_replicate ha]
      rfl
    simp [start, hnone]
  worker_lt := by simp [start]
  increasing := .nil
  held_last := by simp [start]

section
variable {len n taken : Nat} {l : Loop S L} {k : Nat}

/-- While a worker is idle the counter has not come round. -/
theorem HandsOut.next_eq (h : HandsOut len n taken l) (room : len + n ≤ counterLimit)
    (hidle : l.workers[k]? = some .idle) : l.next = taken := by
  obtain ⟨before, after, hsplit, -⟩ := split_at hidle
  -- One worker at least has not stopped, the idle one.
  have hcount : l.workers.countP (·.isStopped) < n := by
    have hbefore : before.countP (·.isStopped) ≤ before.length := List.countP_le_length
    have hafter : after.countP (·.isStopped) ≤ after.length := List.countP_le_length
    rw [← h.workers, hsplit]
    simp only [List.countP_append, List.countP_cons, isStopped_idle, List.length_append,
      List.length_cons, Bool.false_eq_true, if_false]
    omega
  have htaken := h.taken_le
  rw [h.counter]
  exact Nat.mod_eq_of_lt (by omega)

theorem HandsOut.replace (h : HandsOut len n taken l) {old now : Worker L} (store : S)
    (hold : l.workers[k]? = some old) (hheld : old.held? = none) (hstop : old.isStopped = false)
    (hheld' : now.held? = none) (hstop' : now.isStopped = false) :
    HandsOut len n taken { l with store := store, workers := l.workers.set k now } := by
  have hcount := countP_set (·.isStopped) hold (hstop'.trans hstop.symm)
  have hfilter := filterMap_set (·.held?) hold (hheld'.trans hheld.symm)
  refine ⟨by simpa using h.workers, h.counter, by rw [hcount]; exact h.taken_le,
    by rw [hcount]; exact h.stopped, by rw [hfilter]; exact h.handed, h.worker_lt, h.increasing, ?_⟩
  intro j index hj
  rcases place_set hj with ⟨-, hnow⟩ | ⟨-, hother⟩
  · -- The worker itself holds nothing now.
    rw [hnow] at hheld'
    cases hheld'
  · exact h.held_last j index hother

theorem HandsOut.take (h : HandsOut len n taken l) (hidle : l.workers[k]? = some .idle)
    (hlt : taken < len) : HandsOut len n (taken + 1)
      { l with
        next := (taken + 1) % counterLimit
        workers := l.workers.set k (.holding taken) } := by
  have hcount : (l.workers.set k (.holding taken)).countP (·.isStopped) =
      l.workers.countP (·.isStopped) := countP_set _ hidle rfl
  -- Nobody has stopped yet: the counter has not reached the end.
  have hnone : l.workers.countP (·.isStopped) = 0 := by
    have := h.stopped
    omega
  have hcalled : ∀ call ∈ l.calls, call.1 < taken := by
    intro call hcall
    have hmem := h.handed.subset (List.mem_append_left _ (List.mem_map_of_mem hcall))
    rw [List.mem_range] at hmem
    omega
  have hheld : ((l.workers.set k (.holding taken)).filterMap (·.held?)).Perm
      (taken :: l.workers.filterMap (·.held?)) := filterMap_set_some hidle rfl rfl
  refine ⟨by simpa using h.workers, rfl, by rw [hcount]; omega, by rw [hcount, hnone]; omega, ?_,
    h.worker_lt, h.increasing, ?_⟩
  · have hrange : List.range (min (taken + 1) len) = List.range (min taken len) ++ [taken] := by
      rw [Nat.min_eq_left hlt, Nat.min_eq_left (Nat.le_of_lt hlt), List.range_succ]
    have hlast : (l.calls.map Prod.fst ++ taken :: l.workers.filterMap (·.held?)).Perm
        (l.calls.map Prod.fst ++ l.workers.filterMap (·.held?) ++ [taken]) := by
      rw [List.append_assoc]
      exact ((List.perm_append_singleton _ _).symm).append_left _
    rw [hrange]
    exact (hheld.append_left _).trans (hlast.trans (h.handed.append_right _))
  · intro j index hj
    rcases place_set hj with ⟨-, hnow⟩ | ⟨-, hother⟩
    · cases hnow
      exact fun call hcall _ => hcalled call hcall
    · exact h.held_last j index hother

theorem HandsOut.stop (h : HandsOut len n taken l) (hidle : l.workers[k]? = some .idle)
    (hge : len ≤ taken) : HandsOut len n (taken + 1)
      { l with next := (taken + 1) % counterLimit, workers := l.workers.set k .stopped } := by
  have hcount : (l.workers.set k .stopped).countP (·.isStopped) =
      l.workers.countP (·.isStopped) + 1 := countP_set_add Worker.isStopped .stopped hidle
  have hfilter : (l.workers.set k .stopped).filterMap (·.held?) =
      l.workers.filterMap (·.held?) := filterMap_set _ hidle rfl
  have htaken := h.taken_le
  refine ⟨by simpa using h.workers, rfl, by rw [hcount]; omega, fun _ => by omega, ?_,
    h.worker_lt, h.increasing, ?_⟩
  · rw [hfilter, Nat.min_eq_right (by omega), ← Nat.min_eq_right hge]
    exact h.handed
  · intro j index hj
    rcases place_set hj with ⟨-, hnow⟩ | ⟨-, hother⟩
    · cases hnow
    · exact h.held_last j index hother

theorem HandsOut.call (h : HandsOut len n taken l) {index : Nat} (state : L)
    (hold : l.workers[k]? = some (.holding index)) : HandsOut len n taken
      { l with
        workers := l.workers.set k (.busy index state)
        calls := (index, k) :: l.calls } := by
  have hcount : (l.workers.set k (.busy index state)).countP (·.isStopped) =
      l.workers.countP (·.isStopped) := countP_set _ hold rfl
  have hheld : (index :: (l.workers.set k (.busy index state)).filterMap (·.held?)).Perm
      (l.workers.filterMap (·.held?)) := filterMap_set_none hold rfl rfl
  have hk : k < n := by
    rw [← h.workers]
    exact (List.getElem?_eq_some_iff.mp hold).1
  refine ⟨by simpa using h.workers, h.counter, by rw [hcount]; exact h.taken_le,
    by rw [hcount]; exact h.stopped, ?_, ?_, ?_, ?_⟩
  · have hmiddle : (index :: (l.calls.map Prod.fst ++
        (l.workers.set k (.busy index state)).filterMap (·.held?))).Perm
        (l.calls.map Prod.fst ++ index ::
          (l.workers.set k (.busy index state)).filterMap (·.held?)) := List.perm_middle.symm
    exact hmiddle.trans ((hheld.append_left _).trans h.handed)
  · intro call hcall
    rcases List.mem_cons.mp hcall with rfl | hcall
    · exact hk
    · exact h.worker_lt call hcall
  · exact List.pairwise_cons.mpr
      ⟨fun earlier he hsame => h.held_last k index hold earlier he hsame.symm, h.increasing⟩
  · intro j other hj call hcall hworker
    rcases place_set hj with ⟨-, hnow⟩ | ⟨hne, hother⟩
    · cases hnow
    · rcases List.mem_cons.mp hcall with rfl | hcall
      · exact absurd hworker hne
      · exact h.held_last j other hother call hcall hworker

end

/-! ## Schedules -/

theorem handsOut_step {len n taken : Nat} {l : Loop S L} (body : Body S L) (k : Nat)
    (room : len + n ≤ counterLimit) (h : HandsOut len n taken l) :
    ∃ taken', HandsOut len n taken' (step len body k l) := by
  rw [step]
  split
  · next hidle =>
    have hnext := h.next_eq room hidle
    simp only [hnext]
    split
    · next hlt => exact ⟨taken + 1, h.take hidle hlt⟩
    · next hge => exact ⟨taken + 1, h.stop hidle (Nat.not_lt.mp hge)⟩
  · next index hold => exact ⟨taken, h.call _ hold⟩
  · next index state hbusy =>
    split
    · next store p _ =>
      refine ⟨taken, h.replace store hbusy rfl rfl ?_ ?_⟩ <;> cases p <;> rfl
    · exact ⟨taken, h⟩
  · exact ⟨taken, h⟩

theorem handsOut_run {len n taken : Nat} {l : Loop S L} (body : Body S L)
    (room : len + n ≤ counterLimit) (schedule : List Nat) (h : HandsOut len n taken l) :
    ∃ taken', HandsOut len n taken' (run len body schedule l) :=
  List.foldlRecOn (motive := fun l => ∃ taken, HandsOut len n taken l) schedule _ ⟨taken, h⟩
    fun _ ⟨_, h⟩ k _ => handsOut_step body k room h

/-- No worker has panicked. -/
def Calm (l : Loop S L) : Prop := ∀ worker ∈ l.workers, ∀ message, worker ≠ .panicked message

theorem calm_set {l : Loop S L} (h : l.Calm) {k : Nat} {now : Worker L}
    (hnow : ∀ message, now ≠ .panicked message) :
    ∀ worker ∈ l.workers.set k now, ∀ message, worker ≠ .panicked message := by
  intro worker hw
  rcases List.mem_or_eq_of_mem_set hw with hw | rfl
  · exact h worker hw
  · exact hnow

theorem calm_step {len : Nat} {body : Body S L} (calm : body.NeverPanics) (k : Nat)
    {l : Loop S L} (h : l.Calm) : (step len body k l).Calm := by
  rw [step]
  split
  · dsimp only
    split <;> exact calm_set h (by simp)
  · exact calm_set h (by simp)
  · next index state _ =>
    split
    · next store p hstep =>
      cases p with
      | running state => exact calm_set h (by simp)
      | returned => exact calm_set h (by simp)
      | panicked message => exact absurd hstep (calm state l.store store message)
    · exact h
  · exact h

theorem calm_run {len : Nat} {body : Body S L} (calm : body.NeverPanics) (schedule : List Nat)
    {l : Loop S L} (h : l.Calm) : (run len body schedule l).Calm :=
  List.foldlRecOn schedule _ h fun _ h k _ => calm_step calm k h

theorem Calm.panic?_eq_none {l : Loop S L} (h : l.Calm) : l.panic? = none := by
  rw [panic?, List.findSome?_eq_none_iff]
  intro worker hw
  cases worker with
  | panicked message => exact absurd rfl (h _ hw message)
  | idle | holding _ | busy _ _ | stopped => rfl

section
variable {len n taken : Nat} {l : Loop S L}

theorem HandsOut.handed_of_ended (h : HandsOut len n taken l) (ended : l.hasEnded = true) :
    (l.calls.map Prod.fst).Perm (List.range (min taken len)) := by
  have hfree : l.workers.filterMap (·.held?) = [] := by
    rw [List.filterMap_eq_nil_iff]
    intro worker hw
    have hend := List.all_eq_true.mp ended worker hw
    cases worker <;> first | rfl | cases hend
  have hhanded := h.handed
  rwa [hfree, List.append_nil] at hhanded

/-- In a loop that has ended without a panic every worker has seen the end of the indices. -/
theorem HandsOut.all_of_calm (h : HandsOut len n taken l) (hn : 0 < n) (calm : l.Calm)
    (ended : l.hasEnded = true) : len ≤ taken := by
  have hcount : l.workers.countP (·.isStopped) = n := by
    rw [← h.workers, List.countP_eq_length]
    intro worker hw
    have hend := List.all_eq_true.mp ended worker hw
    cases worker with
    | stopped => rfl
    | panicked message => exact absurd rfl (calm _ hw message)
    | idle => cases hend
    | holding _ => cases hend
    | busy _ _ => cases hend
  exact h.stopped (by rw [hcount]; exact hn)

theorem HandsOut.history_perm (h : HandsOut len n taken l) (ended : l.hasEnded = true) :
    (l.history.map Prod.fst).Perm (List.range (min taken len)) := by
  rw [history, List.map_reverse]
  exact (List.reverse_perm _).trans (h.handed_of_ended ended)

theorem HandsOut.history_increasing (h : HandsOut len n taken l) :
    l.history.Pairwise fun earlier later => earlier.2 = later.2 → earlier.1 < later.1 := by
  rw [history, List.pairwise_reverse]
  exact h.increasing.imp fun hlt hsame => hlt hsame.symm

end

theorem calm_start (n : Nat) (store : S) : (start n store : Loop S L).Calm := by
  intro worker hw message
  rw [List.eq_of_mem_replicate hw]
  simp

theorem calls_perm {len n : Nat} {body : Body S L} (calm : body.NeverPanics) (hn : 0 < n)
    (store : S) (schedule : List Nat) (room : len + n ≤ counterLimit)
    (ended : (run len body schedule (start n store)).hasEnded = true) :
    ((run len body schedule (start n store)).calls.map Prod.fst).Perm (List.range len) := by
  obtain ⟨taken, h⟩ := handsOut_run body room schedule (handsOut_start len n store)
  have hall := h.all_of_calm hn (calm_run calm schedule (calm_start n store)) ended
  have hhanded := h.handed_of_ended ended
  rwa [Nat.min_eq_right hall] at hhanded

end Loop

/-! ## The loop that has ended -/

theorem Policy.workers_pos (p : Policy) : 0 < p.workers := by
  cases p with
  | sequential => exact Nat.one_pos
  | parallel threads => exact Nat.lt_of_lt_of_le Nat.one_pos (Nat.le_max_right _ _)

theorem Policy.forWorkers_pos (p : Policy) (pool : Bool) (len : Nat) :
    0 < p.forWorkers pool len := by
  rw [forWorkers]
  split
  · exact p.workers_pos
  · exact Nat.one_pos

theorem Policy.forWorkers_le (p : Policy) (pool : Bool) (len : Nat) :
    p.forWorkers pool len ≤ p.workers := by
  rw [forWorkers]
  split
  · exact Nat.le_refl _
  · exact p.workers_pos

/-- One worker, at most one index or no pool: the loop runs on the calling thread. -/
theorem Policy.forWorkers_one {p : Policy} {pool : Bool} {len : Nat}
    (h : p.workers = 1 ∨ len ≤ 1 ∨ pool = false) : p.forWorkers pool len = 1 := by
  rw [forWorkers, wantsPool]
  split
  · next hpool =>
    simp only [Bool.and_eq_true, bne_iff_ne, decide_eq_true_eq] at hpool
    rcases h with hone | hlen | hnone
    · exact absurd hone hpool.1.1
    · omega
    · rw [hnone] at hpool; cases hpool.2
  · rfl

theorem calls_of_one {calls : List (Nat × Nat)} {len : Nat}
    (hperm : (calls.map Prod.fst).Perm (List.range len)) (hone : ∀ call ∈ calls, call.2 < 1)
    (hinc : calls.Pairwise fun earlier later => earlier.2 = later.2 → earlier.1 < later.1) :
    calls = (List.range len).map (·, 0) := by
  have hzero : ∀ call ∈ calls, call.2 = 0 := fun call hcall => Nat.lt_one_iff.mp (hone call hcall)
  -- All calls are the one worker's, so their indices increase, and only one order of them does.
  have hsorted : (calls.map Prod.fst).Pairwise (· < ·) := by
    rw [List.pairwise_map]
    refine hinc.imp_of_mem ?_
    intro a b ha hb hlt
    exact hlt ((hzero a ha).trans (hzero b hb).symm)
  have hrange : calls.map Prod.fst = List.range len :=
    hperm.eq_of_pairwise (fun a b _ _ hab hba => by omega) hsorted List.pairwise_lt_range
  rw [← hrange, List.map_map]
  refine (List.map_id calls).symm.trans (List.map_congr_left ?_)
  intro call hcall
  exact Prod.ext rfl (hzero call hcall)

/-- A loop over indices whose body does not panic, run under any schedule until all workers have
ended, calls the body once for every index, on workers of the policy, and each worker sees its
indices in order. Where the policy keeps to the calling thread, the calls are those for the indices
in order, and the loop that has no workers comes to the same calls and the same store. -/
theorem each_index_called_once (p : Policy) (pool : Bool) (len : Nat) (body : Body S L)
    (calm : body.NeverPanics) (store : S) (schedule : List Nat)
    (room : len + p.forWorkers pool len ≤ Loop.counterLimit)
    (ended : (Loop.run len body schedule
      (.start (p.forWorkers pool len) store)).hasEnded = true) :
    let l := Loop.run len body schedule (.start (p.forWorkers pool len) store)
    let calls := l.history
    (calls.map Prod.fst).Perm (List.range len) ∧
      (∀ call ∈ calls, call.2 < p.workers) ∧
      (calls.Pairwise fun earlier later => earlier.2 = later.2 → earlier.1 < later.1) ∧
      (p.workers = 1 ∨ len ≤ 1 ∨ pool = false → calls = (List.range len).map (·, 0) ∧
        ∀ o, body.ComesTo len store o ↔ o = ⟨calls, none, l.store⟩) := by
  intro l calls
  have hstart := Loop.handsOut_start (L := L) len (p.forWorkers pool len) store
  obtain ⟨taken, h⟩ := Loop.handsOut_run body room schedule hstart
  have hcalm : l.Calm := Loop.calm_run calm schedule (Loop.calm_start _ store)
  have hall := h.all_of_calm (p.forWorkers_pos pool len) hcalm ended
  have hperm := h.history_perm ended
  rw [Nat.min_eq_right hall] at hperm
  have hworker : ∀ call ∈ calls, call.2 < p.forWorkers pool len :=
    fun call hcall => h.worker_lt call (List.mem_reverse.mp hcall)
  refine ⟨hperm, fun call hcall => ?_, h.history_increasing, fun hone => ⟨?_, fun o => ?_⟩⟩
  · exact Nat.lt_of_lt_of_le (hworker call hcall) (p.forWorkers_le pool len)
  · rw [Policy.forWorkers_one hone] at hworker
    exact calls_of_one hperm hworker h.history_increasing
  · have houtline : l.outline = ⟨calls, none, l.store⟩ := by
      rw [Loop.outline, hcalm.panic?_eq_none]
    rw [← houtline]
    exact Body.comesTo_iff_outline (Policy.forWorkers_one hone) room ended o

theorem recorded_neverPanics : (Workload.recorded none).NeverPanics := by
  intro state store store' message h
  simp [Workload.recorded] at h

/-- Two workers take an index each before either calls the body, and the later one calls first. -/
theorem each_index_called_once_crossed :
    let calls := (Loop.run 2 (Workload.recorded none) [0, 1, 1, 0, 1, 1, 0, 0]
      (.start ((Policy.parallel 2).forWorkers true 2) ())).history
    calls = [(1, 1), (0, 0)] ∧ (calls.map Prod.fst).Perm (List.range 2) ∧
      (Workload.recorded none).ComesTo 2 () ⟨[(0, 0), (1, 0)], none, ()⟩ := by
  obtain ⟨hcrossed, -⟩ := each_index_called_once (.parallel 2) true 2 (Workload.recorded none)
    recorded_neverPanics () [0, 1, 1, 0, 1, 1, 0, 0] (by decide) (by decide)
  obtain ⟨-, -, -, halone⟩ := each_index_called_once .sequential true 2 (Workload.recorded none)
    recorded_neverPanics () [0, 0, 0, 0, 0, 0, 0] (by decide) (by decide)
  exact ⟨by decide, hcrossed, ((halone (.inl rfl)).2 _).mpr rfl⟩

end Aggregate
