import Aggregate.Proofs.Execution.Counting

/-
  The loop under a lock ends

  However the workers of a loop over a counter under a lock have been scheduled so
  far, as long as one has not ended there is one that can go on: who waits for the
  lock waits for another worker, and that one is not waiting (`exists_able`). Every
  step either changes nothing or leaves less to do (`work_step`), so workers that
  take turns come to an end (`turns_end`), with every index counted (`count_eq`).
-/

namespace Aggregate.Workload

variable {enabled : Bool}

/-! ## What is left to do -/

/-- The steps that a worker still takes if it gets no other index. -/
def effort : Worker Stage → Nat
  | .holding _ => 6
  | .busy _ .locking => 5
  | .busy _ .reading => 4
  | .busy _ (.writing _) => 3
  | .busy _ .leaving => 2
  | .idle => 1
  | .stopped | .panicked _ => 0

/-- The number of indices handed out, called or held. -/
def handed (l : Loop (Counter enabled) Stage) : Nat :=
  l.calls.length + (l.workers.filterMap (·.held?)).length

/-- The steps left: six for every index not handed out yet, and those of the workers. -/
def work (len : Nat) (l : Loop (Counter enabled) Stage) : Nat :=
  6 * (len - handed l) + total (l.workers.map effort)

/-- The worker can take its next step: it has not ended and does not wait for the lock. -/
def Able (l : Loop (Counter enabled) Stage) (k : Nat) : Prop :=
  ∃ worker, l.workers[k]? = some worker ∧ worker.hasEnded = false ∧
    ∀ index, worker = .busy index .locking → l.store.lock.acquire? ≠ none

theorem Able.lt {l : Loop (Counter enabled) Stage} {k : Nat} (h : Able l k) :
    k < l.workers.length := by
  obtain ⟨worker, hk, -⟩ := h
  exact (List.getElem?_eq_some_iff.mp hk).1

section
variable {len n taken base : Nat} {l : Loop (Counter enabled) Stage} {k : Nat}

theorem handed_eq (h : l.HandsOut len n taken) : handed l = min taken len := by
  have hlength := h.handed.length_eq
  rwa [List.length_append, List.length_map, List.length_range] at hlength

theorem work_set {old : Worker Stage} (now : Worker Stage) (hold : l.workers[k]? = some old)
    (hheld : now.held? = old.held?) (hless : effort now < effort old)
    (store : Counter enabled) (next : Nat) :
    work len { l with next := next, store := store, workers := l.workers.set k now } <
      work len l := by
  have hfilter := filterMap_set (·.held?) hold hheld
  have hsum := total_set_add effort now hold
  simp only [work, handed, hfilter]
  omega

theorem work_take (hold : l.workers[k]? = some .idle) (hlt : handed l < len) (index next : Nat) :
    work len { l with next := next, workers := l.workers.set k (.holding index) } < work len l := by
  have hfilter : ((l.workers.set k (.holding index)).filterMap (·.held?)).length =
      (l.workers.filterMap (·.held?)).length + 1 :=
    (filterMap_set_some (b := index) hold rfl rfl).length_eq
  have hsum : total ((l.workers.set k (.holding index)).map effort) + 1 =
      total (l.workers.map effort) + 6 := total_set_add effort (.holding index) hold
  simp only [work, handed, hfilter] at hlt ⊢
  omega

theorem work_call {index : Nat} (hold : l.workers[k]? = some (.holding index)) :
    work len { l with
      workers := l.workers.set k (.busy index .locking), calls := (index, k) :: l.calls } <
        work len l := by
  have hfilter : ((l.workers.set k (.busy index .locking)).filterMap (·.held?)).length + 1 =
      (l.workers.filterMap (·.held?)).length :=
    (filterMap_set_none (b := index) hold rfl rfl).length_eq
  have hsum : total ((l.workers.set k (.busy index .locking)).map effort) + 6 =
      total (l.workers.map effort) + 5 := total_set_add effort (.busy index .locking) hold
  simp only [work, handed, List.length_cons]
  omega

theorem work_step (h : l.HandsOut len n taken) (room : len + n ≤ Loop.counterLimit)
    (hable : Able l k) : work len (Loop.step len (increment enabled) k l) < work len l := by
  obtain ⟨worker, hk, hgo, hlock⟩ := hable
  rw [Loop.step]
  cases worker with
  | idle =>
    simp only [hk, h.next_eq room hk]
    split
    · next hlt => exact work_take hk (by rw [handed_eq h]; omega) _ _
    · exact work_set .stopped hk rfl Nat.zero_lt_one _ _
  | holding index =>
    simp only [hk]
    exact work_call hk
  | busy index stage =>
    simp only [hk]
    cases stage with
    | locking =>
      obtain ⟨taken, htaken⟩ := Option.ne_none_iff_exists'.mp (hlock index rfl)
      simp only [increment, htaken, Option.map_some]
      exact work_set (.busy index .reading) hk rfl (Nat.lt_succ_self 4) _ _
    | reading => exact work_set (.busy index (.writing _)) hk rfl (Nat.lt_succ_self 3) _ _
    | writing seen => exact work_set (.busy index .leaving) hk rfl (Nat.lt_succ_self 2) _ _
    | leaving => exact work_set .idle hk rfl (Nat.lt_succ_self 1) _ _
  | stopped => cases hgo
  | panicked message => cases hgo

theorem step_of_not_able (hable : ¬ Able l k) : Loop.step len (increment enabled) k l = l := by
  rw [Loop.step]
  split
  · next hk => exact absurd ⟨_, hk, rfl, by simp⟩ hable
  · next index hk => exact absurd ⟨_, hk, rfl, by simp⟩ hable
  · next index stage hk =>
    split
    · next store p hstep =>
      refine absurd ⟨_, hk, rfl, fun other hlocking hnone => ?_⟩ hable
      cases hlocking
      simp [increment, hnone] at hstep
    · rfl
  · rfl

/-- While a worker has not ended, one of them is able to step. -/
theorem exists_able (h : Counts base l) (hgo : l.hasEnded = false) : ∃ k, Able l k := by
  by_cases hlock : l.store.lock.acquire? = none
  · -- Whoever is inside need not wait for the lock.
    obtain ⟨worker, hw, hinside⟩ := h.admits.exists_inside hlock
    obtain ⟨k, hk⟩ := List.getElem?_of_mem hw
    refine ⟨k, worker, hk, ?_, fun index hlocking => ?_⟩
    · cases worker <;> first | rfl | cases hinside
    · rw [hlocking] at hinside
      cases hinside
  · obtain ⟨worker, hw, hgo⟩ : ∃ worker ∈ l.workers, worker.hasEnded = false := by
      simpa [Loop.hasEnded] using hgo
    obtain ⟨k, hk⟩ := List.getElem?_of_mem hw
    exact ⟨k, worker, hk, hgo, fun _ _ => hlock⟩

end

/-! ## Taking turns -/

section
variable {len n base : Nat}

theorem work_run_le (room : len + n ≤ Loop.counterLimit) (schedule : List Nat) :
    ∀ {taken : Nat} {l : Loop (Counter enabled) Stage}, l.HandsOut len n taken →
      work len (Loop.run len (increment enabled) schedule l) ≤ work len l := by
  induction schedule with
  | nil => intro taken l _; exact Nat.le_refl _
  | cons k schedule ih =>
    intro taken l h
    obtain ⟨taken', h'⟩ := Loop.handsOut_step (increment enabled) k room h
    refine Nat.le_trans (ih h') ?_
    by_cases hable : Able l k
    · exact Nat.le_of_lt (work_step h room hable)
    · exact Nat.le_of_eq (congrArg (work len) (step_of_not_able hable))

theorem work_run_lt (room : len + n ≤ Loop.counterLimit) (schedule : List Nat) :
    ∀ {taken : Nat} {l : Loop (Counter enabled) Stage}, l.HandsOut len n taken →
      (∃ k ∈ schedule, Able l k) →
        work len (Loop.run len (increment enabled) schedule l) < work len l := by
  induction schedule with
  | nil =>
    rintro taken l _ ⟨k, hk, -⟩
    cases hk
  | cons k schedule ih =>
    rintro taken l h ⟨able, hmem, hable⟩
    obtain ⟨taken', h'⟩ := Loop.handsOut_step (increment enabled) k room h
    by_cases hk : Able l k
    · exact Nat.lt_of_le_of_lt (work_run_le room schedule h') (work_step h room hk)
    · -- The turn is lost, and the one that is able has its own still to come.
      have hrest : able ∈ schedule := by
        rcases List.mem_cons.mp hmem with rfl | hrest
        · exact absurd hable hk
        · exact hrest
      rw [Loop.run_cons, step_of_not_able hk]
      exact ih h ⟨able, hrest, hable⟩

theorem finish_ended (room : len + n ≤ Loop.counterLimit) (turns : Nat) {taken : Nat}
    {l : Loop (Counter enabled) Stage} (h : l.HandsOut len n taken) (hcounts : Counts base l)
    (hwork : work len l < turns) :
    (Loop.finish len (increment enabled) turns l).hasEnded = true := by
  refine takeTurns_ended (fun l => (∃ taken, l.HandsOut len n taken) ∧ Counts base l) (work len) ?_
    turns ⟨⟨taken, h⟩, hcounts⟩ hwork
  rw [h.workers]
  rintro l ⟨⟨taken, h⟩, hcounts⟩ hgo
  obtain ⟨k, hable⟩ := exists_able hcounts hgo
  have hturn : k ∈ List.range n := List.mem_range.mpr (h.workers ▸ hable.lt)
  exact ⟨⟨Loop.handsOut_run (increment enabled) room _ h, counts_run len _ hcounts⟩,
    .inr (work_run_lt room _ h ⟨k, hturn, hable⟩)⟩

end

/-- However the workers have been scheduled so far, a loop whose body adds one under the lock comes
to an end once they take turns. -/
theorem turns_end (workers len base : Nat) (schedule : List Nat)
    (hlock : enabled = true ∨ workers = 1) (room : len + workers ≤ Loop.counterLimit) :
    ∃ turns, (Loop.finish len (increment enabled) turns (Loop.run len (increment enabled) schedule
      (.start workers ⟨.new enabled, base⟩))).hasEnded = true := by
  obtain ⟨taken, h⟩ := Loop.handsOut_run (increment enabled) room schedule
    (Loop.handsOut_start len workers ⟨.new enabled, base⟩)
  have hcounts := counts_run len schedule (counts_start base hlock)
  exact ⟨_, finish_ended room _ h hcounts (Nat.lt_succ_self _)⟩

theorem work_start (workers len : Nat) :
    work len (.start workers ⟨.new enabled, 0⟩ : Loop (Counter enabled) Stage) <
      6 * (len + 1) * (workers + 1) := by
  have hidle : total ((List.replicate workers (.idle : Worker Stage)).map effort) = workers := by
    rw [List.map_replicate, total_replicate]
    exact Nat.mul_one workers
  have hmul : workers ≤ 6 * (len + 1) * workers := Nat.le_mul_of_pos_left workers (by omega)
  calc work len (.start workers ⟨.new enabled, 0⟩ : Loop (Counter enabled) Stage)
      ≤ 6 * len + workers :=
        Nat.add_le_add (Nat.mul_le_mul_left 6 (Nat.sub_le _ _)) (Nat.le_of_eq hidle)
    _ < 6 * (len + 1) * workers + 6 * (len + 1) := by omega
    _ = 6 * (len + 1) * (workers + 1) := rfl

/-- The counter after a loop over indices is their number. -/
theorem count_eq (workers len : Nat) (hlock : enabled = true ∨ workers = 1) (hpos : 0 < workers)
    (room : len + workers ≤ Loop.counterLimit) : count enabled workers len = len := by
  rw [count]
  split
  · rw [forEach_increment, List.length_range]
    exact Nat.zero_add len
  · have hended := finish_ended room _ (Loop.handsOut_start len workers _) (counts_start 0 hlock)
      (work_start workers len)
    obtain ⟨schedule, hrun⟩ := Loop.finish_eq_run len (increment enabled)
      (6 * (len + 1) * (workers + 1)) (.start workers ⟨.new enabled, 0⟩)
    rw [hrun] at hended
    rw [hrun, store_ended hlock hpos room hended]
    exact Nat.zero_add len

end Aggregate.Workload
