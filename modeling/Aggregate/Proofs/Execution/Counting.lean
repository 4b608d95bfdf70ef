import Aggregate.Proofs.Execution.HandOut
import Aggregate.Proofs.Lock.Admission

/-
  A counter under a lock

  Every call of the body takes the lock, reads the counter, writes back one more
  than it read and gives the lock back, each in a step of its own, and the other
  workers take theirs between any two of them. The counter is exact all the same:
  at any time it counts the calls made, less those that have still to write
  (`Counts`).

  What a worker read is still there when it writes, because no two workers are
  between taking and giving back the lock at a time. With an enabled lock that is
  what the lock says of the workers, with a disabled one it is that there is a
  single worker (`Lock.Admits`); all else is the same for both. `counts_step` is
  one step of any worker, `counts_run` any schedule, and `guarded_loop_counts` the
  loop that has ended.
-/

namespace Aggregate.Workload

variable {enabled : Bool}

/-- Whether a worker is between taking the lock and giving it back. -/
def isInside : Worker Stage → Bool
  | .busy _ .reading | .busy _ (.writing _) | .busy _ .leaving => true
  | _ => false

/-- Whether a worker has called the body and not written to the counter yet. -/
def isDue : Worker Stage → Bool
  | .busy _ .locking | .busy _ .reading | .busy _ (.writing _) => true
  | _ => false

/-- A worker about to write has read what is there. -/
def Fresh (value : Nat) (workers : List (Worker Stage)) : Prop :=
  ∀ k index seen : Nat, workers[k]? = some (.busy index (.writing seen)) → seen = value

theorem Fresh.set {value k : Nat} {workers : List (Worker Stage)} {now : Worker Stage}
    (h : Fresh value workers)
    (hnow : ∀ index seen : Nat, now = .busy index (.writing seen) → seen = value) :
    Fresh value (workers.set k now) := by
  intro j index seen hj
  rcases place_set hj with ⟨-, heq⟩ | ⟨-, hother⟩
  · exact hnow index seen heq
  · exact h j index seen hother

/-- The counter has gone up by the calls made, less those that have still to write. -/
structure Counts (base : Nat) (l : Loop (Counter enabled) Stage) : Prop where
  admits : l.store.lock.Admits isInside l.workers
  fresh : Fresh l.store.value l.workers
  value : l.store.value + l.workers.countP isDue = base + l.calls.length

section
variable {base : Nat} {l : Loop (Counter enabled) Stage} {k : Nat}

theorem Counts.take (h : Counts base l) {now : Worker Stage} (next : Nat)
    (hold : l.workers[k]? = some .idle) (hinside : isInside now = false)
    (hdue : isDue now = false) :
    Counts base { l with next := next, workers := l.workers.set k now } := by
  refine ⟨h.admits.stay hold hinside, h.fresh.set ?_, ?_⟩
  · intro index seen heq
    rw [heq] at hdue
    cases hdue
  · show l.store.value + (l.workers.set k now).countP isDue = _
    rw [countP_set isDue hold hdue]
    exact h.value

theorem Counts.call (h : Counts base l) {index : Nat}
    (hold : l.workers[k]? = some (.holding index)) : Counts base
      { l with
        workers := l.workers.set k (.busy index .locking)
        calls := (index, k) :: l.calls } := by
  refine ⟨h.admits.stay hold rfl, h.fresh.set (by simp), ?_⟩
  have hcount : (l.workers.set k (.busy index .locking)).countP isDue =
      l.workers.countP isDue + 1 := countP_set_add isDue _ hold
  have hvalue := h.value
  show l.store.value + (l.workers.set k (.busy index .locking)).countP isDue =
    base + (l.calls.length + 1)
  omega

theorem Counts.body (h : Counts base l) {index : Nat} {stage : Stage}
    (hold : l.workers[k]? = some (.busy index stage)) {store : Counter enabled}
    {p : Progress Stage} (hstep : (increment enabled).step stage l.store = some (store, p)) :
    Counts base (l.proceed k index store p) := by
  have hvalue := h.value
  cases stage with
  | locking =>
    obtain ⟨taken, htaken, hs⟩ := Option.map_eq_some_iff.mp hstep
    cases hs
    have hdue : (l.workers.set k (.busy index .reading)).countP isDue = l.workers.countP isDue :=
      countP_set isDue hold rfl
    exact ⟨h.admits.acquire hold htaken rfl rfl, h.fresh.set (by simp),
      (congrArg (l.store.value + ·) hdue).trans hvalue⟩
  | reading =>
    cases hstep
    have hdue : (l.workers.set k (.busy index (.writing l.store.value))).countP isDue =
        l.workers.countP isDue := countP_set isDue hold rfl
    exact ⟨h.admits.stay hold rfl, h.fresh.set (by simp +contextual),
      (congrArg (l.store.value + ·) hdue).trans hvalue⟩
  | writing seen =>
    cases hstep
    have hseen : seen = l.store.value := h.fresh k index seen hold
    have hdue : (l.workers.set k (.busy index .leaving)).countP isDue + 1 =
        l.workers.countP isDue := countP_set_add isDue _ hold
    refine ⟨h.admits.stay hold rfl, fun j i other hj => ?_, ?_⟩
    · rcases place_set hj with ⟨-, heq⟩ | ⟨hne, hother⟩
      · cases heq
      · -- Another worker about to write would be inside as well.
        exact absurd (place_unique h.admits.inside_le hold rfl hother rfl) hne
    · show seen + 1 + (l.workers.set k (.busy index .leaving)).countP isDue = base + l.calls.length
      omega
  | leaving =>
    cases hstep
    have hdue : (l.workers.set k .idle).countP isDue = l.workers.countP isDue :=
      countP_set isDue hold rfl
    exact ⟨h.admits.release hold rfl rfl, h.fresh.set (by simp),
      (congrArg (l.store.value + ·) hdue).trans hvalue⟩

theorem counts_step (len : Nat) (k : Nat) (h : Counts base l) :
    Counts base (Loop.step len (increment enabled) k l) := by
  rw [Loop.step]
  split
  · next hidle =>
    dsimp only
    split
    · exact h.take _ hidle rfl rfl
    · exact h.take _ hidle rfl rfl
  · next index hold => exact h.call hold
  · next index stage hbusy =>
    split
    · next store p hstep => exact h.body hbusy hstep
    · exact h
  · exact h

theorem counts_run (len : Nat) (schedule : List Nat) (h : Counts base l) :
    Counts base (Loop.run len (increment enabled) schedule l) :=
  List.foldlRecOn schedule _ h fun _ h k _ => counts_step len k h

/-- In a loop that has ended every call has written and the lock is free again. -/
theorem Counts.ended (h : Counts base l) (ended : l.hasEnded = true) :
    l.store = ⟨.new enabled, base + l.calls.length⟩ := by
  have hnone : ∀ q : Worker Stage → Bool, (∀ worker, worker.hasEnded = true → q worker = false) →
      l.workers.countP q = 0 := by
    intro q hq
    rw [List.countP_eq_zero]
    intro worker hw
    simp [hq worker (List.all_eq_true.mp ended worker hw)]
  have hinside : l.workers.countP isInside = 0 := hnone _ fun worker hend => by
    cases worker <;> first | rfl | cases hend
  have hdue : l.workers.countP isDue = 0 := hnone _ fun worker hend => by
    cases worker <;> first | rfl | cases hend
  have hadmits := h.admits
  have hvalue := h.value
  rw [hdue, Nat.add_zero] at hvalue
  rcases hstore : l.store with ⟨lock, value⟩
  rw [hstore] at hadmits hvalue
  rw [← hvalue]
  cases lock with
  | real held =>
    have hheld : held.toNat = 0 := hadmits.symm.trans hinside
    cases held with
    | true => cases hheld
    | false => rfl
  | bypass => rfl

end

/-- A loop that begins; with a disabled lock it has a single worker. -/
theorem counts_start {workers : Nat} (base : Nat) (h : enabled = true ∨ workers = 1) :
    Counts base (.start workers ⟨.new enabled, base⟩) := by
  have hidle : ∀ q : Worker Stage → Bool, q .idle = false →
      (List.replicate workers (.idle : Worker Stage)).countP q = 0 := by
    intro q hq
    rw [List.countP_replicate, hq]
    rfl
  refine ⟨?_, fun k index seen hk => ?_, ?_⟩
  · cases enabled with
    | true => exact hidle isInside rfl
    | false =>
      rcases h with h | h
      · cases h
      · exact List.length_replicate.trans h
  · have hmem := List.eq_of_mem_replicate (List.mem_of_getElem? hk)
    cases hmem
  · exact congrArg (base + ·) (hidle isDue rfl)

theorem increment_neverPanics : (increment enabled).NeverPanics := by
  intro stage store store' message h
  cases stage with
  | locking =>
    obtain ⟨taken, -, hs⟩ := Option.map_eq_some_iff.mp h
    cases hs
  | reading => cases h
  | writing seen => cases h
  | leaving => cases h

/-! ## The loop that has ended -/

theorem general_workers (enabled : Bool) (threads : Nat) (pool : Bool) (len : Nat) :
    enabled = true ∨ (Policy.general enabled threads).forWorkers pool len = 1 := by
  cases enabled with
  | true => exact .inl rfl
  | false => exact .inr (Policy.forWorkers_one (.inl rfl))

theorem store_ended {workers len base : Nat} {schedule : List Nat}
    (hlock : enabled = true ∨ workers = 1) (hpos : 0 < workers)
    (room : len + workers ≤ Loop.counterLimit)
    (ended : (Loop.run len (increment enabled) schedule
      (.start workers ⟨.new enabled, base⟩)).hasEnded = true) :
    (Loop.run len (increment enabled) schedule (.start workers ⟨.new enabled, base⟩)).store =
      ⟨.new enabled, base + len⟩ := by
  have hcounts := counts_run len schedule (counts_start base hlock)
  have hcalls := Loop.calls_perm increment_neverPanics hpos _ schedule room ended
  rw [hcounts.ended ended, ← List.length_map, hcalls.length_eq, List.length_range]

theorem forEach_increment (indices : List Nat) : ∀ base : Nat,
    (increment enabled).forEach 4 indices ⟨.new enabled, base⟩ =
      some ⟨indices.map (·, 0), none, ⟨.new enabled, base + indices.length⟩⟩ := by
  induction indices with
  | nil => intro base; rfl
  | cons index rest ih =>
    intro base
    have hcall : (increment enabled).complete 4 .locking ⟨.new enabled, base⟩ =
        some (⟨.new enabled, base + 1⟩, none) := by cases enabled <;> rfl
    rw [Body.forEach, show (increment enabled).enter index 0 = .locking from rfl, hcall]
    simp only [ih, Option.map_some, List.map_cons, List.length_cons]
    rw [Nat.add_assoc, Nat.add_comm 1]

/-- Whether locks and loops are compiled for one thread or for many, a loop over indices whose body
adds one to a counter under the lock, run under any schedule until all workers have ended, adds one
for every index, and leaves the lock free. So does the loop on the calling thread, which ends. -/
theorem guarded_loop_counts (enabled : Bool) (threads : Nat) (pool : Bool) (len base : Nat)
    (schedule : List Nat)
    (room : len + (Policy.general enabled threads).forWorkers pool len ≤ Loop.counterLimit)
    (ended : (Loop.run len (increment enabled) schedule
      (.start ((Policy.general enabled threads).forWorkers pool len)
        ⟨.new enabled, base⟩)).hasEnded = true) :
    (Loop.run len (increment enabled) schedule
      (.start ((Policy.general enabled threads).forWorkers pool len)
        ⟨.new enabled, base⟩)).store = ⟨.new enabled, base + len⟩ ∧
      ∀ o, (increment enabled).ComesTo len ⟨.new enabled, base⟩ o ↔
        o = ⟨(List.range len).map (·, 0), none, ⟨.new enabled, base + len⟩⟩ := by
  have hlock := general_workers enabled threads pool len
  have hpos := (Policy.general enabled threads).forWorkers_pos pool len
  have halone : (increment enabled).ComesTo len ⟨.new enabled, base⟩
      ⟨(List.range len).map (·, 0), none, ⟨.new enabled, base + len⟩⟩ :=
    ⟨4, by rw [forEach_increment, List.length_range]⟩
  exact ⟨store_ended hlock hpos room ended,
    fun o => ⟨fun h => h.unique halone, fun h => h ▸ halone⟩⟩

/-- Two workers for two indices: the second one has to wait for the lock before it counts. -/
def contended : List Nat := [0, 0, 0, 0, 1, 1, 1, 0, 0, 1, 1, 1, 1, 0, 1]

theorem guarded_loop_counts_contended :
    let l := Loop.run 2 (increment true) contended
      (.start ((Policy.general true 2).forWorkers true 2) ⟨.new true, 5⟩)
    l.hasEnded = true ∧ l.store = ⟨.new true, 7⟩ := by
  intro l
  have hended : l.hasEnded = true := by decide
  exact ⟨hended, (guarded_loop_counts true 2 true 2 5 contended (by decide) hended).1⟩

end Aggregate.Workload
