import Aggregate.Proofs.Execution.HandOut

/-
  Loops whose bodies panic

  A call that panics ends its worker, and the counter goes on for the others. The
  invariant beside the one of handing out keeps the calls that panicked so far:
  each has ended one worker, for which it was the last call. `loses_step` is one
  step of any worker and `loses_run` any schedule. A loop that has ended has
  stopped every worker that no panic ended, and one that stopped has seen the end
  of the indices; so what is left undone is left by workers that have all panicked
  (`panicking_loop_visits`). A single worker is ended by the first panic, as the
  loop on the calling thread is.
-/

namespace Aggregate

variable {S L : Type}

def Worker.isPanicked : Worker L → Bool
  | .panicked _ => true
  | _ => false

section
variable (index : Nat) (state : L) (message : String)

@[simp] theorem isPanicked_idle : (Worker.idle : Worker L).isPanicked = false := rfl
@[simp] theorem isPanicked_holding : (Worker.holding index : Worker L).isPanicked = false := rfl
@[simp] theorem isPanicked_busy : (Worker.busy index state).isPanicked = false := rfl
@[simp] theorem isPanicked_stopped : (Worker.stopped : Worker L).isPanicked = false := rfl
@[simp] theorem isPanicked_panicked : (Worker.panicked message : Worker L).isPanicked = true := rfl

end

/-! ## How calls end -/

/-- What a call for an index on a worker may come to, whatever the others do to the store. -/
inductive Body.Reaches (body : Body S L) (index worker : Nat) : L → Prop where
  | enter : body.Reaches index worker (body.enter index worker)
  | step {state state' : L} {store store' : S} : body.Reaches index worker state →
      body.step state store = some (store', .running state') → body.Reaches index worker state'

/-- A call for an index on a worker may end so. -/
def Body.EndsIn (body : Body S L) (index worker : Nat) (p : Progress L) : Prop :=
  ∃ state store store', body.Reaches index worker state ∧ body.step state store = some (store', p)

/-- The body panics for the indices of a set, and returns for the others. -/
def Body.PanicsOn (body : Body S L) (fails : Nat → Bool) : Prop :=
  ∀ index worker, (∀ message, body.EndsIn index worker (.panicked message) → fails index = true) ∧
    (body.EndsIn index worker .returned → fails index = false)

namespace Loop

/-- The call that ends with a panic in a step of a worker. -/
def panicking? (body : Body S L) (worker : Nat) (l : Loop S L) : Option (Nat × Nat) :=
  match l.workers[worker]? with
  | some (.busy index state) =>
    match body.step state l.store with
    | some (_, .panicked _) => some (index, worker)
    | _ => none
  | _ => none

/-- The calls that panic in a run, in order. -/
def panicking (len : Nat) (body : Body S L) : List Nat → Loop S L → List (Nat × Nat)
  | [], _ => []
  | worker :: schedule, l =>
    (l.panicking? body worker).toList ++ panicking len body schedule (step len body worker l)

/-- What holds of a loop in which these calls have panicked. -/
structure Loses (body : Body S L) (panicked : List (Nat × Nat)) (l : Loop S L) : Prop where
  count : panicked.length = l.workers.countP (·.isPanicked)
  nodup : panicked.Nodup
  called : ∀ call ∈ panicked, call ∈ l.calls
  alive : ∀ k worker, l.workers[k]? = some worker → worker.isPanicked = false →
    ∀ call ∈ panicked, call.2 ≠ k
  last : l.calls.Pairwise fun later earlier => later.2 = earlier.2 → earlier ∉ panicked
  busy : ∀ k index state, l.workers[k]? = some (.busy index state) →
    (index, k) ∈ l.calls ∧ (∀ call ∈ l.calls, call.2 = k → call.1 ≤ index) ∧
      body.Reaches index k state
  panics : ∀ call ∈ panicked, ∃ message, body.EndsIn call.1 call.2 (.panicked message)
  returns : ∀ call ∈ l.calls, call ∈ panicked ∨
    (∃ state, l.workers[call.2]? = some (.busy call.1 state)) ∨ body.EndsIn call.1 call.2 .returned

theorem loses_start (body : Body S L) (n : Nat) (store : S) :
    Loses body [] (start n store : Loop S L) where
  count := by simp [start, List.countP_replicate]
  nodup := .nil
  called := by simp
  alive := by simp
  last := .nil
  busy := by
    intro k index state hk
    rw [start, List.getElem?_replicate] at hk
    split at hk <;> simp at hk
  panics := by simp
  returns := by simp [start]

section
variable {len n taken : Nat} {body : Body S L} {panicked : List (Nat × Nat)} {l : Loop S L}
  {k index : Nat} {state : L}

theorem busy_of_set {workers : List (Worker L)} {now : Worker L} {j : Nat}
    (hnow : ∀ index state, now ≠ .busy index state)
    (hj : (workers.set k now)[j]? = some (.busy index state)) :
    workers[j]? = some (.busy index state) := by
  rcases place_set hj with ⟨-, hbusy⟩ | ⟨-, hother⟩
  · exact absurd hbusy (hnow index state)
  · exact hother

theorem Loses.alive_set (h : Loses body panicked l) {old now worker : Worker L} {j : Nat}
    (hold : l.workers[k]? = some old) (hpanic : old.isPanicked = false)
    (hj : (l.workers.set k now)[j]? = some worker) (hworker : worker.isPanicked = false) :
    ∀ call ∈ panicked, call.2 ≠ j := by
  rcases place_set hj with ⟨rfl, -⟩ | ⟨-, hother⟩
  · exact h.alive k old hold hpanic
  · exact h.alive j worker hother hworker

theorem Loses.returns_set (h : Loses body panicked l) {old now : Worker L} {call : Nat × Nat}
    (hold : l.workers[k]? = some old) (hother : ∀ state, call.2 = k → old ≠ .busy call.1 state)
    (hcall : call ∈ l.calls) : call ∈ panicked ∨
      (∃ state, (l.workers.set k now)[call.2]? = some (.busy call.1 state)) ∨
      body.EndsIn call.1 call.2 .returned := by
  rcases h.returns call hcall with hlost | ⟨state, hstate⟩ | hreturned
  · exact .inl hlost
  · have hk : k ≠ call.2 := by
      rintro rfl
      exact hother state rfl (Option.some.inj (hold.symm.trans hstate))
    refine .inr (.inl ⟨state, ?_⟩)
    rw [List.getElem?_set_ne hk]
    exact hstate
  · exact .inr (.inr hreturned)

theorem busy_ne {call : Nat × Nat} (hne : call ≠ (index, k)) :
    ∀ state', call.2 = k → Worker.busy index state ≠ .busy call.1 state' :=
  fun _ hk hsame => hne (Prod.ext (Worker.busy.inj hsame).1.symm hk)

theorem Loses.replace (h : Loses body panicked l) {now : Worker L} (next : Nat)
    (hidle : l.workers[k]? = some .idle) (hbusy : ∀ index state, now ≠ .busy index state)
    (hpanic : now.isPanicked = false) :
    Loses body panicked { l with next := next, workers := l.workers.set k now } := by
  refine ⟨?_, h.nodup, h.called, ?_, h.last, ?_, h.panics, ?_⟩
  · rw [countP_set _ hidle (hpanic.trans (isPanicked_idle).symm)]
    exact h.count
  · exact fun j worker hj hworker => h.alive_set hidle isPanicked_idle hj hworker
  · exact fun j index state hj => h.busy j index state (busy_of_set hbusy hj)
  · exact fun call hcall => h.returns_set hidle (by simp) hcall

theorem Loses.call (h : Loses body panicked l) (hands : HandsOut len n taken l)
    (hold : l.workers[k]? = some (.holding index)) : Loses body panicked
      { l with
        workers := l.workers.set k (.busy index (body.enter index k))
        calls := (index, k) :: l.calls } := by
  have hlast := hands.held_last k index hold
  have hk : k < l.workers.length := (List.getElem?_eq_some_iff.mp hold).1
  refine ⟨?_, h.nodup, fun call hcall => .tail _ (h.called call hcall), ?_, ?_, ?_, h.panics, ?_⟩
  · rw [countP_set _ hold (isPanicked_busy _ _)]
    exact h.count
  · exact fun j worker hj hworker => h.alive_set hold (isPanicked_holding _) hj hworker
  · -- None of the worker's calls so far has panicked, or it would not make this one.
    refine List.pairwise_cons.mpr ⟨fun earlier _ hsame hlost => ?_, h.last⟩
    exact h.alive k _ hold (isPanicked_holding _) earlier hlost hsame.symm
  · intro j index' state hj
    rcases place_set hj with ⟨rfl, hnow⟩ | ⟨hne, hother⟩
    · obtain ⟨rfl, rfl⟩ := Worker.busy.inj hnow
      refine ⟨.head _, fun call hcall hworker => ?_, .enter⟩
      rcases List.mem_cons.mp hcall with rfl | hcall
      · exact Nat.le_refl _
      · exact Nat.le_of_lt (hlast call hcall hworker)
    · obtain ⟨hmem, hmax, hreach⟩ := h.busy j index' state hother
      refine ⟨.tail _ hmem, fun call hcall hworker => ?_, hreach⟩
      rcases List.mem_cons.mp hcall with rfl | hcall
      · exact absurd hworker hne
      · exact hmax call hcall hworker
  · intro call hcall
    rcases List.mem_cons.mp hcall with rfl | hcall
    · exact .inr (.inl ⟨_, List.getElem?_set_self hk⟩)
    · exact h.returns_set hold (by simp) hcall

theorem Loses.busy_last (h : Loses body panicked l) (hands : HandsOut len n taken l)
    (hbusy : l.workers[k]? = some (.busy index state)) :
    l.calls.Pairwise fun later earlier => later.2 = earlier.2 → earlier ≠ (index, k) := by
  refine hands.increasing.imp_of_mem ?_
  rintro later earlier hlater - hlt hsame rfl
  have hle := (h.busy k index state hbusy).2.1 later hlater hsame
  exact absurd (hlt hsame) (Nat.not_lt.mpr hle)

theorem Loses.proceed (h : Loses body panicked l) {state' : L} {store : S}
    (hbusy : l.workers[k]? = some (.busy index state))
    (hstep : body.step state l.store = some (store, .running state')) :
    Loses body panicked
      { l with store := store, workers := l.workers.set k (.busy index state') } := by
  have hk : k < l.workers.length := (List.getElem?_eq_some_iff.mp hbusy).1
  obtain ⟨hmem, hmax, hreach⟩ := h.busy k index state hbusy
  refine ⟨?_, h.nodup, h.called, ?_, h.last, ?_, h.panics, ?_⟩
  · rw [countP_set _ hbusy (isPanicked_busy _ _)]
    exact h.count
  · exact fun j worker hj hworker => h.alive_set hbusy (isPanicked_busy _ _) hj hworker
  · intro j index' state'' hj
    rcases place_set hj with ⟨rfl, hnow⟩ | ⟨-, hother⟩
    · obtain ⟨rfl, rfl⟩ := Worker.busy.inj hnow
      exact ⟨hmem, hmax, hreach.step hstep⟩
    · exact h.busy j index' state'' hother
  · intro call hcall
    by_cases hsame : call = (index, k)
    · subst hsame
      exact .inr (.inl ⟨state', List.getElem?_set_self hk⟩)
    · exact h.returns_set hbusy (busy_ne hsame) hcall

theorem Loses.return (h : Loses body panicked l) {store : S}
    (hbusy : l.workers[k]? = some (.busy index state))
    (hstep : body.step state l.store = some (store, .returned)) :
    Loses body panicked { l with store := store, workers := l.workers.set k .idle } := by
  obtain ⟨-, -, hreach⟩ := h.busy k index state hbusy
  refine ⟨?_, h.nodup, h.called, ?_, h.last, ?_, h.panics, ?_⟩
  · rw [countP_set _ hbusy isPanicked_idle]
    exact h.count
  · exact fun j worker hj hworker => h.alive_set hbusy (isPanicked_busy _ _) hj hworker
  · exact fun j index' state' hj => h.busy j index' state' (busy_of_set (by simp) hj)
  · intro call hcall
    by_cases hsame : call = (index, k)
    · subst hsame
      exact .inr (.inr ⟨state, _, store, hreach, hstep⟩)
    · exact h.returns_set hbusy (busy_ne hsame) hcall

theorem Loses.panic (h : Loses body panicked l) (hands : HandsOut len n taken l) {store : S}
    {message : String} (hbusy : l.workers[k]? = some (.busy index state))
    (hstep : body.step state l.store = some (store, .panicked message)) :
    Loses body (panicked ++ [(index, k)])
      { l with store := store, workers := l.workers.set k (.panicked message) } := by
  obtain ⟨hmem, -, hreach⟩ := h.busy k index state hbusy
  have halive := h.alive k _ hbusy (isPanicked_busy _ _)
  refine ⟨?_, ?_, ?_, ?_, ?_, ?_, ?_, ?_⟩
  · have hcount : (l.workers.set k (.panicked message)).countP (·.isPanicked) =
        l.workers.countP (·.isPanicked) + 1 :=
      countP_set_add Worker.isPanicked (.panicked message) hbusy
    rw [hcount, List.length_append, List.length_singleton, h.count]
  · have hnew : (index, k) ∉ panicked := fun hlost => halive _ hlost rfl
    refine List.nodup_append.mpr ⟨h.nodup, List.pairwise_singleton _ _, ?_⟩
    rintro call hcall other hother rfl
    exact hnew (List.mem_singleton.mp hother ▸ hcall)
  · intro call hcall
    rcases List.mem_append.mp hcall with hcall | hcall
    · exact h.called call hcall
    · rw [List.mem_singleton.mp hcall]
      exact hmem
  · intro j worker hj hworker call hcall
    rcases place_set hj with ⟨-, rfl⟩ | ⟨hne, hother⟩
    · cases hworker
    · rcases List.mem_append.mp hcall with hcall | hcall
      · exact h.alive j worker hother hworker call hcall
      · rw [List.mem_singleton.mp hcall]
        exact hne
  · -- The call that panics is its worker's last one so far.
    refine (h.last.and (h.busy_last hands hbusy)).imp fun hboth hsame hlost => ?_
    rcases List.mem_append.mp hlost with hlost | hlost
    · exact hboth.1 hsame hlost
    · exact hboth.2 hsame (List.mem_singleton.mp hlost)
  · exact fun j index' state' hj => h.busy j index' state' (busy_of_set (by simp) hj)
  · intro call hcall
    rcases List.mem_append.mp hcall with hcall | hcall
    · exact h.panics call hcall
    · rw [List.mem_singleton.mp hcall]
      exact ⟨message, state, _, store, hreach, hstep⟩
  · intro call hcall
    by_cases hsame : call = (index, k)
    · exact .inl (List.mem_append_right _ (List.mem_singleton.mpr hsame))
    · exact (h.returns_set hbusy (busy_ne hsame) hcall).imp_left (List.mem_append_left _)

end

theorem loses_step {len n taken : Nat} {body : Body S L} {panicked : List (Nat × Nat)}
    {l : Loop S L} (k : Nat) (hands : HandsOut len n taken l) (h : Loses body panicked l) :
    Loses body (panicked ++ (l.panicking? body k).toList) (step len body k l) := by
  rw [step, panicking?]
  cases hworker : l.workers[k]? with
  | none => simpa using h
  | some worker =>
    cases worker with
    | idle =>
      simp only [Option.toList_none, List.append_nil]
      split <;> exact h.replace _ hworker (by simp) rfl
    | holding index => simpa using h.call hands hworker
    | busy index state =>
      dsimp only
      cases hstep : body.step state l.store with
      | none => simpa using h
      | some result =>
        obtain ⟨store, p⟩ := result
        cases p with
        | running state' => simpa [Loop.proceed] using h.proceed hworker hstep
        | returned => simpa [Loop.proceed] using h.return hworker hstep
        | panicked message => simpa [Loop.proceed] using h.panic hands hworker hstep
    | stopped => simpa using h
    | panicked message => simpa using h

theorem loses_run {len n : Nat} {body : Body S L} (room : len + n ≤ counterLimit)
    (schedule : List Nat) : ∀ {taken : Nat} {panicked : List (Nat × Nat)} {l : Loop S L},
      HandsOut len n taken l → Loses body panicked l →
        Loses body (panicked ++ panicking len body schedule l) (run len body schedule l) := by
  induction schedule with
  | nil => intro taken panicked l _ h; simpa [panicking, run] using h
  | cons k schedule ih =>
    intro taken panicked l hands h
    obtain ⟨taken', hands'⟩ := handsOut_step body k room hands
    have hrest := ih hands' (loses_step k hands h)
    rwa [List.append_assoc] at hrest

/-! ## The loop that has ended -/

section
variable {len n taken : Nat} {body : Body S L} {panicked : List (Nat × Nat)} {l : Loop S L}

theorem isStopped_of_ended (ended : l.hasEnded = true) :
    ∀ worker ∈ l.workers, worker.isStopped = !worker.isPanicked := by
  intro worker hw
  have hend := List.all_eq_true.mp ended worker hw
  cases worker with
  | stopped => rfl
  | panicked message => rfl
  | idle => cases hend
  | holding _ => cases hend
  | busy _ _ => cases hend

theorem countP_stopped_add_panicked (ended : l.hasEnded = true) :
    l.workers.countP (·.isStopped) + l.workers.countP (·.isPanicked) = l.workers.length := by
  have hstopped : l.workers.countP (·.isStopped) = l.workers.countP (fun w => ¬ w.isPanicked) :=
    List.countP_congr fun worker hw => by simp [isStopped_of_ended ended worker hw]
  rw [hstopped, Nat.add_comm]
  exact (List.length_eq_countP_add_countP _).symm

/-- Fewer panics than workers leave one that has stopped, at the end of the indices. -/
theorem HandsOut.all_of_survivor (hands : HandsOut len n taken l) (h : Loses body panicked l)
    (ended : l.hasEnded = true) (hfew : panicked.length < n) : len ≤ taken := by
  have hcount := countP_stopped_add_panicked ended
  rw [hands.workers, ← h.count] at hcount
  exact hands.stopped (by omega)

theorem panic?_isSome_iff (h : Loses body panicked l) :
    l.panic?.isSome = true ↔ panicked ≠ [] := by
  have hpos : panicked ≠ [] ↔ 0 < l.workers.countP (·.isPanicked) := by
    rw [← h.count, List.length_pos_iff]
  rw [hpos, List.countP_pos_iff, panic?, List.findSome?_isSome_iff]
  refine exists_congr fun worker => and_congr_right fun _ => ?_
  cases worker <;> simp

/-- Where the body panics for the indices of a set, the calls that panicked are those for them. -/
theorem Loses.mem_iff (h : Loses body panicked l) (ended : l.hasEnded = true)
    {fails : Nat → Bool} (panics : body.PanicsOn fails) {call : Nat × Nat}
    (hcall : call ∈ l.calls) :
    call ∈ panicked ↔ fails call.1 = true := by
  refine ⟨fun hlost => ?_, fun hfails => ?_⟩
  · obtain ⟨message, hends⟩ := h.panics call hlost
    exact (panics call.1 call.2).1 message hends
  · rcases h.returns call hcall with hlost | ⟨state, hbusy⟩ | hreturned
    · exact hlost
    · -- No call is under way any more.
      have hend := List.all_eq_true.mp ended _ (List.mem_of_getElem? hbusy)
      cases hend
    · rw [(panics call.1 call.2).2 hreturned] at hfails
      cases hfails

theorem Loses.history_last (h : Loses body panicked l) :
    l.history.Pairwise fun earlier later => earlier.2 = later.2 → earlier ∉ panicked := by
  rw [history, List.pairwise_reverse]
  exact h.last.imp fun hlost hsame => hlost hsame.symm

theorem Loses.mem_history (h : Loses body panicked l) :
    ∀ call ∈ panicked, call ∈ l.history :=
  fun call hcall => List.mem_reverse.mpr (h.called call hcall)

theorem Loses.perm_filter (h : Loses body panicked l) (ended : l.hasEnded = true)
    (hnodup : (l.history.map Prod.fst).Nodup) {fails : Nat → Bool}
    (panics : body.PanicsOn fails) :
    panicked.Perm (l.history.filter fun call => fails call.1) := by
  have hdistinct : l.history.Nodup :=
    (List.pairwise_map.mp hnodup).imp fun hne hsame => hne (congrArg Prod.fst hsame)
  rw [List.perm_ext_iff_of_nodup h.nodup (hdistinct.filter _)]
  intro call
  rw [List.mem_filter]
  constructor
  · intro hlost
    exact ⟨h.mem_history call hlost, (h.mem_iff ended panics (h.called call hlost)).mp hlost⟩
  · rintro ⟨hcall, hfails⟩
    exact (h.mem_iff ended panics (List.mem_reverse.mp hcall)).mpr hfails

theorem calls_until_panic {calls : List (Nat × Nat)} {m : Nat}
    (hcalls : calls = (List.range m).map (·, 0)) (hmem : ∀ call ∈ panicked, call ∈ calls)
    (hlast : calls.Pairwise fun earlier later => earlier.2 = later.2 → earlier ∉ panicked)
    {call : Nat × Nat} (hcall : call ∈ panicked) : call = (m - 1, 0) ∧ 0 < m := by
  subst hcalls
  obtain ⟨i, hi, rfl⟩ := List.mem_map.mp (hmem call hcall)
  rw [List.mem_range] at hi
  have hnext : ¬ i + 1 < m := by
    intro hlt
    have hpair := List.pairwise_iff_getElem.mp hlast i (i + 1) (by simpa using hi)
      (by simpa using hlt) (Nat.lt_succ_self i)
    simp only [List.getElem_map, List.getElem_range, forall_const] at hpair
    exact hpair hcall
  refine ⟨?_, by omega⟩
  rw [show m - 1 = i by omega]

/-- One worker calls the body for the indices in order, up to and with the first that panics. -/
theorem Loses.history_of_one (h : Loses body panicked l) (hands : HandsOut len 1 taken l)
    (ended : l.hasEnded = true) :
    (panicked = [] ∧ l.history = (List.range len).map (·, 0)) ∨
      ∃ first < len, panicked = [(first, 0)] ∧ l.history = (List.range (first + 1)).map (·, 0) := by
  have hcalls : l.history = (List.range (min taken len)).map (·, 0) := by
    refine calls_of_one (hands.history_perm ended) (fun call hcall => ?_) hands.history_increasing
    exact hands.worker_lt call (List.mem_reverse.mp hcall)
  -- The worker ends with the first panic, so there is one at most.
  have hle : panicked.length ≤ 1 := by
    rw [h.count, ← hands.workers]
    exact List.countP_le_length
  by_cases hnone : panicked = []
  · have htaken : len ≤ taken := hands.all_of_survivor h ended (by rw [hnone]; exact Nat.one_pos)
    rw [Nat.min_eq_right htaken] at hcalls
    exact .inl ⟨hnone, hcalls⟩
  · obtain ⟨call, hcall⟩ := List.length_eq_one_iff.mp
      (Nat.le_antisymm hle (List.length_pos_iff.mpr hnone))
    obtain ⟨hfirst, hpos⟩ := calls_until_panic hcalls h.mem_history h.history_last
      (hcall ▸ List.mem_singleton_self call)
    refine .inr ⟨min taken len - 1, by omega, by rw [hcall, hfirst], ?_⟩
    rw [Nat.sub_add_cancel hpos]
    exact hcalls

end

end Loop

/-- A loop over indices, run under any schedule until all workers have ended, whatever calls of its
body panic: no index is called for twice, and no worker calls the body after a call of its own that
panicked. With fewer panics than workers every index is called for, and with any number of them the
indices called for are the first ones. The loop panics if and only if a call did, and the calls
that did are those for the indices that the body panics for. Where the policy keeps to the calling
thread, the calls are those for the indices in order, up to and with the first that panics, and the
loop that has no workers comes to the same calls, the same panic and the same store. -/
theorem panicking_loop_visits (p : Policy) (pool : Bool) (len : Nat) (body : Body S L) (store : S)
    (schedule : List Nat) (room : len + p.forWorkers pool len ≤ Loop.counterLimit)
    (ended : (Loop.run len body schedule
      (.start (p.forWorkers pool len) store)).hasEnded = true) :
    let l := Loop.run len body schedule (.start (p.forWorkers pool len) store)
    let panicked := Loop.panicking len body schedule (.start (p.forWorkers pool len) store)
    (l.history.map Prod.fst).Nodup ∧
      (l.history.Pairwise fun earlier later => earlier.2 = later.2 → earlier ∉ panicked) ∧
      (panicked.length < p.forWorkers pool len →
        (l.history.map Prod.fst).Perm (List.range len)) ∧
      (∃ m ≤ len, (l.history.map Prod.fst).Perm (List.range m)) ∧
      (l.panic?.isSome = true ↔ panicked ≠ []) ∧
      (panicked.Nodup ∧ ∀ call ∈ panicked, call ∈ l.history) ∧
      (∀ fails : Nat → Bool, body.PanicsOn fails →
        panicked.Perm (l.history.filter fun call => fails call.1)) ∧
      (p.workers = 1 ∨ len ≤ 1 ∨ pool = false →
        ((panicked = [] ∧ l.history = (List.range len).map (·, 0)) ∨
          ∃ first < len, panicked = [(first, 0)] ∧
            l.history = (List.range (first + 1)).map (·, 0)) ∧
        ∀ o, body.ComesTo len store o ↔ o = l.outline) := by
  intro l panicked
  have hstart := Loop.handsOut_start (L := L) len (p.forWorkers pool len) store
  obtain ⟨taken, hands⟩ := Loop.handsOut_run body room schedule hstart
  have h : Loop.Loses body panicked l :=
    Loop.loses_run room schedule hstart (Loop.loses_start body _ store)
  have hperm := hands.history_perm ended
  have hnodup : (l.history.map Prod.fst).Nodup := hperm.nodup_iff.mpr List.nodup_range
  refine ⟨hnodup, h.history_last, fun hfew => ?_, ⟨_, Nat.min_le_right _ _, hperm⟩,
    Loop.panic?_isSome_iff h, ⟨h.nodup, h.mem_history⟩, fun fails panics => ?_, fun hone => ?_⟩
  · rwa [Nat.min_eq_right (hands.all_of_survivor h ended hfew)] at hperm
  · exact h.perm_filter ended hnodup panics
  · have hsingle : Loop.HandsOut len 1 taken l := by
      rw [← Policy.forWorkers_one hone]
      exact hands
    exact ⟨h.history_of_one hsingle ended,
      Body.comesTo_iff_outline (Policy.forWorkers_one hone) room ended⟩

theorem recorded_panicsOn (panicAt? : Option Nat) :
    (Workload.recorded panicAt?).PanicsOn fun index => decide (panicAt? = some index) := by
  intro index worker
  -- Its calls are in no other state than the one they are entered in.
  have henter : ∀ state, (Workload.recorded panicAt?).Reaches index worker state →
      state = index := by
    intro state hreach
    cases hreach with
    | enter => rfl
    | step _ hstep =>
      simp only [Workload.recorded] at hstep
      split at hstep <;> simp at hstep
  constructor
  · rintro message ⟨state, store, store', hreach, hstep⟩
    rw [henter state hreach] at hstep
    simp only [Workload.recorded] at hstep
    split at hstep
    · next heq => exact decide_eq_true heq
    · simp at hstep
  · rintro ⟨state, store, store', hreach, hstep⟩
    rw [henter state hreach] at hstep
    simp only [Workload.recorded] at hstep
    split at hstep
    · simp at hstep
    · next hne => exact decide_eq_false hne

theorem complete_recorded (panicAt? : Option Nat) (index : Nat) :
    (Workload.recorded panicAt?).complete 1 index () =
      some ((), if panicAt? = some index then some ("failed at " ++ toString index) else none) := by
  simp only [Body.complete, Workload.recorded]
  by_cases h : panicAt? = some index
  · rw [if_pos h, if_pos h]
  · rw [if_neg h, if_neg h]

theorem recorded_ends (panicAt? : Option Nat) (indices : List Nat) :
    ∃ o, (Workload.recorded panicAt?).forEach 1 indices () = some o := by
  induction indices with
  | nil => exact ⟨_, rfl⟩
  | cons index rest ih =>
    obtain ⟨o, ho⟩ := ih
    have henter : (Workload.recorded panicAt?).enter index 0 = index := rfl
    rw [Body.forEach, henter, complete_recorded]
    by_cases hpanic : panicAt? = some index
    · rw [if_pos hpanic]
      exact ⟨_, rfl⟩
    · rw [if_neg hpanic]
      exact ⟨_, congrArg (Option.map _) ho⟩

/-- On the calling thread one step is enough for every recorded call. -/
theorem record_comesTo (len : Nat) (panicAt? : Option Nat) :
    (Workload.recorded panicAt?).ComesTo len () (Workload.record 1 len panicAt?) := by
  obtain ⟨o, ho⟩ := recorded_ends panicAt? (List.range len)
  refine ⟨1, ?_⟩
  rw [Workload.record, if_pos rfl, ho]
  rfl

/-- One of two workers panics, and the other one goes on with what is left; on the calling thread
nothing is done after the panic. -/
theorem panicking_loop_visits_survivor :
    let l := Loop.run 3 (Workload.recorded (some 1)) [0, 1, 1, 1, 0, 0, 0, 0, 0, 0]
      (.start ((Policy.parallel 2).forWorkers true 3) ())
    l.history = [(1, 1), (0, 0), (2, 0)] ∧ l.panic?.isSome = true ∧
      (l.history.map Prod.fst).Perm (List.range 3) ∧
      (l.history.filter fun call => decide (some 1 = some call.1)).Perm [(1, 1)] ∧
      (Workload.recorded (some 1)).ComesTo 3 () ⟨[(0, 0), (1, 0)], some "failed at 1", ()⟩ := by
  have hvisits := panicking_loop_visits (.parallel 2) true 3 (Workload.recorded (some 1)) ()
    [0, 1, 1, 1, 0, 0, 0, 0, 0, 0] (by decide) (by decide)
  obtain ⟨-, -, hall, -, hpanic, -, hfails, -⟩ := hvisits
  obtain ⟨-, -, -, -, -, -, -, halone⟩ := panicking_loop_visits (.parallel 0) true 3
    (Workload.recorded (some 1)) () [0, 0, 0, 0, 0, 0] (by decide) (by decide)
  exact ⟨by decide, hpanic.mpr (by decide), hall (by decide),
    (hfails _ (recorded_panicsOn (some 1))).symm.trans (.of_eq (by decide)),
    ((halone (.inl rfl)).2 _).mpr (by decide)⟩

end Aggregate
