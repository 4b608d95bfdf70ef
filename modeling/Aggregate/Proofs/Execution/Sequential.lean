import Aggregate.Proofs.Execution.Turns

/-
  One worker and the calling thread

  A single worker does what the calling thread does by itself. From where it stands
  in the loop, in a call or between two of them, it still has to do what the calling
  thread has to do from there on (`toCome`), and no step of it changes what that
  comes to (`settles_step`). So a single worker that has ended has come to what the
  loop on the calling thread comes to (`settles_run`). The other way round, a loop
  on the calling thread that ends says which steps of a worker end with the same
  (`run_forEach`). `comesTo_iff_run` has both.
-/

namespace Aggregate

variable {S L : Type}

/-- An outline with the calls made before it. -/
def Outline.after (calls : List (Nat × Nat)) (o : Outline S) : Outline S :=
  { o with calls := calls ++ o.calls }

theorem Outline.after_after (calls more : List (Nat × Nat)) (o : Outline S) :
    (o.after more).after calls = o.after (calls ++ more) := by
  simp [after, List.append_assoc]

/-! ## More steps than it takes -/

namespace Body

theorem complete_mono {body : Body S L} {steps more : Nat} (hle : steps ≤ more) :
    ∀ {state : L} {store : S} {r : S × Option String},
      body.complete steps state store = some r → body.complete more state store = some r := by
  induction steps generalizing more with
  | zero => intro state store r h; cases h
  | succ steps ih =>
    intro state store r h
    obtain ⟨more, rfl⟩ := Nat.exists_eq_add_one_of_ne_zero (Nat.ne_zero_of_lt hle)
    rw [complete] at h ⊢
    split at h
    · exact ih (Nat.le_of_succ_le_succ hle) h
    · exact h
    · exact h
    · cases h

theorem forEach_mono {body : Body S L} {steps more : Nat} (hle : steps ≤ more)
    (indices : List Nat) : ∀ {store : S} {o : Outline S},
      body.forEach steps indices store = some o → body.forEach more indices store = some o := by
  induction indices with
  | nil => intro store o h; exact h
  | cons index rest ih =>
    intro store o h
    rw [forEach] at h ⊢
    split at h
    · next hcomplete =>
      obtain ⟨later, hrest, rfl⟩ := Option.map_eq_some_iff.mp h
      rw [complete_mono hle hcomplete]
      simp only [ih hrest, Option.map_some]
    · next hcomplete =>
      rw [complete_mono hle hcomplete]
      exact h
    · cases h

end Body

namespace Loop

theorem run_cons (len : Nat) (body : Body S L) (k : Nat) (schedule : List Nat) (l : Loop S L) :
    run len body (k :: schedule) l = run len body schedule (step len body k l) := rfl

theorem run_append (len : Nat) (body : Body S L) (schedule more : List Nat) (l : Loop S L) :
    run len body (schedule ++ more) l = run len body more (run len body schedule l) :=
  List.foldl_append

/-! ## What a single worker comes to -/

/-- What the calling thread comes to from where a worker stands, with so many steps for a call. -/
def toCome (len : Nat) (body : Body S L) (steps next : Nat) (store : S) :
    Worker L → Option (Outline S)
  | .idle => body.forEach steps (List.range' next (len - next)) store
  | .holding index => body.forEach steps (index :: List.range' next (len - next)) store
  | .busy _ state =>
    match body.complete steps state store with
    | some (store, none) => body.forEach steps (List.range' next (len - next)) store
    | some (store, some message) => some ⟨[], some message, store⟩
    | none => none
  | .stopped => some ⟨[], none, store⟩
  | .panicked message => some ⟨[], some message, store⟩

/-- From where its only worker stands, a loop comes to this on the calling thread. -/
def Settles (len : Nat) (body : Body S L) (l : Loop S L) (o : Outline S) : Prop :=
  ∃ worker, l.workers = [worker] ∧ ∃ steps rest,
    toCome len body steps l.next l.store worker = some rest ∧ rest.after l.history = o

section
variable {len steps next index k : Nat} {body : Body S L} {state : L} {store : S}
  {calls : List (Nat × Nat)} {worker : Worker L} {o : Outline S}

theorem settles_iff : Settles len body ⟨next, [worker], store, calls⟩ o ↔ ∃ steps rest,
    toCome len body steps next store worker = some rest ∧ rest.after calls.reverse = o := by
  constructor
  · rintro ⟨_, hw, h⟩
    cases hw
    exact h
  · exact fun h => ⟨worker, rfl, h⟩

theorem toCome_take (hlt : next < len) : toCome len body steps next store .idle =
    toCome len body steps (next + 1) store (.holding next) := by
  have hrange : List.range' next (len - next) =
      next :: List.range' (next + 1) (len - (next + 1)) := by
    rw [show len - next = len - (next + 1) + 1 by omega, List.range'_succ]
  rw [toCome, toCome, hrange]

theorem toCome_stop (hge : len ≤ next) (next' : Nat) : toCome len body steps next store .idle =
    toCome len body steps next' store .stopped := by
  rw [toCome, Nat.sub_eq_zero_of_le hge]
  rfl

theorem toCome_call : toCome len body steps next store (.holding index) =
    (toCome len body steps next store (.busy index (body.enter index 0))).map
      (·.after [(index, 0)]) := by
  simp only [toCome, Body.forEach]
  rcases body.complete steps (body.enter index 0) store with _ | ⟨store, _ | message⟩ <;> rfl

theorem toCome_body {store' : S} {p : Progress L}
    (hstep : body.step state store = some (store', p))
    (h : toCome len body steps next store' (.after index p) = some o) :
    toCome len body (steps + 1) next store (.busy index state) = some o := by
  have hmore := Nat.le_succ steps
  cases p with
  | running state' =>
    simp only [Worker.after, toCome] at h
    simp only [toCome, Body.complete, hstep]
    split at h
    · exact Body.forEach_mono hmore _ h
    · exact h
    · cases h
  | returned =>
    simp only [toCome, Body.complete, hstep]
    exact Body.forEach_mono hmore _ h
  | panicked message =>
    simp only [toCome, Body.complete, hstep]
    exact h

theorem settles_step (room : len < counterLimit)
    (h : Settles len body (step len body k ⟨next, [worker], store, calls⟩) o) :
    Settles len body ⟨next, [worker], store, calls⟩ o := by
  cases k with
  | succ k => exact h
  | zero =>
    rw [settles_iff]
    cases worker with
    | idle =>
      simp only [step, List.getElem?_cons_zero, List.set_cons_zero] at h
      split at h
      · next hlt =>
        rw [Nat.mod_eq_of_lt (by omega)] at h
        simp only [toCome_take hlt]
        exact settles_iff.mp h
      · next hge =>
        simp only [toCome_stop (Nat.not_lt.mp hge) ((next + 1) % counterLimit)]
        exact settles_iff.mp h
    | holding index =>
      obtain ⟨steps, rest, hrest, rfl⟩ := settles_iff.mp h
      refine ⟨steps, rest.after [(index, 0)], by rw [toCome_call, hrest]; rfl, ?_⟩
      rw [Outline.after_after, List.reverse_cons]
    | busy index state =>
      cases hstep : body.step state store with
      | none =>
        simp only [step, List.getElem?_cons_zero, hstep] at h
        exact settles_iff.mp h
      | some result =>
        obtain ⟨store', p⟩ := result
        simp only [step, List.getElem?_cons_zero, hstep] at h
        obtain ⟨steps, rest, hrest, ho⟩ := settles_iff.mp h
        exact ⟨steps + 1, rest, toCome_body hstep hrest, ho⟩
    | stopped => exact settles_iff.mp h
    | panicked message => exact settles_iff.mp h

theorem settles_ended (ended : hasEnded (⟨next, [worker], store, calls⟩ : Loop S L) = true) :
    Settles len body ⟨next, [worker], store, calls⟩
      (outline ⟨next, [worker], store, calls⟩) := by
  rw [settles_iff]
  cases worker with
  | stopped => exact ⟨0, _, rfl, by simp [Outline.after, outline, history, panic?]⟩
  | panicked message => exact ⟨0, _, rfl, by simp [Outline.after, outline, history, panic?]⟩
  | idle => cases ended
  | holding _ => cases ended
  | busy _ _ => cases ended

end

theorem step_workers_length (len : Nat) (body : Body S L) (k : Nat) (l : Loop S L) :
    (step len body k l).workers.length = l.workers.length := by
  rw [step]
  split
  · dsimp only
    split <;> exact List.length_set
  · exact List.length_set
  · split
    · exact List.length_set
    · rfl
  · rfl

/-- A single worker that has ended has come to what the calling thread comes to. -/
theorem settles_run {len : Nat} {body : Body S L} (room : len < counterLimit)
    (schedule : List Nat) : ∀ {l : Loop S L}, l.workers.length = 1 →
      (run len body schedule l).hasEnded = true →
        Settles len body l (run len body schedule l).outline := by
  induction schedule with
  | nil =>
    rintro ⟨next, workers, store, calls⟩ hone ended
    obtain ⟨worker, rfl⟩ := List.length_eq_one_iff.mp hone
    exact settles_ended ended
  | cons k schedule ih =>
    rintro ⟨next, workers, store, calls⟩ hone ended
    obtain ⟨worker, rfl⟩ := List.length_eq_one_iff.mp hone
    exact settles_step room (ih (step_workers_length ..) ended)

/-! ## What the calling thread comes to -/

variable {len steps : Nat} {body : Body S L}

theorem run_complete (len next index : Nat) (calls : List (Nat × Nat)) :
    ∀ {steps : Nat} {state : L} {store store' : S} {panic? : Option String},
      body.complete steps state store = some (store', panic?) →
        ∃ schedule, run len body schedule ⟨next, [.busy index state], store, calls⟩ =
          ⟨next, [panic?.elim .idle .panicked], store', calls⟩ := by
  intro steps
  induction steps with
  | zero => intro state store store' panic? h; cases h
  | succ steps ih =>
    intro state store store' panic? h
    rw [Body.complete] at h
    -- The first of the steps, whatever it comes to.
    have hfirst : ∀ {store₁ : S} {p : Progress L}, body.step state store = some (store₁, p) →
        step len body 0 ⟨next, [.busy index state], store, calls⟩ =
          proceed ⟨next, [.busy index state], store, calls⟩ 0 index store₁ p := by
      intro store₁ p hstep
      simp only [step, List.getElem?_cons_zero, hstep]
    split at h
    · next store₁ state₁ hstep =>
      obtain ⟨schedule, hrest⟩ := ih h
      exact ⟨0 :: schedule, by rw [run_cons, hfirst hstep]; exact hrest⟩
    · next store₁ hstep =>
      cases h
      exact ⟨[0], hfirst hstep⟩
    · next store₁ message hstep =>
      cases h
      exact ⟨[0], hfirst hstep⟩
    · cases h

/-- The worker takes one index after the other and makes the calls for them. -/
theorem run_forEach (room : len < counterLimit) (count : Nat) :
    ∀ {next : Nat} {store : S} {calls : List (Nat × Nat)} {o : Outline S}, next + count = len →
      body.forEach steps (List.range' next count) store = some o →
        ∃ schedule, let l := run len body schedule ⟨next, [.idle], store, calls⟩
          l.hasEnded = true ∧ l.outline = o.after calls.reverse := by
  induction count with
  | zero =>
    intro next store calls o hnext h
    have hge : ¬ next < len := by omega
    cases h
    refine ⟨[0], ?_⟩
    simp [run, step, hge, hasEnded, Worker.hasEnded, outline, history, panic?, Outline.after]
  | succ count ih =>
    intro next store calls o hnext h
    have hlt : next < len := by omega
    have hmod : (next + 1) % counterLimit = next + 1 := Nat.mod_eq_of_lt (by omega)
    rw [List.range'_succ, Body.forEach] at h
    -- It takes the index and calls the body for it.
    have hcall : ∀ schedule, run len body (0 :: 0 :: schedule) ⟨next, [.idle], store, calls⟩ =
        run len body schedule
          ⟨next + 1, [.busy next (body.enter next 0)], store, (next, 0) :: calls⟩ := by
      intro schedule
      simp [run, step, hlt, hmod]
    cases hcomplete : body.complete steps (body.enter next 0) store with
    | none => simp [hcomplete] at h
    | some result =>
      obtain ⟨store', panic?⟩ := result
      obtain ⟨schedule, hcompleted⟩ :=
        run_complete len (next + 1) next ((next, 0) :: calls) hcomplete
      cases panic? with
      | none =>
        simp only [hcomplete, Option.map_eq_some_iff] at h
        obtain ⟨rest, hforEach, rfl⟩ := h
        obtain ⟨more, hended, houtline⟩ := ih (by omega) hforEach
        refine ⟨0 :: 0 :: (schedule ++ more), ?_⟩
        rw [hcall, run_append, hcompleted]
        refine ⟨hended, houtline.trans ?_⟩
        simp [Outline.after]
      | some message =>
        simp only [hcomplete, Option.some.injEq] at h
        cases h
        refine ⟨0 :: 0 :: schedule, ?_⟩
        rw [hcall, hcompleted]
        simp [hasEnded, Worker.hasEnded, outline, history, panic?, Outline.after]

end Loop

/-! ## The loop on the calling thread -/

namespace Body

theorem ComesTo.unique {body : Body S L} {len : Nat} {store : S} {o o' : Outline S}
    (h : body.ComesTo len store o) (h' : body.ComesTo len store o') : o = o' := by
  obtain ⟨steps, ho⟩ := h
  obtain ⟨steps', ho'⟩ := h'
  have hmax := forEach_mono (Nat.le_max_left steps steps') _ ho
  rw [forEach_mono (Nat.le_max_right steps steps') _ ho'] at hmax
  exact (Option.some.inj hmax).symm

/-- **A loop on the calling thread comes to what a single worker comes to.** -/
theorem comesTo_iff_run {len : Nat} (body : Body S L) (store : S) (o : Outline S)
    (room : len < Loop.counterLimit) :
    body.ComesTo len store o ↔ ∃ schedule, let l := Loop.run len body schedule (.start 1 store)
      l.hasEnded = true ∧ l.outline = o := by
  have hstart : (.start 1 store : Loop S L) = ⟨0, [.idle], store, []⟩ := rfl
  rw [ComesTo, List.range_eq_range', hstart]
  constructor
  · rintro ⟨steps, h⟩
    exact Loop.run_forEach room len (Nat.zero_add len) h
  · rintro ⟨schedule, ended, rfl⟩
    obtain ⟨steps, o, ho, houtline⟩ :=
      Loop.settles_iff.mp (Loop.settles_run room schedule rfl ended)
    exact ⟨steps, ho.trans (congrArg some houtline)⟩

/-- What a single worker has come to, the loop on the calling thread comes to and nothing else. -/
theorem comesTo_iff_outline {len workers : Nat} {body : Body S L} {store : S}
    {schedule : List Nat} (hone : workers = 1) (room : len + workers ≤ Loop.counterLimit)
    (ended : (Loop.run len body schedule (.start workers store)).hasEnded = true)
    (o : Outline S) : body.ComesTo len store o ↔
      o = (Loop.run len body schedule (.start workers store)).outline := by
  subst hone
  have hcome := (comesTo_iff_run body store _ room).mpr ⟨schedule, ended, rfl⟩
  exact ⟨fun h => h.unique hcome, fun h => h ▸ hcome⟩

end Body

end Aggregate
