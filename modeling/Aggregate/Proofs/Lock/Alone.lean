import Aggregate.Lock.Code
import Aggregate.Proofs.Lock.Exclusion

/-
  A program on one thread

  Running a program over a lock is taking the steps of one thread that is alone
  with it: `Run.Alone` says of a run that such steps lead from the session it
  begins in to the one it ends in, whatever it catches, gives up or unwinds, that
  each of its entries shows the lock on the way, and that it never stalls.
  `run_alone` is that every run of every program is of this kind, so what holds of
  threads holds along a program.
-/

namespace Aggregate.Lock

variable {ρ : Type}

/-- A thread alone with the lock, in a session and with scopes open. -/
def Session.alone (s : Session true) (spans : List Span) (phase : Phase) : System true :=
  ⟨s.lock, [⟨s.manual, spans, phase⟩]⟩

/-- Steps of the first thread lead from one system to the other. -/
def System.Leads (a b : System true) : Prop := ∃ moves : List Move, a.run (moves.map (0, ·)) = b

theorem System.Leads.refl (a : System true) : a.Leads a := ⟨[], rfl⟩

theorem System.Leads.trans {a b c : System true} (hab : a.Leads b) (hbc : b.Leads c) : a.Leads c := by
  obtain ⟨first, rfl⟩ := hab
  obtain ⟨second, rfl⟩ := hbc
  refine ⟨first ++ second, ?_⟩
  rw [List.map_append, System.run, List.foldl_append]
  rfl

theorem System.Leads.sound {a b : System true} (hab : a.Leads b) (h : Sound a) : Sound b := by
  obtain ⟨moves, rfl⟩ := hab
  exact sound_run _ h

theorem System.Leads.move {s s' : Session true} {spans spans' : List Span} {phase phase' : Phase}
    {m : Move}
    (h : Thread.move s.lock ⟨s.manual, spans, phase⟩ m =
      some (s'.lock, ⟨s'.manual, spans', phase'⟩)) :
    (s.alone spans phase).Leads (s'.alone spans' phase') := by
  refine ⟨[m], ?_⟩
  show (s.alone spans phase).step 0 m = _
  simp only [System.step, Session.alone, List.getElem?_cons_zero, h, List.set_cons_zero]

/-- The phase that a run leaves its thread in. -/
def Ending.phase : Ending → Phase
  | .finished => .running
  | .panicked _ => .unwinding
  | .stalled => .ended

/-- The run takes steps of one thread, alone with the lock: they lead from where it begins to where
it ends, and its entries show the lock on the way. -/
structure Run.Alone (a : System true) (spans : List Span) (r : Run ρ true) : Prop where
  leads : a.Leads (r.session.alone spans r.ending.phase)
  entries : ∀ e ∈ r.entries, ∃ b, a.Leads b ∧ e.free = b.lock.isFree
  goes : r.ending ≠ .stalled

namespace Run.Alone

variable {a : System true} {spans inner : List Span} {s : Session true} {r : Run ρ true}

theorem quiet (h : a.Leads (s.alone spans .running)) : (s.quiet : Run ρ true).Alone a spans :=
  ⟨h, (fun e he => by cases he), by simp [Session.quiet]⟩

theorem observe (h : a.Leads (s.alone spans .running)) (label : String) (reading : Reading ρ) :
    (s.observe label reading).Alone a spans := by
  refine ⟨h, fun e he => ⟨_, h, ?_⟩, by simp [Session.observe]⟩
  rw [List.mem_singleton.mp he]
  rfl

theorem andThen {next : Session true → Run ρ true} (h : r.Alone a spans)
    (hnext : ∀ s : Session true, a.Leads (s.alone spans .running) → (next s).Alone a spans) :
    (r.andThen next).Alone a spans := by
  rw [Run.andThen]
  split
  · next hf =>
    have hleads := h.leads
    rw [hf] at hleads
    have hn := hnext r.session hleads
    refine ⟨hn.leads, fun e he => ?_, hn.goes⟩
    rcases List.mem_append.mp he with he | he
    · exact h.entries e he
    · exact hn.entries e he
  · exact h

theorem atEnd {last : Session true → Run ρ true} (h : r.Alone a inner)
    (hlast : ∀ phase : Phase, phase ≠ .ended → a.Leads (r.session.alone inner phase) →
      (last r.session).ending = .finished ∧
        a.Leads ((last r.session).session.alone spans phase) ∧
        ∀ e ∈ (last r.session).entries, ∃ b, a.Leads b ∧ e.free = b.lock.isFree) :
    (r.finally last).Alone a spans := by
  have hphase : r.ending.phase ≠ .ended := by
    have hgoes := h.goes
    cases hr : r.ending with
    | stalled => exact absurd hr hgoes
    | finished => simp [Ending.phase]
    | panicked message => simp [Ending.phase]
  obtain ⟨hend, hleads, hentries⟩ := hlast _ hphase h.leads
  rw [Run.finally]
  split
  · next hstalled => exact absurd hstalled h.goes
  · refine ⟨?_, fun e he => ?_, ?_⟩
    · simpa only [hend, if_true] using hleads
    · rcases List.mem_append.mp he with he | he
      · exact h.entries e he
      · exact hentries e he
    · simpa only [hend, if_true] using h.goes

theorem rescue (h : r.Alone a spans) (label : String) : (r.rescue label).Alone a spans := by
  rw [Run.rescue]
  split
  · next message hp =>
    have hleads := h.leads
    rw [hp] at hleads
    have hcaught : a.Leads (r.session.alone spans .running) := hleads.trans (.move (m := .rescue) rfl)
    have ho : (r.session.observe label (.raised message) : Run ρ true).Alone a spans :=
      observe hcaught _ _
    refine ⟨ho.leads, fun e he => ?_, by simp⟩
    rcases List.mem_append.mp he with he | he
    · exact h.entries e he
    · exact ho.entries e he
  · exact h

/-! ## Single steps -/

theorem perform (h : a.Leads (s.alone spans .running)) (label : String) (action : Action) :
    (action.perform label s : Run ρ true).Alone a spans := by
  cases action with
  | set =>
    rw [Action.perform]
    cases htaken : s.lock.acquire? with
    | none => exact observe h _ _
    | some taken =>
      refine observe (h.trans (.move (m := .set) ?_)) _ _
      simp [Thread.move, Phase.allows, Thread.act, htaken]
  | test =>
    rw [Action.perform]
    rcases tryAcquire_cases s.lock with ⟨taken, -, htry⟩ | ⟨-, htry⟩
    · rw [htry]
      refine observe (h.trans (.move (m := .test) ?_)) _ _
      simp [Thread.move, Phase.allows, Thread.act, htry]
    · rw [htry]
      refine observe (h.trans ?_) _ _
      rw [Bool.or_false]
      exact .refl _
  | unset =>
    rw [Action.perform]
    split
    · next hm =>
      refine observe (h.trans (.move (m := .unset) ?_)) _ _
      simp [Thread.move, Phase.allows, Thread.act, hm]
    · exact observe h _ _
  | other => exact observe h _ _
  | describe => exact observe h _ _
  | raise message =>
    refine ⟨h.trans (.move (m := .raise) rfl), (fun e he => by cases he), ?_⟩
    simp [Action.perform]

end Run.Alone

/-! ## Scopes -/

section
variable {a : System true} {spans : List Span} {s : Session true}

theorem alone_nested {phase : Phase} (h : Sound (s.alone spans phase)) : Nested s.manual spans :=
  h.nested ⟨s.manual, spans, phase⟩ (List.mem_singleton_self _)

/-- Alone with it, a thread can take the lock unless it holds it. -/
theorem alone_acquire {phase : Phase} (h : Sound (s.alone spans phase))
    (hout : isHeld s.manual spans = false) : s.lock.acquire? = some (.real true) := by
  have hfree : s.lock.isFree = true := by
    refine h.admits.isFree_iff.mpr fun t ht => ?_
    rw [List.mem_singleton.mp ht]
    exact hout
  cases hlock : s.lock with
  | real held =>
    rw [hlock] at hfree
    cases held with
    | true => cases hfree
    | false => rfl

theorem settle_leads {phase : Phase} (hphase : phase ≠ .ended)
    (h : a.Leads (s.alone spans phase)) (label : String) (before : Bool) :
    (s.settle label before : Run ρ true).ending = .finished ∧
      a.Leads ((s.settle label before : Run ρ true).session.alone spans phase) ∧
      ∀ e ∈ (s.settle label before : Run ρ true).entries,
        ∃ b, a.Leads b ∧ e.free = b.lock.isFree := by
  rw [Session.settle]
  split
  · next hm =>
    have hleads : a.Leads ((⟨s.lock.release, false⟩ : Session true).alone spans phase) := by
      refine h.trans (.move (m := .unset) ?_)
      simp only [Bool.and_eq_true] at hm
      cases phase with
      | running => simp [Thread.move, Phase.allows, Thread.act, hm.2]
      | unwinding => simp [Thread.move, Phase.allows, Thread.act, hm.2]
      | ended => exact absurd rfl hphase
    refine ⟨rfl, hleads, fun e he => ⟨_, hleads, ?_⟩⟩
    rw [List.mem_singleton.mp he]
    rfl
  · exact ⟨rfl, h, fun e he => by cases he⟩

theorem settle_manual (label : String) (s : Session true) :
    (s.settle label false : Run ρ true).session.manual = false := by
  rw [Session.settle]
  cases hm : s.manual <;> simp [Session.observe, Session.quiet, hm]

theorem within_alone {body : Session true → Run ρ true} (h : a.Leads (s.alone spans .running))
    (hbody : ∀ s : Session true, a.Leads (s.alone spans .running) → (body s).Alone a spans)
    (labels : Labels) (opening : Reading ρ) : (within labels opening body s).Alone a spans :=
  ((Run.Alone.observe h _ _).andThen hbody).atEnd fun _ hphase hleads =>
    settle_leads hphase hleads _ _

theorem within_manual {body : Session true → Run ρ true} (hm : s.manual = false)
    {labels : Labels} {opening : Reading ρ}
    (hgoes : (within labels opening body s).ending ≠ .stalled) :
    (within labels opening body s).session.manual = false := by
  rw [within, Run.finally] at hgoes ⊢
  split
  · next hstalled => rw [hstalled] at hgoes; exact absurd hstalled hgoes
  · rw [hm]
    exact settle_manual _ _

/-- What is held by a guard is not held by hand. -/
theorem Nested.manual_false {byHand : Bool} (h : Nested byHand spans)
    (hhead : spans.head? = some .guard) : byHand = false := by
  cases spans with
  | nil => cases hhead
  | cons span outer =>
    cases hhead
    exact (isHeld_of_byHand h.1).1

theorem finally_acquire {r : Run ρ true} {taken : Lock true}
    (htaken : r.session.lock.acquire? = some taken) (hmanual : r.session.manual = false) :
    r.finally Session.acquire = r.finally fun _ => Session.quiet ⟨taken, false⟩ := by
  rcases r with ⟨⟨lock, manual⟩, entries, ending⟩
  cases hmanual
  cases ending <;> simp [Run.finally, Session.acquire, Session.quiet, htaken]

theorem finally_byHand {r : Run ρ true} {taken : Lock true}
    (htaken : r.session.lock.acquire? = some taken) :
    (r.finally Session.acquire).finally (fun s => ({ s with manual := true } : Session true).quiet) =
      r.finally fun _ => Session.quiet ⟨taken, true⟩ := by
  rcases r with ⟨session, entries, ending⟩
  cases ending <;> simp [Run.finally, Session.acquire, Session.quiet, htaken]

theorem guard_alone {body : Session true → Run ρ true} {taken : Lock true}
    (h : a.Leads (s.alone spans .running)) (htaken : s.lock.acquire? = some taken)
    (hbody : ∀ s : Session true, a.Leads (s.alone (.guard :: spans) .running) →
      (body s).Alone a (.guard :: spans)) (labels : Labels) (opening : Reading ρ) :
    ((within labels opening body { s with lock := taken }).finally fun s => s.release.quiet).Alone
      a spans := by
  have hopen : a.Leads
      (({ s with lock := taken } : Session true).alone (.guard :: spans) .running) := by
    refine h.trans (.move (m := .guard) ?_)
    simp [Thread.move, Phase.allows, Thread.act, htaken]
  refine (within_alone hopen hbody labels opening).atEnd fun phase hphase hleads => ?_
  refine ⟨rfl, hleads.trans (.move (m := .leave) ?_), fun e he => by cases he⟩
  cases phase with
  | running => rfl
  | unwinding => rfl
  | ended => exact absurd rfl hphase

/-- A body for which the lock is given up. When it is over the lock is free, and taken again
without waiting. -/
theorem gap_alone {body : Session true → Run ρ true} (hsound : Sound a)
    (h : a.Leads (s.alone spans .running)) (hheld : isHeld s.manual spans = true)
    (hbody : ∀ t : Session true, a.Leads (t.alone (.gap s.manual :: spans) .running) →
      (body t).Alone a (.gap s.manual :: spans)) (labels : Labels) (opening : Reading ρ) :
    let r := within labels opening body ⟨s.lock.release, false⟩
    r.session.lock.acquire? = some (.real true) ∧ r.session.manual = false ∧
      (r.finally fun _ => Session.quiet ⟨.real true, s.manual⟩).Alone a spans := by
  intro r
  have hopen : a.Leads ((⟨s.lock.release, false⟩ : Session true).alone
      (.gap s.manual :: spans) .running) := by
    refine h.trans (.move (m := .giveUp) ?_)
    simp [Thread.move, Phase.allows, Thread.act, Thread.giveUp, Thread.holds, hheld]
  have hr : r.Alone a (.gap s.manual :: spans) := within_alone hopen hbody labels opening
  have hmanual : r.session.manual = false := within_manual rfl hr.goes
  have htaken : r.session.lock.acquire? = some (.real true) := by
    refine alone_acquire (hr.leads.sound hsound) ?_
    rw [isHeld_gap]
    exact hmanual
  refine ⟨htaken, hmanual, hr.atEnd fun phase hphase hleads => ?_⟩
  refine ⟨rfl, hleads.trans (.move (m := .leave) ?_), fun e he => by cases he⟩
  cases phase with
  | running => simp [Thread.move, Phase.allows, Thread.act, Thread.leave, htaken, Session.quiet]
  | unwinding => simp [Thread.move, Phase.allows, Thread.act, Thread.leave, htaken, Session.quiet]
  | ended => exact absurd rfl hphase

end

/-! ## Programs -/

/-- Running a program takes steps of one thread. In the body of a guard its scope is the innermost
one. -/
theorem code_alone {a : System true} (hsound : Sound a) (code : Code ρ) :
    ∀ (inGuard : Bool) (spans : List Span) (s : Session true),
      (inGuard = true → spans.head? = some .guard) → a.Leads (s.alone spans .running) →
        (code.run inGuard s).Alone a spans := by
  induction code with
  | done => intro inGuard spans s _ h; exact .quiet h
  | act label action next ih =>
    intro inGuard spans s hguard h
    exact (Run.Alone.perform h label action).andThen fun s h => ih inGuard spans s hguard h
  | guarded labels wait body next ihbody ihnext =>
    intro inGuard spans s hguard h
    rw [Code.run]
    refine .andThen ?_ fun s h => ihnext inGuard spans s hguard h
    split
    · exact .observe h _ _
    · next taken htaken =>
      refine .andThen (guard_alone h htaken (fun s h => ?_) labels _) fun s h => .observe h _ _
      exact ihbody true _ s (fun _ => rfl) h
  | unlocked labels result body next ihbody ihnext =>
    intro inGuard spans s hguard h
    rw [Code.run]
    refine .andThen ?_ fun s h => ihnext inGuard spans s hguard h
    split
    · next hin =>
      refine .andThen ?_ fun s h => .observe h _ _
      -- The guard holds the lock, so nothing is held by hand.
      have hhead := hguard hin
      have hheld : isHeld s.manual spans = true := by simp [isHeld, hhead]
      have hm : s.manual = false := (alone_nested (h.sound hsound)).manual_false hhead
      obtain ⟨htaken, hmanual, halone⟩ := gap_alone hsound h hheld
        (fun s h => ihbody false _ s (by simp) h) labels .nothing
      have hrelease : s.release = ⟨s.lock.release, false⟩ := by rw [← hm]; rfl
      rw [hrelease, finally_acquire htaken hmanual]
      rwa [hm] at halone
    · exact .observe h _ _
  | released labels body next ihbody ihnext =>
    intro inGuard spans s hguard h
    rw [Code.run]
    refine .andThen ?_ fun s h => ihnext inGuard spans s hguard h
    split
    · next hm =>
      refine .andThen ?_ fun s h => .observe h _ _
      obtain ⟨htaken, -, halone⟩ := gap_alone hsound h (by rw [hm]; rfl)
        (fun s h => ihbody false _ s (by simp) h) labels (.text (describe "UnlockGuard" true))
      rw [finally_byHand htaken]
      rwa [hm] at halone
    · exact .observe h _ _
  | attempt label body next ihbody ihnext =>
    intro inGuard spans s hguard h
    exact ((ihbody inGuard spans s hguard h).rescue label).andThen fun s h =>
      ihnext inGuard spans s hguard h

/-- Every program over a free lock takes steps of one thread: its entries show the lock on the way,
it never waits for the lock, and it leaves the lock free unless it still holds it by hand. -/
theorem run_alone (code : Code ρ) :
    let r := code.run false (⟨.new true, false⟩ : Session true)
    r.Alone (System.start true 1) [] ∧ (r.session.lock = .new true ↔ r.session.manual = false) := by
  intro r
  have hr : r.Alone (System.start true 1) [] :=
    code_alone (sound_start 1) code false [] ⟨.new true, false⟩ (by simp) (.refl _)
  have hfree : r.session.lock.isFree = true ↔ _ :=
    (hr.leads.sound (sound_start 1)).admits.isFree_iff
  refine ⟨hr, ?_⟩
  rw [eq_new_iff, hfree]
  simp [Session.alone, Thread.holds]

end Aggregate.Lock
