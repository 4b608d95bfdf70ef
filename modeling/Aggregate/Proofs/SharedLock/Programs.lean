import Aggregate.SharedLock.Program
import Aggregate.Proofs.SharedLock.Exclusion
import Aggregate.Proofs.Lock.Disabled

/-
  Programs over a reader-writer lock

  A program that keeps each guard under a name of its own is one context: after
  every step the enabled lock records the guards that the program holds
  (`program_records`). With a disabled lock it holds the same guards and shows the
  same, as long as the enabled lock never refuses it (`program_same`).
-/

namespace Aggregate

namespace Registers

variable {β : Type} {rs : Registers β} {name : String} {value : β}

theorem put_unused (value : β) (h : rs.get? name = none) :
    rs.put name value = ⟨rs.entries ++ [(name, value)]⟩ := by
  have hunused : rs.entries.any (·.1 == name) = false := by
    rw [List.any_eq_false]
    intro e he heq
    rw [get?, List.lookup_eq_none_iff] at h
    exact absurd (h e he) (by simpa using (beq_iff_eq.mp heq).symm)
  rw [put, hunused]
  rfl

theorem erase_perm (hnames : (rs.entries.map Prod.fst).Nodup) (h : rs.get? name = some value) :
    rs.entries.Perm ((name, value) :: (rs.erase name).entries) := by
  obtain ⟨before, after, hsplit, -⟩ := List.lookup_eq_some_iff.mp h
  rw [hsplit, List.map_append, List.map_cons] at hnames
  obtain ⟨-, hafter, hbefore⟩ := List.nodup_append.mp hnames
  -- No other entry has the name.
  have hkeep : ∀ part : List (String × β), (∀ e ∈ part, e.1 ≠ name) →
      part.filter (·.1 != name) = part :=
    fun part hne => List.filter_eq_self.mpr fun e he => bne_iff_ne.mpr (hne e he)
  have herase : (rs.erase name).entries = before ++ after := by
    rw [erase, hsplit, List.filter_append, hkeep before, List.filter_cons_of_neg (by simp),
      hkeep after]
    · intro e he heq
      exact (List.nodup_cons.mp hafter).1 (List.mem_map.mpr ⟨e, he, heq⟩)
    · intro e he heq
      exact hbefore name (List.mem_map.mpr ⟨e, he, heq⟩) name (List.mem_cons_self ..) rfl
  rw [hsplit, herase]
  exact List.perm_middle

end Registers

namespace SharedLock

/-- The guards that a program holds. -/
def Session.guards {enabled : Bool} (s : Session enabled) : List Access :=
  s.held.entries.map Prod.snd

/-! ## With an enabled lock -/

/-- A step that takes a guard keeps it under a name that is not in use. -/
def Step.Names (s : Session true) : Step → Prop
  | .acquire guard _ | .tryAcquire guard _ => s.held.get? guard = none
  | .drop _ | .other | .describe => True

/-- A program whose guards have names of their own. -/
def Names : List Step → Session true → Prop
  | [], _ => True
  | step :: rest, s => step.Names s ∧ Names rest (step.perform s).1

/-- The lock records the guards that the program holds. -/
structure Session.Kept (s : Session true) : Prop where
  names : (s.held.entries.map Prod.fst).Nodup
  records : Records s.lock s.guards

section
variable {s : Session true}

theorem Session.Kept.take (h : s.Kept) {guard : String} (hname : s.held.get? guard = none)
    (access : Access) (refusal : Reading) : (s.take guard access refusal).1.Kept := by
  rw [Session.take]
  cases htaken : s.lock.acquire? access with
  | none => exact h
  | some taken =>
    have hentries := Registers.put_unused access hname
    refine ⟨?_, ?_⟩
    · have hfree : guard ∉ s.held.entries.map Prod.fst := by
        rintro hmem
        obtain ⟨e, he, rfl⟩ := List.mem_map.mp hmem
        have hother := List.lookup_eq_none_iff.mp hname e he
        simp at hother
      simp only [hentries, List.map_append, List.map_cons, List.map_nil]
      exact (List.perm_append_singleton _ _).nodup_iff.mpr (List.nodup_cons.mpr ⟨hfree, h.names⟩)
    · have hperm : (s.guards ++ [access]).Perm (access :: s.guards) :=
        List.perm_append_singleton _ _
      simp only [Session.guards, hentries, List.map_append, List.map_cons, List.map_nil]
      exact (h.records.acquire htaken).perm hperm.symm

theorem Step.perform_kept {step : Step} (h : s.Kept) (hname : step.Names s) :
    (step.perform s).1.Kept := by
  cases step with
  | acquire guard access => exact h.take hname access _
  | tryAcquire guard access => exact h.take hname access _
  | drop guard =>
    rw [Step.perform]
    cases hheld : s.held.get? guard with
    | none => exact h
    | some access =>
      have hperm := Registers.erase_perm h.names hheld
      exact ⟨(List.nodup_cons.mp ((hperm.map Prod.fst).nodup_iff.mp h.names)).2,
        (h.records.perm (hperm.map Prod.snd)).release⟩
  | other => exact h
  | describe => exact h

theorem run_kept (steps : List Step) :
    ∀ {s : Session true}, s.Kept → Names steps s → ∀ r ∈ run steps s, r.2.Kept := by
  induction steps with
  | nil => intro s _ _ r hr; cases hr
  | cons step rest ih =>
    intro s h hnames r hr
    have hstep := Step.perform_kept h hnames.1
    rcases List.mem_cons.mp hr with rfl | hr
    · exact hstep
    · exact ih hstep hnames.2 r hr

end

/-- After every step of a program that begins with a free lock, the lock records the guards held:
the readers, or a writer who is alone. -/
theorem program_records {steps : List Step} (hnames : Names steps (.start true)) :
    ∀ r ∈ run steps (.start true),
      r.2.lock = .real (r.2.guards.count .shared) (r.2.guards.contains .exclusive) ∧
        (.exclusive ∈ r.2.guards → r.2.guards = [.exclusive]) := by
  intro r hr
  have hstart : (Session.start true).Kept := ⟨List.nodup_nil, records_new⟩
  have hkept := run_kept steps hstart hnames r hr
  exact ⟨hkept.records.eq_real, hkept.records.alone⟩

/-! ## With a disabled lock -/

/-- What a reading shows but for the description of a lock, which tells whether it is enabled. -/
def Reading.told : Reading → Reading
  | .text _ => .text ""
  | reading => reading

/-- A reading of a step that the lock did not refuse, nor would have refused to somebody else. -/
def Reading.Granted : Reading → Prop
  | .wouldBlock | .nothing => False
  | .admits shared exclusive => shared = true ∧ exclusive = true
  | .text _ | .flag _ => True

section
variable {s : Session true} {t : Session false}

theorem take_same (hheld : t.held = s.held) {guard : String} {access : Access} {refusal : Reading}
    (hrefusal : ¬ refusal.Granted) (hgranted : (s.take guard access refusal).2.Granted) :
    (t.take guard access refusal).1.held = (s.take guard access refusal).1.held ∧
      (t.take guard access refusal).2.told = (s.take guard access refusal).2.told := by
  rw [Session.take] at hgranted
  rw [Session.take, Session.take, acquire?_disabled, hheld]
  cases htaken : s.lock.acquire? access with
  | none =>
    rw [htaken] at hgranted
    exact absurd hgranted hrefusal
  | some taken => exact ⟨rfl, rfl⟩

theorem Step.perform_same {step : Step} (hheld : t.held = s.held)
    (hgranted : (step.perform s).2.Granted) :
    (step.perform t).1.held = (step.perform s).1.held ∧
      (step.perform t).2.told = (step.perform s).2.told := by
  cases step with
  | acquire guard access => exact take_same hheld id hgranted
  | tryAcquire guard access => exact take_same hheld id hgranted
  | drop guard =>
    rw [Step.perform, Step.perform, hheld]
    cases s.held.get? guard with
    | none => exact ⟨hheld, rfl⟩
    | some access => exact ⟨rfl, rfl⟩
  | other =>
    obtain ⟨hshared, hexclusive⟩ := hgranted
    refine ⟨hheld, ?_⟩
    rw [Step.perform, Step.perform, hshared, hexclusive, admits, admits, acquire?_disabled,
      acquire?_disabled]
    rfl
  | describe => exact ⟨hheld, rfl⟩

end

/-- A program shows the same with a disabled lock and holds the same guards, unless the enabled one
refuses it something. -/
theorem program_same (steps : List Step) :
    ∀ {s : Session true} {t : Session false}, t.held = s.held →
      (∀ r ∈ run steps s, r.1.Granted) →
        (run steps t).map (fun r => (r.1.told, r.2.held)) =
          (run steps s).map (fun r => (r.1.told, r.2.held)) := by
  induction steps with
  | nil => intro s t _ _; rfl
  | cons step rest ih =>
    intro s t hheld hgranted
    obtain ⟨hsame, htold⟩ := step.perform_same hheld (hgranted _ (List.mem_cons_self ..))
    have hrest := ih hsame fun r hr => hgranted r (List.mem_cons_of_mem _ hr)
    simp only [run, List.map_cons, hrest, hsame, htold]

end SharedLock

end Aggregate
