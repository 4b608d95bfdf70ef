import Aggregate.Proofs.Lock.Alone
import Aggregate.Proofs.Lock.Disabled

/-
  Programs without a lock

  What a program over a lock shows does not tell whether the lock is enabled, as
  long as the enabled lock is never found held: each entry shows the same, but for
  the entry's own look at the lock and its description, and the run ends in the same way.
  `Run.Agrees` says this of two runs; there is one lemma for each way in which runs
  are put together, so what a guard, a given-up lock or a caught panic does to the
  body of a program is dealt with once, and `program_agrees` is the induction over
  the program. A run over a free lock never waits, so for it what the entries show is
  enough (`transcript_same`).
-/

namespace Aggregate.Lock

variable {ρ : Type}

/-- What a reading shows but for the description of a lock, which tells whether it is enabled. -/
def Reading.told : Reading ρ → Reading ρ
  | .text _ => .text ""
  | reading => reading

/-- What an entry shows but for its look at the lock. -/
def Entry.told (e : Entry ρ) : String × Reading ρ := (e.label, e.reading.told)

section
variable {enabled : Bool} {r : Run ρ enabled} {next last : Session enabled → Run ρ enabled}

theorem Run.andThen_finished (h : r.ending = .finished) :
    r.andThen next = ⟨(next r.session).session, r.entries ++ (next r.session).entries,
      (next r.session).ending⟩ := by
  rw [andThen, h]

theorem Run.andThen_unfinished (h : r.ending ≠ .finished) : r.andThen next = r := by
  rw [andThen]
  split
  · next hending => exact absurd hending h
  · rfl

theorem Run.finally_goes (h : r.ending ≠ .stalled) :
    r.finally last = ⟨(last r.session).session, r.entries ++ (last r.session).entries,
      if (last r.session).ending = .finished then r.ending else (last r.session).ending⟩ := by
  rw [Run.finally]
  split
  · next hending => exact absurd hending h
  · rfl

theorem Run.rescue_calm {label : String} (h : ¬∃ message, r.ending = .panicked message) :
    r.rescue label = r := by
  rw [rescue]
  split
  · next message hending => exact absurd ⟨message, hending⟩ h
  · rfl

end

/-- A run that never finds the lock held when it takes it or tries to, or looks whether it could. -/
structure Run.Granted (r : Run ρ true) : Prop where
  entries : ∀ e ∈ r.entries, e.reading ≠ .wouldBlock ∧ e.reading ≠ .flag false
  goes : r.ending ≠ .stalled

/-- A run with a disabled lock that shows the same, ends in the same way and holds the same by
hand. -/
structure Run.Same (r : Run ρ true) (q : Run ρ false) : Prop where
  entries : q.entries.map Entry.told = r.entries.map Entry.told
  ending : q.ending = r.ending
  manual : q.session.manual = r.session.manual

/-- The run with the disabled lock is the same unless the other one finds the lock held. -/
def Run.Agrees (r : Run ρ true) (q : Run ρ false) : Prop := r.Granted → r.Same q

namespace Run.Agrees

variable {r : Run ρ true} {q : Run ρ false} {s : Session true} {t : Session false}

theorem quiet (h : t.manual = s.manual) : (s.quiet : Run ρ true).Agrees t.quiet :=
  fun _ => ⟨rfl, rfl, h⟩

theorem observe (h : t.manual = s.manual) (label : String) {reading other : Reading ρ}
    (htold : other.told = reading.told) :
    (s.observe label reading).Agrees (t.observe label other) :=
  fun _ => ⟨by simp [Session.observe, Entry.told, htold], rfl, h⟩

theorem refused {label : String} {reading : Reading ρ}
    (hreading : reading = .wouldBlock ∨ reading = .flag false) :
    (s.observe label reading).Agrees q := by
  intro hgranted
  obtain ⟨hblock, hflag⟩ :=
    hgranted.entries ⟨label, reading, s.lock.isFree⟩ (by simp [Session.observe])
  rcases hreading with rfl | rfl
  · exact absurd rfl hblock
  · exact absurd rfl hflag

theorem andThen {next : Session true → Run ρ true} {next' : Session false → Run ρ false}
    (h : r.Agrees q)
    (hnext : ∀ (s : Session true) (t : Session false), t.manual = s.manual →
      (next s).Agrees (next' t)) : (r.andThen next).Agrees (q.andThen next') := by
  intro hgranted
  by_cases hending : r.ending = .finished
  · rw [andThen_finished hending] at hgranted ⊢
    obtain ⟨hentries, hend, hmanual⟩ := h ⟨fun e he =>
      hgranted.entries e (List.mem_append_left _ he), by simp [hending]⟩
    have hsame := hnext r.session q.session hmanual
      ⟨fun e he => hgranted.entries e (List.mem_append_right _ he), hgranted.goes⟩
    rw [andThen_finished (hend.trans hending)]
    exact ⟨by simp [hentries, hsame.entries], hsame.ending, hsame.manual⟩
  · rw [andThen_unfinished hending] at hgranted ⊢
    have hsame := h hgranted
    rwa [andThen_unfinished (hsame.ending ▸ hending)]

theorem atEnd {last : Session true → Run ρ true} {last' : Session false → Run ρ false}
    (h : r.Agrees q)
    (hlast : ∀ (s : Session true) (t : Session false), t.manual = s.manual →
      (last s).Agrees (last' t)) : (r.finally last).Agrees (q.finally last') := by
  intro hgranted
  have hgoes : r.ending ≠ .stalled := by
    intro hstalled
    have hsame : r.finally last = r := by rw [Run.finally, hstalled]
    exact hgranted.goes (by rw [hsame, hstalled])
  rw [finally_goes hgoes] at hgranted ⊢
  obtain ⟨hentries, hend, hmanual⟩ :=
    h ⟨fun e he => hgranted.entries e (List.mem_append_left _ he), hgoes⟩
  have hlastgoes : (last r.session).ending ≠ .stalled := by
    intro hstalled
    have hend := hgranted.goes
    simp [hstalled] at hend
  have hsame := hlast r.session q.session hmanual
    ⟨fun e he => hgranted.entries e (List.mem_append_right _ he), hlastgoes⟩
  rw [finally_goes (hend ▸ hgoes)]
  exact ⟨by simp [hentries, hsame.entries], by simp only [hsame.ending, hend], hsame.manual⟩

theorem rescue (h : r.Agrees q) (label : String) : (r.rescue label).Agrees (q.rescue label) := by
  intro hgranted
  by_cases hending : ∃ message, r.ending = .panicked message
  · obtain ⟨message, hending⟩ := hending
    simp only [Run.rescue, hending] at hgranted ⊢
    obtain ⟨hentries, hend, hmanual⟩ := h ⟨fun e he =>
      hgranted.entries e (List.mem_append_left _ he), by simp [hending]⟩
    simp only [hend.trans hending]
    exact ⟨by simp [hentries, Session.observe, Entry.told], rfl, hmanual⟩
  · rw [rescue_calm hending] at hgranted ⊢
    have hsame := h hgranted
    rwa [rescue_calm (hsame.ending ▸ hending)]

/-! ## Parts of programs -/

theorem acquire (h : t.manual = s.manual) : (s.acquire : Run ρ true).Agrees t.acquire := by
  rw [Session.acquire, Session.acquire, acquire?_disabled]
  cases s.lock.acquire? with
  | none => exact fun hgranted => absurd rfl hgranted.goes
  | some taken => exact quiet h

theorem settle (h : t.manual = s.manual) (label : String) (before : Bool) :
    (s.settle label before : Run ρ true).Agrees (t.settle label before) := by
  rw [Session.settle, Session.settle, h]
  split
  · exact observe rfl label rfl
  · exact quiet h

theorem perform (h : t.manual = s.manual) (label : String) (action : Action) :
    (action.perform label s : Run ρ true).Agrees (action.perform label t) := by
  cases action with
  | set =>
    rw [Action.perform, Action.perform, acquire?_disabled]
    cases s.lock.acquire? with
    | none => exact refused (.inl rfl)
    | some taken => exact observe rfl label rfl
  | test =>
    rw [Action.perform, Action.perform]
    rcases tryAcquire_cases s.lock with ⟨taken, -, htry⟩ | ⟨-, htry⟩
    · rw [htry, tryAcquire_disabled]
      exact observe (by simp) label rfl
    · rw [htry]
      exact refused (.inr rfl)
  | unset =>
    rw [Action.perform, Action.perform, h]
    split
    · exact observe rfl label rfl
    · exact observe h label rfl
  | other =>
    rw [Action.perform, Action.perform]
    cases hfree : s.lock.isFree with
    | true => exact observe h label (by cases t.lock; rfl)
    | false => exact refused (.inr rfl)
  | describe => exact observe h label rfl
  | raise message => exact fun _ => ⟨rfl, rfl, h⟩

theorem within {body : Session true → Run ρ true} {body' : Session false → Run ρ false}
    (h : t.manual = s.manual)
    (hbody : ∀ (s : Session true) (t : Session false), t.manual = s.manual →
      (body s).Agrees (body' t)) (labels : Labels) {opening other : Reading ρ}
    (htold : other.told = opening.told) :
    (within labels opening body s).Agrees (within labels other body' t) := by
  rw [Lock.within, Lock.within, h]
  exact ((observe h labels.opened htold).andThen hbody).atEnd fun _ _ h => settle h _ _

end Run.Agrees

/-! ## Programs -/

/-- A program shows the same with a disabled lock, unless it finds the enabled one held. -/
theorem program_agrees (code : Code ρ) :
    ∀ (inGuard : Bool) (s : Session true) (t : Session false), t.manual = s.manual →
      (code.run inGuard s).Agrees (code.run inGuard t) := by
  induction code with
  | done => intro inGuard s t h; exact .quiet h
  | act label action next ih =>
    intro inGuard s t h
    exact (Run.Agrees.perform h label action).andThen fun s t h => ih inGuard s t h
  | guarded labels wait body next ihbody ihnext =>
    intro inGuard s t h
    rw [Code.run, Code.run, acquire?_disabled]
    refine .andThen ?_ fun s t h => ihnext inGuard s t h
    cases s.lock.acquire? with
    | none => cases wait <;> exact .refused (by simp)
    | some taken =>
      refine .andThen (.atEnd ?_ fun s t h => .quiet h) fun s t h => .observe h _ rfl
      refine .within ?_ (fun s t h => ihbody true s t h) labels rfl
      exact h
  | unlocked labels result body next ihbody ihnext =>
    intro inGuard s t h
    rw [Code.run, Code.run]
    refine .andThen ?_ fun s t h => ihnext inGuard s t h
    split
    · refine .andThen (.atEnd ?_ fun s t h => .acquire h) fun s t h => .observe h _ rfl
      refine .within ?_ (fun s t h => ihbody false s t h) labels rfl
      exact h
    · exact .observe h _ rfl
  | released labels body next ihbody ihnext =>
    intro inGuard s t h
    rw [Code.run, Code.run, h]
    refine .andThen ?_ fun s t h => ihnext inGuard s t h
    split
    · refine .andThen (.atEnd (.atEnd ?_ fun s t h => .acquire h) fun s t _ => .quiet rfl)
        fun s t h => .observe h _ rfl
      exact .within rfl (fun s t h => ihbody false s t h) labels rfl
    · exact .observe h _ rfl
  | attempt label body next ihbody ihnext =>
    intro inGuard s t h
    exact ((ihbody inGuard s t h).rescue label).andThen fun s t h => ihnext inGuard s t h

/-- A program over a free lock shows the same with a disabled lock, unless one of its entries shows
that it found the enabled one held. -/
theorem transcript_same (code : Code ρ)
    (hgranted : ∀ e ∈ code.transcript true, e.reading ≠ .wouldBlock ∧ e.reading ≠ .flag false) :
    (code.transcript false).map Entry.told = (code.transcript true).map Entry.told := by
  have hgoes := (run_alone code).1.goes
  exact (program_agrees code false ⟨.new true, false⟩ ⟨.new false, false⟩ rfl
    ⟨hgranted, hgoes⟩).entries

end Aggregate.Lock
