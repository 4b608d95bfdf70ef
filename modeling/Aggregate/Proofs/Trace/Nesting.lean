import Aggregate.Proofs.Trace.Restoration

/-
  Nested scopes close, unless a reset is buried

  A program is scoped when all it does to the trace it does through its
  regions: it opens them inside one another in any order, steps its cycles and
  reads. Whether such a program closes cleanly depends on one thing only, and
  `scopes_close` says which. A reset that is opened inside a region with a frame
  (`Code.buries`) takes that frame away with all the others, so the scope of the
  region no longer finds it when it is stepped or left, and a second panic while
  the first one unwinds aborts the run. A program without such a reset runs to
  its end. Its trace is then as it was, or empty where the program opened a
  reset.

  Three situations are told apart in the induction on the program: no scope with
  a frame is innermost (`Seat.fixed` with nothing to step), the frame of the
  innermost scope lies on top (`Seat.Inside`), or it is gone
  (`Context.Stranded`).
-/

namespace Aggregate

variable {w : Width}

/-! ## Programs of scopes -/

/-- Whether the program changes the trace through its regions only, and raises and catches no
panic. -/
def Code.isScoped : Code w → Bool
  | .done => true
  | .act _ action next => (action.isReading || action.isStep) && next.isScoped
  | .within _ _ _ body next => body.isScoped && next.isScoped
  | .attempt _ _ _ => false
  | .loop _ _ _ _ _ body next => body.isScoped && next.isScoped

/-- Total size of the frames that the program has open at a time, at most. -/
def Code.room : Code w → Nat
  | .done => 0
  | .act _ _ next => next.room
  | .within _ _ region body next => max (region.size + body.room) next.room
  | .attempt _ body next => max body.room next.room
  | .loop _ _ _ _ _ body next => max body.room next.room

/-- Whether the program opens a reset, at any depth. -/
def Code.resets : Code w → Bool
  | .done => false
  | .act _ _ next => next.resets
  | .within _ _ region body next => region == .reset || body.resets || next.resets
  | .attempt _ body next => body.resets || next.resets
  | .loop _ _ _ _ _ body next => body.resets || next.resets

/-- Whether a body is wrong for a region: in a region with a frame no reset may be opened, and in
a reset none inside a region with a frame. -/
def Region.misfits (region : Region w) (buries resets : Bool) : Bool :=
  if region = .reset then buries else resets

/-- Whether the program opens a reset inside a region that has a frame. -/
def Code.buries : Code w → Bool
  | .done => false
  | .act _ _ next => next.buries
  | .within _ _ region body next => region.misfits body.buries body.resets || next.buries
  | .attempt _ body next => body.buries || next.buries
  | .loop _ _ _ _ _ body next => body.buries || next.buries

/-- Whether every part of the program is run exactly once. -/
def Code.isStraight : Code w → Bool
  | .done => true
  | .act _ _ next => next.isStraight
  | .within _ _ _ body next => body.isStraight && next.isStraight
  | .attempt _ _ _ | .loop _ _ _ _ _ _ _ => false

/-- The trace that a region leaves. -/
def Region.leaves (region : Region w) (t : Trace w) : Trace w :=
  if region = .reset then .empty else t

/-- The trace that the program leaves when it comes to its end. -/
def Code.leaves : Code w → Trace w → Trace w
  | .done, t => t
  | .act _ _ next, t => next.leaves t
  | .within _ _ region _ next, t => next.leaves (region.leaves t)
  | .attempt _ _ next, t => next.leaves t
  | .loop _ _ _ _ _ _ next, t => next.leaves t

/-- The ending of a run in which a scope missed its frame on an empty trace. -/
def Run.Collapsed (r : Run w) : Prop :=
  r.ending = .aborted ∨ ∃ depth, r.ending = .panicked (.unbalanced 0 (depth + 1))

theorem misfits_reset (buries resets : Bool) :
    (Region.reset : Region w).misfits buries resets = buries := if_pos rfl

theorem misfits_framed {region : Region w} (h : region ≠ .reset) (buries resets : Bool) :
    region.misfits buries resets = resets := if_neg h

theorem leaves_reset (t : Trace w) : Region.reset.leaves t = .empty := if_pos rfl

theorem leaves_framed {region : Region w} (h : region ≠ .reset) (t : Trace w) :
    region.leaves t = t := if_neg h

theorem leaves_used_le (region : Region w) (t : Trace w) : (region.leaves t).used ≤ t.used := by
  unfold Region.leaves
  split
  · exact Nat.zero_le _
  · exact Nat.le_refl _

theorem escaping_scoped {code : Code w} (h : code.isScoped = true) : code.escaping = [] := by
  induction code with
  | done => rfl
  | act label action next ih =>
    simp only [Code.isScoped, Bool.and_eq_true] at h
    cases action <;> simp_all [Code.escaping, Action.isReading, Action.isStep]
  | within opened closed region body next ihbody ihnext =>
    simp only [Code.isScoped, Bool.and_eq_true] at h
    simp [Code.escaping, ihbody h.1, ihnext h.2]
  | attempt label body next _ _ => cases h
  | loop round finished limit bound stride body next ihbody ihnext =>
    simp only [Code.isScoped, Bool.and_eq_true] at h
    simp [Code.escaping, ihbody h.1, ihnext h.2]

/-- Without a reset a scoped program gives back all it adds. -/
theorem tidy_scoped {code : Code w} (h : code.isScoped = true) (hr : code.resets = false) :
    ∀ room, code.room ≤ room → code.Tidy room true := by
  induction code with
  | done => intro room _; exact .done
  | act label action next ih =>
    intro room hroom
    simp only [Code.isScoped, Bool.and_eq_true, Bool.or_eq_true] at h
    have hnext := ih h.2 hr room hroom
    rcases h.1 with ha | ha
    · exact .reading ha hnext
    · exact .step ha hnext
  | within opened closed region body next ihbody ihnext =>
    intro room hroom
    simp only [Code.isScoped, Bool.and_eq_true] at h
    simp only [Code.resets, Bool.or_eq_false_iff, beq_eq_false_iff_ne] at hr
    simp only [Code.room] at hroom
    have hbody := ihbody h.1 hr.1.2 body.room (Nat.le_refl _)
    exact .within hr.1.1 (by omega) hbody (ihnext h.2 hr.2 room (by omega))
  | attempt label body next _ _ => cases h
  | loop round finished limit bound stride body next ihbody ihnext =>
    intro room hroom
    simp only [Code.isScoped, Bool.and_eq_true] at h
    simp only [Code.resets, Bool.or_eq_false_iff] at hr
    simp only [Code.room] at hroom
    exact .loop (ihbody h.1 hr.1 room (by omega)) (ihnext h.2 hr.2 room (by omega))

/-! ## Runs that come to their end -/

section
variable {seat : Seat w} {c : Context w} {r : Run w} {t : Trace w} {scopes outer : List (Scope w)}
  {code body next : Code w} {opened closed : String} {region : Region w} (reporting : Bool)

theorem Run.Keeps.finished (h : r.Keeps seat []) : r.ending = .finished := by
  rcases h.ending with hf | ⟨m, hm, -⟩
  · exact hf
  · cases hm

theorem keeps_scoped (hscoped : code.isScoped = true) (hr : code.resets = false)
    (hsteps : seat.Steps) (fits : seat.used + code.room < Trace.sizeLimit) (h : seat.Holds c) :
    (code.run reporting c).Keeps seat [] := by
  have hkeeps := tidy_run_keeps reporting (tidy_scoped hscoped hr code.room (Nat.le_refl _)) seat c
    (fun _ => hsteps) fits h
  rwa [escaping_scoped hscoped] at hkeeps

theorem keeps_action {a : Action w} (ha : (a.isReading || a.isStep) = true) (hsteps : seat.Steps)
    (fits : seat.used < Trace.sizeLimit) (h : seat.Holds c) (label : String) :
    ((a.perform reporting c).run label).Keeps seat [] := by
  rcases Bool.or_eq_true_iff.mp ha with ha | ha
  · exact keeps_reading ha h label
  · exact keeps_step ha h hsteps fits label

theorem enter_reset (reporting : Bool) (c : Context w) :
    c.enter reporting .reset =
      ⟨{ c with trace := .empty, scopes := .reset :: c.scopes }, .ok ()⟩ := rfl

theorem steps_reset (t : Trace w) (scopes : List (Scope w)) :
    (Seat.fixed t (.reset :: scopes)).Steps := by simp [Seat.Steps]

theorem Run.Keeps.leave_reset (h : r.Keeps (.fixed t (.reset :: outer)) []) (label : String) :
    (r.leave label).Keeps (.fixed .empty outer) [] := by
  have hleave := Context.leave_reset h.holds.2 rfl
  simp only [Run.leave, h.finished, Run.andThen, hleave]
  exact ⟨⟨rfl, rfl⟩, .inl rfl⟩

theorem keeps_framed (opened closed : String) (hregion : region ≠ .reset)
    (hscoped : body.isScoped = true) (hr : body.resets = false)
    (fits : c.trace.used + (region.size + body.room) < Trace.sizeLimit) :
    ∃ c', c.enter reporting region = ⟨c', .ok ()⟩ ∧
      (c'.visit reporting opened closed body).Keeps (.fixed c.trace c.scopes) [] := by
  obtain ⟨c', henter, inner, hinner, hsteps, hinside, hused⟩ :=
    enter_framed reporting hregion (c := c) (by omega)
  refine ⟨c', henter, ?_⟩
  have hbody := (Run.Keeps.observe hinner opened .nothing).bind fun c h =>
    keeps_scoped reporting hscoped hr hsteps (by omega) h
  exact hbody.leave hinside closed

theorem keeps_idle_loop {round finished : String} {bound stride : Word w}
    {body : Context w → Run w} (limit rounds : Nat) (hsteps : (Seat.fixed t scopes).Steps)
    (h : (Seat.fixed t scopes).Holds c) :
    (Run.iterate reporting round finished bound stride body limit rounds c).Keeps
      (.fixed t scopes) [] := by
  have hbelow : c.below bound = false := by
    unfold Context.below
    rw [counter?_of_steps hsteps h.2]
  cases limit with
  | zero => exact .observe h _ _
  | succ limit =>
    rw [Run.iterate, hbelow, if_neg (by decide)]
    exact .observe h _ _

theorem keeps_reset (opened closed : String) {t : Trace w}
    (h : ∀ c', (Seat.fixed .empty (.reset :: c.scopes)).Holds c' →
      (body.run reporting c').Keeps (.fixed t (.reset :: c.scopes)) []) :
    (Context.visit reporting opened closed body
      { c with trace := .empty, scopes := .reset :: c.scopes }).Keeps
        (.fixed .empty c.scopes) [] := by
  have hopened : ((Context.observe opened .nothing
      { c with trace := .empty, scopes := .reset :: c.scopes }).Keeps
        (.fixed .empty (.reset :: c.scopes)) []) := ⟨⟨rfl, rfl⟩, .inl rfl⟩
  exact (hopened.bind h).leave_reset closed

/-- A scoped program that buries no reset, run where there is nothing to step, comes to its end. -/
theorem closes_run (hscoped : code.isScoped = true) (hb : code.buries = false) :
    ∀ (t : Trace w) (scopes : List (Scope w)) (c : Context w), (Seat.fixed t scopes).Steps →
      t.used + code.room < Trace.sizeLimit → (Seat.fixed t scopes).Holds c →
      (code.run reporting c).Keeps (.fixed (code.leaves t) scopes) [] := by
  induction code with
  | done => intro t scopes c _ _ h; exact ⟨h, .inl rfl⟩
  | act label action next ih =>
    intro t scopes c hsteps fits h
    simp only [Code.isScoped, Bool.and_eq_true] at hscoped
    have hused : (Seat.fixed t scopes).used < Trace.sizeLimit :=
      Nat.lt_of_le_of_lt (Nat.le_add_right _ _) fits
    have haction := keeps_action reporting hscoped.1 hsteps hused h label
    exact haction.bind fun c h => ih hscoped.2 hb t scopes c hsteps fits h
  | within opened closed region body next ihbody ihnext =>
    intro t scopes c hsteps fits h
    simp only [Code.isScoped, Bool.and_eq_true] at hscoped
    simp only [Code.buries, Bool.or_eq_false_iff] at hb
    simp only [Code.room] at fits
    obtain ⟨rfl, rfl⟩ := h
    by_cases hregion : region = .reset
    · -- The body and what follows both start from the empty trace.
      subst hregion
      have hempty : (Trace.empty : Trace w).used = 0 := rfl
      rw [misfits_reset] at hb
      have hvisit := keeps_reset reporting opened closed (c := c) fun c' h' =>
        ihbody hscoped.1 hb.1 .empty _ c' (steps_reset _ _) (by omega) h'
      rw [run_within (enter_reset reporting c), Code.leaves, leaves_reset]
      exact hvisit.bind fun c' h' => ihnext hscoped.2 hb.2 .empty _ c' hsteps (by omega) h'
    · rw [misfits_framed hregion] at hb
      obtain ⟨c', henter, hvisit⟩ := keeps_framed reporting opened closed hregion hscoped.1
        hb.1 (c := c) (by omega)
      rw [run_within henter, Code.leaves, leaves_framed hregion]
      exact hvisit.bind fun c' h' => ihnext hscoped.2 hb.2 _ _ c' hsteps (by omega) h'
  | attempt label body next _ _ => cases hscoped
  | loop round finished limit bound stride body next _ ihnext =>
    intro t scopes c hsteps fits h
    simp only [Code.isScoped, Bool.and_eq_true] at hscoped
    simp only [Code.buries, Bool.or_eq_false_iff] at hb
    simp only [Code.room] at fits
    have hidle : (Run.iterate reporting round finished bound stride (body.run reporting) limit 0
        c).Keeps (.fixed t scopes) [] := keeps_idle_loop reporting limit 0 hsteps h
    exact hidle.bind fun c h => ihnext hscoped.2 hb.2 t scopes c hsteps (by omega) h

/-! ## Runs that collapse -/

/-- The innermost scope had a frame, and the trace is empty. -/
def Context.Stranded (outer : List (Scope w)) (c : Context w) : Prop :=
  c.trace = .empty ∧
    ∃ scope depth, c.scopes = scope :: outer ∧ scope.depth? = some (depth + 1)

/-- The run collapses, or comes to its end with the innermost scope stranded. -/
def Run.Strands (outer : List (Scope w)) (r : Run w) : Prop :=
  r.Collapsed ∨ (r.ending = .finished ∧ r.context.Stranded outer)

theorem Run.Collapsed.andThen (h : r.Collapsed) (next : Context w → Run w) :
    (r.andThen next).Collapsed := by
  rcases h with h | ⟨depth, h⟩
  · exact .inl (by simp [Run.andThen, h])
  · exact .inr ⟨depth, by simp [Run.andThen, h]⟩

theorem Run.Collapsed.leave (h : r.Collapsed) (label : String) : (r.leave label).Collapsed := by
  rcases h with h | ⟨depth, h⟩
  · exact .inl (by simp [Run.leave, h])
  · simp only [Run.leave, h]
    split
    · exact .inr ⟨depth, rfl⟩
    · exact .inl rfl

theorem Run.Keeps.collapses {next : Context w → Run w} (h : r.Keeps seat [])
    (hnext : ∀ c, seat.Holds c → (next c).Collapsed) : (r.andThen next).Collapsed := by
  rw [Run.andThen, h.finished]
  exact hnext _ h.holds

theorem Run.Keeps.strands {next : Context w → Run w} (h : r.Keeps seat [])
    (hnext : ∀ c, seat.Holds c → (next c).Strands outer) : (r.andThen next).Strands outer := by
  rw [Run.andThen, h.finished]
  exact hnext _ h.holds

theorem Run.Strands.andThen {next : Context w → Run w} (h : r.Strands outer)
    (hnext : ∀ c, c.Stranded outer → (next c).Strands outer) : (r.andThen next).Strands outer := by
  rcases h with h | ⟨hf, hs⟩
  · exact .inl (h.andThen next)
  · rw [Run.andThen, hf]
    exact hnext _ hs

theorem Run.Strands.leave (h : r.Strands outer) (label : String) : (r.leave label).Collapsed := by
  rcases h with h | ⟨hf, ht, scope, depth, hs, hd⟩
  · exact h.leave label
  · have hdepth : r.context.trace.depth = 0 := by rw [ht]; rfl
    have hleave := Context.leave_unbalanced hs hd (by omega)
    refine .inr ⟨depth, ?_⟩
    simp only [Run.leave, hf, Run.andThen, hleave, hdepth]

/-- A stranded cycle cannot be stepped; whatever else an action does leaves the trace empty. -/
theorem strands_action {a : Action w} (ha : (a.isReading || a.isStep) = true)
    (h : c.Stranded outer) (label : String) :
    ((a.perform reporting c).run label).Strands outer := by
  obtain ⟨ht, scope, depth, hs, hd⟩ := h
  have hkept : ∀ {r : Run w}, r.Keeps (.fixed c.trace c.scopes) [] → r.Strands outer :=
    fun h => .inr ⟨h.finished, h.holds.1.trans ht, scope, depth, h.holds.2.trans hs, hd⟩
  have hholds : (Seat.fixed c.trace c.scopes).Holds c := ⟨rfl, rfl⟩
  have hused : c.trace.used < Trace.sizeLimit := by
    rw [ht]
    exact Nat.zero_lt_succ _
  rcases Bool.or_eq_true_iff.mp ha with hread | hstep
  · exact hkept (keeps_reading hread hholds label)
  · cases scope with
    | cycle own counter =>
      have hown : own = depth + 1 := Option.some.inj hd
      have hdepth : c.trace.depth = 0 := by rw [ht]; rfl
      have hrun := step_unbalanced reporting hstep hs (by omega) label
      refine .inl (.inr ⟨depth, ?_⟩)
      rw [hrun, hdepth, hown]
    | call _ | apply _ | key _ | reset =>
      have hsteps : (Seat.fixed c.trace c.scopes).Steps := by simp [Seat.Steps, hs]
      exact hkept (keeps_step hstep hholds hsteps hused label)

/-- What a straight program of scopes does where it opens a reset that it should not: run where
there is nothing to step, if it buries the reset; run inside a region with a frame; and run after
the frame of the region is gone. -/
structure Code.Sinks (reporting : Bool) (code : Code w) : Prop where
  buried : code.buries = true → ∀ (t : Trace w) (scopes : List (Scope w)) (c : Context w),
    (Seat.fixed t scopes).Steps → t.used + code.room < Trace.sizeLimit →
      (Seat.fixed t scopes).Holds c → (code.run reporting c).Collapsed
  inside : code.resets = true → ∀ (seat : Seat w) (t : Trace w) (outer : List (Scope w))
    (c : Context w), seat.Inside t outer → seat.Steps →
      seat.used + code.room < Trace.sizeLimit → seat.Holds c → (code.run reporting c).Strands outer
  stranded : ∀ (outer : List (Scope w)) (c : Context w), c.Stranded outer →
    code.room < Trace.sizeLimit → (code.run reporting c).Strands outer

/-- The two ways that a region in a straight program can go: its scope or one inside it misses its
frame, or it is left as regions are. -/
theorem visit_region (opened closed : String) (hscoped : body.isScoped = true)
    (hbody : body.Sinks reporting)
    (fits : c.trace.used + (region.size + body.room) < Trace.sizeLimit) :
    ∃ c', c.enter reporting region = ⟨c', .ok ()⟩ ∧
      ((region.misfits body.buries body.resets = true ∧
          (c'.visit reporting opened closed body).Collapsed) ∨
        (region.misfits body.buries body.resets = false ∧
          (c'.visit reporting opened closed body).Keeps
            (.fixed (region.leaves c.trace) c.scopes) [])) := by
  have hempty : (Trace.empty : Trace w).used = 0 := rfl
  by_cases hreset : region = .reset
  · subst hreset
    refine ⟨_, enter_reset reporting c, ?_⟩
    have hopened : (Seat.fixed .empty (.reset :: c.scopes)).Holds
        { c with trace := .empty, scopes := .reset :: c.scopes } := ⟨rfl, rfl⟩
    rw [misfits_reset, leaves_reset]
    cases hb : body.buries with
    | true =>
      have hobserved : (Context.observe opened .nothing
          { c with trace := .empty, scopes := .reset :: c.scopes }).Keeps _ [] :=
        .observe hopened opened .nothing
      have hrun := hobserved.collapses fun c' h' =>
        hbody.buried hb .empty _ c' (steps_reset _ _) (by omega) h'
      exact .inl ⟨rfl, hrun.leave closed⟩
    | false =>
      refine .inr ⟨rfl, ?_⟩
      refine keeps_reset reporting opened closed (t := body.leaves .empty) fun c' h' => ?_
      exact closes_run reporting hscoped hb .empty _ c' (steps_reset _ _) (by omega) h'
  · rw [misfits_framed hreset, leaves_framed hreset]
    cases hr : body.resets with
    | true =>
      obtain ⟨c', henter, inner, hinner, hsteps, hinside, hused⟩ :=
        enter_framed reporting hreset (c := c) (by omega)
      have hobserved : (c'.observe opened .nothing).Keeps inner [] :=
        .observe hinner opened .nothing
      have hrun := hobserved.strands fun c' h' =>
        hbody.inside hr inner c.trace c.scopes c' hinside hsteps (by omega) h'
      exact ⟨c', henter, .inl ⟨rfl, hrun.leave closed⟩⟩
    | false =>
      obtain ⟨c', henter, hvisit⟩ := keeps_framed reporting opened closed hreset hscoped hr fits
      exact ⟨c', henter, .inr ⟨rfl, hvisit⟩⟩

theorem sinks_act {label : String} {action : Action w}
    (ha : (action.isReading || action.isStep) = true) (hnext : next.Sinks reporting) :
    (Code.act label action next).Sinks reporting where
  buried hb t scopes c hsteps fits h := by
    have hused : (Seat.fixed t scopes).used < Trace.sizeLimit :=
      Nat.lt_of_le_of_lt (Nat.le_add_right _ _) fits
    have haction := keeps_action reporting ha hsteps hused h label
    exact haction.collapses fun c h => hnext.buried hb t scopes c hsteps fits h
  inside hr seat t outer c hinside hsteps fits h := by
    have hused : seat.used < Trace.sizeLimit := Nat.lt_of_le_of_lt (Nat.le_add_right _ _) fits
    have haction := keeps_action reporting ha hsteps hused h label
    exact haction.strands fun c h => hnext.inside hr seat t outer c hinside hsteps fits h
  stranded outer c h fits :=
    (strands_action reporting ha h label).andThen fun c h => hnext.stranded outer c h fits

theorem sinks_within (hscoped : body.isScoped = true) (hbody : body.Sinks reporting)
    (hnext : next.Sinks reporting) :
    (Code.within opened closed region body next).Sinks reporting where
  buried hb t scopes c hsteps fits h := by
    simp only [Code.buries, Bool.or_eq_true] at hb
    simp only [Code.room] at fits
    obtain ⟨rfl, rfl⟩ := h
    obtain ⟨c', henter, hvisit⟩ := visit_region reporting opened closed hscoped hbody
      (by omega : c.trace.used + (region.size + body.room) < Trace.sizeLimit)
    have hused := leaves_used_le region c.trace
    rw [run_within henter]
    rcases hvisit with ⟨-, hlost⟩ | ⟨hfits, hkept⟩
    · exact hlost.andThen _
    · rw [hfits] at hb
      have hb := hb.resolve_left (by decide)
      exact hkept.collapses fun c' h' =>
        hnext.buried hb (region.leaves c.trace) c.scopes c' hsteps (by omega) h'
  inside hr seat t outer c hinside hsteps fits h := by
    simp only [Code.room] at fits
    have hused := h.used
    obtain ⟨c', henter, hvisit⟩ := visit_region reporting opened closed hscoped hbody
      (by omega : c.trace.used + (region.size + body.room) < Trace.sizeLimit)
    rw [run_within henter]
    rcases hvisit with ⟨-, hlost⟩ | ⟨hfits, hkept⟩
    · exact .inl (hlost.andThen _)
    · by_cases hreset : region = .reset
      -- The reset has taken the frame away, and the rest finds it gone.
      · subst hreset
        obtain ⟨value, size, scope, -, hs, hd⟩ := hinside c h
        rw [leaves_reset] at hkept
        exact hkept.strands fun c' h' =>
          hnext.stranded outer c' ⟨h'.1, scope, t.depth, h'.2.trans hs, hd⟩ (by omega)
      · rw [misfits_framed hreset] at hfits
        rw [leaves_framed hreset] at hkept
        simp only [Code.resets, hfits, beq_eq_false_iff_ne.mpr hreset, Bool.false_or] at hr
        exact (hkept.reseat fun c' h' => h.congr h'.1 h'.2).strands fun c' h' =>
          hnext.inside hr seat t outer c' hinside hsteps (by omega) h'
  stranded outer c h fits := by
    obtain ⟨ht, scope, depth, hs, hd⟩ := h
    simp only [Code.room] at fits
    have hused : c.trace.used = 0 := by rw [ht]; rfl
    obtain ⟨c', henter, hvisit⟩ := visit_region reporting opened closed hscoped hbody
      (by omega : c.trace.used + (region.size + body.room) < Trace.sizeLimit)
    have hleaves : region.leaves c.trace = .empty := by
      rw [ht]
      exact ite_self _
    rw [run_within henter]
    rcases hvisit with ⟨-, hlost⟩ | ⟨-, hkept⟩
    · exact .inl (hlost.andThen _)
    · rw [hleaves] at hkept
      exact hkept.strands fun c' h' =>
        hnext.stranded outer c' ⟨h'.1, scope, depth, h'.2.trans hs, hd⟩ (by omega)

theorem sinks_scoped (hscoped : code.isScoped = true) (hstraight : code.isStraight = true) :
    code.Sinks reporting := by
  induction code with
  | done =>
    refine ⟨fun hb => ?_, fun hr => ?_, fun outer c h _ => .inr ⟨rfl, h⟩⟩
    · cases hb
    · cases hr
  | act label action next ih =>
    simp only [Code.isScoped, Bool.and_eq_true] at hscoped
    exact sinks_act reporting hscoped.1 (ih hscoped.2 hstraight)
  | within opened closed region body next ihbody ihnext =>
    simp only [Code.isScoped, Bool.and_eq_true] at hscoped
    simp only [Code.isStraight, Bool.and_eq_true] at hstraight
    exact sinks_within reporting hscoped.1 (ihbody hscoped.1 hstraight.1)
      (ihnext hscoped.2 hstraight.2)
  | attempt label body next _ _ => cases hscoped
  | loop round finished limit bound stride body next _ _ => cases hstraight

end

/-! ## Which programs close -/

/-- A scoped program that buries no reset comes to its end on every trace that has room for its
frames, whatever regions it nests and however it steps its cycles: no scope fails when it is
opened, stepped or left. The trace is then as it was, or empty where a reset was opened. A program
that buries a reset does not come to its end, if every part of it is run: a scope misses its frame
on the empty trace and reports frames left over, or the run is aborted while that unwinds. -/
theorem scopes_close (reporting : Bool) {code : Code w} (hscoped : code.isScoped = true)
    (t : Trace w) (fits : t.used + code.room < Trace.sizeLimit) :
    (code.buries = false → (code.run reporting (.onTrace t)).ending = .finished ∧
      (code.run reporting (.onTrace t)).context.trace = code.leaves t) ∧
    (code.buries = true → code.isStraight = true →
      (code.run reporting (.onTrace t)).Collapsed) := by
  have hsteps : (Seat.fixed t []).Steps := by simp [Seat.Steps]
  constructor
  · intro hb
    have hkeeps := closes_run reporting hscoped hb t [] (.onTrace t) hsteps fits ⟨rfl, rfl⟩
    exact ⟨hkeeps.finished, hkeeps.holds.1⟩
  · intro hb hstraight
    have hsinks := sinks_scoped reporting hscoped hstraight
    exact hsinks.buried hb t [] (.onTrace t) hsteps fits ⟨rfl, rfl⟩

/-- A reset inside a call, with nothing else in either. -/
def resetInCall : Code .long :=
  .within "call+" "call" (.call 4) (.within "reset+" "reset" .reset .done .done) .done

/-- A program that only nests scopes and still fails: the call misses its frame. -/
theorem reset_in_call_fails :
    resetInCall.isScoped = true ∧
      (Trace.empty : Trace .long).used + resetInCall.room < Trace.sizeLimit ∧
      (resetInCall.run false (.onTrace .empty)).ending = .panicked (.unbalanced 0 1) :=
  ⟨by decide, by decide, by decide⟩

/-- A reset around a cycle that is stepped over a call and a key, and a second reset inside. -/
def resetOutside : Code .short :=
  .within "reset+" "reset" .reset
    (.within "cycle+" "cycle" (.cycle 127)
      (.act "advance" .advance
        (.within "call+" "call" (.call 5)
          (.within "key+" "key" (.key 0xBEEF) (.act "hash" (.hash 3) .done) .done)
          (.act "advance" .advance .done)))
      (.within "reset+" "reset" .reset .done .done)) .done

theorem scopes_close_resetOutside :
    resetOutside.isScoped = true ∧ resetOutside.buries = false ∧
      (⟨0x1234, 16, [⟨0x1234, 16⟩]⟩ : Trace .short).used + resetOutside.room < Trace.sizeLimit ∧
      (resetOutside.run true (.onTrace ⟨0x1234, 16, [⟨0x1234, 16⟩]⟩)).ending = .finished :=
  ⟨by decide, by decide, by decide,
    ((scopes_close true (by decide : resetOutside.isScoped = true) ⟨0x1234, 16, [⟨0x1234, 16⟩]⟩
      (by decide)).1 (by decide)).1⟩

end Aggregate
