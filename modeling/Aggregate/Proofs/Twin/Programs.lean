import Aggregate.Twin.Program
import Aggregate.Proofs.Registers

/-
  Programs over twins of either layout

  A mirrored twin is one variable (`Step.onVariables`, `run_mirrored`), and a separate
  one a pair of variables that do not touch each other (`Step.onPairs`,
  `run_separate`, `second_kept`, `first_kept`). In both layouts a step changes the
  registers that it writes and no other one, so a clone and what it was cloned from go
  their own ways (`clone_keeps`).
-/

namespace Aggregate.Twin

variable {α : Type} {mirrors : Bool} {w : Width}

theorem readRegister_eq (store : Store α mirrors) (r : String)
    (reading : Twin α mirrors → Reading α w) :
    readRegister store r reading = store.read r .nothing reading := by
  rw [readRegister, Registers.read]
  cases store.get? r <;> rfl

theorem changeRegister_eq (store : Store α mirrors) (r : String)
    (change : Twin α mirrors → Twin α mirrors) :
    changeRegister store r change = store.change r change := by
  rw [changeRegister, Registers.change]
  cases store.get? r <;> rfl

theorem clone_eq (w : Width) [Element α] (store : Store α mirrors) (r target : String) :
    (Step.clone r target).perform w store = (store.copy r target, .nothing) := by
  rw [Step.perform, Registers.copy]
  cases store.get? r <;> rfl

theorem changeRegister_sees {γ : Type} (see : Twin α mirrors → γ)
    {change : Twin α mirrors → Twin α mirrors} (h : ∀ t, see (change t) = see t)
    (store : Store α mirrors) (r name : String) :
    ((changeRegister store r change).get? name).map see = (store.get? name).map see := by
  rw [changeRegister_eq]
  by_cases hname : name = r
  · rw [hname, Registers.get?_change_self, Option.map_map]
    exact congrArg (fun f => (store.get? r).map f) (funext h)
  · rw [Registers.get?_change_of_ne _ hname]

/-! ## Registers seen as variables, and as pairs -/

section
variable (store : Store α true) (r : String)

theorem read_mirrored {reading : Twin α true → Reading α w} {plain : α → Reading α w}
    (h : ∀ cell, reading (.mirrored cell) = plain cell) :
    readRegister store r reading = (store.map first).read r .nothing plain := by
  rw [readRegister_eq]
  exact Registers.read_map first (fun t => by cases t with | mirrored cell => exact h cell) store r

theorem change_mirrored {change : Twin α true → Twin α true} {plain : α → α}
    (h : ∀ cell, (change (.mirrored cell)).first = plain cell) :
    (changeRegister store r change).map first = (store.map first).change r plain := by
  rw [changeRegister_eq]
  exact Registers.change_map first (fun t => by cases t with | mirrored cell => exact h cell) store r

end

/-- Both values of a twin. -/
def both (t : Twin α mirrors) : α × α := (t.first, t.second)

section
variable (store : Store α false) (r : String)

theorem read_separate {reading : Twin α false → Reading α w} {plain : α × α → Reading α w}
    (h : ∀ a b, reading (.separate a b) = plain (a, b)) :
    readRegister store r reading = (store.map both).read r .nothing plain := by
  rw [readRegister_eq]
  exact Registers.read_map both (fun t => by cases t with | separate a b => exact h a b) store r

theorem change_separate {change : Twin α false → Twin α false} {plain : α × α → α × α}
    (h : ∀ a b, (change (.separate a b)).both = plain (a, b)) :
    (changeRegister store r change).map both = (store.map both).change r plain := by
  rw [changeRegister_eq]
  exact Registers.change_map both (fun t => by cases t with | separate a b => exact h a b) store r

end

variable [Element α]

theorem run_eq (w : Width) (steps : List (Step α)) :
    ∀ store : Store α mirrors, run w steps store = runSteps (Step.perform w) steps store := by
  induction steps with
  | nil => intro store; rfl
  | cons step rest ih =>
    intro store
    rw [run, runSteps, ih]

/-! ## Mirrored: one variable for each register -/

/-- A step over plain variables. Either accessor reads and writes the variable. -/
def Step.onVariables (w : Width) : Step α → Registers α → Registers α × Reading α w
  | .new r value, vars => (vars.put r value, .nothing)
  | .default r, vars => (vars.put r Element.default, .nothing)
  | .build r a _, vars => (vars.put r a, .calls 1)
  | .first r, vars | .second r, vars => (vars, vars.read r .nothing .value)
  | .alterFirst r change, vars | .alterSecond r change, vars => (vars.change r change, .nothing)
  | .setFirst r value, vars | .setSecond r value, vars =>
    (vars.change r fun _ => value, .nothing)
  | .bumpFirst r, vars | .bumpSecond r, vars => (vars.change r Element.bump, .nothing)
  | .split r _ _, vars => (vars.change r id, vars.read r .nothing fun _ => .unavailable)
  | .layout _, vars => (vars, .mirrored true)
  | .clone r target, vars => (vars.copy r target, .nothing)
  | .equal r s, vars =>
    (vars, vars.read r .nothing fun a => vars.read s .nothing fun b =>
      .equality (Element.equal a b))
  | .swap r s, vars => (vars.swap r s, .nothing)
  | .describe r, vars =>
    (vars, vars.read r .nothing fun a => .text (recordText "Twin"
      [("mirrored", boolText true), ("first", Element.text a), ("second", Element.text a)]))
  | .digest r, vars =>
    (vars, vars.read r .nothing fun a => .digest ((Element.sequenceKey [a]).digest w))

theorem perform_mirrored (step : Step α) (store : Store α true) :
    ((step.perform w store).1.map first, (step.perform w store).2) =
      step.onVariables w (store.map first) := by
  cases step with
  | new r value | default r | build r a b =>
    exact Prod.ext (Registers.put_map first store r _) rfl
  | first r | second r | describe r | digest r =>
    exact Prod.ext rfl (read_mirrored store r fun _ => rfl)
  | alterFirst r change | alterSecond r change | setFirst r value | setSecond r value | bumpFirst r
  | bumpSecond r => exact Prod.ext (change_mirrored store r fun _ => rfl) rfl
  | split r a b =>
    exact Prod.ext (change_mirrored store r fun _ => rfl) (read_mirrored store r fun _ => rfl)
  | layout r => rfl
  | clone r target =>
    rw [clone_eq]
    exact Prod.ext (Registers.copy_map first store r target) rfl
  | equal r s =>
    refine Prod.ext rfl (read_mirrored store r fun a => read_mirrored store s fun b => ?_)
    exact congrArg Reading.equality (Bool.and_true _)
  | swap r s => exact Prod.ext (Registers.swap_map first store r s) rfl

/-- With mirrored twins a program shows what it shows over plain variables. -/
theorem run_mirrored (w : Width) (steps : List (Step α)) (store : Store α true) :
    (run w steps store).map (fun e => (e.1, e.2.map first)) =
      runSteps (Step.onVariables w) steps (store.map first) := by
  rw [run_eq, runSteps_map id (Registers.map first) perform_mirrored, List.map_id]

/-! ## Separate: a pair of variables for each register -/

/-- A step over pairs of variables. Each accessor reads and writes its own one. -/
def Step.onPairs (w : Width) : Step α → Registers (α × α) → Registers (α × α) × Reading α w
  | .new r value, vars => (vars.put r (value, value), .nothing)
  | .default r, vars => (vars.put r (Element.default, Element.default), .nothing)
  | .build r a b, vars => (vars.put r (a, b), .calls 2)
  | .first r, vars => (vars, vars.read r .nothing fun p => .value p.1)
  | .second r, vars => (vars, vars.read r .nothing fun p => .value p.2)
  | .alterFirst r change, vars => (vars.change r fun p => (change p.1, p.2), .nothing)
  | .alterSecond r change, vars => (vars.change r fun p => (p.1, change p.2), .nothing)
  | .setFirst r value, vars => (vars.change r fun p => (value, p.2), .nothing)
  | .setSecond r value, vars => (vars.change r fun p => (p.1, value), .nothing)
  | .bumpFirst r, vars => (vars.change r fun p => (Element.bump p.1, p.2), .nothing)
  | .bumpSecond r, vars => (vars.change r fun p => (p.1, Element.bump p.2), .nothing)
  | .split r a b, vars =>
    (vars.change r fun _ => (a, b), vars.read r .nothing fun p => .pair p.1 p.2)
  | .layout _, vars => (vars, .mirrored false)
  | .clone r target, vars => (vars.copy r target, .nothing)
  | .equal r s, vars =>
    (vars, vars.read r .nothing fun p => vars.read s .nothing fun q =>
      .equality (Element.equal p.1 q.1 && Element.equal p.2 q.2))
  | .swap r s, vars => (vars.swap r s, .nothing)
  | .describe r, vars =>
    (vars, vars.read r .nothing fun p => .text (recordText "Twin"
      [("mirrored", boolText false), ("first", Element.text p.1), ("second", Element.text p.2)]))
  | .digest r, vars =>
    (vars, vars.read r .nothing fun p => .digest ((Element.sequenceKey [p.1, p.2]).digest w))

theorem perform_separate (step : Step α) (store : Store α false) :
    ((step.perform w store).1.map both, (step.perform w store).2) =
      step.onPairs w (store.map both) := by
  cases step with
  | new r value | default r | build r a b =>
    exact Prod.ext (Registers.put_map both store r _) rfl
  | first r | second r | describe r | digest r =>
    exact Prod.ext rfl (read_separate store r fun _ _ => rfl)
  | alterFirst r change | alterSecond r change | setFirst r value | setSecond r value | bumpFirst r
  | bumpSecond r => exact Prod.ext (change_separate store r fun _ _ => rfl) rfl
  | split r a b =>
    exact Prod.ext (change_separate store r fun _ _ => rfl) (read_separate store r fun _ _ => rfl)
  | layout r => rfl
  | clone r target =>
    rw [clone_eq]
    exact Prod.ext (Registers.copy_map both store r target) rfl
  | equal r s =>
    refine Prod.ext rfl (read_separate store r fun a b => read_separate store s fun c d => ?_)
    exact congrArg (fun q => Reading.equality (Element.equal a c && q)) (Bool.and_true _)
  | swap r s => exact Prod.ext (Registers.swap_map both store r s) rfl

/-- With separate twins a program shows what it shows over pairs of variables. -/
theorem run_separate (w : Width) (steps : List (Step α)) (store : Store α false) :
    (run w steps store).map (fun e => (e.1, e.2.map both)) =
      runSteps (Step.onPairs w) steps (store.map both) := by
  rw [run_eq, runSteps_map id (Registers.map both) perform_separate, List.map_id]

/-! ## What a step writes -/

/-- The registers that a step writes. -/
def Step.writes : Step α → List String
  | .new r _ | .default r | .build r _ _ | .alterFirst r _ | .alterSecond r _ | .setFirst r _
  | .setSecond r _ | .bumpFirst r | .bumpSecond r | .split r _ _ => [r]
  | .clone _ target => [target]
  | .swap r s => [r, s]
  | .first _ | .second _ | .layout _ | .equal _ _ | .describe _ | .digest _ => []

theorem perform_keeps (w : Width) (step : Step α) (store : Store α mirrors) {name : String}
    (h : name ∉ step.writes) : (step.perform w store).1.get? name = store.get? name := by
  cases step with
  | new r value | default r | build r a b =>
    exact Registers.get?_put_of_ne _ (by simpa [Step.writes] using h)
  | alterFirst r change | alterSecond r change | setFirst r value | setSecond r value | bumpFirst r
  | bumpSecond r | split r a b =>
    rw [Step.perform, changeRegister_eq]
    exact Registers.get?_change_of_ne _ (by simpa [Step.writes] using h)
  | clone r target =>
    rw [clone_eq]
    exact Registers.get?_copy_of_ne (by simpa [Step.writes] using h)
  | swap r s =>
    obtain ⟨hr, hs⟩ : name ≠ r ∧ name ≠ s := by simpa [Step.writes] using h
    exact Registers.get?_swap_of_ne hr hs
  | first | second | layout | equal | describe | digest => rfl

/-- As long as one of the two is not written, a clone or what it was cloned from, it holds what both
held after the step that made the clone. -/
theorem clone_keeps (w : Width) {store : Store α mirrors} {r target name : String}
    {t : Twin α mirrors} (steps : List (Step α)) (hr : store.get? r = some t)
    (hname : name ∈ [r, target]) (hwrites : ∀ step ∈ steps, name ∉ step.writes) :
    ∀ e ∈ run w (.clone r target :: steps) store, e.2.get? name = some t := by
  rw [run_eq]
  exact runSteps_copy_keeps Step.writes (fun step s _ => perform_keeps w step s)
    (congrArg Prod.fst (clone_eq w store r target)) hr hname hwrites

/-- The steps that write through the first accessor only. -/
def Step.throughFirst : Step α → Bool
  | .alterFirst _ _ | .setFirst _ _ | .bumpFirst _ => true
  | _ => false

/-- The steps that write through the second accessor only. -/
def Step.throughSecond : Step α → Bool
  | .alterSecond _ _ | .setSecond _ _ | .bumpSecond _ => true
  | _ => false

/-- In the separate layout the second cells are out of reach for the first accessor. -/
theorem second_kept (w : Width) (step : Step α) (h : step.throughFirst = true)
    (store : Store α false) (name : String) :
    ((step.perform w store).1.get? name).map second = (store.get? name).map second := by
  have hcell : ∀ (change : α → α) (t : Twin α false), (changeFirst change t).second = t.second := by
    rintro change ⟨⟩
    rfl
  cases step with
  | alterFirst r change => exact changeRegister_sees second (hcell change) store r name
  | setFirst r value => exact changeRegister_sees second (hcell _) store r name
  | bumpFirst r => exact changeRegister_sees second (hcell _) store r name
  | _ => cases h

theorem first_kept (w : Width) (step : Step α) (h : step.throughSecond = true)
    (store : Store α false) (name : String) :
    ((step.perform w store).1.get? name).map first = (store.get? name).map first := by
  have hcell : ∀ (change : α → α) (t : Twin α false), (changeSecond change t).first = t.first := by
    rintro change ⟨⟩
    rfl
  cases step with
  | alterSecond r change => exact changeRegister_sees first (hcell change) store r name
  | setSecond r value => exact changeRegister_sees first (hcell _) store r name
  | bumpSecond r => exact changeRegister_sees first (hcell _) store r name
  | _ => cases h

end Aggregate.Twin
