import Aggregate.Proofs.Twin.Programs

/-
  Programs that cannot tell the layouts of twins apart

  The layouts can be told apart as soon as the accessors are written differently. They
  cannot if a program writes by assignments only and has assigned the same value
  through both accessors of a twin whenever it reads the twin (`SharedProgram`).

  Between the two assignments the cells differ, so the layouts are compared through
  what was assigned last through each accessor (`Joint`). A mirrored cell holds the
  value that came last through either one, and once the same has come through both,
  that is what every cell of a separate twin holds, too (`Joint.twin_separate`).
-/

namespace Aggregate.Twin

variable {α : Type} {w : Width}

/-- What was assigned last through each accessor since a twin was built. -/
structure Assigned (α : Type) where
  first : Option α
  second : Option α
  deriving DecidableEq

/-- Nothing has been assigned yet. -/
def Assigned.fresh : Assigned α := ⟨none, none⟩

/-- What a step assigns. A twin that is built anew has nothing assigned. -/
def Step.assign : Step α → Registers (Assigned α) → Registers (Assigned α)
  | .new r _, assigned | .default r, assigned => assigned.put r .fresh
  | .setFirst r value, assigned => assigned.change r fun a => { a with first := some value }
  | .setSecond r value, assigned => assigned.change r fun a => { a with second := some value }
  | .clone r target, assigned => assigned.copy r target
  | .swap r s, assigned => assigned.swap r s
  | _, assigned => assigned

/-- Whether a step builds twins from one value only, and writes them only by assignments. -/
def Step.assigning : Step α → Bool
  | .build _ _ _ | .alterFirst _ _ | .alterSecond _ _ | .bumpFirst _ | .bumpSecond _
  | .split _ _ _ => false
  | _ => true

/-- The registers whose values a step reads. -/
def Step.reads : Step α → List String
  | .first r | .second r => [r]
  | .equal r s => [r, s]
  | _ => []

/-- The same value was assigned through both accessors of a twin, or none through either. -/
def Agreed (assigned : Registers (Assigned α)) (r : String) : Prop :=
  ∀ a ∈ assigned.get? r, a.first = a.second

instance [DecidableEq α] (assigned : Registers (Assigned α)) (r : String) :
    Decidable (Agreed assigned r) :=
  inferInstanceAs (Decidable (∀ a ∈ assigned.get? r, a.first = a.second))

/-- A program that writes only by assignments, and assigns one and the same value through both
accessors of a twin before it reads the twin. -/
def SharedProgram : List (Step α) → Registers (Assigned α) → Prop
  | [], _ => True
  | step :: rest, assigned =>
    step.assigning = true ∧ (∀ r ∈ step.reads, Agreed assigned r) ∧
      SharedProgram rest (step.assign assigned)

instance SharedProgram.decidable [DecidableEq α] :
    ∀ (steps : List (Step α)) (assigned : Registers (Assigned α)),
      Decidable (SharedProgram steps assigned)
  | [], _ => inferInstanceAs (Decidable True)
  | step :: rest, assigned =>
    have := SharedProgram.decidable rest (step.assign assigned)
    inferInstanceAs (Decidable (_ ∧ _ ∧ _))

/-- What a reading says of the values themselves: a text, a digest and the layout tell how they are
kept. -/
def Reading.values : Reading α w → Reading α w
  | .text _ | .digest _ | .mirrored _ => .nothing
  | reading => reading

/-- One register of both layouts: the value it was built with, what has been assigned since, and the
cell behind both accessors of a mirrored twin. Once the same value has been assigned through both,
the cell holds it. -/
structure Joint (α : Type) where
  base : α
  assigned : Assigned α
  cell : α
  agreed : assigned.first = assigned.second → cell = assigned.first.getD base

namespace Joint

/-- The twin in one of the layouts. -/
def twin (mirrors : Bool) (j : Joint α) : Twin α mirrors :=
  match mirrors with
  | true => .mirrored j.cell
  | false => .separate (j.assigned.first.getD j.base) (j.assigned.second.getD j.base)

def new (value : α) : Joint α := ⟨value, .fresh, value, fun _ => rfl⟩

def assignFirst (value : α) (j : Joint α) : Joint α :=
  ⟨j.base, { j.assigned with first := some value }, value, fun _ => rfl⟩

def assignSecond (value : α) (j : Joint α) : Joint α :=
  ⟨j.base, { j.assigned with second := some value }, value, fun h => by
    show value = j.assigned.first.getD j.base
    rw [show j.assigned.first = some value from h]
    rfl⟩

theorem twin_new (mirrors : Bool) (value : α) :
    (new value).twin mirrors = Twin.new mirrors value := by
  cases mirrors <;> rfl

theorem twin_default [Element α] (mirrors : Bool) :
    (new Element.default : Joint α).twin mirrors =
      (Twin.build mirrors (fun s : Unit => (Element.default, s)) ()).1 := by
  cases mirrors <;> rfl

theorem twin_assignFirst (mirrors : Bool) (value : α) (j : Joint α) :
    (j.assignFirst value).twin mirrors = changeFirst (fun _ => value) (j.twin mirrors) := by
  cases mirrors <;> rfl

theorem twin_assignSecond (mirrors : Bool) (value : α) (j : Joint α) :
    (j.assignSecond value).twin mirrors = changeSecond (fun _ => value) (j.twin mirrors) := by
  cases mirrors <;> rfl

theorem twin_separate {j : Joint α} (h : j.assigned.first = j.assigned.second) :
    j.twin false = .separate j.cell j.cell := by
  rw [twin, ← h, ← j.agreed h]

end Joint

/-! ## Both layouts beside each other -/

/-- A reading of a twin is the same in both layouts, if its accessors agree and the reading is the
same where every cell holds the same. -/
theorem read_layouts {joint : Registers (Joint α)} {r : String}
    (hr : Agreed (joint.map Joint.assigned) r)
    {reading : Twin α true → Reading α w} {reading' : Twin α false → Reading α w}
    (h : ∀ cell, reading (.mirrored cell) = reading' (.separate cell cell)) :
    readRegister (joint.map (Joint.twin true)) r reading =
      readRegister (joint.map (Joint.twin false)) r reading' := by
  rw [readRegister_eq, readRegister_eq, ← Registers.read_map (Joint.twin true) (fun _ => rfl),
    ← Registers.read_map (Joint.twin false) (fun _ => rfl)]
  refine Registers.read_congr fun j hj => ?_
  have hagreed : j.assigned.first = j.assigned.second :=
    hr j.assigned (by rw [Registers.get?_map, hj]; rfl)
  rw [Joint.twin_separate hagreed]
  exact h j.cell

theorem values_hidden {mirrors : Bool} {store : Store α mirrors} (r : String)
    {reading : Twin α mirrors → Reading α w} (h : ∀ t, (reading t).values = .nothing) :
    (readRegister store r reading).values = .nothing := by
  rw [readRegister]
  cases store.get? r with
  | none => rfl
  | some t => exact h t

variable [Element α]

/-- What a step makes of the registers of both layouts. -/
def Step.onJoint : Step α → Registers (Joint α) → Registers (Joint α)
  | .new r value, joint => joint.put r (.new value)
  | .default r, joint => joint.put r (.new Element.default)
  | .setFirst r value, joint => joint.change r (Joint.assignFirst value)
  | .setSecond r value, joint => joint.change r (Joint.assignSecond value)
  | .clone r target, joint => joint.copy r target
  | .swap r s, joint => joint.swap r s
  | _, joint => joint

theorem assign_joint (step : Step α) (joint : Registers (Joint α)) :
    step.assign (joint.map Joint.assigned) = (step.onJoint joint).map Joint.assigned := by
  cases step with
  | new r value => exact (Registers.put_map Joint.assigned joint r (.new value)).symm
  | default r => exact (Registers.put_map Joint.assigned joint r (.new Element.default)).symm
  | setFirst r value | setSecond r value =>
    exact (Registers.change_map Joint.assigned (fun _ => rfl) joint r).symm
  | clone r target => exact (Registers.copy_map Joint.assigned joint r target).symm
  | swap r s => exact (Registers.swap_map Joint.assigned joint r s).symm
  | _ => rfl

theorem perform_joint (w : Width) (mirrors : Bool) {step : Step α} (h : step.assigning = true)
    (joint : Registers (Joint α)) :
    (step.perform w (joint.map (Joint.twin mirrors))).1 =
      (step.onJoint joint).map (Joint.twin mirrors) := by
  cases step with
  | new r value =>
    rw [Step.onJoint, Registers.put_map, Joint.twin_new]
    rfl
  | default r =>
    rw [Step.onJoint, Registers.put_map, Joint.twin_default]
    rfl
  | setFirst r value =>
    rw [Step.perform, changeRegister_eq]
    exact (Registers.change_map _ (Joint.twin_assignFirst mirrors value) joint r).symm
  | setSecond r value =>
    rw [Step.perform, changeRegister_eq]
    exact (Registers.change_map _ (Joint.twin_assignSecond mirrors value) joint r).symm
  | clone r target =>
    rw [clone_eq]
    exact (Registers.copy_map _ joint r target).symm
  | swap r s => exact (Registers.swap_map _ joint r s).symm
  | first | second | layout | equal | describe | digest => rfl
  | build | alterFirst | alterSecond | bumpFirst | bumpSecond | split => cases h

theorem perform_joint_reading (w : Width) {step : Step α} (h : step.assigning = true)
    {joint : Registers (Joint α)}
    (hreads : ∀ r ∈ step.reads, Agreed (joint.map Joint.assigned) r) :
    (step.perform w (joint.map (Joint.twin true))).2.values =
      (step.perform w (joint.map (Joint.twin false))).2.values := by
  cases step with
  | first r | second r =>
    exact congrArg Reading.values (read_layouts (hreads r List.mem_cons_self) fun _ => rfl)
  | equal r s =>
    have hr := hreads r List.mem_cons_self
    have hs := hreads s (List.mem_cons_of_mem _ List.mem_cons_self)
    refine congrArg Reading.values (read_layouts hr fun a => read_layouts hs fun b => ?_)
    -- Both cells of a separate twin are compared, and with the same result.
    refine congrArg Reading.equality ?_
    show (Element.equal a b && true) = (Element.equal a b && (Element.equal a b && true))
    rw [Bool.and_true, Bool.and_self]
  | describe r | digest r =>
    exact (values_hidden r fun _ => rfl).trans (values_hidden r fun _ => rfl).symm
  | new | default | setFirst | setSecond | layout | clone | swap => rfl
  | build | alterFirst | alterSecond | bumpFirst | bumpSecond | split => cases h

/-- A shared program shows the same values in both layouts. -/
theorem run_layouts (w : Width) (steps : List (Step α)) :
    ∀ joint : Registers (Joint α), SharedProgram steps (joint.map Joint.assigned) →
      (run w steps (joint.map (Joint.twin true))).map (fun e => e.1.values) =
        (run w steps (joint.map (Joint.twin false))).map (fun e => e.1.values) := by
  induction steps with
  | nil => intro joint _; rfl
  | cons step rest ih =>
    rintro joint ⟨hassigning, hreads, hrest⟩
    rw [assign_joint] at hrest
    rw [run, run, List.map_cons, List.map_cons, perform_joint w true hassigning,
      perform_joint w false hassigning, ih _ hrest, perform_joint_reading w hassigning hreads]

/-! ## What twins are -/

/-- **A mirrored twin is a variable and a separate one a pair of variables, and programs that write
both accessors alike cannot tell which.**

Every program shows what it shows over variables if twins are mirrored, and over pairs of variables
if they are separate. Both accessors of a mirrored twin read the same after every step, and what is
written through one accessor of a separate twin does not reach the other cell. In both layouts a
clone and what it was cloned from do not follow each other. -/
theorem variable_or_pair (w : Width) :
    (∀ (steps : List (Step α)) (store : Store α true),
      (run w steps store).map (fun e => (e.1, e.2.map first)) =
        runSteps (Step.onVariables w) steps (store.map first)) ∧
    (∀ (steps : List (Step α)) (store : Store α true), ∀ e ∈ run w steps store,
      ∀ name t, e.2.get? name = some t → t.first = t.second) ∧
    (∀ (steps : List (Step α)) (store : Store α false),
      (run w steps store).map (fun e => (e.1, e.2.map both)) =
        runSteps (Step.onPairs w) steps (store.map both)) ∧
    (∀ (step : Step α) (store : Store α false) (name : String),
      (step.throughFirst = true →
        ((step.perform w store).1.get? name).map second = (store.get? name).map second) ∧
      (step.throughSecond = true →
        ((step.perform w store).1.get? name).map first = (store.get? name).map first)) ∧
    (∀ {mirrors : Bool} (store : Store α mirrors) (r target : String) (t : Twin α mirrors),
      store.get? r = some t → ∀ name ∈ [r, target], ∀ steps : List (Step α),
        (∀ step ∈ steps, name ∉ step.writes) →
          ∀ e ∈ run w (.clone r target :: steps) store, e.2.get? name = some t) ∧
    (∀ (steps : List (Step α)) (values : Registers α),
      SharedProgram steps (values.map fun _ => .fresh) →
        (run w steps (values.map (Twin.new true))).map (fun e => e.1.values) =
          (run w steps (values.map (Twin.new false))).map (fun e => e.1.values)) := by
  refine ⟨run_mirrored w, ?_, run_separate w, ?_, ?_, ?_⟩
  · rintro steps store e - name ⟨cell⟩ -
    rfl
  · intro step store name
    exact ⟨fun h => second_kept w step h store name, fun h => first_kept w step h store name⟩
  · intro mirrors store r target t hr name hname steps hwrites
    exact clone_keeps w steps hr hname hwrites
  · intro steps values hshared
    have hassigned : SharedProgram steps ((values.map Joint.new).map Joint.assigned) := by
      rw [Registers.map_map]
      exact hshared
    have hrun := run_layouts w steps _ hassigned
    simp only [Registers.map_map, Joint.twin_new] at hrun
    exact hrun

/-- Two registers are assigned at the same time, and read as soon as each has both its values. -/
def sharedWrites : List (Step Int64) :=
  [.new "a" 1, .clone "a" "b", .equal "a" "b", .setFirst "a" 5, .setSecond "b" 7, .setSecond "a" 5,
    .first "a", .second "a", .setFirst "b" 7, .equal "a" "b", .swap "a" "b", .first "a",
    .second "b"]

/-- The program of the two registers, a clone that keeps its value, and a write to a first cell. -/
theorem variable_or_pair_writes :
    (run .long sharedWrites (⟨[]⟩ : Store Int64 true)).map (fun e => e.1.values) =
      (run .long sharedWrites (⟨[]⟩ : Store Int64 false)).map (fun e => e.1.values) ∧
    (run .long sharedWrites (⟨[]⟩ : Store Int64 false)).map (·.1) =
      [.nothing, .nothing, .equality true, .nothing, .nothing, .nothing, .value 5, .value 5,
        .nothing, .equality false, .nothing, .value 7, .value 5] ∧
    (∀ e ∈ run .long sharedWrites (⟨[]⟩ : Store Int64 true),
      ∀ name t, e.2.get? name = some t → t.first = t.second) ∧
    (∀ e ∈ run .long [.clone "a" "b", .bumpFirst "a"]
        (⟨[("a", .separate 5 6)]⟩ : Store Int64 false),
      e.2.get? "b" = some (.separate 5 6)) ∧
    (((Step.bumpFirst "a").perform .long (⟨[("a", .separate 5 6)]⟩ : Store Int64 false)).1.get?
      "a").map second = some 6 := by
  obtain ⟨-, hsame, hpairs, hcells, hclone, hshared⟩ := @variable_or_pair Int64 _ .long
  refine ⟨hshared sharedWrites ⟨[]⟩ (by decide), ?_, hsame _ _, ?_, (hcells _ _ "a").1 rfl⟩
  · have hrun := congrArg (List.map (·.1)) (hpairs sharedWrites ⟨[]⟩)
    rw [List.map_map] at hrun
    exact hrun
  · exact hclone _ "a" "b" _ rfl "b" (by decide) _ (by decide)

end Aggregate.Twin
