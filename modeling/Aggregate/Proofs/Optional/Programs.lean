import Aggregate.Optional.Program
import Aggregate.Proofs.Registers

/-
  Programs over optional values, enabled and disabled

  An enabled optional is a variable: a program shows what it shows over plain
  variables, which `Step.onVariables` writes down without optionals
  (`run_enabled`).

  A disabled optional is a name and nothing else. What a program shows follows
  from the names in use and from its form, which is what is left of it without the
  values that it writes (`Step.onNames`, `run_disabled`).

  In both cases a step changes the registers that it writes and no other one, so a
  clone and what it was cloned from go their own ways (`clone_keeps`), a swap
  exchanges two optionals (`swap_exchanges`), and equal optionals have equal digests
  if that holds of their values (`digest_eq`).
-/

namespace Aggregate.Optional

variable {α : Type} {enabled : Bool} {w : Width}

theorem readRegister_eq (store : Store α enabled) (r : String)
    (reading : Optional α enabled → Reading α w) :
    readRegister store r reading = store.read r .nothing reading := by
  rw [readRegister, Registers.read]
  cases store.get? r <;> rfl

theorem changeRegister_eq (store : Store α enabled) (r : String) (change : α → α) :
    changeRegister store r change = store.change r (map change) := by
  rw [changeRegister, Registers.change]
  cases store.get? r <;> rfl

theorem clone_eq (w : Width) [Element α] (store : Store α enabled) (r target : String) :
    (Step.clone r target).perform w store = (store.copy r target, .nothing) := by
  rw [Step.perform, Registers.copy]
  cases store.get? r <;> rfl

/-! ## Registers seen as variables, and as names -/

section
variable (store : Store α true) (r : String)

theorem read_enabled {reading : Optional α true → Reading α w} {plain : α → Reading α w}
    (h : ∀ value, reading (.stored value) = plain value) :
    readRegister store r reading = (store.map get).read r .nothing plain := by
  rw [readRegister_eq]
  exact Registers.read_map get (fun o => by cases o with | stored value => exact h value) store r

theorem change_enabled (change : α → α) :
    (changeRegister store r change).map get = (store.map get).change r change := by
  rw [changeRegister_eq]
  exact Registers.change_map get (fun o => by cases o; rfl) store r

theorem alter_enabled (w : Width) (change : α → α) :
    ((alterRegister store r change (w := w)).1.map get, (alterRegister store r change (w := w)).2) =
      ((store.map get).change r change, (store.map get).read r .nothing fun _ => .count 1) :=
  Prod.ext (change_enabled store r change) (read_enabled store r fun _ => rfl)

theorem update_enabled (w : Width) (change : α → α) :
    ((updateRegister store r change (w := w)).1.map get,
        (updateRegister store r change (w := w)).2) =
      ((store.map get).change r change,
        ((store.map get).change r change).read r .nothing .value) := by
  refine Prod.ext (change_enabled store r change) ?_
  rw [← change_enabled]
  exact read_enabled _ r fun _ => rfl

end

/-- A disabled optional has nothing to be seen. -/
def forget (_ : Optional α false) : Unit := ()

theorem forget_injective : Function.Injective (forget (α := α)) := by
  rintro ⟨⟩ ⟨⟩ -
  rfl

section
variable (store : Store α false) (r : String)

theorem read_disabled {reading : Optional α false → Reading α w} {plain : Reading α w}
    (h : reading .absent = plain) :
    readRegister store r reading = (store.map forget).read r .nothing fun _ => plain := by
  rw [readRegister_eq]
  exact Registers.read_map forget (fun o => by cases o with | absent => exact h) store r

theorem change_disabled (change : α → α) :
    (changeRegister store r change).map forget = store.map forget := by
  rw [changeRegister]
  cases hr : store.get? r with
  | none => rfl
  | some o =>
    have hused : (store.map forget).get? r = some () := by rw [Registers.get?_map, hr]; rfl
    exact (Registers.put_map forget store r _).trans (Registers.put_used hused)

theorem alter_disabled (w : Width) (change : α → α) :
    ((alterRegister store r change (w := w)).1.map forget,
        (alterRegister store r change (w := w)).2) =
      (store.map forget, (store.map forget).read r .nothing fun _ => .count 0) :=
  Prod.ext (change_disabled store r change) (read_disabled store r rfl)

theorem update_disabled (w : Width) (change : α → α) :
    ((updateRegister store r change (w := w)).1.map forget,
        (updateRegister store r change (w := w)).2) =
      (store.map forget, (store.map forget).read r .nothing fun _ => .unavailable) := by
  refine Prod.ext (change_disabled store r change) ?_
  rw [← change_disabled store r change]
  exact read_disabled _ r rfl

end

variable [Element α]

theorem run_eq (w : Width) (steps : List (Step α)) :
    ∀ store : Store α enabled, run w steps store = runSteps (Step.perform w) steps store := by
  induction steps with
  | nil => intro store; rfl
  | cons step rest ih =>
    intro store
    rw [run, runSteps, ih]

/-! ## Enabled: plain variables -/

/-- A step over plain variables. As a sequence a variable has its value as the only item. -/
def Step.onVariables (w : Width) : Step α → Registers α → Registers α × Reading α w
  | .new r value, vars => (vars.put r value, .nothing)
  | .default r, vars => (vars.put r Element.default, .nothing)
  | .make r value, vars => (vars.put r value, .calls 1)
  | .front r, vars | .get r, vars => (vars, vars.read r .nothing .value)
  | .length r, vars => (vars, vars.read r .nothing fun _ => .size 1 false true)
  | .slice r, vars => (vars, vars.read r .nothing fun value => .values [value])
  | .iterate r, vars => (vars, vars.read r .nothing fun value => .iterated [value] [value])
  | .alter r change, vars => (vars.change r change, vars.read r .nothing fun _ => .count 1)
  | .bump r, vars => (vars.change r Element.bump, vars.read r .nothing fun _ => .count 1)
  | .fill r value, vars => (vars.change r fun _ => value, vars.read r .nothing fun _ => .count 1)
  | .update r change, vars =>
    (vars.change r change, (vars.change r change).read r .nothing .value)
  | .set r value, vars =>
    (vars.change r fun _ => value, (vars.change r fun _ => value).read r .nothing .value)
  | .take r, vars => (vars.erase r, vars.read r .nothing .value)
  | .clone r target, vars => (vars.copy r target, .nothing)
  | .equal r s, vars =>
    (vars, vars.read r .nothing fun a => vars.read s .nothing fun b =>
      .equality (Element.equal a b))
  | .swap r s, vars => (vars.swap r s, .nothing)
  | .describe r, vars =>
    (vars, vars.read r .nothing fun value => .text ("Optional(" ++ Element.text value ++ ")"))
  | .digest r, vars =>
    (vars, vars.read r .nothing fun value => .digest ((Element.sequenceKey [value]).digest w))

theorem perform_enabled (step : Step α) (store : Store α true) :
    ((step.perform w store).1.map get, (step.perform w store).2) =
      step.onVariables w (store.map get) := by
  cases step with
  | new r value | default r | make r value =>
    exact Prod.ext (Registers.put_map get store r _) rfl
  | front r | length r | slice r | iterate r | get r | describe r | digest r =>
    exact Prod.ext rfl (read_enabled store r fun _ => rfl)
  | alter r change => exact alter_enabled store r w change
  | bump r => exact alter_enabled store r w Element.bump
  | fill r value => exact alter_enabled store r w fun _ => value
  | update r change => exact update_enabled store r w change
  | set r value => exact update_enabled store r w fun _ => value
  | take r => exact Prod.ext (Registers.erase_map get store r) (read_enabled store r fun _ => rfl)
  | clone r target =>
    rw [clone_eq]
    exact Prod.ext (Registers.copy_map get store r target) rfl
  | equal r s =>
    refine Prod.ext rfl (read_enabled store r fun a => read_enabled store s fun b => ?_)
    exact congrArg Reading.equality (Bool.and_true _)
  | swap r s => exact Prod.ext (Registers.swap_map get store r s) rfl

/-- With enabled optionals a program shows what it shows over plain variables, and leaves them with
the same values. -/
theorem run_enabled (w : Width) (steps : List (Step α)) (store : Store α true) :
    (run w steps store).map (fun e => (e.1, e.2.map get)) =
      runSteps (Step.onVariables w) steps (store.map get) := by
  rw [run_eq, runSteps_map id (Registers.map get) perform_enabled, List.map_id]

/-! ## Disabled: names -/

/-- What is left of a step without the values that it writes. -/
def Step.form : Step α → Step Unit
  | .new r _ => .new r ()
  | .default r => .default r
  | .make r _ => .make r ()
  | .front r => .front r
  | .length r => .length r
  | .slice r => .slice r
  | .iterate r => .iterate r
  | .alter r _ => .alter r id
  | .bump r => .bump r
  | .fill r _ => .fill r ()
  | .get r => .get r
  | .update r _ => .update r id
  | .set r _ => .set r ()
  | .take r => .take r
  | .clone r target => .clone r target
  | .equal r s => .equal r s
  | .swap r s => .swap r s
  | .describe r => .describe r
  | .digest r => .digest r

/-- The form of a step over names in use. No value is asked for, the default is read, and every
sequence is empty. -/
def Step.onNames (w : Width) : Step Unit → Registers Unit → Registers Unit × Reading α w
  | .new r _, names | .default r, names => (names.put r (), .nothing)
  | .make r _, names => (names.put r (), .calls 0)
  | .front r, names => (names, names.read r .nothing fun _ => .value Element.default)
  | .length r, names => (names, names.read r .nothing fun _ => .size 0 true false)
  | .slice r, names => (names, names.read r .nothing fun _ => .values [])
  | .iterate r, names => (names, names.read r .nothing fun _ => .iterated [] [])
  | .alter r _, names | .bump r, names | .fill r _, names =>
    (names, names.read r .nothing fun _ => .count 0)
  | .get r, names | .update r _, names | .set r _, names =>
    (names, names.read r .nothing fun _ => .unavailable)
  | .take r, names => (names.erase r, names.read r .nothing fun _ => .unavailable)
  | .clone r target, names => (names.copy r target, .nothing)
  | .equal r s, names =>
    (names, names.read r .nothing fun _ => names.read s .nothing fun _ => .equality true)
  | .swap r s, names => (names.swap r s, .nothing)
  | .describe r, names => (names, names.read r .nothing fun _ => .text "Optional(-)")
  | .digest r, names =>
    (names, names.read r .nothing fun _ => .digest ((Element.sequenceKey ([] : List α)).digest w))

theorem perform_disabled (step : Step α) (store : Store α false) :
    ((step.perform w store).1.map forget, (step.perform w store).2) =
      step.form.onNames w (store.map forget) := by
  cases step with
  | new r value | default r | make r value =>
    exact Prod.ext (Registers.put_map forget store r _) rfl
  | front r | length r | slice r | iterate r | get r | describe r | digest r =>
    exact Prod.ext rfl (read_disabled store r rfl)
  | alter r change => exact alter_disabled store r w change
  | bump r => exact alter_disabled store r w Element.bump
  | fill r value => exact alter_disabled store r w fun _ => value
  | update r change => exact update_disabled store r w change
  | set r value => exact update_disabled store r w fun _ => value
  | take r => exact Prod.ext (Registers.erase_map forget store r) (read_disabled store r rfl)
  | clone r target =>
    rw [clone_eq]
    exact Prod.ext (Registers.copy_map forget store r target) rfl
  | equal r s =>
    exact Prod.ext rfl (read_disabled store r (read_disabled store s rfl))
  | swap r s => exact Prod.ext (Registers.swap_map forget store r s) rfl

/-- With disabled optionals a program shows what its form shows over the names in use. -/
theorem run_disabled (w : Width) (steps : List (Step α)) (store : Store α false) :
    (run w steps store).map (fun e => (e.1, e.2.map forget)) =
      runSteps (Step.onNames w) (steps.map Step.form) (store.map forget) := by
  rw [run_eq, runSteps_map Step.form (Registers.map forget) perform_disabled]

/-! ## What a step writes -/

/-- The registers that a step writes. -/
def Step.writes : Step α → List String
  | .new r _ | .default r | .make r _ | .alter r _ | .bump r | .fill r _ | .update r _ | .set r _
  | .take r => [r]
  | .clone _ target => [target]
  | .swap r s => [r, s]
  | .front _ | .length _ | .slice _ | .iterate _ | .get _ | .equal _ _ | .describe _
  | .digest _ => []

theorem perform_keeps (w : Width) (step : Step α) (store : Store α enabled) {name : String}
    (h : name ∉ step.writes) : (step.perform w store).1.get? name = store.get? name := by
  cases step with
  | new r value | default r | make r value =>
    exact Registers.get?_put_of_ne _ (by simpa [Step.writes] using h)
  | alter r change | bump r | fill r value | update r change | set r value =>
    rw [Step.perform]
    show (changeRegister store r _).get? name = _
    rw [changeRegister_eq]
    exact Registers.get?_change_of_ne _ (by simpa [Step.writes] using h)
  | take r => exact Registers.get?_erase_of_ne (by simpa [Step.writes] using h)
  | clone r target =>
    rw [clone_eq]
    exact Registers.get?_copy_of_ne (by simpa [Step.writes] using h)
  | swap r s =>
    obtain ⟨hr, hs⟩ : name ≠ r ∧ name ≠ s := by simpa [Step.writes] using h
    exact Registers.get?_swap_of_ne hr hs
  | front | length | slice | iterate | get | equal | describe | digest => rfl

/-- As long as one of the two is not written, a clone or what it was cloned from, it holds what both
held after the step that made the clone. -/
theorem clone_keeps (w : Width) {store : Store α enabled} {r target name : String}
    {o : Optional α enabled} (steps : List (Step α)) (hr : store.get? r = some o)
    (hname : name ∈ [r, target]) (hwrites : ∀ step ∈ steps, name ∉ step.writes) :
    ∀ e ∈ run w (.clone r target :: steps) store, e.2.get? name = some o := by
  rw [run_eq]
  exact runSteps_copy_keeps Step.writes (fun step s _ => perform_keeps w step s)
    (congrArg Prod.fst (clone_eq w store r target)) hr hname hwrites

theorem swap_exchanges (w : Width) {store : Store α enabled} {r s : String}
    {o p : Optional α enabled} (hr : store.get? r = some o) (hs : store.get? s = some p) :
    ((Step.swap r s).perform w store).1.get? r = some p ∧
      ((Step.swap r s).perform w store).1.get? s = some o :=
  ⟨Registers.get?_swap_left hr hs, Registers.get?_swap_right hr hs⟩

/-! ## Equal optionals -/

/-- What a digest becomes when words are fed to it. -/
def feed (digest : BitVec 64) (words : List Chunk) : BitVec 64 :=
  words.foldl (fun digest word => Digest.mix digest word.value) digest

/-- If values that are equal feed every digest alike, so do optionals. A sequence of one value feeds
its length and then what the value feeds. -/
theorem digest_eq {own : α → List Chunk}
    (hown : ∀ a : α, (Element.sequenceKey [a]).chunks = Key.countChunk 1 :: own a)
    (hequal : ∀ a b : α, Element.equal a b = true →
      ∀ digest, feed digest (own a) = feed digest (own b))
    {o p : Optional α enabled} (h : o.equal p = true) : o.key.digest w = p.key.digest w := by
  cases o with
  | absent =>
    cases p with
    | absent => rfl
  | stored a =>
    cases p with
    | stored b =>
      have hab : Element.equal a b = true := (Bool.and_true _).symm.trans h
      have hfed : feed 0 (Element.sequenceKey [a]).chunks =
          feed 0 (Element.sequenceKey [b]).chunks := by
        rw [hown a, hown b]
        exact hequal a b hab _
      exact congrArg (narrow w) hfed

/-! ## What optionals are -/

theorem run_eq_of_form_eq (w : Width) {steps steps' : List (Step α)} (store : Store α false)
    (h : steps.map Step.form = steps'.map Step.form) : run w steps store = run w steps' store := by
  have hseen : Function.Injective fun e : Reading α w × Store α false => (e.1, e.2.map forget) := by
    intro e e' he
    obtain ⟨hreading, hstore⟩ := Prod.mk.inj he
    exact Prod.ext hreading (Registers.map_injective forget_injective hstore)
  refine hseen.list_map ?_
  rw [run_disabled, run_disabled, h]

/-- **An enabled optional is a variable, and a disabled one is nothing but a name.**

Enabled, every program shows what it shows over plain variables. Disabled, it shows what its form
shows over the names in use, so that no value that it writes can be seen. In both cases a clone and
what it was cloned from do not follow each other, a swap exchanges what two registers hold, and
equal optionals have equal digests where this holds of their values. -/
theorem variable_or_name (w : Width) :
    (∀ (steps : List (Step α)) (store : Store α true),
      (run w steps store).map (fun e => (e.1, e.2.map get)) =
        runSteps (Step.onVariables w) steps (store.map get)) ∧
    (∀ (steps : List (Step α)) (store : Store α false),
      (run w steps store).map (fun e => (e.1, e.2.map forget)) =
        runSteps (Step.onNames w) (steps.map Step.form) (store.map forget)) ∧
    (∀ (steps steps' : List (Step α)) (store : Store α false),
      steps.map Step.form = steps'.map Step.form → run w steps store = run w steps' store) ∧
    (∀ {enabled : Bool} (store : Store α enabled) (r target : String) (o : Optional α enabled),
      store.get? r = some o → ∀ name ∈ [r, target], ∀ steps : List (Step α),
        (∀ step ∈ steps, name ∉ step.writes) →
          ∀ e ∈ run w (.clone r target :: steps) store, e.2.get? name = some o) ∧
    (∀ {enabled : Bool} (store : Store α enabled) (r s : String) (o p : Optional α enabled),
      store.get? r = some o → store.get? s = some p →
        ((Step.swap r s).perform w store).1.get? r = some p ∧
          ((Step.swap r s).perform w store).1.get? s = some o) ∧
    (∀ own : α → List Chunk,
      (∀ a : α, (Element.sequenceKey [a]).chunks = Key.countChunk 1 :: own a) →
      (∀ a b : α, Element.equal a b = true →
        ∀ digest, feed digest (own a) = feed digest (own b)) →
      ∀ {enabled : Bool} (o p : Optional α enabled), o.equal p = true →
        o.key.digest w = p.key.digest w) := by
  refine ⟨run_enabled w, run_disabled w, ?_, ?_, ?_, ?_⟩
  · intro steps steps' store h
    exact run_eq_of_form_eq w store h
  · intro enabled store r target o hr name hname steps hwrites
    exact clone_keeps w steps hr hname hwrites
  · intro enabled store r s o p hr hs
    exact swap_exchanges w hr hs
  · intro own hown hequal enabled o p h
    exact digest_eq hown hequal h

/-- A clone is taken of a register, which is then changed in place and read; the two are swapped and
read again. -/
def changedAfterClone (value written : Int64) : List (Step Int64) :=
  [.new "a" value, .clone "a" "b", .alter "a" (· + written), .equal "a" "b", .front "a", .front "b",
    .make "c" written, .slice "c", .swap "a" "b", .front "a", .front "b"]

/-- Enabled, the clone keeps the value of before; disabled, all is the same with other values. Equal
optionals of texts have equal digests, since a text feeds its bytes and a closing byte. -/
theorem variable_or_name_changed :
    (run .long (changedAfterClone 5 1) (⟨[]⟩ : Store Int64 true)).map (·.1) =
      [.nothing, .nothing, .count 1, .equality false, .value 6, .value 5, .calls 1, .values [1],
        .nothing, .value 5, .value 6] ∧
    (run .long (changedAfterClone 5 1) (⟨[]⟩ : Store Int64 false)).map (·.1) =
      [.nothing, .nothing, .count 0, .equality true, .value 0, .value 0, .calls 0, .values [],
        .nothing, .value 0, .value 0] ∧
    run .long (changedAfterClone 5 1) (⟨[]⟩ : Store Int64 false) =
      run .long (changedAfterClone 7 2) ⟨[]⟩ ∧
    (∀ e ∈ run .long [.clone "a" "b", .bump "a"] (⟨[("a", .stored 5)]⟩ : Store Int64 true),
      e.2.get? "b" = some (.stored 5)) ∧
    ((Step.swap "a" "b").perform .long
      (⟨[("a", .stored 5), ("b", .stored 6)]⟩ : Store Int64 true)).1.get? "a" = some (.stored 6) ∧
    (Optional.new true "x").key.digest .long = (Optional.stored "x").key.digest .long := by
  obtain ⟨hvariables, hnames, hform, hclone, hswap, -⟩ := @variable_or_name Int64 _ .long
  obtain ⟨-, -, -, -, -, hdigest⟩ := @variable_or_name String _ .long
  refine ⟨?_, ?_, hform _ _ _ rfl, ?_, (hswap _ "a" "b" (.stored 5) (.stored 6) rfl rfl).1, ?_⟩
  · have hrun := congrArg (List.map (·.1)) (hvariables (changedAfterClone 5 1) ⟨[]⟩)
    rw [List.map_map] at hrun
    exact hrun
  · have hrun := congrArg (List.map (·.1)) (hnames (changedAfterClone 5 1) ⟨[]⟩)
    rw [List.map_map] at hrun
    exact hrun
  · exact hclone _ "a" "b" _ rfl "b" (by decide) _ (by decide)
  · refine hdigest (fun text => (Key.text text).chunks) (fun text => ?_) (fun a b hab digest => ?_)
      (.new true "x") (.stored "x") rfl
    · simp [Element.sequenceKey, Key.chunks, Key.memberChunks]
    · rw [eq_of_beq hab]

end Aggregate.Optional
