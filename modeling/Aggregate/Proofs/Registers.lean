import Aggregate.Registers
import Aggregate.Proofs.Places
import Mathlib.Data.List.Basic

/-
  Registers seen through a function, and programs over them

  What registers hold can be looked at through a function, name by name, and every
  operation on registers is then the same operation on what is seen (`map`). An
  operation changes the registers that it names and no other one.

  A program performs its steps one after the other (`runSteps`). Two kinds of states
  are compared by looking at one through a function: if every step is then a step
  over what is seen, so is every program (`runSteps_map`).
-/

namespace Aggregate.Registers

variable {β γ : Type} {rs : Registers β} {name other : String} {value : β}

/-- The registers with a function applied to each value. -/
def map (f : β → γ) (rs : Registers β) : Registers γ := ⟨rs.entries.map fun e => (e.1, f e.2)⟩

/-- Change what a name holds, if it holds anything. -/
def change (name : String) (f : β → β) (rs : Registers β) : Registers β :=
  (rs.get? name).elim rs fun value => rs.put name (f value)

/-- Let a name hold what another one holds, if that holds anything. -/
def copy (name target : String) (rs : Registers β) : Registers β :=
  (rs.get? name).elim rs (rs.put target)

/-- What can be read of the value under a name; a name without a value shows nothing. -/
def read {δ : Type} (name : String) (nothing : δ) (reading : β → δ) (rs : Registers β) : δ :=
  (rs.get? name).elim nothing reading

/-! ## Operations on what is seen -/

section
variable (f : β → γ)

@[simp] theorem get?_map (rs : Registers β) (name : String) :
    (rs.map f).get? name = (rs.get? name).map f := lookup_map f rs.entries name

@[simp] theorem put_map (rs : Registers β) (name : String) (value : β) :
    (rs.put name value).map f = (rs.map f).put name (f value) := by
  have hused : (rs.map f).entries.any (·.1 == name) = rs.entries.any (·.1 == name) :=
    List.any_map
  rw [put, put, hused, map]
  cases rs.entries.any (·.1 == name) with
  | true =>
    simp only [if_true, map, List.map_map, Function.comp_def, mk.injEq]
    refine List.map_congr_left fun e _ => ?_
    cases e.1 == name <;> rfl
  | false => simp [map]

@[simp] theorem erase_map (rs : Registers β) (name : String) :
    (rs.erase name).map f = (rs.map f).erase name := by
  rw [erase, erase, map, map, List.filter_map]
  rfl

@[simp] theorem swap_map (rs : Registers β) (name other : String) :
    (rs.swap name other).map f = (rs.map f).swap name other := by
  rw [swap, swap, get?_map, get?_map]
  cases rs.get? name with
  | none => rfl
  | some x =>
    cases rs.get? other with
    | none => rfl
    | some y => simp

theorem change_map {change : β → β} {change' : γ → γ}
    (h : ∀ value, f (change value) = change' (f value))
    (rs : Registers β) (name : String) :
    (rs.change name change).map f = (rs.map f).change name change' := by
  rw [Registers.change, Registers.change, get?_map]
  cases rs.get? name with
  | none => rfl
  | some value => simp [h]

theorem read_map {δ : Type} {nothing : δ} {reading : β → δ} {reading' : γ → δ}
    (h : ∀ value, reading value = reading' (f value)) (rs : Registers β) (name : String) :
    rs.read name nothing reading = (rs.map f).read name nothing reading' := by
  rw [read, read, get?_map]
  cases rs.get? name with
  | none => rfl
  | some value => exact h value

@[simp] theorem copy_map (rs : Registers β) (name target : String) :
    (rs.copy name target).map f = (rs.map f).copy name target := by
  rw [copy, copy, get?_map]
  cases rs.get? name with
  | none => rfl
  | some value => simp

end

theorem map_map {δ : Type} (f : β → γ) (g : γ → δ) (rs : Registers β) :
    (rs.map f).map g = rs.map fun value => g (f value) :=
  congrArg mk (List.map_map ..)

theorem read_congr {δ : Type} {nothing : δ} {reading reading' : β → δ}
    (h : ∀ value, rs.get? name = some value → reading value = reading' value) :
    rs.read name nothing reading = rs.read name nothing reading' := by
  rw [read, read]
  cases hr : rs.get? name with
  | none => rfl
  | some value => exact h value hr

theorem map_injective {f : β → γ} (hf : Function.Injective f) :
    Function.Injective (map f) := by
  rintro ⟨entries⟩ ⟨entries'⟩ h
  have hpair : Function.Injective fun e : String × β => (e.1, f e.2) := by
    intro e e' he
    obtain ⟨hname, hvalue⟩ := Prod.mk.inj he
    exact Prod.ext hname (hf hvalue)
  exact congrArg mk (hpair.list_map (congrArg Registers.entries h))

/-! ## What a name holds after an operation -/

theorem lookup_entry (key : String) (held : β) (rest : List (String × β)) (name : String) :
    ((key, held) :: rest).lookup name = if name = key then some held else rest.lookup name := by
  rw [List.lookup_cons]
  by_cases h : name = key
  · rw [if_pos h, beq_iff_eq.mpr h]
  · rw [if_neg h, beq_eq_false_iff_ne.mpr h]

theorem get?_put_self (rs : Registers β) (name : String) (value : β) :
    (rs.put name value).get? name = some value := by
  simp only [get?, put]
  induction rs.entries with
  | nil => simp
  | cons e rest ih =>
    obtain ⟨key, held⟩ := e
    by_cases hkey : key = name
    · simp [hkey]
    · -- The first entry has another name and stays, whether a later one has this name or not.
      simp only [List.any_cons, beq_eq_false_iff_ne.mpr hkey, Bool.false_or]
      split at ih <;> simp_all [lookup_entry, Ne.symm hkey]

theorem get?_put_of_ne (value : β) (h : other ≠ name) :
    (rs.put name value).get? other = rs.get? other := by
  simp only [get?, put]
  split
  · simp only [beq_iff_eq]
    induction rs.entries with
    | nil => rfl
    | cons e rest ih =>
      obtain ⟨key, held⟩ := e
      by_cases hkey : key = name
      · simp [hkey, lookup_entry, h, ih]
      · simp [hkey, lookup_entry, ih]
  · simp [List.lookup_append, lookup_entry, h]

theorem get?_erase_of_ne (h : other ≠ name) : (rs.erase name).get? other = rs.get? other := by
  simp only [get?, erase]
  induction rs.entries with
  | nil => rfl
  | cons e rest ih =>
    obtain ⟨key, held⟩ := e
    by_cases hkey : key = name
    · simp [hkey, lookup_entry, h, ih]
    · simp [hkey, lookup_entry, ih]

theorem get?_swap_of_ne {third : String} (h : third ≠ name) (h' : third ≠ other) :
    (rs.swap name other).get? third = rs.get? third := by
  rw [swap]
  split
  · rw [get?_put_of_ne _ h', get?_put_of_ne _ h]
  · rfl

/-- Names in use that are swapped hold what the other one held. -/
theorem get?_swap_left {x y : β} (hx : rs.get? name = some x) (hy : rs.get? other = some y) :
    (rs.swap name other).get? name = some y := by
  rw [swap, hx, hy]
  show ((rs.put name y).put other x).get? name = some y
  by_cases h : name = other
  · subst h
    rw [get?_put_self, ← hx, hy]
  · rw [get?_put_of_ne x h, get?_put_self]

theorem get?_swap_right {x y : β} (hx : rs.get? name = some x) (hy : rs.get? other = some y) :
    (rs.swap name other).get? other = some x := by
  rw [swap, hx, hy]
  exact get?_put_self (rs.put name y) other x

theorem get?_change_of_ne (f : β → β) (h : other ≠ name) :
    (rs.change name f).get? other = rs.get? other := by
  rw [change]
  cases rs.get? name with
  | none => rfl
  | some value => exact get?_put_of_ne _ h

theorem get?_change_self (rs : Registers β) (name : String) (f : β → β) :
    (rs.change name f).get? name = (rs.get? name).map f := by
  rw [change]
  cases h : rs.get? name with
  | none => exact h
  | some value => exact get?_put_self rs name (f value)

theorem get?_copy_of_ne {target : String} (h : other ≠ target) :
    (rs.copy name target).get? other = rs.get? other := by
  rw [copy]
  cases rs.get? name with
  | none => rfl
  | some value => exact get?_put_of_ne _ h

theorem get?_copy {target : String} (h : rs.get? name = some value)
    (hother : other ∈ [name, target]) :
    (rs.copy name target).get? other = some value := by
  rw [copy, h]
  show (rs.put target value).get? other = some value
  by_cases ho : other = target
  · rw [ho]
    exact get?_put_self rs target value
  · have hname : other = name := by simpa [ho] using hother
    rw [get?_put_of_ne value ho, hname]
    exact h

/-- Where names hold nothing but themselves, a name in use can be put again. -/
theorem put_used {names : Registers Unit} (h : names.get? name = some ()) :
    names.put name () = names := by
  have hused : names.entries.any (·.1 == name) = true := by
    obtain ⟨before, after, hsplit, -⟩ := List.lookup_eq_some_iff.mp h
    simp [hsplit]
  rw [put, if_pos hused]
  refine congrArg mk ((List.map_congr_left fun e _ => ?_).trans (List.map_id _))
  by_cases he : e.1 = name
  · rw [if_pos (beq_iff_eq.mpr he), ← he]
    rfl
  · rw [if_neg (by simpa using he)]
    rfl

end Aggregate.Registers

namespace Aggregate

/-! ## Programs -/

section
variable {σ τ S T R : Type} {perform : σ → S → S × R}

/-- Perform steps one after the other: what each step shows, and the state after it. -/
def runSteps (perform : σ → S → S × R) : List σ → S → List (R × S)
  | [], _ => []
  | step :: rest, s =>
    let r := perform step s
    (r.2, r.1) :: runSteps perform rest r.1

/-- If a step over states is a step over what is seen of them, a program is one too. -/
theorem runSteps_map {performSeen : τ → T → T × R} (form : σ → τ) (see : S → T)
    (h : ∀ step s, (see (perform step s).1, (perform step s).2) = performSeen (form step) (see s))
    (steps : List σ) :
    ∀ s, (runSteps perform steps s).map (fun e => (e.1, see e.2)) =
      runSteps performSeen (steps.map form) (see s) := by
  induction steps with
  | nil => intro s; rfl
  | cons step rest ih =>
    intro s
    rw [runSteps, List.map_cons, List.map_cons, runSteps, ← h, ih]

theorem runSteps_keeps (see : S → T) (steps : List σ) :
    ∀ s, (∀ step ∈ steps, ∀ s, see (perform step s).1 = see s) →
      ∀ e ∈ runSteps perform steps s, see e.2 = see s := by
  induction steps with
  | nil => intro s _ e he; cases he
  | cons step rest ih =>
    intro s hsteps e he
    have hstep := hsteps step List.mem_cons_self s
    rcases List.mem_cons.mp he with rfl | he
    · exact hstep
    · exact (ih _ (fun s' hs => hsteps s' (List.mem_cons_of_mem _ hs)) e he).trans hstep

/-- If steps leave what they do not write as it is, then as long as one of the two names of a copy
is not written, it holds what both held after the step that made the copy. -/
theorem runSteps_copy_keeps {β : Type} {perform : σ → Registers β → Registers β × R}
    (writes : σ → List String)
    (hkeeps : ∀ step rs name, name ∉ writes step → (perform step rs).1.get? name = rs.get? name)
    {copying : σ} {rs : Registers β} {r target name : String} {value : β}
    (hcopying : (perform copying rs).1 = rs.copy r target) (hr : rs.get? r = some value)
    (hname : name ∈ [r, target]) {steps : List σ} (hwrites : ∀ step ∈ steps, name ∉ writes step) :
    ∀ e ∈ runSteps perform (copying :: steps) rs, e.2.get? name = some value := by
  have hcopied : (perform copying rs).1.get? name = some value := by
    rw [hcopying]
    exact Registers.get?_copy hr hname
  intro e he
  rcases List.mem_cons.mp he with rfl | he
  · exact hcopied
  · have hrest := runSteps_keeps (fun s : Registers β => s.get? name) steps _
      (fun step hstep s => hkeeps step s name (hwrites step hstep)) e he
    exact hrest.trans hcopied

end

end Aggregate
