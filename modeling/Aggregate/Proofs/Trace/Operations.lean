import Aggregate.Proofs.Trace.Stray

/-
  The operations of a run

  `Code.operations` lists what a program carries out when it is run in a context,
  one `Operation` after the other: the actions it comes to, the regions it opens
  and the scopes it leaves, each followed by an entry if it completes, and the
  scopes that a panic unwinds. It is read off the program as `Code.run` is.

  `Run.Consists` says how the list and the run belong together. The list leads to
  the context that the run ends in, it leaves only scopes that were opened in it,
  and where the run ends by a panic it ends with the operation that raised the
  panic and the scopes unwound from there (`operations_run`).
-/

namespace Aggregate

variable {w : Width} {reporting : Bool}

/-! ## Listing operations -/

def Step.fault? {α : Type} (s : Step w α) : Option Fault :=
  match s.result with
  | .ok _ => none
  | .error fault => some fault

/-- The fault of an operation, if it does not complete. -/
def Operation.fault? (reporting : Bool) : Operation w → Context w → Option Fault
  | .act a, c => (a.perform reporting c).fault?
  | .enter r, c => (c.enter reporting r).fault?
  | .leave, c => c.leave.fault?
  | .unwind, c => c.unwind.fault?
  | .observe, _ => none

/-- An operation, and the entry it is shown by if it completes. -/
def Operation.shown (reporting : Bool) (op : Operation w) (c : Context w) : List (Operation w) :=
  match op.fault? reporting c with
  | none => [op, .observe]
  | some _ => [op]

/-- What is carried out after a run, if it comes to its end. -/
def Run.following (next : Context w → List (Operation w)) (r : Run w) : List (Operation w) :=
  match r.ending with
  | .finished => next r.context
  | _ => []

/-- How the scope that a run took place in is left. -/
def Run.closing (reporting : Bool) (r : Run w) : List (Operation w) :=
  match r.ending with
  | .finished => Operation.leave.shown reporting r.context
  | .panicked _ => [.unwind]
  | .aborted => []

/-- What catching a panic adds: the entry with its fault. -/
def Run.catching (r : Run w) : List (Operation w) :=
  match r.ending with
  | .panicked _ => [.observe]
  | _ => []

/-- The operations of a loop, given those of its body. -/
def Run.loopOperations (reporting : Bool) (label : String) (bound stride : Word w)
    (body : Context w → Run w) (operations : Context w → List (Operation w)) :
    Nat → Context w → List (Operation w)
  | 0, _ => [.observe]
  | limit + 1, c =>
    if c.below bound then
      operations c ++ (body c).following ((Operation.act (.add stride)).shown reporting) ++
        (Run.round reporting label stride body c).following
          (loopOperations reporting label bound stride body operations limit)
    else [.observe]

/-- The operations that a program carries out, run in a context. -/
def Code.operations (reporting : Bool) : Code w → Context w → List (Operation w)
  | .done, _ => []
  | .act label action next, c =>
    (Operation.act action).shown reporting c ++
      ((action.perform reporting c).run label).following (next.operations reporting)
  | .within opened closed region body next, c =>
    .enter region :: match c.enter reporting region with
      | ⟨_, .error _⟩ => []
      | ⟨c, .ok ()⟩ =>
        .observe :: body.operations reporting (c.observe opened .nothing).context ++
          ((c.observe opened .nothing).andThen (body.run reporting)).closing reporting ++
          (c.visit reporting opened closed body).following (next.operations reporting)
  | .attempt label body next, c =>
    body.operations reporting c ++ (body.run reporting c).catching ++
      ((body.run reporting c).rescue label).following (next.operations reporting)
  | .loop label finished limit bound stride body next, c =>
    Run.loopOperations reporting label bound stride (body.run reporting)
        (body.operations reporting) limit c ++
      (Run.iterate reporting label finished bound stride (body.run reporting) limit 0 c).following
        (next.operations reporting)

/-- The operations one by one, each with the context that it finds. -/
def Context.moments (reporting : Bool) :
    List (Operation w) → Context w → List (Operation w × Context w)
  | [], _ => []
  | op :: ops, c => (op, c) :: moments reporting ops (op.perform reporting c)

theorem moments_append (ops more : List (Operation w)) (c : Context w) :
    c.moments reporting (ops ++ more) =
      c.moments reporting ops ++ (c.operate reporting ops).moments reporting more := by
  induction ops generalizing c with
  | nil => rfl
  | cons op ops ih => exact congrArg ((op, c) :: ·) (ih _)

/-- An operation of a run comes after some of the others, in the context that these lead to. -/
theorem exists_done_of_moment {op : Operation w} {d : Context w} (ops : List (Operation w)) :
    ∀ {c : Context w}, (op, d) ∈ c.moments reporting ops →
      ∃ done, done <+: ops ∧ d = c.operate reporting done := by
  induction ops with
  | nil => intro c h; cases h
  | cons first ops ih =>
    intro c h
    rcases List.mem_cons.mp h with h | h
    · exact ⟨[], List.nil_prefix, congrArg Prod.snd h⟩
    · obtain ⟨done, hdone, hd⟩ := ih h
      exact ⟨first :: done, List.cons_prefix_cons.mpr ⟨rfl, hdone⟩, hd⟩

/-- The traces that the entries among the operations show. -/
def Context.seen (reporting : Bool) (ops : List (Operation w)) (c : Context w) : List (Trace w) :=
  ((c.moments reporting ops).filter fun m => decide (m.1 = .observe)).map fun m => m.2.trace

theorem seen_append (ops more : List (Operation w)) (c : Context w) :
    c.seen reporting (ops ++ more) =
      c.seen reporting ops ++ (c.operate reporting ops).seen reporting more := by
  rw [Context.seen, moments_append, List.filter_append, List.map_append]
  rfl

/-! ## The open scopes -/

/-- Whether an operation leaves a scope. -/
def Operation.closes : Operation w → Bool
  | .leave | .unwind => true
  | _ => false

section
variable {c c' : Context w}

theorem pushScope_scopes {value : Word w} {size : Nat} (scope : Nat → Scope w)
    {result : Except Fault Unit} (h : c.pushScope reporting value size scope = ⟨c', result⟩) :
    c'.scopes.length = c.scopes.length + if result.isOk then 1 else 0 := by
  have hpush : (c.pushFrame reporting value size).context.scopes = c.scopes := rfl
  rw [Context.pushScope] at h
  split at h
  all_goals
    next heq =>
      rw [heq] at hpush
      cases h
      rw [← hpush]
      rfl

theorem enter_scopes {region : Region w} {result : Except Fault Unit}
    (h : c.enter reporting region = ⟨c', result⟩) :
    c'.scopes.length = c.scopes.length + if result.isOk then 1 else 0 := by
  cases region with
  | call tag => exact pushScope_scopes .call h
  | apply tag => exact pushScope_scopes .apply h
  | key key => exact pushScope_scopes .key h
  | cycle start => exact pushScope_scopes (.cycle · start) h
  | reset => cases h; rfl

theorem leave_scopes : c.leave.context.scopes = c.scopes.tail := by
  cases hs : c.scopes with
  | nil => rw [Context.leave_nil hs, hs]; rfl
  | cons scope outer =>
    cases hd : scope.depth? with
    | none => rw [Context.leave_reset hs hd]; rfl
    | some depth =>
      by_cases hb : c.trace.depth = depth
      · rw [Context.leave_balanced hs hd hb]; rfl
      · rw [Context.leave_unbalanced hs hd hb]; rfl

theorem unwind_scopes : c.unwind.context.scopes = c.scopes.tail := by
  cases hs : c.scopes with
  | nil => rw [Context.unwind_nil hs, hs]; rfl
  | cons scope outer =>
    cases hd : scope.depth? with
    | none => rw [Context.unwind_reset hs hd]; rfl
    | some depth => rw [Context.unwind_frame hs hd]; rfl

theorem rewrite_scopes (step : Word w → Word w) :
    (c.rewrite reporting step).context.scopes.length = c.scopes.length := by
  rw [Context.rewrite]
  split
  · next hs =>
    split
    · rfl
    · split
      · next hpop => exact congrArg (fun s => s.context.scopes.length) hpop.symm
      · rw [hs]; rfl
  · rfl

theorem stepCycle_fault? (step : Word w → Word w) :
    (c.stepCycle reporting step).fault? = (c.rewrite reporting step).fault? := by
  rw [Context.stepCycle]
  rcases c.rewrite reporting step with ⟨after, fault | ⟨⟩⟩ <;> rfl

theorem perform_scopes (a : Action w) :
    (a.perform reporting c).context.scopes.length = c.scopes.length := by
  have hstep : ∀ step, (c.stepCycle reporting step).context.scopes.length = c.scopes.length := by
    intro step
    rw [stepCycle_context, rewrite_scopes]
  cases a with
  | add n | sub n => exact hstep _
  | restore slot =>
    show (c.restore slot).scopes.length = _
    rw [Context.restore]
    split <;> rfl
  | push _ | pushWide _ | pop | clear | hash _ | describe | save _ | same _ | raise _ | index
  | compare _ => rfl

end

/-! ## Runs and their operations -/

/-- The run carries out the operations, which write its entries, and ends with `live` scopes of its
own still open, unless it is aborted. Those operations that leave a scope find more scopes than were
open at the start. A panic is the fault of the last operation that does not unwind, and a run is
aborted by the fault of one that does. -/
structure Run.Consists (reporting : Bool) (c : Context w) (live : Nat) (ops : List (Operation w))
    (r : Run w) : Prop where
  context : r.context = c.operate reporting ops
  entries : r.entries.map Entry.trace = c.seen reporting ops
  nested : ∀ m ∈ c.moments reporting ops, m.1.closes = true →
    c.scopes.length < m.2.scopes.length
  level : r.ending ≠ .aborted → r.context.scopes.length = c.scopes.length + live
  panicked : ∀ fault, r.ending = .panicked fault → ∃ done op unwound,
    ops = done ++ op :: List.replicate unwound .unwind ∧
      op.fault? reporting (c.operate reporting done) = some fault
  aborted : r.ending = .aborted → ∃ done, ops = done ++ [.unwind] ∧
    (c.operate reporting done).unwind.fault?.isSome = true

namespace Run.Consists

variable {c c' : Context w} {live : Nat} {ops more : List (Operation w)} {r s : Run w}

theorem one {op : Operation w} {ending : Ending} (hopen : op.closes = false)
    (hsilent : op ≠ .observe)
    (hlevel : (op.perform reporting c).scopes.length = c.scopes.length + live)
    (hending : ∀ fault, ending = .panicked fault → op.fault? reporting c = some fault)
    (hne : ending ≠ .aborted) :
    Consists reporting c live [op] ⟨op.perform reporting c, [], ending⟩ where
  context := rfl
  entries := by simp [Context.seen, Context.moments, hsilent]
  nested := by simp [Context.moments, hopen]
  level _ := hlevel
  panicked fault h := ⟨[], op, 0, rfl, hending fault h⟩
  aborted h := absurd h hne

theorem nothing : Consists reporting c 0 [] ⟨c, [], .finished⟩ where
  context := rfl
  entries := rfl
  nested := by simp [Context.moments]
  level _ := rfl
  panicked := by simp
  aborted := by simp

theorem observe (label : String) (reading : Reading w) :
    Consists reporting c 0 [.observe] (c.observe label reading) where
  context := rfl
  entries := rfl
  nested := by simp [Context.moments, Operation.closes]
  level _ := rfl
  panicked := by simp [Context.observe]
  aborted := by simp [Context.observe]

/-- Two runs, the second from where the first has come to its end. -/
theorem append {own : Nat} (h : Consists reporting c own ops r) (hf : r.ending = .finished)
    (hmore : Consists reporting r.context live more s) :
    Consists reporting c (own + live) (ops ++ more)
      ⟨s.context, r.entries ++ s.entries, s.ending⟩ := by
  have hlevel : r.context.scopes.length = c.scopes.length + own := h.level (by simp [hf])
  have hcontext : ∀ done, c.operate reporting (ops ++ done) = r.context.operate reporting done := by
    intro done
    rw [operate_append, ← h.context]
  exact {
    context := by rw [hcontext]; exact hmore.context
    entries := by rw [List.map_append, seen_append, h.entries, hmore.entries, h.context]
    nested := by
      intro m hm hcloses
      rw [moments_append, ← h.context] at hm
      rcases List.mem_append.mp hm with hm | hm
      · exact h.nested m hm hcloses
      · exact Nat.lt_of_le_of_lt (by omega) (hmore.nested m hm hcloses)
    level := by
      intro hne
      have hmore := hmore.level hne
      show s.context.scopes.length = _
      omega
    panicked := by
      intro fault hp
      obtain ⟨done, op, unwound, hops, hfault⟩ := hmore.panicked fault hp
      exact ⟨ops ++ done, op, unwound, by rw [hops, List.append_assoc], by rw [hcontext]; exact hfault⟩
    aborted := by
      intro ha
      obtain ⟨done, hops, hfault⟩ := hmore.aborted ha
      exact ⟨ops ++ done, by rw [hops, List.append_assoc], by rw [hcontext]; exact hfault⟩ }

theorem andThen {next : Context w → Run w} {operations : Context w → List (Operation w)}
    (h : Consists reporting c live ops r)
    (hnext : ∀ c, Consists reporting c 0 (operations c) (next c)) :
    Consists reporting c live (ops ++ r.following operations) (r.andThen next) := by
  cases hend : r.ending with
  | finished =>
    simp only [Run.following, Run.andThen, hend]
    exact h.append hend (hnext _)
  | panicked _ | aborted =>
    simp only [Run.following, Run.andThen, hend, List.append_nil]
    exact h

theorem step {s : Step w (Reading w)} (a : Action w) (label : String)
    (hcontext : s.context = (a.perform reporting c).context)
    (hfault : s.fault? = (a.perform reporting c).fault?) :
    Consists reporting c 0 ((Operation.act a).shown reporting c) (s.run label) := by
  have hone : ∀ ending, (∀ fault, ending = .panicked fault → s.fault? = some fault) →
      ending ≠ .aborted → Consists reporting c 0 [.act a] ⟨s.context, [], ending⟩ := by
    intro ending hending hne
    rw [hcontext]
    exact one rfl (by simp) (perform_scopes a) (fun fault h => hfault.symm.trans (hending fault h))
      hne
  rw [Operation.shown, Operation.fault?, ← hfault]
  cases hr : s.result with
  | ok reading =>
    simp only [Step.fault?, Step.run, hr]
    exact append (hone .finished (by simp) (by simp)) rfl (observe label reading)
  | error fault =>
    simp only [Step.fault?, Step.run, hr] at hone ⊢
    exact hone _ (fun fault' h => congrArg some (Ending.panicked.inj h)) (by simp)

theorem entered {region : Region w} (henter : c.enter reporting region = ⟨c', .ok ()⟩)
    (h : Consists reporting c' 0 ops r) :
    Consists reporting c 1 (.enter region :: ops) r := by
  have hlevel := enter_scopes henter
  have hopened : Operation.perform reporting (.enter region) c = c' := congrArg Step.context henter
  have hone : Consists reporting c 1 [.enter region] ⟨c', [], .finished⟩ := by
    rw [← hopened]
    exact one rfl (by simp) (by rw [hopened]; exact hlevel) (by simp) (by simp)
  exact append hone rfl h

theorem close {op : Operation w} {ending : Ending} (h : Consists reporting c 1 ops r)
    (hne : r.ending ≠ .aborted) (hsilent : op ≠ .observe)
    (hafter : op.perform reporting r.context = c') (hscopes : c'.scopes = r.context.scopes.tail)
    (hpanicked : ∀ fault, ending = .panicked fault → ∃ done last unwound,
      ops ++ [op] = done ++ last :: List.replicate unwound .unwind ∧
        last.fault? reporting (c.operate reporting done) = some fault)
    (haborted : ending = .aborted → op = .unwind ∧ r.context.unwind.fault?.isSome = true) :
    Consists reporting c 0 (ops ++ [op]) ⟨c', r.entries, ending⟩ := by
  have hlevel := h.level hne
  exact {
    context := by
      rw [operate_append, ← h.context]
      exact hafter.symm
    entries := by
      rw [seen_append, ← h.entries]
      simp [Context.seen, Context.moments, hsilent]
    nested := by
      intro m hm hcloses
      rw [moments_append, ← h.context] at hm
      rcases List.mem_append.mp hm with hm | hm
      · exact h.nested m hm hcloses
      · rw [List.mem_singleton.mp hm, hlevel]
        exact Nat.lt_succ_self _
    level := fun _ => by
      show c'.scopes.length = _
      rw [hscopes, List.length_tail, hlevel]
      rfl
    panicked := hpanicked
    aborted := fun ha => by
      obtain ⟨rfl, hfault⟩ := haborted ha
      exact ⟨ops, rfl, h.context ▸ hfault⟩ }

theorem leave_finished (h : Consists reporting c 1 ops r) (hf : r.ending = .finished)
    (label : String) :
    Consists reporting c 0 (ops ++ r.closing reporting) (r.leave label) := by
  have hne : r.ending ≠ .aborted := by simp [hf]
  have hscopes : r.context.leave.context.scopes = r.context.scopes.tail := leave_scopes
  rcases hleave : r.context.leave with ⟨after, fault | ⟨⟩⟩
  · have hafter : Operation.perform reporting .leave r.context = after :=
      congrArg Step.context hleave
    rw [hleave] at hscopes
    simp only [Run.closing, Run.leave, Run.andThen, Operation.shown, Operation.fault?,
      Step.fault?, hf, hleave, List.append_nil]
    refine h.close hne (by simp) hafter hscopes (fun fault' hp => ⟨ops, .leave, 0, rfl, ?_⟩)
      (by simp)
    rw [← h.context, ← Ending.panicked.inj hp]
    simp only [Operation.fault?, Step.fault?, hleave]
  · have hafter : Operation.perform reporting .leave r.context = after :=
      congrArg Step.context hleave
    rw [hleave] at hscopes
    simp only [Run.closing, Run.leave, Run.andThen, Operation.shown, Operation.fault?,
      Step.fault?, hf, hleave]
    have hclosed : Consists reporting c 0 (ops ++ [.leave]) ⟨after, r.entries, .finished⟩ :=
      h.close hne (by simp) hafter hscopes (by simp) (by simp)
    rw [show ops ++ [Operation.leave, .observe] = ops ++ [.leave] ++ [.observe] by simp]
    exact hclosed.append rfl (observe label _)

/-- A panic unwinds the scope, which aborts the run if it faults. -/
theorem leave_panicked (h : Consists reporting c 1 ops r) {fault : Fault}
    (hp : r.ending = .panicked fault) (label : String) :
    Consists reporting c 0 (ops ++ r.closing reporting) (r.leave label) := by
  have hne : r.ending ≠ .aborted := by simp [hp]
  have hscopes : r.context.unwind.context.scopes = r.context.scopes.tail := unwind_scopes
  obtain ⟨done, op, unwound, hops, hfault⟩ := h.panicked fault hp
  rcases hunwind : r.context.unwind with ⟨after, second | ⟨⟩⟩
  all_goals
    have hafter : Operation.perform reporting .unwind r.context = after :=
      congrArg Step.context hunwind
    rw [hunwind] at hscopes
    simp only [Run.closing, Run.leave, hp, hunwind]
  · exact h.close hne (by simp) hafter hscopes (by simp) fun _ =>
      ⟨rfl, by simp [Step.fault?, hunwind]⟩
  · refine h.close hne (by simp) hafter hscopes (fun fault' hp' => ?_) (by simp)
    refine ⟨done, op, unwound + 1, ?_, by rw [← Ending.panicked.inj hp']; exact hfault⟩
    rw [hops, List.append_assoc, List.cons_append, ← List.replicate_succ']

theorem leave (h : Consists reporting c 1 ops r) (label : String) :
    Consists reporting c 0 (ops ++ r.closing reporting) (r.leave label) := by
  cases hend : r.ending with
  | finished => exact h.leave_finished hend label
  | panicked fault => exact h.leave_panicked hend label
  | aborted =>
    simp only [Run.closing, Run.leave, hend, List.append_nil]
    exact { h with level := fun hne => absurd hend hne }

theorem rescue (h : Consists reporting c live ops r) (label : String) :
    Consists reporting c live (ops ++ r.catching) (r.rescue label) := by
  cases hend : r.ending with
  | panicked fault =>
    simp only [Run.catching, Run.rescue, hend]
    have hcaught : Consists reporting c live ops ⟨r.context, r.entries, .finished⟩ := {
      context := h.context
      entries := h.entries
      nested := h.nested
      level := fun _ => h.level (by simp [hend])
      panicked := by simp
      aborted := by simp }
    exact hcaught.append rfl (observe label _)
  | finished | aborted =>
    simp only [Run.catching, Run.rescue, hend, List.append_nil]
    exact h

/-- A loop, by induction on the rounds that are left. -/
theorem iterate {label finished : String} {bound stride : Word w} {body : Context w → Run w}
    {operations : Context w → List (Operation w)}
    (hbody : ∀ c, Consists reporting c 0 (operations c) (body c)) (limit : Nat) :
    ∀ (rounds : Nat) (c : Context w), Consists reporting c 0
      (Run.loopOperations reporting label bound stride body operations limit c)
      (Run.iterate reporting label finished bound stride body limit rounds c) := by
  induction limit with
  | zero => intro rounds c; exact observe _ _
  | succ limit ih =>
    intro rounds c
    rw [Run.loopOperations, Run.iterate]
    split
    · refine andThen (andThen (hbody c) fun c => ?_) (ih _)
      refine step (.add stride) label ?_ ?_
      · exact (stepCycle_context _).symm
      · show (c.rewrite reporting (· + stride)).silent.fault? = (c.stepCycle reporting _).fault?
        rw [stepCycle_fault?]
        rcases c.rewrite reporting (· + stride) with ⟨after, fault | ⟨⟩⟩ <;> rfl
    · exact observe _ _

end Run.Consists

/-- Every run of every program consists of its operations. -/
theorem operations_run (reporting : Bool) (code : Code w) :
    ∀ c : Context w, Run.Consists reporting c 0 (code.operations reporting c)
      (code.run reporting c) := by
  induction code with
  | done => intro c; exact .nothing
  | act label action next ih =>
    intro c
    exact .andThen (.step action label rfl rfl) ih
  | within opened closed region body next ihbody ihnext =>
    intro c
    rcases henter : c.enter reporting region with ⟨c', fault | ⟨⟩⟩
    -- A region that faults as it opens ends the run there.
    · have hfault : Operation.fault? reporting (.enter region) c = some fault := by
        simp only [Operation.fault?, Step.fault?, henter]
      have hlevel := enter_scopes henter
      have hcontext : Operation.perform reporting (.enter region) c = c' :=
        congrArg Step.context henter
      rw [Code.operations, Code.run, henter]
      show Run.Consists reporting c 0 [.enter region] ⟨c', [], .panicked fault⟩
      rw [← hcontext] at hlevel ⊢
      refine .one rfl (by simp) hlevel (fun fault' hp => ?_) (by simp)
      rw [← Ending.panicked.inj hp]
      exact hfault
    · rw [run_within henter, Code.operations, henter]
      have hopened : Run.Consists reporting c' 0
          (.observe :: body.operations reporting (c'.observe opened .nothing).context)
          ((c'.observe opened .nothing).andThen (body.run reporting)) :=
        .andThen (.observe opened .nothing) ihbody
      exact .andThen (.leave (.entered henter hopened) closed) ihnext
  | attempt label body next ihbody ihnext =>
    intro c
    exact .andThen (.rescue (ihbody c) label) ihnext
  | loop label finished limit bound stride body next ihbody ihnext =>
    intro c
    exact .andThen (.iterate ihbody limit 0 c) ihnext

end Aggregate
