import Aggregate.Proofs.Trace.Operations

/-
  What a caught panic leaves behind

  A panic that is caught takes away one frame for each scope it unwinds, whatever
  frame is on top, and none for a scope that raised it as it was left. So frames
  of different owners are exchanged, and yet their number is exact: over those
  that were there before, there stay as many as the program pushed by hand and
  did not pop, and one for each scope that was left under frames of others
  (`caught_panic_leaves`).

  The invariant is `Trace.Piled`. Each open scope was opened over a trace, and
  that trace with the frame of the scope still lies below all that is there.
  Whichever frame is taken away while a scope is unwound, the trace below the
  scope is still there, so the next scope can be unwound in its turn.
-/

namespace Aggregate

variable {w : Width} {reporting : Bool}

/-! ## Contained programs -/

/-- Whether a step spares the frames of the context `base`: there is no cycle to step, its frame is
not the one on top, or it is a cycle that was opened since. -/
def Context.sparesStep (base c : Context w) : Bool :=
  decide (c.counter? = none ∨ c.floor? ≠ some c.trace.depth ∨
    base.scopes.length < c.scopes.length)

/-- Whether an action of a program that was started in the context `base` keeps to the discipline,
and to frames above those it was started on: a pop takes away none of these, and no cycle but those
of the program itself has its frame replaced. -/
def Action.isContained (base c : Context w) (a : Action w) : Bool :=
  a.isOrderly c && match a with
    | .pop => decide (base.trace.depth < c.trace.depth)
    | .add _ | .sub _ => base.sparesStep c
    | _ => true

def Operation.isContained (base c : Context w) : Operation w → Bool
  | .act a => a.isContained base c
  | .enter region => region.isOrderly c
  | .leave | .unwind | .observe => true

/-- Whether all that a program carries out is contained. -/
def Code.isContained (reporting : Bool) (code : Code w) (c : Context w) : Bool :=
  (c.moments reporting (code.operations reporting c)).all fun m => m.1.isContained c m.2

/-! ## Counting frames -/

/-- Whether an operation pushes a frame by hand. -/
def Operation.isPush : Operation w → Bool
  | .act a => a.pushes?.isSome
  | _ => false

/-- Whether an operation pops a frame by hand. -/
def Operation.isPop : Operation w → Bool
  | .act .pop => true
  | _ => false

/-- Whether an operation leaves a scope that finds another number of frames than it expects. -/
def Operation.misses (c : Context w) : Operation w → Bool
  | .leave =>
    match c.leave.fault? with
    | some (.unbalanced _ _) => true
    | _ => false
  | _ => false

/-- The number of scopes that fail their check as they are left. -/
def Context.misses (reporting : Bool) (ops : List (Operation w)) (c : Context w) : Nat :=
  (c.moments reporting ops).countP fun m => m.1.misses m.2

/-! ## Scopes piled over a trace -/

/-- A trace that lies over the base, with scopes opened on the way up, the last one first. Each was
opened over a trace with room for a counter, and that trace with its frame is still there. -/
inductive Trace.Piled (base : Trace w) : List (Scope w) → Trace w → Prop where
  | bare {t : Trace w} : base.Over t → Piled base [] t
  | scope {outer : List (Scope w)} {below t : Trace w} {scope : Scope w} {value : Word w}
      {size : Nat} :
      Piled base outer below → scope.depth? = some (below.depth + 1) →
      below.used + w.frameBits < Trace.sizeLimit → (below.pushed value size).Over t →
      Piled base (scope :: outer) t

namespace Trace.Piled

variable {base t t' : Trace w} {scope : Scope w} {scopes outer : List (Scope w)}

theorem mono (h : Piled base scopes t) (ht : t.Over t') : Piled base scopes t' := by
  cases h with
  | bare hover => exact .bare (hover.trans ht)
  | scope hbelow hd hroom hover => exact .scope hbelow hd hroom (hover.trans ht)

theorem base_over (h : Piled base scopes t) : base.Over t := by
  induction h with
  | bare hover => exact hover
  | scope _ _ _ hover ih => exact ih.trans hover.of_pushed

theorem framed (h : Piled base (scope :: outer) t) : ∃ depth, scope.depth? = some depth := by
  cases h with
  | scope _ hd _ _ => exact ⟨_, hd⟩

theorem left (h : Piled base (scope :: outer) t) : Piled base outer t := by
  cases h with
  | scope hbelow _ _ hover => exact hbelow.mono hover.of_pushed

theorem unwound (h : Piled base (scope :: outer) t) :
    ∃ below value size, t = below.pushed value size ∧ Piled base outer below := by
  cases h with
  | scope hbelow _ _ hover =>
    cases hover with
    | refl => exact ⟨_, _, _, rfl, hbelow⟩
    | pushed value size hover =>
      exact ⟨_, value, size, rfl, hbelow.mono hover.of_pushed⟩

theorem popped (h : Piled base scopes t)
    (hfloor : ∀ depth, scopes.head?.bind Scope.depth? = some depth → depth < t.depth)
    (hbase : base.depth < t.depth) :
    ∃ below value size, t = below.pushed value size ∧ Piled base scopes below := by
  cases h with
  | bare hover =>
    obtain ⟨below, value, size, ht, hlower⟩ := hover.exists_pushed hbase
    exact ⟨below, value, size, ht, .bare hlower⟩
  | scope hbelow hd hroom hover =>
    obtain ⟨below, value, size, ht, hlower⟩ := hover.exists_pushed (hfloor _ hd)
    exact ⟨below, value, size, ht, .scope hbelow hd hroom hlower⟩

end Trace.Piled

/-- The context stands on the base: its scopes are those of the base and others, piled over the
trace of the base. -/
def Context.Stands (base c : Context w) : Prop :=
  ∃ inner, c.scopes = inner ++ base.scopes ∧ base.trace.Piled inner c.trace

namespace Context.Stands

variable {base c c' : Context w}

theorem refl : Stands base base := ⟨[], rfl, .bare .refl⟩

theorem congr (h : Stands base c) (ht : c'.trace = c.trace) (hs : c'.scopes = c.scopes) :
    Stands base c' := by
  obtain ⟨inner, hscopes, hpiled⟩ := h
  exact ⟨inner, hs.trans hscopes, ht ▸ hpiled⟩

theorem mono (h : Stands base c) (ht : c.trace.Over c'.trace) (hs : c'.scopes = c.scopes) :
    Stands base c' := by
  obtain ⟨inner, hscopes, hpiled⟩ := h
  exact ⟨inner, hs.trans hscopes, hpiled.mono ht⟩

theorem trace_over (h : Stands base c) : base.trace.Over c.trace := by
  obtain ⟨inner, -, hpiled⟩ := h
  exact hpiled.base_over

theorem scopes_eq (h : Stands base c) (hlevel : c.scopes.length = base.scopes.length) :
    c.scopes = base.scopes := by
  obtain ⟨inner, hscopes, -⟩ := h
  have hinner : inner = [] := by
    rw [hscopes, List.length_append] at hlevel
    exact List.length_eq_zero_iff.mp (by omega)
  rw [hscopes, hinner]
  rfl

/-- With more scopes open than those of the base, the innermost was opened since. -/
theorem exists_scope (h : Stands base c) (hlevel : base.scopes.length < c.scopes.length) :
    ∃ scope inner, c.scopes = scope :: (inner ++ base.scopes) ∧
      base.trace.Piled (scope :: inner) c.trace := by
  obtain ⟨inner, hscopes, hpiled⟩ := h
  cases inner with
  | nil => exact absurd hlevel (by rw [hscopes]; exact Nat.lt_irrefl _)
  | cons scope inner => exact ⟨scope, inner, hscopes, hpiled⟩

end Context.Stands

/-! ## Steps -/

/-- What an operation does that is carried out on the base: the context still stands on it, the
frames it adds and takes are accounted for, and a fault of it leaves the trace as it is. -/
structure Operation.Accounted (reporting : Bool) (base c : Context w) (op : Operation w) :
    Prop where
  stands : base.Stands (op.perform reporting c)
  counted : (op.perform reporting c).trace.depth + (if op.isPop then 1 else 0) + c.scopes.length =
    c.trace.depth + (if op.isPush then 1 else 0) + (if op.misses c then 1 else 0) +
      (op.perform reporting c).scopes.length
  faulted : ∀ fault, op.fault? reporting c = some fault → (op.perform reporting c).trace = c.trace

section
variable {base c : Context w}

theorem Region.frameBits_le {region : Region w} (h : region ≠ .reset) :
    w.frameBits ≤ region.size := by
  cases region with
  | call _ | apply _ | cycle _ => exact Nat.le_refl _
  | key _ => exact Nat.le_of_lt w.frameBits_lt_bits
  | reset => exact absurd rfl h

theorem accounted_enter (h : base.Stands c) {region : Region w}
    (hregion : region.isOrderly c = true) :
    (Operation.enter region).Accounted reporting base c := by
  obtain ⟨hframed, hroom⟩ := of_decide_eq_true hregion
  obtain ⟨c', henter, seat, hholds, -, hinside, -⟩ := enter_framed reporting hframed hroom
  obtain ⟨value, size, scope, ht, hs, hd⟩ := hinside c' hholds
  obtain ⟨inner, hscopes, hpiled⟩ := h
  have hsize := Region.frameBits_le hframed
  have hperform : Operation.perform reporting (.enter region) c = c' := congrArg Step.context henter
  exact {
    stands := by
      rw [hperform]
      have hover : (c.trace.pushed value size).Over c'.trace := by rw [ht]; exact .refl
      exact ⟨scope :: inner, by rw [hs, hscopes]; rfl, .scope hpiled hd (by omega) hover⟩
    counted := by
      simp only [hperform, ht, hs, Trace.pushed_depth, List.length_cons, Operation.isPop,
        Operation.isPush, Operation.misses, Bool.false_eq_true, if_false]
      omega
    faulted := by
      intro fault hfault
      simp [Operation.fault?, Step.fault?, henter] at hfault }

/-- Unwinding a scope takes the frame on top away, and does not fault. -/
theorem unwind_top (h : base.Stands c) (hlevel : base.scopes.length < c.scopes.length) :
    ∃ below value size, c.trace = below.pushed value size ∧
      c.unwind = ⟨{ c with trace := below, scopes := c.scopes.tail }, .ok ()⟩ ∧
      base.Stands { c with trace := below, scopes := c.scopes.tail } := by
  obtain ⟨scope, inner, hs, hpiled⟩ := h.exists_scope hlevel
  obtain ⟨depth, hd⟩ := hpiled.framed
  obtain ⟨below, value, size, ht, hbelow⟩ := hpiled.unwound
  refine ⟨below, value, size, ht, ?_, inner, by rw [hs]; rfl, hbelow⟩
  rw [Context.unwind_frame hs hd, hs]
  exact Context.popFrame_pushed ht

theorem accounted_unwind (h : base.Stands c) (hlevel : base.scopes.length < c.scopes.length) :
    Operation.unwind.Accounted reporting base c := by
  obtain ⟨below, value, size, ht, hunwind, hstands⟩ := unwind_top h hlevel
  have hperform : Operation.perform reporting .unwind c =
      { c with trace := below, scopes := c.scopes.tail } := congrArg Step.context hunwind
  exact {
    stands := by rw [hperform]; exact hstands
    counted := by
      simp only [hperform, ht, Trace.pushed_depth, List.length_tail, Operation.isPop,
        Operation.isPush, Operation.misses, Bool.false_eq_true, if_false]
      omega
    faulted := by
      intro fault hfault
      simp [Operation.fault?, Step.fault?, hunwind] at hfault }

/-- A scope is left with its frame, or it tells that the number of frames is not its own and leaves
them all there. -/
theorem accounted_leave (h : base.Stands c) (hlevel : base.scopes.length < c.scopes.length) :
    Operation.leave.Accounted reporting base c := by
  obtain ⟨scope, inner, hs, hpiled⟩ := h.exists_scope hlevel
  obtain ⟨depth, hd⟩ := hpiled.framed
  by_cases hb : c.trace.depth = depth
  · obtain ⟨below, value, size, ht, hbelow⟩ := hpiled.unwound
    have hleave : c.leave = ⟨{ c with trace := below, scopes := inner ++ base.scopes }, .ok ()⟩ :=
      (Context.leave_balanced hs hd hb).trans (Context.popFrame_pushed ht)
    have hperform : Operation.perform reporting .leave c =
        { c with trace := below, scopes := inner ++ base.scopes } := congrArg Step.context hleave
    exact {
      stands := by rw [hperform]; exact ⟨inner, rfl, hbelow⟩
      counted := by
        simp only [hperform, ht, hs, hleave, Trace.pushed_depth, List.length_cons,
          Operation.isPop, Operation.isPush, Operation.misses, Step.fault?, Bool.false_eq_true,
          if_false]
        omega
      faulted := by
        intro fault hfault
        simp [Operation.fault?, Step.fault?, hleave] at hfault }
  · have hleave := Context.leave_unbalanced hs hd hb
    have hperform : Operation.perform reporting .leave c =
        { c with scopes := inner ++ base.scopes } := congrArg Step.context hleave
    exact {
      stands := by rw [hperform]; exact ⟨inner, rfl, hpiled.left⟩
      counted := by
        simp only [hperform, hs, hleave, List.length_cons, Operation.isPop, Operation.isPush,
          Operation.misses, Step.fault?, Bool.false_eq_true, if_false, if_true]
        omega
      faulted := fun _ _ => by rw [hperform] }

/-- A cycle that is stepped keeps its place in the pile, with its frame replaced. One of the base is
stepped only where it is told that its frame is not on top. -/
theorem stands_rewrite (reporting : Bool) (h : base.Stands c) (step : Word w → Word w)
    (hown : base.sparesStep c = true) :
    base.Stands (c.rewrite reporting step).context ∧
      (c.rewrite reporting step).context.trace.depth = c.trace.depth ∧
      ∀ fault, (c.rewrite reporting step).fault? = some fault →
        (c.rewrite reporting step).context.trace = c.trace := by
  cases hc : c.counter? with
  | none =>
    rw [Context.rewrite_other hc]
    exact ⟨h, rfl, fun _ _ => rfl⟩
  | some counter =>
    obtain ⟨depth, outer, hs⟩ := Context.scopes_of_counter? hc
    by_cases hb : c.trace.depth = depth
    · have hfloor : c.floor? = some c.trace.depth := by
        rw [Context.floor?, hs, hb]
        rfl
      have hlevel : base.scopes.length < c.scopes.length := by
        rcases of_decide_eq_true hown with hnone | hne | hlevel
        · exact absurd (hc.symm.trans hnone) (by simp)
        · exact absurd hfloor hne
        · exact hlevel
      obtain ⟨scope, inner, hs', hpiled⟩ := h.exists_scope hlevel
      obtain ⟨rfl, rfl⟩ : Scope.cycle depth counter = scope ∧ outer = inner ++ base.scopes :=
        List.cons.inj (hs.symm.trans hs')
      cases hpiled with
      | @scope _ below _ _ value size hbelow hd hroom hover =>
        have hdepth : c.trace.depth = below.depth + 1 := hb.trans (Option.some.inj hd)
        have ht : c.trace = below.pushed value size := hover.eq_of_depth hdepth
        rw [Context.rewrite_balanced hs hb ht, Context.pushFrame_fits _ hroom]
        refine ⟨⟨.cycle depth (step counter) :: inner, rfl, ?_⟩, hdepth.symm, fun _ hfault => ?_⟩
        · exact .scope hbelow hd hroom .refl
        · cases hfault
    · rw [Context.rewrite_unbalanced hs hb]
      exact ⟨h, rfl, fun _ _ => rfl⟩

theorem Operation.Accounted.unchanged (h : base.Stands c) {op : Operation w}
    (hpop : op.isPop = false) (hpush : op.isPush = false) (hmiss : op.misses c = false)
    (ht : (op.perform reporting c).trace = c.trace)
    (hs : (op.perform reporting c).scopes = c.scopes) : op.Accounted reporting base c where
  stands := h.congr ht hs
  counted := by
    rw [ht, hs, hpop, hpush, hmiss]
    rfl
  faulted _ _ := ht

theorem accounted_push (h : base.Stands c) {a : Action w} {value : Word w} {size : Nat}
    (ha : a.pushes? = some (value, size)) (hroom : c.trace.used + size < Trace.sizeLimit) :
    (Operation.act a).Accounted reporting base c := by
  have hpush : a.perform reporting c = (c.pushFrame reporting value size).silent := by
    cases a <;> first | (cases ha; rfl) | cases ha
  have hpop : (Operation.act a).isPop = false := by
    cases a <;> first | rfl | cases ha
  have hfits : c.pushFrame reporting value size = _ := Context.pushFrame_fits value hroom
  have ht : (Operation.perform reporting (.act a) c).trace = c.trace.pushed value size := by
    rw [Operation.perform, hpush, hfits]
    rfl
  have hs : (Operation.perform reporting (.act a) c).scopes = c.scopes := by
    rw [Operation.perform, hpush, hfits]
    rfl
  exact {
    stands := h.mono (by rw [ht]; exact .pushed value size .refl) hs
    counted := by
      simp only [ht, hs, hpop, Trace.pushed_depth, Operation.isPush, Operation.misses, ha,
        Option.isSome_some, Bool.false_eq_true, if_false, if_true]
    faulted := by
      intro fault hfault
      rw [Operation.fault?, hpush, hfits] at hfault
      cases hfault }

theorem perform_pop {below : Trace w} {value : Word w} {size : Nat}
    (ht : c.trace = below.pushed value size) :
    Action.pop.perform reporting c = ⟨{ c with trace := below }, .ok .nothing⟩ := by
  show c.popFrame.silent = _
  rw [Context.popFrame_pushed ht]
  rfl

theorem accounted_pop (h : base.Stands c)
    (hfloor : ∀ depth, c.floor? = some depth → depth < c.trace.depth)
    (hbase : base.trace.depth < c.trace.depth) :
    (Operation.act .pop).Accounted reporting base c := by
  obtain ⟨inner, hscopes, hpiled⟩ := h
  have hinner : ∀ depth, inner.head?.bind Scope.depth? = some depth → depth < c.trace.depth := by
    intro depth hd
    apply hfloor
    rw [Context.floor?, hscopes]
    cases inner with
    | nil => cases hd
    | cons scope inner => exact hd
  obtain ⟨below, value, size, ht, hbelow⟩ := hpiled.popped hinner hbase
  have hperform : Operation.perform reporting (.act .pop) c = { c with trace := below } :=
    congrArg Step.context (perform_pop ht)
  exact {
    stands := by rw [hperform]; exact ⟨inner, hscopes, hbelow⟩
    counted := by
      simp only [hperform, ht, Trace.pushed_depth, Operation.isPop, Operation.isPush,
        Operation.misses, Action.pushes?, Option.isSome_none, Bool.false_eq_true, if_false, if_true]
    faulted := by
      intro fault hfault
      rw [Operation.fault?, perform_pop ht] at hfault
      cases hfault }

theorem accounted_step (h : base.Stands c) {a : Action w} (ha : a.isStep = true)
    (hown : base.sparesStep c = true) :
    (Operation.act a).Accounted reporting base c := by
  have hstep : ∃ step, a.perform reporting c = c.stepCycle reporting step := by
    cases a <;> first | exact ⟨_, rfl⟩ | cases ha
  have hpop : (Operation.act a).isPop = false := by
    cases a <;> first | rfl | cases ha
  have hpush : (Operation.act a).isPush = false := by
    cases a <;> first | rfl | cases ha
  obtain ⟨step, hstep⟩ := hstep
  have hperform : Operation.perform reporting (.act a) c =
      (c.rewrite reporting step).context := by
    rw [Operation.perform, hstep, stepCycle_context]
  obtain ⟨hstands, hdepth, hfaulted⟩ := stands_rewrite reporting h step hown
  exact {
    stands := by rw [hperform]; exact hstands
    counted := by
      rw [hperform, hdepth, hpop, hpush, rewrite_scopes]
      rfl
    faulted := by
      intro fault hfault
      rw [Operation.fault?, hstep, stepCycle_fault?] at hfault
      rw [hperform]
      exact hfaulted fault hfault }

theorem accounted_act (h : base.Stands c) {a : Action w} (ha : a.isContained base c = true) :
    (Operation.act a).Accounted reporting base c := by
  obtain ⟨horderly, hown⟩ := Bool.and_eq_true_iff.mp ha
  cases a with
  | push tag => exact accounted_push h rfl (of_decide_eq_true horderly)
  | pushWide key => exact accounted_push h rfl (of_decide_eq_true horderly)
  | pop =>
    refine accounted_pop h (fun depth hd => ?_) (of_decide_eq_true hown)
    rw [Action.isOrderly, hd] at horderly
    exact of_decide_eq_true horderly
  | add n | sub n => exact accounted_step h rfl hown
  | clear | restore _ => cases horderly
  | hash _ | describe | save _ | same _ | raise _ | index | compare _ =>
    exact .unchanged h rfl rfl rfl rfl rfl

/-- Whatever a contained program does is accounted for, if it leaves no scope of the base. -/
theorem accounted (h : base.Stands c) {op : Operation w} (hop : op.isContained base c = true)
    (hcloses : op.closes = true → base.scopes.length < c.scopes.length) :
    op.Accounted reporting base c := by
  cases op with
  | act a => exact accounted_act h hop
  | enter region => exact accounted_enter h hop
  | leave => exact accounted_leave h (hcloses rfl)
  | unwind => exact accounted_unwind h (hcloses rfl)
  | observe => exact .unchanged h rfl rfl rfl rfl rfl

end

/-! ## Runs -/

section
variable {base c : Context w}

/-- The operations stay on the base: the context stands on it after each of them, and at the end
the frames are those of the start, with what was added and taken by hand, with one for each scope
that is still open and one for each that missed its own. -/
structure Context.Stays (reporting : Bool) (base c : Context w) (ops : List (Operation w)) :
    Prop where
  stands : ∀ done, done <+: ops → base.Stands (c.operate reporting done)
  counted : (c.operate reporting ops).trace.depth + ops.countP Operation.isPop + c.scopes.length =
    c.trace.depth + ops.countP Operation.isPush + c.misses reporting ops +
      (c.operate reporting ops).scopes.length

theorem stays_operate (ops : List (Operation w)) :
    ∀ {c : Context w}, base.Stands c →
      (∀ m ∈ c.moments reporting ops, m.1.isContained base m.2 = true) →
      (∀ m ∈ c.moments reporting ops, m.1.closes = true →
        base.scopes.length < m.2.scopes.length) → base.Stays reporting c ops := by
  induction ops with
  | nil =>
    intro c h _ _
    refine ⟨fun done hdone => ?_, rfl⟩
    rw [List.prefix_nil.mp hdone]
    exact h
  | cons op ops ih =>
    intro c h hcontained hnested
    have hfirst : op.Accounted reporting base c :=
      accounted h (hcontained _ List.mem_cons_self) (hnested _ List.mem_cons_self)
    have hrest := ih hfirst.stands (fun m hm => hcontained m (List.mem_cons_of_mem _ hm))
      (fun m hm => hnested m (List.mem_cons_of_mem _ hm))
    constructor
    · intro done hdone
      rcases List.prefix_cons_iff.mp hdone with rfl | ⟨rest, rfl, hrest'⟩
      · exact h
      · exact hrest.stands rest hrest'
    · have hop := hfirst.counted
      have hops := hrest.counted
      simp only [Context.misses, Context.moments, List.countP_cons] at hops ⊢
      show (Context.operate reporting ops (op.perform reporting c)).trace.depth + _ + _ =
        _ + (Context.operate reporting ops (op.perform reporting c)).scopes.length
      omega

theorem operate_unwind (n : Nat) :
    ∀ {c : Context w}, base.Stands c →
      (∀ m ∈ c.moments reporting (List.replicate n .unwind), m.1.closes = true →
        base.scopes.length < m.2.scopes.length) →
      (c.operate reporting (List.replicate n .unwind)).trace.frames = c.trace.frames.drop n := by
  induction n with
  | zero => intro c _ _; rfl
  | succ n ih =>
    intro c h hlevel
    obtain ⟨below, value, size, ht, hunwind, hstands⟩ :=
      unwind_top h (hlevel _ List.mem_cons_self rfl)
    have hperform : Operation.perform reporting .unwind c =
        { c with trace := below, scopes := c.scopes.tail } := congrArg Step.context hunwind
    have hrest := ih (hperform.symm ▸ hstands) fun m hm => hlevel m (List.mem_cons_of_mem _ hm)
    rw [List.replicate_succ, Context.operate, List.foldl_cons]
    refine hrest.trans ?_
    rw [hperform, ht]
    rfl

end

theorem Trace.Over.frames_drop {base t : Trace w} (h : base.Over t) :
    ∀ {extra : Nat}, t.depth = base.depth + extra → t.frames.drop extra = base.frames := by
  induction h with
  | refl =>
    intro extra hd
    obtain rfl : extra = 0 := by omega
    rfl
  | @pushed t value size h ih =>
    intro extra hd
    have hle := h.depth_le
    rw [Trace.pushed_depth] at hd
    obtain ⟨n, rfl⟩ : ∃ n, extra = n + 1 := ⟨extra - 1, by omega⟩
    exact ih (by omega)

theorem operate_pops (reporting : Bool) {base : Trace w} (extra : Nat) :
    ∀ {c : Context w}, base.Over c.trace → c.trace.depth = base.depth + extra →
      (c.operate reporting (List.replicate extra (.act .pop))).trace = base ∧
        ∀ m ∈ c.moments reporting (List.replicate extra (.act .pop)),
          m.1.fault? reporting m.2 = none := by
  induction extra with
  | zero =>
    intro c h hd
    exact ⟨h.eq_of_depth hd, fun m hm => by cases hm⟩
  | succ extra ih =>
    intro c h hd
    obtain ⟨below, value, size, ht, hbelow⟩ := h.exists_pushed (by omega)
    have hperform : Operation.perform reporting (.act .pop) c = { c with trace := below } :=
      congrArg Step.context (perform_pop ht)
    rw [ht, Trace.pushed_depth] at hd
    obtain ⟨htrace, hfaults⟩ := ih (c := { c with trace := below }) hbelow (by simp only; omega)
    rw [List.replicate_succ, Context.operate, List.foldl_cons, Context.moments, hperform]
    refine ⟨htrace, fun m hm => ?_⟩
    rcases List.mem_cons.mp hm with rfl | hm
    · show (Action.pop.perform reporting c).fault? = none
      rw [perform_pop ht]
      rfl
    · exact hfaults m hm

/-! ## Caught panics -/

/-- What is left over a context once the operations have ended in a fault that was caught: the
scopes and the frames that were there, and extra frames on top. There are as many of these as were
pushed and not popped by hand, and one for each scope that missed its own. They are the lowest of
those that the fault was raised over, and popped one by one they give back the trace. -/
structure Context.Remains (reporting : Bool) (c : Context w) (ops : List (Operation w))
    (fault : Fault) (extra : Nat) (left : Context w) : Prop where
  scopes : left.scopes = c.scopes
  depth : left.trace.depth = c.trace.depth + extra
  kept : left.trace.frames.drop extra = c.trace.frames
  counted : extra + ops.countP Operation.isPop =
    ops.countP Operation.isPush + c.misses reporting ops
  lowest : ∃ done op unwound, ops = done ++ op :: List.replicate unwound .unwind ∧
    op.fault? reporting (c.operate reporting done) = some fault ∧
    left.trace.frames = (c.operate reporting done).trace.frames.drop unwound
  popped : (left.operate reporting (List.replicate extra (.act .pop))).trace = c.trace
  pops : ∀ m ∈ left.moments reporting (List.replicate extra (.act .pop)),
    m.1.fault? reporting m.2 = none

section
variable {c left : Context w} {ops : List (Operation w)} {r : Run w}

/-- No scope that a contained run unwinds faults. -/
theorem not_aborted (h : r.Consists reporting c 0 ops) (hstays : c.Stays reporting c ops) :
    r.ending ≠ .aborted := by
  intro ha
  obtain ⟨done, rfl, hfault⟩ := h.aborted ha
  have hlast : (Operation.unwind, c.operate reporting done) ∈
      c.moments reporting (done ++ [.unwind]) := by
    rw [moments_append]
    exact List.mem_append_right _ List.mem_cons_self
  obtain ⟨below, value, size, -, hunwind, -⟩ :=
    unwind_top (hstays.stands done (List.prefix_append _ _)) (h.nested _ hlast rfl)
  rw [hunwind] at hfault
  cases hfault

theorem lowest_remain (h : r.Consists reporting c 0 ops) (hstays : c.Stays reporting c ops)
    (hcontained : ∀ m ∈ c.moments reporting ops, m.1.isContained c m.2 = true) {fault : Fault}
    (hp : r.ending = .panicked fault) :
    ∃ done op unwound, ops = done ++ op :: List.replicate unwound .unwind ∧
      op.fault? reporting (c.operate reporting done) = some fault ∧
      r.context.trace.frames = (c.operate reporting done).trace.frames.drop unwound := by
  obtain ⟨done, op, unwound, hops, hfault⟩ := h.panicked fault hp
  refine ⟨done, op, unwound, hops, hfault, ?_⟩
  have hcontext := h.context
  have hnested := h.nested
  subst hops
  rw [moments_append] at hcontained hnested
  have hop : op.Accounted reporting c (c.operate reporting done) :=
    accounted (hstays.stands done (List.prefix_append _ _))
      (hcontained _ (List.mem_append_right _ List.mem_cons_self))
      (hnested _ (List.mem_append_right _ List.mem_cons_self))
  have hunwound : (Context.operate reporting (List.replicate unwound .unwind)
      (op.perform reporting (c.operate reporting done))).trace.frames =
      (op.perform reporting (c.operate reporting done)).trace.frames.drop unwound :=
    operate_unwind unwound hop.stands fun m hm =>
      hnested m (List.mem_append_right _ (List.mem_cons_of_mem _ hm))
  rw [hcontext, operate_append, ← hop.faulted fault hfault]
  exact hunwound

theorem remains_panicked (h : r.Consists reporting c 0 ops) (hstays : c.Stays reporting c ops)
    (hcontained : ∀ m ∈ c.moments reporting ops, m.1.isContained c m.2 = true) {fault : Fault}
    (hp : r.ending = .panicked fault) (ht : left.trace = r.context.trace)
    (hs : left.scopes = r.context.scopes) :
    ∃ extra, c.Remains reporting ops fault extra left := by
  have hlevel : r.context.scopes.length = c.scopes.length := h.level (by simp [hp])
  have hstands : c.Stands r.context := by
    rw [h.context]
    exact hstays.stands ops List.prefix_rfl
  have hover : c.trace.Over left.trace := ht ▸ hstands.trace_over
  obtain ⟨extra, hdepth⟩ := Nat.exists_eq_add_of_le hover.depth_le
  obtain ⟨hpopped, hpops⟩ := operate_pops reporting extra hover hdepth
  have hcounted := hstays.counted
  rw [← h.context, ← ht] at hcounted
  exact ⟨extra, {
    scopes := hs.trans (hstands.scopes_eq hlevel)
    depth := hdepth
    kept := hover.frames_drop hdepth
    counted := by omega
    lowest := by
      rw [ht]
      exact lowest_remain h hstays hcontained hp
    popped := hpopped
    pops := hpops }⟩

end

/-- Run in a catch block, a contained program is never aborted, and whatever it does, the frames
that were there at the start stay on the trace as they are. If it panics and is caught, the frames
over these are those that it pushed by hand and did not pop, in number, and one for each scope that
missed its own frame as it was left. -/
theorem caught_panic_leaves (reporting : Bool) {body : Code w} {c : Context w}
    (contained : body.isContained reporting c = true) :
    Run.Consists reporting c 0 (body.operations reporting c) (body.run reporting c) ∧
    (body.run reporting c).ending ≠ .aborted ∧
    (∀ done, done <+: body.operations reporting c →
      c.trace.Over (c.operate reporting done).trace) ∧
    ∀ (fault : Fault) (label : String), (body.run reporting c).ending = .panicked fault →
      ((body.run reporting c).rescue label).ending = .finished ∧
      ∃ extra, c.Remains reporting (body.operations reporting c) fault extra
        ((body.run reporting c).rescue label).context := by
  have hruns := operations_run reporting body c
  have hcontained := List.all_eq_true.mp contained
  have hstays : c.Stays reporting c (body.operations reporting c) :=
    stays_operate _ .refl hcontained hruns.nested
  refine ⟨hruns, not_aborted hruns hstays, fun done hdone => (hstays.stands done hdone).trace_over,
    fun fault label hp => ?_⟩
  have hrescue : ((body.run reporting c).rescue label).ending = .finished ∧
      ((body.run reporting c).rescue label).context.trace = (body.run reporting c).context.trace ∧
      ((body.run reporting c).rescue label).context.scopes = (body.run reporting c).context.scopes := by
    rw [Run.rescue, hp]
    exact ⟨rfl, rfl, rfl⟩
  obtain ⟨hending, ht, hs⟩ := hrescue
  exact ⟨hending, remains_panicked hruns hstays hcontained hp ht hs⟩

/-- The body of a catch block: a call with a stray frame in it, a cycle that panics as it is stepped
over a key and is caught, a pop of one of the two frames that this leaves, and a key that is left
under a stray frame. -/
def leakyBody : Code .short :=
  .within "call+" "call" (.call 5)
    (.act "push" (.push 3)
      (.attempt "caught"
        (.within "cycle+" "cycle" (.cycle 7)
          (.act "push_wide" (.pushWide 9) (.act "advance" .advance .done)) .done)
        (.act "pop" .pop
          (.within "key+" "key" (.key 0xBEEF) (.act "push" (.push 2) .done) .done)))) .done

theorem caught_panic_leaves_leakyBody :
    leakyBody.isContained true (.onTrace ⟨0x1234, 16, [⟨0x1234, 16⟩]⟩) = true ∧
      (leakyBody.run true (.onTrace ⟨0x1234, 16, [⟨0x1234, 16⟩]⟩)).ending =
        .panicked (.unbalanced 5 4) ∧
      (leakyBody.operations true (.onTrace ⟨0x1234, 16, [⟨0x1234, 16⟩]⟩)).countP
        Operation.isPush = 3 ∧
      (leakyBody.operations true (.onTrace ⟨0x1234, 16, [⟨0x1234, 16⟩]⟩)).countP
        Operation.isPop = 1 ∧
      Context.misses true (leakyBody.operations true (.onTrace ⟨0x1234, 16, [⟨0x1234, 16⟩]⟩))
        (.onTrace ⟨0x1234, 16, [⟨0x1234, 16⟩]⟩) = 1 ∧
      Context.Remains true (.onTrace ⟨0x1234, 16, [⟨0x1234, 16⟩]⟩)
        (leakyBody.operations true (.onTrace ⟨0x1234, 16, [⟨0x1234, 16⟩]⟩)) (.unbalanced 5 4) 3
        ((leakyBody.run true (.onTrace ⟨0x1234, 16, [⟨0x1234, 16⟩]⟩)).rescue "caught").context := by
  have contained : leakyBody.isContained true (.onTrace ⟨0x1234, 16, [⟨0x1234, 16⟩]⟩) = true := by
    decide
  have panicked : (leakyBody.run true (.onTrace ⟨0x1234, 16, [⟨0x1234, 16⟩]⟩)).ending =
      .panicked (.unbalanced 5 4) := by decide
  obtain ⟨-, -, -, hcaught⟩ := caught_panic_leaves true contained
  obtain ⟨-, extra, hremains⟩ := hcaught _ "caught" panicked
  have hdepth : ((leakyBody.run true (.onTrace ⟨0x1234, 16, [⟨0x1234, 16⟩]⟩)).rescue
      "caught").context.trace.depth = 4 := by decide
  obtain rfl : extra = 3 := by
    have hextra : 4 = 1 + extra := hdepth.symm.trans hremains.depth
    omega
  exact ⟨contained, panicked, by decide, by decide, by decide, hremains⟩

end Aggregate
