import Aggregate.Proofs.Trace.Shadow
import Aggregate.Proofs.Trace.Salted

/-
  What a build that reports has lost without a report

  In a reporting build a run that has raised no warning has lost nothing on the
  way: every value fits its frame, and the frames lie side by side (`Lossless`).
  Pushing another such value is then what salting the hash with it is
  (`hash_cons`), so frame by frame the values can be read off the hash
  (`lossless_inj`).

  Two runs that do the same with different values can so be told apart by their
  hashes, and their salts as well as long as the frames leave room. A trace that
  is filled exactly takes any salt without a warning, and there a difference of
  the salts can make up for one of the values (`silent_collision`); it cannot for
  anything else (`quiet_hash_tells`).
-/

namespace Aggregate

variable {w : Width}

/-! ## Paths without a loss -/

namespace Path

/-- Every value fits its frame, and the frames lie side by side. -/
def Lossless : Path w → Prop
  | [] => True
  | x :: below =>
    0 < x.size ∧ x.value ≤ lowMask x.size ∧ x.size + size below ≤ w.bits ∧ Lossless below

theorem Lossless.size_le {p : Path w} (h : p.Lossless) : p.size ≤ w.bits := by
  cases p with
  | nil => exact Nat.zero_le _
  | cons x below => rw [size_cons]; exact h.2.2.1

theorem Lossless.below_lt {x : Pushed w} {below : Path w} (h : Lossless (x :: below)) :
    below.size < w.bits := by
  obtain ⟨hpos, -, hroom, -⟩ := h
  omega

theorem Lossless.value_lt {x : Pushed w} {below : Path w} (h : Lossless (x :: below)) :
    x.value.toNat < Nat.pow 2 (w.bits - below.size) := by
  obtain ⟨-, hvalue, hroom, -⟩ := h
  have hlt : x.value.toNat < Nat.pow 2 x.size := (le_lowMask_iff (by omega)).mp hvalue
  exact Nat.lt_of_lt_of_le hlt (Nat.pow_le_pow_right (by decide) (by omega))

theorem hash_cons {x : Pushed w} {below : Path w} (h : Lossless (x :: below)) :
    (trace (x :: below)).hash = below.trace.salted x.value := by
  have hbelow := h.value_lt
  obtain ⟨hpos, hvalue, hroom, -⟩ := h
  have hlt : x.value.toNat < Nat.pow 2 x.size := (le_lowMask_iff (by omega)).mp hvalue
  exact (salted_eq_hash (fold_of_lt hpos hlt) (.inr hbelow)).symm

/-- The hash tells the values. -/
theorem lossless_inj {p q : Path w} (hp : p.Lossless) (hq : q.Lossless)
    (hsizes : p.map Pushed.size = q.map Pushed.size) (h : p.trace.hash = q.trace.hash) : p = q := by
  induction p generalizing q with
  | nil => exact (List.map_eq_nil_iff.mp hsizes.symm).symm
  | cons x below ih =>
    cases q with
    | nil => cases hsizes
    | cons y below' =>
      obtain ⟨hsize, hbelow⟩ := List.cons.inj hsizes
      have htotal : size below = size below' := congrArg total hbelow
      have hroom : size below < w.bits := hp.below_lt
      rw [hash_cons hp, hash_cons hq] at h
      have hrest : below = below' :=
        ih hp.2.2.2 hq.2.2.2 hbelow (salted_frames htotal hroom h)
      have hvalue : x.value = y.value :=
        salted_salt htotal hroom hp.value_lt (htotal ▸ hq.value_lt) h
      obtain ⟨value, size⟩ := x
      obtain ⟨value', size'⟩ := y
      cases hsize
      cases hvalue
      rw [hrest]

section
variable {p q : Path w} {s t : Word w}

theorem salted_inj_of_room (hp : p.Lossless) (hq : q.Lossless)
    (hsizes : p.map Pushed.size = q.map Pushed.size) (hroom : p.size < w.bits)
    (hs : s.toNat < Nat.pow 2 (w.bits - p.size)) (ht : t.toNat < Nat.pow 2 (w.bits - q.size))
    (h : p.trace.salted s = q.trace.salted t) : p = q ∧ s = t := by
  have htotal : p.size = q.size := congrArg total hsizes
  exact ⟨lossless_inj hp hq hsizes (salted_frames htotal hroom h),
    salted_salt htotal hroom hs (htotal ▸ ht) h⟩

/-- Once they fill the word, it tells one of the two if the other is known. -/
theorem salted_inj_of_full (hp : p.Lossless) (hq : q.Lossless)
    (hsizes : p.map Pushed.size = q.map Pushed.size) (hfull : w.bits ≤ p.size)
    (h : p.trace.salted s = q.trace.salted t) : p = q ↔ s = t := by
  constructor
  · intro hpath
    rw [← hpath] at h
    exact (salted_inj_full hfull).mp h
  · intro hsalt
    rw [hsalt] at h
    exact lossless_inj hp hq hsizes ((salted_same (congrArg total hsizes)).mp h)

end

end Path

/-! ## Runs that do the same -/

/-- Two actions of the same kind that push, take away or clear; what they push may differ. -/
inductive Alike : Action w → Action w → Prop where
  | push (tag tag' : Word w) : Alike (.push tag) (.push tag')
  | pushWide (key key' : Word w) : Alike (.pushWide key) (.pushWide key')
  | pop : Alike .pop .pop
  | clear : Alike .clear .clear

section
variable {a b : Action w} {s s' : Shadow w}

theorem Alike.symm (h : Alike a b) : Alike b a := by
  cases h with
  | push tag tag' => exact .push tag' tag
  | pushWide key key' => exact .pushWide key' key
  | pop => exact .pop
  | clear => exact .clear

theorem Alike.sizes (h : Alike a b)
    (hsizes : s.path.map Pushed.size = s'.path.map Pushed.size) :
    (s.act a).path.map Pushed.size = (s'.act b).path.map Pushed.size := by
  cases h with
  | push tag tag' => exact congrArg (w.frameBits :: ·) hsizes
  | pushWide key key' => exact congrArg (w.bits :: ·) hsizes
  | pop =>
    show s.path.tail.map Pushed.size = s'.path.tail.map Pushed.size
    rw [List.map_tail, List.map_tail, hsizes]
  | clear => rfl

theorem sizes_run {acts acts' : List (Action w)} (h : acts.Forall₂ Alike acts') :
    ∀ {s s' : Shadow w}, s.path.map Pushed.size = s'.path.map Pushed.size →
      (s.operate (acts.map .act)).path.map Pushed.size =
        (s'.operate (acts'.map .act)).path.map Pushed.size := by
  induction h with
  | nil => intro s s' hsizes; exact hsizes
  | cons hact _ ih => intro s s' hsizes; exact ih (hact.sizes hsizes)

end

/-! ## Runs without a warning -/

section
variable {c : Context w} {s : Shadow w} {a b : Action w} {value : Word w} {size : Nat}

theorem frameWarnings_nil {t : Trace w} (hused : t.used ≤ w.bits) (hsize : size ≤ w.bits)
    (h : t.frameWarnings value size = []) : value ≤ lowMask size ∧ t.used + size ≤ w.bits := by
  obtain ⟨hfolded, hwrapped⟩ := List.append_eq_nil_iff.mp h
  -- Two widths are far below the limit of the total size.
  have hlimit : w.bits + w.bits < Trace.sizeLimit := by cases w <;> decide
  constructor
  · refine BitVec.not_lt.mp fun hlt => ?_
    rw [if_pos hlt] at hfolded
    cases hfolded
  · refine Nat.not_lt.mp fun hlt => ?_
    rw [if_pos ⟨hlt, by omega⟩] at hwrapped
    cases hwrapped

theorem lossless_push (h : c.Follows s) (hl : s.path.Lossless) (hpos : 0 < size)
    (hsize : size ≤ w.bits) (hquiet : (c.pushFrame true value size).context.pending = []) :
    (c.pushFrame true value size).context.Follows (s.push value size) ∧
      (s.push value size).path.Lossless := by
  have hused : c.trace.used = s.path.size := by rw [h.trace, Path.trace_used]
  have hwarnings : c.trace.frameWarnings value size = [] := (List.append_eq_nil_iff.mp hquiet).2
  obtain ⟨hvalue, hroom⟩ := frameWarnings_nil (hused ▸ hl.size_le) hsize hwarnings
  rw [hused, Nat.add_comm] at hroom
  have hlossless : (s.push value size).path.Lossless := ⟨hpos, hvalue, hroom, hl⟩
  have hfits : (s.push value size).Fits :=
    Nat.lt_of_le_of_lt hlossless.size_le (by cases w <;> decide)
  exact ⟨follows_pushFrame h hfits, hlossless⟩

theorem lossless_act (hact : Alike a b) (h : c.Follows s) (hl : s.path.Lossless)
    (hquiet : (a.perform true c).context.pending = []) :
    (a.perform true c).context.Follows (s.act a) ∧ (s.act a).path.Lossless := by
  cases hact with
  | push tag tag' => exact lossless_push h hl w.frameBits_pos (Nat.le_of_lt w.frameBits_lt_bits) hquiet
  | pushWide key key' => exact lossless_push h hl w.bits_pos (Nat.le_refl _) hquiet
  | pop =>
    refine ⟨follows_popFrame h, ?_⟩
    show Path.Lossless s.path.tail
    cases hp : s.path with
    | nil => trivial
    | cons x below => rw [hp] at hl; exact hl.2.2.2
  | clear => exact ⟨⟨rfl, h.scopes, h.slots⟩, trivial⟩

theorem pending_grows (hact : Alike a b) : c.pending <+: (a.perform true c).context.pending := by
  cases hact with
  | push tag tag' => exact List.prefix_append _ _
  | pushWide key key' => exact List.prefix_append _ _
  | pop => exact List.prefix_refl _
  | clear => exact List.prefix_refl _

theorem pending_grows_run {acts acts' : List (Action w)} (h : acts.Forall₂ Alike acts') :
    ∀ c : Context w, c.pending <+: (c.operate true (acts.map .act)).pending := by
  induction h with
  | nil => intro c; exact List.prefix_refl _
  | cons hact _ ih => intro c; exact (pending_grows hact).trans (ih _)

theorem lossless_run {acts acts' : List (Action w)} (h : acts.Forall₂ Alike acts') :
    ∀ {c : Context w} {s : Shadow w}, c.Follows s → s.path.Lossless →
      (c.operate true (acts.map .act)).pending = [] →
        (c.operate true (acts.map .act)).Follows (s.operate (acts.map .act)) ∧
          (s.operate (acts.map .act)).path.Lossless := by
  induction h with
  | nil => intro c s hc hl _; exact ⟨hc, hl⟩
  | @cons a b acts acts' hact hrest ih =>
    intro c s hc hl hquiet
    have hfirst : (a.perform true c).context.pending = [] := by
      have hlater := pending_grows_run hrest (a.perform true c).context
      exact List.prefix_nil.mp (hquiet ▸ hlater)
    obtain ⟨hc', hl'⟩ := lossless_act hact hc hl hfirst
    exact ih hc' hl' hquiet

theorem saltWarnings_nil {p : Path w} {salt : Word w} (hroom : p.size < w.bits)
    (h : p.trace.saltWarnings salt = []) : salt.toNat < Nat.pow 2 (w.bits - p.size) := by
  have hunsaturated : p.trace.isSaturated = false := decide_eq_false (Nat.not_le.mpr hroom)
  refine Nat.not_le.mp fun hge => ?_
  rw [Trace.saltWarnings_eq, if_pos ⟨hunsaturated, hge⟩] at h
  cases h

end

/-! ## Two runs -/

/-- The context of a reporting build after actions on an empty trace. -/
def reported (acts : List (Action w)) : Context w :=
  (Context.onTrace .empty).operate true (acts.map .act)

/-- The path after actions from an empty one. -/
def pathOf (acts : List (Action w)) : Path w := (Shadow.new.operate (acts.map .act)).path

section
variable {acts acts' : List (Action w)} {salt : Word w}

theorem reported_append (acts : List (Action w)) (salt : Word w) :
    (reported (acts ++ [.hash salt])).pending =
      (reported acts).pending ++ (reported acts).trace.saltWarnings salt := by
  rw [reported, List.map_append, operate_append]
  rfl

/-- What a run and the reading of a hash without a warning come to. -/
theorem lossless_reported (h : acts.Forall₂ Alike acts')
    (hquiet : (reported (acts ++ [.hash salt])).pending = []) :
    (reported acts).trace = (pathOf acts).trace ∧ (pathOf acts).Lossless ∧
      (reported acts).trace.saltWarnings salt = [] := by
  rw [reported_append] at hquiet
  obtain ⟨hrun, hsalt⟩ := List.append_eq_nil_iff.mp hquiet
  obtain ⟨hfollows, hlossless⟩ := lossless_run h follows_new trivial hrun
  exact ⟨hfollows.trace, hlossless, hsalt⟩

end

/-- Two runs from an empty trace that do the same with values of their own, each followed by reading
the hash with a salt of its own, none of it with a warning. If they read the same hash, the values
on their traces are the same if the salts are and the other way round; and while the frames leave
room, both are the same. -/
theorem quiet_hash_tells {acts acts' : List (Action w)} {salt salt' : Word w}
    (halike : acts.Forall₂ Alike acts')
    (hquiet : (reported (acts ++ [.hash salt])).pending = [])
    (hquiet' : (reported (acts' ++ [.hash salt'])).pending = [])
    (hsame : ((Action.hash salt).perform true (reported acts)).result =
      ((Action.hash salt').perform true (reported acts')).result) :
    (pathOf acts = pathOf acts' ↔ salt = salt') ∧
      ((reported acts).trace.isSaturated = false → pathOf acts = pathOf acts' ∧ salt = salt') := by
  obtain ⟨htrace, hl, hsalt⟩ := lossless_reported halike hquiet
  obtain ⟨htrace', hl', hsalt'⟩ :=
    lossless_reported (halike.flip.imp fun _ _ h => h.symm) hquiet'
  have hsizes : (pathOf acts).map Pushed.size = (pathOf acts').map Pushed.size :=
    sizes_run halike rfl
  have hhash : (pathOf acts).trace.salted salt = (pathOf acts').trace.salted salt' := by
    rw [← htrace, ← htrace']
    exact Reading.word.inj (Except.ok.inj hsame)
  rw [htrace] at hsalt ⊢
  rw [htrace'] at hsalt'
  have htotal : (pathOf acts).size = (pathOf acts').size := congrArg total hsizes
  rcases Nat.lt_or_ge (pathOf acts).size w.bits with hroom | hfull
  · have hboth := Path.salted_inj_of_room hl hl' hsizes hroom (saltWarnings_nil hroom hsalt)
      (saltWarnings_nil (htotal ▸ hroom) hsalt') hhash
    exact ⟨⟨fun _ => hboth.2, fun _ => hboth.1⟩, fun _ => hboth⟩
  · refine ⟨Path.salted_inj_of_full hl hl' hsizes hfull hhash, fun hroom => ?_⟩
    exact absurd hfull (of_decide_eq_false hroom)

/-- A key taken away again before a tag is pushed. -/
def retaken (key : Word .short) : List (Action .short) := [.pushWide key, .pop, .push 7]

theorem quiet_hash_tells_retaken :
    (reported (retaken 5 ++ [.hash 3])).pending = [] ∧
      (reported (retaken 9 ++ [.hash 3])).pending = [] ∧
        pathOf (retaken 5) = pathOf (retaken 9) := by
  have halike : (retaken 5).Forall₂ Alike (retaken 9) :=
    .cons (.pushWide 5 9) (.cons .pop (.cons (.push 7 7) .nil))
  have hsame : ((Action.hash 3).perform true (reported (retaken 5))).result =
      ((Action.hash 3).perform true (reported (retaken 9))).result := rfl
  have hquiet : (reported (retaken 5 ++ [.hash 3])).pending = [] := by decide
  have hquiet' : (reported (retaken 9 ++ [.hash 3])).pending = [] := by decide
  exact ⟨hquiet, hquiet', (quiet_hash_tells halike hquiet hquiet' hsame).1.mpr rfl⟩

/-- A trace that a key fills reports no salt, and a salt can make up for the key. -/
theorem silent_collision :
    ¬ ∀ (w : Width) (acts acts' : List (Action w)) (salt salt' : Word w),
      acts.Forall₂ Alike acts' → (reported (acts ++ [.hash salt])).pending = [] →
        (reported (acts' ++ [.hash salt'])).pending = [] →
          ((Action.hash salt).perform true (reported acts)).result =
            ((Action.hash salt').perform true (reported acts')).result →
              pathOf acts = pathOf acts' ∧ salt = salt' := by
  intro h
  have halike : [.pushWide (0 : Word .short)].Forall₂ Alike [.pushWide 1] :=
    .cons (.pushWide 0 1) .nil
  have hboth := h .short [.pushWide 0] [.pushWide 1] 1 0 halike (by decide) (by decide) rfl
  exact absurd hboth.2 (by decide)

end Aggregate
