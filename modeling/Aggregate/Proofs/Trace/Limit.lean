import Aggregate.Proofs.Trace.Shadow
import Aggregate.Proofs.Trace.Salted

/-
  Pushes at the limit of the total size

  Nothing keeps a run from pushing until the total size of the frames would reach
  its limit. A push that would carry it there stops. The frames and their total are
  then as they were, and in a build that reports so is the hash; in any other build
  the bits of the frame that was not pushed are left in it (`push_completes_or_stops`).
  So the hash of a trace is the xor of its frames after every run of a reporting
  build, however long, but not of the others (`stopped_push_leaves_bits`).

  An operation pushes one frame at most, so a run has to be long to come there
  (`used_le`). The statements below are not about runs that fit: whatever a run does
  to the traces of a context, it does by pushes and pops (`Trace.Leads`).
-/

namespace Aggregate

variable {w : Width} {reporting : Bool}

/-! ## What operations do to the traces of a context -/

/-- What holds of the trace of a context and of all copies of earlier ones. -/
structure Context.Traces (P : Trace w → Prop) (c : Context w) : Prop where
  trace : P c.trace
  slots : ∀ e ∈ c.slots, P e.2

/-- One operation leads from the one to the other: it pops at most one frame and then pushes at most
one, or it clears the trace. -/
structure Trace.Leads (reporting : Bool) (P Q : Trace w → Prop) : Prop where
  stay : ∀ {t}, P t → Q t
  empty : Q .empty
  pop : ∀ {t}, P t → P t.pop.trace
  push : ∀ {t} (value : Word w) {size : Nat}, size = w.frameBits ∨ size = w.bits → P t →
    Q (t.pushFrame reporting value size).trace

namespace Trace.Leads

variable {P Q : Trace w → Prop} {c : Context w}

theorem unchanged (h : Leads reporting P Q) (hc : c.Traces P) : c.Traces Q :=
  ⟨h.stay hc.trace, fun e he => h.stay (hc.slots e he)⟩

theorem cleared (h : Leads reporting P Q) (hc : c.Traces P) (scopes : List (Scope w)) :
    Context.Traces Q { c with trace := .empty, scopes := scopes } :=
  ⟨h.empty, fun e he => h.stay (hc.slots e he)⟩

theorem popFrame (h : Leads reporting P Q) (hc : c.Traces P) : c.popFrame.context.Traces P :=
  ⟨h.pop hc.trace, hc.slots⟩

theorem pushFrame (h : Leads reporting P Q) (hc : c.Traces P) (value : Word w) {size : Nat}
    (hsize : size = w.frameBits ∨ size = w.bits) :
    (c.pushFrame reporting value size).context.Traces Q :=
  ⟨h.push value hsize hc.trace, fun e he => h.stay (hc.slots e he)⟩

theorem pushScope (h : Leads reporting P Q) (hc : c.Traces P) (value : Word w) {size : Nat}
    (hsize : size = w.frameBits ∨ size = w.bits) (scope : Nat → Scope w) :
    (c.pushScope reporting value size scope).context.Traces Q := by
  have hpushed := h.pushFrame hc value hsize
  rw [Context.pushScope]
  split
  · next heq =>
    rw [heq] at hpushed
    exact ⟨hpushed.trace, hpushed.slots⟩
  · next heq =>
    rw [heq] at hpushed
    exact hpushed

theorem enter (h : Leads reporting P Q) (hc : c.Traces P) (r : Region w) :
    (c.enter reporting r).context.Traces Q := by
  cases r with
  | call tag => exact h.pushScope hc tag (.inl rfl) _
  | apply tag => exact h.pushScope hc tag (.inl rfl) _
  | key key => exact h.pushScope hc key (.inr rfl) _
  | cycle start => exact h.pushScope hc start (.inl rfl) _
  | reset => exact h.cleared hc _

theorem closed (hc : c.Traces P) (outer : List (Scope w)) :
    Context.Traces P { c with scopes := outer } := ⟨hc.trace, hc.slots⟩

theorem leave (h : Leads reporting P Q) (hc : c.Traces P) : c.leave.context.Traces Q := by
  rw [Context.leave]
  split
  · exact h.unchanged hc
  · next scope outer _ =>
    dsimp only
    split
    · exact h.cleared hc outer
    · split
      · exact h.unchanged (h.popFrame (closed hc outer))
      · exact h.unchanged (closed hc outer)

theorem unwind (h : Leads reporting P Q) (hc : c.Traces P) : c.unwind.context.Traces Q := by
  rw [Context.unwind]
  split
  · exact h.unchanged hc
  · next scope outer _ =>
    dsimp only
    split
    · exact h.cleared hc outer
    · exact h.unchanged (h.popFrame (closed hc outer))

theorem rewrite (h : Leads reporting P Q) (hc : c.Traces P) (step : Word w → Word w) :
    (c.rewrite reporting step).context.Traces Q := by
  have hpopped := h.popFrame hc
  rw [Context.rewrite]
  split
  · split
    · exact h.unchanged hc
    · split
      · next heq =>
        rw [heq] at hpopped
        exact h.unchanged hpopped
      · next heq =>
        rw [heq] at hpopped
        exact h.pushFrame (closed hpopped _) _ (.inl rfl)
  · exact h.unchanged hc

theorem restore (h : Leads reporting P Q) (hc : c.Traces P) (slot : String) :
    (c.restore slot).Traces Q := by
  rw [Context.restore]
  split
  · exact h.unchanged hc
  · next t ht =>
    obtain ⟨before, after, hslots, -⟩ := List.lookup_eq_some_iff.mp ht
    exact h.unchanged ⟨hc.slots (slot, t) (by rw [hslots]; simp), hc.slots⟩

theorem save (h : Leads reporting P Q) (hc : c.Traces P) (slot : String) :
    (c.save slot).Traces Q := by
  refine h.unchanged ⟨hc.trace, fun e he => ?_⟩
  rcases List.mem_cons.mp he with rfl | he
  · exact hc.trace
  · exact hc.slots e (List.mem_filter.mp he).1

theorem act (h : Leads reporting P Q) (hc : c.Traces P) (a : Action w) :
    (a.perform reporting c).context.Traces Q := by
  cases a with
  | push tag => exact h.pushFrame hc tag (.inl rfl)
  | pushWide key => exact h.pushFrame hc key (.inr rfl)
  | pop => exact h.unchanged (h.popFrame hc)
  | clear => exact h.cleared hc c.scopes
  | save slot => exact h.save hc slot
  | restore slot => exact h.restore hc slot
  | add n =>
    show (c.stepCycle reporting (· + n)).context.Traces Q
    rw [stepCycle_context]
    exact h.rewrite hc _
  | sub n =>
    show (c.stepCycle reporting (· - n)).context.Traces Q
    rw [stepCycle_context]
    exact h.rewrite hc _
  | hash salt => exact h.unchanged ⟨hc.trace, hc.slots⟩
  | describe => exact h.unchanged hc
  | same slot => exact h.unchanged hc
  | raise message => exact h.unchanged hc
  | index => exact h.unchanged hc
  | compare n => exact h.unchanged hc

theorem perform (h : Leads reporting P Q) (hc : c.Traces P) (op : Operation w) :
    (op.perform reporting c).Traces Q := by
  cases op with
  | act a => exact h.act hc a
  | enter r => exact h.enter hc r
  | leave => exact h.leave hc
  | unwind => exact h.unwind hc
  | observe => exact h.unchanged ⟨hc.trace, hc.slots⟩

end Trace.Leads

theorem traces_new {P : Trace w → Prop} (h : P .empty) :
    (Context.onTrace .empty : Context w).Traces P := ⟨h, fun _ he => by cases he⟩

/-- A run, by induction on its operations, each of which leads to what holds after one more. -/
theorem traces_operate {P : Nat → Trace w → Prop} (h : ∀ n, Trace.Leads reporting (P n) (P (n + 1)))
    (ops : List (Operation w)) :
    ∀ {n : Nat} {c : Context w}, c.Traces (P n) →
      (c.operate reporting ops).Traces (P (n + ops.length)) := by
  induction ops with
  | nil => intro n c hc; exact hc
  | cons op ops ih =>
    intro n c hc
    have hrun := ih ((h n).perform hc op)
    rwa [List.length_cons, Nat.add_comm ops.length, ← Nat.add_assoc]

/-! ## What all runs keep -/

namespace Trace

variable {t : Trace w} {value : Word w} {size : Nat}

theorem pushFrame_stops (reporting : Bool) (value : Word w) (h : sizeLimit ≤ t.used + size) :
    t.pushFrame reporting value size =
      ⟨if reporting then t else { t with hash := t.hash ^^^ t.placed value size },
        some .sizeOverflow⟩ := by
  rw [pushFrame, if_neg (Nat.not_lt.mpr h)]
  cases reporting <;> rfl

/-- The hash is the xor of the frames, and their sizes are what is counted. -/
structure Sums (t : Trace w) : Prop where
  hash : t.hash = xorBits t.frames
  used : t.used = total (t.frames.map Frame.size)

theorem Sums.pushed (h : t.Sums) (value : Word w) (size : Nat) : (t.pushed value size).Sums where
  hash := by
    show t.hash ^^^ t.placed value size = xorBits t.frames ^^^ t.placed value size
    rw [h.hash]
  used := by
    show t.used + size = size + total (t.frames.map Frame.size)
    rw [h.used, Nat.add_comm]

theorem Sums.pop (h : t.Sums) : t.pop.trace.Sums := by
  rw [Trace.pop]
  split
  · exact h
  · next frame below hframes =>
    refine ⟨?_, ?_⟩
    · show t.hash ^^^ frame.bits = xorBits below
      rw [h.hash, hframes]
      exact xor_cancel _ _
    · show t.used - frame.size = total (below.map Frame.size)
      rw [h.used, hframes, List.map_cons, total_cons, Nat.add_sub_cancel_left]

/-- A reporting build keeps the sums, also where a push stops. -/
theorem leads_sums : Leads true (Sums : Trace w → Prop) Sums where
  stay h := h
  empty := ⟨rfl, rfl⟩
  pop := Sums.pop
  push := by
    intro t value size _ h
    rcases Nat.lt_or_ge (t.used + size) sizeLimit with hfits | hstops
    · rw [pushFrame_fits true value hfits]
      exact h.pushed value size
    · rw [pushFrame_stops true value hstops]
      exact h

theorem used_pop_le (t : Trace w) : t.pop.trace.used ≤ t.used := by
  rw [pop]
  split
  · exact Nat.le_refl _
  · exact Nat.sub_le _ _

theorem used_pushFrame_le (reporting : Bool) (t : Trace w) (value : Word w) (size : Nat) :
    (t.pushFrame reporting value size).trace.used ≤ t.used + size := by
  rcases Nat.lt_or_ge (t.used + size) sizeLimit with hfits | hstops
  · rw [pushFrame_fits reporting value hfits, pushed_used]
  · rw [pushFrame_stops reporting value hstops]
    cases reporting <;> exact Nat.le_add_right _ _

/-- One operation takes one key more at most. -/
theorem leads_used_le (reporting : Bool) (n : Nat) :
    Leads reporting (fun t : Trace w => t.used ≤ n * w.bits)
      (fun t => t.used ≤ (n + 1) * w.bits) := by
  have hmore : (n + 1) * w.bits = n * w.bits + w.bits := Nat.succ_mul n w.bits
  refine ⟨fun h => ?_, Nat.zero_le _, fun h => Nat.le_trans (used_pop_le _) h, ?_⟩
  · rw [hmore]
    exact Nat.le_trans h (Nat.le_add_right _ _)
  · intro t value size hsize h
    have hle : size ≤ w.bits := by
      rcases hsize with rfl | rfl
      · exact Nat.le_of_lt w.frameBits_lt_bits
      · exact Nat.le_refl _
    calc (t.pushFrame reporting value size).trace.used ≤ t.used + size :=
          used_pushFrame_le reporting t value size
      _ ≤ n * w.bits + w.bits := Nat.add_le_add h hle
      _ = (n + 1) * w.bits := hmore.symm

end Trace

theorem sums_operate (ops : List (Operation w)) :
    ((Context.onTrace .empty).operate true ops).trace.Sums :=
  (traces_operate (P := fun _ => Trace.Sums) (fun _ => Trace.leads_sums) ops (n := 0)
    (traces_new ⟨rfl, rfl⟩)).trace

theorem used_le (reporting : Bool) (ops : List (Operation w)) :
    ((Context.onTrace .empty).operate reporting ops).trace.used ≤ ops.length * w.bits := by
  have hrun := traces_operate (Trace.leads_used_le reporting) ops (n := 0)
    (traces_new (Nat.zero_le _))
  rw [Nat.zero_add] at hrun
  exact hrun.trace

/-! ## Pushes -/

/-- What a push of a value as a frame of the given size leaves. Within the limit it completes, with
this frame on top of the others. At the limit it stops, and the frames and their total are as they
were; the whole trace is in a reporting build, and in any other one if the frame has no bits. -/
structure Trace.Takes (reporting : Bool) (t : Trace w) (value : Word w) (size : Nat)
    (o : Outcome w) : Prop where
  completes : t.used + size < sizeLimit → o = ⟨t.pushed value size, none⟩
  stops : sizeLimit ≤ t.used + size →
    o.fault = some .sizeOverflow ∧ o.trace.frames = t.frames ∧ o.trace.used = t.used
  intact : sizeLimit ≤ t.used + size → (o.trace = t ↔ reporting = true ∨ fold value size = 0)

/-- Only a value whose fold is zero contributes no bits. -/
theorem Trace.placed_eq_zero_iff (t : Trace w) (value : Word w) (size : Nat) :
    t.placed value size = 0 ↔ fold value size = 0 := by
  have hoffset : t.offset < w.bits := Nat.mod_lt _ w.bits_pos
  have hzero : (0 : Word w).rotateLeft t.offset = 0 := by
    rw [BitVec.rotateLeft_def]
    simp
  calc t.placed value size = 0 ↔
        (fold value size).rotateLeft t.offset = (0 : Word w).rotateLeft t.offset := by
          rw [hzero, Trace.placed]
    _ ↔ fold value size = 0 := rotateLeft_inj hoffset

theorem takes_pushFrame (reporting : Bool) (t : Trace w) (value : Word w) (size : Nat) :
    t.Takes reporting value size (t.pushFrame reporting value size) where
  completes := Trace.pushFrame_fits reporting value
  stops h := by
    rw [Trace.pushFrame_stops reporting value h]
    cases reporting <;> exact ⟨rfl, rfl, rfl⟩
  intact h := by
    rw [Trace.pushFrame_stops reporting value h, ← t.placed_eq_zero_iff value size]
    cases reporting with
    | true => simp
    | false =>
      have hback : t.hash ^^^ t.placed value size = t.hash ↔ t.placed value size = 0 := by
        constructor
        · intro hsame
          exact (BitVec.xor_right_inj t.hash).mp (hsame.trans BitVec.xor_zero.symm)
        · intro hzero
          rw [hzero]
          exact BitVec.xor_zero
      refine ⟨fun hsame => .inr (hback.mp (congrArg Trace.hash hsame)), ?_⟩
      rintro (hreporting | hzero)
      · cases hreporting
      · show { t with hash := t.hash ^^^ t.placed value size } = t
        rw [hback.mpr hzero]

/-- A push after any run from the empty trace, however long. It completes with one frame more, or it
stops and leaves the frames and their total. In a reporting build the hash is the xor of the frames
either way. No push stops after a run whose operations are too few to come to the limit. -/
theorem push_completes_or_stops (reporting : Bool) (ops : List (Operation w)) (value : Word w) :
    let t := ((Context.onTrace .empty).operate reporting ops).trace
    t.Takes reporting value w.frameBits (t.push reporting value) ∧
      t.Takes reporting value w.bits (t.pushWide reporting value) ∧
      (reporting = true →
        (t.push reporting value).trace.Sums ∧ (t.pushWide reporting value).trace.Sums) ∧
      ((ops.length + 1) * w.bits < Trace.sizeLimit →
        (t.push reporting value).fault = none ∧ (t.pushWide reporting value).fault = none) := by
  intro t
  have hpush : t.Takes reporting value w.frameBits (t.push reporting value) :=
    takes_pushFrame reporting t value w.frameBits
  have hwide : t.Takes reporting value w.bits (t.pushWide reporting value) :=
    takes_pushFrame reporting t value w.bits
  refine ⟨hpush, hwide, ?_, fun hfew => ?_⟩
  · rintro rfl
    have hsums : t.Sums := sums_operate ops
    exact ⟨Trace.leads_sums.push value (.inl rfl) hsums,
      Trace.leads_sums.push value (.inr rfl) hsums⟩
  · have hused : t.used ≤ ops.length * w.bits := used_le reporting ops
    have hkey : t.used + w.bits < Trace.sizeLimit := by
      rw [Nat.succ_mul] at hfew
      omega
    have htag : t.used + w.frameBits < Trace.sizeLimit :=
      Nat.lt_trans (Nat.add_lt_add_left w.frameBits_lt_bits _) hkey
    rw [hpush.completes htag, hwide.completes hkey]
    exact ⟨rfl, rfl⟩

/-! ## The limit is reached -/

/-- So many keys pushed one after the other. -/
def filling (w : Width) (n : Nat) : List (Operation w) := List.replicate n (.act (.pushWide 0))

theorem filling_path (n : Nat) :
    (Shadow.new.operate (filling w n)).path = List.replicate n ⟨0, w.bits⟩ := by
  induction n with
  | zero => rfl
  | succ n ih =>
    rw [filling, List.replicate_succ', Shadow.operate, List.foldl_append]
    show ⟨0, w.bits⟩ :: (Shadow.new.operate (filling w n)).path = _
    rw [ih]
    rfl

theorem filling_size (n : Nat) : (Shadow.new.operate (filling w n)).path.size = n * w.bits := by
  rw [filling_path, Path.size, List.map_replicate, total_replicate]

theorem filling_fits {n : Nat} (h : n * w.bits < Trace.sizeLimit) :
    Shadow.new.FitsAlong (filling w n) := by
  intro k hk
  have htake : (filling w n).take k = filling w (min k n) := List.take_replicate
  rw [Shadow.Fits, htake, filling_size]
  exact Nat.lt_of_le_of_lt (Nat.mul_le_mul_right _ (Nat.min_le_right k n)) h

/-- The total size of keys while they fit. -/
theorem filling_used (reporting : Bool) {n : Nat} (h : n * w.bits < Trace.sizeLimit) :
    ((Context.onTrace .empty).operate reporting (filling w n)).trace.used = n * w.bits := by
  rw [(follows_operate _ follows_new (filling_fits h)).trace, Path.trace_used, filling_size]

/-- After keys that leave no room the next one stops, and in a reporting build the trace is as it
was; with one key less it completes. -/
theorem push_completes_or_stops_filled :
    let t := ((Context.onTrace .empty).operate true (filling .long 67108863)).trace
    let t' := ((Context.onTrace .empty).operate false (filling .long 67108862)).trace
    (t.pushWide true 1).trace = t ∧ (t.pushWide true 1).fault = some .sizeOverflow ∧
      (t'.pushWide false 1).fault = none := by
  have hfilled : ∀ n : Nat, n * Width.long.bits < Trace.sizeLimit →
      Trace.sizeLimit ≤ n * Width.long.bits + Width.long.bits →
        let t := ((Context.onTrace .empty).operate true (filling .long n)).trace
        (t.pushWide true 1).trace = t ∧ (t.pushWide true 1).fault = some .sizeOverflow := by
    intro n hfits hfull t
    obtain ⟨-, hwide, -, -⟩ := push_completes_or_stops true (filling .long n) 1
    have hstops : Trace.sizeLimit ≤ t.used + Width.long.bits := by
      rw [filling_used true hfits]
      exact hfull
    exact ⟨(hwide.intact hstops).mpr (.inl rfl), (hwide.stops hstops).1⟩
  have hroom : ∀ n : Nat, (n + 1) * Width.long.bits < Trace.sizeLimit →
      (((Context.onTrace .empty).operate false (filling .long n)).trace.pushWide false 1).fault =
        none := by
    intro n hfew
    obtain ⟨-, -, -, hcompletes⟩ := push_completes_or_stops false (filling .long n) 1
    have hlength : (filling .long n).length = n := List.length_replicate
    exact (hcompletes (by rw [hlength]; exact hfew)).2
  obtain ⟨htrace, hfault⟩ := hfilled 67108863 (by decide) (by decide)
  exact ⟨htrace, hfault, hroom 67108862 (by decide)⟩

/-- A push that stops does not leave every trace as it was. -/
theorem stopped_push_leaves_bits :
    ¬ ∀ (w : Width) (reporting : Bool) (ops : List (Operation w)) (value : Word w),
      let t := ((Context.onTrace .empty).operate reporting ops).trace
      ∀ o ∈ [t.push reporting value, t.pushWide reporting value],
        (o.fault = none ∧ ∃ frame, o.trace.frames = frame :: t.frames) ∨
          (o.fault ≠ none ∧ o.trace = t) := by
  intro h
  have hfilled : ∀ n : Nat, n * Width.long.bits < Trace.sizeLimit →
      n * Width.long.bits + Width.long.bits < Trace.sizeLimit := by
    intro n hfits
    have hpush := h .long false (filling .long n) 1
    have hused := filling_used false hfits
    -- All that matters of the trace is its total size.
    generalize ((Context.onTrace .empty).operate false (filling .long n)).trace = t at hpush hused
    have htakes : t.Takes false 1 Width.long.bits (t.pushWide false 1) := takes_pushFrame false t 1 _
    refine Nat.not_le.mp fun hfull => ?_
    rw [← hused] at hfull
    rcases hpush (t.pushWide false 1) (by simp) with ⟨hdone, -⟩ | ⟨-, hsame⟩
    · rw [(htakes.stops hfull).1] at hdone
      cases hdone
    · rcases (htakes.intact hfull).mp hsame with hreporting | hzero
      · cases hreporting
      · exact absurd hzero (by decide)
  exact absurd (hfilled 67108863 (by decide)) (by decide)

end Aggregate
