import Aggregate.Proofs.Settings.Validity

/-
  Compatible snapshots

  A snapshot is held against the domains of its settings in a fixed order and is
  refused for the first that it lies outside (`validate_eq`). Two snapshots are
  checked one after the other and then held against each other width by width,
  and are refused for the first width on which they differ
  (`ensureCompatible_eq`). Whether a width differs does not depend on who asks, so
  being compatible is a relation between valid snapshots that only their widths
  matter to, and both sides are refused for the same reason
  (`compatible_by_widths`).
-/

namespace Aggregate

/-! ## Numbers and zero -/

section
variable {f : Format}

theorem Binary.isNaN_zero : (ofCode f false 0).isNaN = false :=
  decide_eq_false (by simp [ofCode])

theorem Binary.rank_zero : (ofCode f false 0).rank = 0 := by simp [rank, ofCode]

theorem Binary.rank_nonneg_iff (x : Binary f) : 0 ≤ x.rank ↔ x.negative = false ∨ x.code = 0 := by
  unfold rank
  cases x.negative with
  | false => simp
  | true =>
    simp only [if_true, Bool.true_eq_false, false_or]
    omega

theorem Binary.rank_pos_iff (x : Binary f) : 0 < x.rank ↔ x.negative = false ∧ x.code ≠ 0 := by
  unfold rank
  cases x.negative with
  | false => simp [Nat.pos_iff_ne_zero]
  | true =>
    simp only [if_true, Bool.true_eq_false, false_and, iff_false]
    omega

/-- The numbers that are not below zero: those without a sign, and both zeros. -/
theorem Binary.zero_lessEq (x : Binary f) :
    (ofCode f false 0).lessEq x = (!x.isNaN && (!x.negative || x.isZero)) := by
  rw [lessEq, isNaN_zero, rank_zero, Bool.eq_iff_iff]
  simp [rank_nonneg_iff, isZero]

theorem Binary.zero_less (x : Binary f) :
    (ofCode f false 0).less x = (!x.isNaN && (!x.negative && !x.isZero)) := by
  rw [less, isNaN_zero, rank_zero, Bool.eq_iff_iff]
  simp [rank_pos_iff, isZero]

end

namespace Settings

/-! ## Reasons to refuse -/

/-- The values that a setting may have. -/
structure Domain where
  setting : String
  contains : Settings → Bool
  text : Settings → String

/-- The domains of the settings, in the order in which they are checked. -/
def domains : List Domain := [
  ⟨"export_num", fun s => s.exportNum.toNat ∈ [1, 2], fun s => toString s.exportNum.toNat⟩,
  ⟨"real_bits", fun s => s.realBits.toNat ∈ [32, 64], fun s => toString s.realBits.toNat⟩,
  ⟨"trace_bits", fun s => s.traceBits.toNat ∈ [16, 64], fun s => toString s.traceBits.toNat⟩,
  ⟨"device_bits", fun s => s.deviceBits.toNat ∈ [8, 16, 24, 32, 48, 64],
    fun s => toString s.deviceBits.toNat⟩,
  ⟨"hops_bits", fun s => s.hopsBits.toNat ∈ [8, 16, 32], fun s => toString s.hopsBits.toNat⟩,
  ⟨"threads", fun s => s.threads != 0, fun s => toString s.threads.toNat⟩,
  ⟨"time_epsilon",
    fun s => !s.timeEpsilon.isNaN && (!s.timeEpsilon.negative || s.timeEpsilon.isZero),
    fun s => s.timeEpsilon.text .plain⟩,
  ⟨"realtime", fun s => !s.realtime.isNaN && (!s.realtime.negative && !s.realtime.isZero),
    fun s => s.realtime.text .plain⟩,
  ⟨"antialias", fun s => s.antialias != 0, fun s => toString s.antialias.toNat⟩,
  ⟨"sphericity", fun s => s.sphericity != 0, fun s => toString s.sphericity.toNat⟩]

/-- The first setting that lies outside its domain. -/
def outside? (s : Settings) : Option Domain := domains.find? fun d => !d.contains s

/-- A width that shapes exchanged data. -/
structure SharedWidth where
  setting : String
  bits : Settings → UInt32

/-- The widths on which devices must agree, in the order in which they are compared. -/
def sharedWidths : List SharedWidth :=
  [⟨"trace_bits", traceBits⟩, ⟨"device_bits", deviceBits⟩, ⟨"hops_bits", hopsBits⟩,
    ⟨"real_bits", realBits⟩]

/-- The first width on which two snapshots differ. -/
def mismatch? (s t : Settings) : Option SharedWidth :=
  sharedWidths.find? fun w => w.bits s != w.bits t

def Domain.refusal (d : Domain) (s : Settings) : Error := .invalid d.setting (d.text s)

def SharedWidth.refusal (w : SharedWidth) (s t : Settings) : Error :=
  .incompatible w.setting (toString (w.bits s).toNat) (toString (w.bits t).toNat)

/-- Refuse for the given reason, if there is one. -/
def refuse : Option Error → Except Error Unit
  | none => .ok ()
  | some e => .error e

@[simp] theorem refuse_eq_ok {reason : Option Error} : refuse reason = .ok () ↔ reason = none := by
  cases reason <;> simp [refuse]

@[simp] theorem refuse_eq_error {reason : Option Error} {e : Error} :
    refuse reason = .error e ↔ reason = some e := by
  cases reason <;> simp [refuse]

theorem refuse_bind (first second : Option Error) :
    (refuse first >>= fun _ => refuse second) = refuse (first.or second) := by
  cases first <;> rfl

/-- A pass over a list is refused for the first member that is in the way. -/
theorem forM_eq_refuse {α : Type} {check : α → Except Error Unit} {blocks : α → Bool}
    {refusal : α → Error}
    (h : ∀ x, check x = if blocks x then .error (refusal x) else .ok ()) (xs : List α) :
    forM xs check = refuse ((xs.find? blocks).map refusal) := by
  induction xs with
  | nil => rfl
  | cons x xs ih =>
    rw [List.forM_cons, h, ih, List.find?_cons]
    cases blocks x <;> rfl

/-! ## What the checks come to -/

theorem require_eq (setting value : String) (valid : Bool) :
    require setting valid value = if !valid then .error (.invalid setting value) else .ok () := by
  cases valid <;> rfl

/-- A snapshot is refused for the first of its settings that lies outside its domain. -/
theorem validate_eq (s : Settings) : s.validate = refuse (s.outside?.map (·.refusal s)) := by
  have hpass : s.validate = forM domains fun d => require d.setting (d.contains s) (d.text s) := by
    unfold validate
    simp only [domains, List.forM_cons, List.forM_nil, bind_pure_unit, oneOf,
      List.contains_eq_mem, Binary.zero_lessEq, Binary.zero_less]
  rw [hpass]
  exact forM_eq_refuse (fun d => require_eq _ _ _) domains

theorem same_eq (w : SharedWidth) (s t : Settings) :
    same w.setting (w.bits s) (w.bits t) =
      if w.bits s != w.bits t then .error (w.refusal s t) else .ok () := by
  unfold same
  by_cases h : w.bits s = w.bits t
  · simp [h]
  · simp [h, SharedWidth.refusal]

/-- Two snapshots are refused for what is wrong with the one that asks, else with the other, else
for the first width on which they differ. -/
theorem ensureCompatible_eq (s t : Settings) :
    s.ensureCompatible t = refuse ((s.outside?.map (·.refusal s)).or
      ((t.outside?.map (·.refusal t)).or ((s.mismatch? t).map (·.refusal s t)))) := by
  have hwidths : (forM sharedWidths fun w => same w.setting (w.bits s) (w.bits t)) =
      refuse ((s.mismatch? t).map (·.refusal s t)) :=
    forM_eq_refuse (fun w => same_eq w s t) sharedWidths
  rw [← refuse_bind, ← refuse_bind, ← validate_eq, ← validate_eq, ← hwidths]
  unfold ensureCompatible
  simp only [sharedWidths, List.forM_cons, List.forM_nil, bind_pure_unit]

/-! ## The relation between valid snapshots -/

/-- The widths that shape exchanged data are the same. -/
structure SameWidths (s t : Settings) : Prop where
  traceBits : s.traceBits = t.traceBits
  deviceBits : s.deviceBits = t.deviceBits
  hopsBits : s.hopsBits = t.hopsBits
  realBits : s.realBits = t.realBits

section
variable {s t u : Settings}

theorem SameWidths.refl (s : Settings) : s.SameWidths s := ⟨rfl, rfl, rfl, rfl⟩

theorem SameWidths.symm (h : s.SameWidths t) : t.SameWidths s :=
  ⟨h.traceBits.symm, h.deviceBits.symm, h.hopsBits.symm, h.realBits.symm⟩

theorem SameWidths.trans (h : s.SameWidths t) (k : t.SameWidths u) : s.SameWidths u :=
  ⟨h.traceBits.trans k.traceBits, h.deviceBits.trans k.deviceBits, h.hopsBits.trans k.hopsBits,
    h.realBits.trans k.realBits⟩

theorem mismatch?_eq_none : s.mismatch? t = none ↔ s.SameWidths t := by
  simp only [mismatch?, sharedWidths, List.find?_eq_none, List.forall_mem_cons, bne_iff_ne, ne_eq,
    Decidable.not_not]
  constructor
  · rintro ⟨htrace, hdevice, hhops, hreal, -⟩
    exact ⟨htrace, hdevice, hhops, hreal⟩
  · intro h
    refine ⟨h.traceBits, h.deviceBits, h.hopsBits, h.realBits, ?_⟩
    exact fun _ hw => absurd hw List.not_mem_nil

theorem mismatch?_comm (s t : Settings) : t.mismatch? s = s.mismatch? t := by
  unfold mismatch?
  simp only [bne_comm]

theorem ensureCompatible_eq_ok :
    s.ensureCompatible t = .ok () ↔
      s.validate = .ok () ∧ t.validate = .ok () ∧ s.SameWidths t := by
  simp only [ensureCompatible_eq, validate_eq, refuse_eq_ok, Option.or_eq_none_iff,
    Option.map_eq_none_iff, mismatch?_eq_none]

theorem ensureCompatible_congr {s' t' : Settings} (hs : s.validate = s'.validate)
    (ht : t.validate = t'.validate) (hsame : s.SameWidths s') (hsame' : t.SameWidths t') :
    s.ensureCompatible t = s'.ensureCompatible t' := by
  unfold ensureCompatible
  rw [hs, ht, hsame.traceBits, hsame.deviceBits, hsame.hopsBits, hsame.realBits,
    hsame'.traceBits, hsame'.deviceBits, hsame'.hopsBits, hsame'.realBits]

/-! ## Refusals -/

variable {e : Error}

theorem validate_eq_error :
    s.validate = .error e ↔ ∃ d, s.outside? = some d ∧ d.refusal s = e := by
  rw [validate_eq, refuse_eq_error, Option.map_eq_some_iff]

theorem ensureCompatible_of_error (h : s.validate = .error e) :
    s.ensureCompatible t = .error e := by
  unfold ensureCompatible
  rw [h]
  rfl

theorem ensureCompatible_of_peer_error (hs : s.validate = .ok ()) (ht : t.validate = .error e) :
    s.ensureCompatible t = .error e := by
  unfold ensureCompatible
  rw [hs, ht]
  rfl

/-- A refusal among valid snapshots names the first width on which they differ. -/
theorem ensureCompatible_of_valid (hs : s.validate = .ok ()) (ht : t.validate = .ok ()) :
    s.ensureCompatible t = .error e ↔ ∃ w, s.mismatch? t = some w ∧ w.refusal s t = e := by
  rw [validate_eq, refuse_eq_ok] at hs ht
  rw [ensureCompatible_eq, hs, ht, Option.none_or, Option.none_or, refuse_eq_error,
    Option.map_eq_some_iff]

theorem ensureCompatible_invalid {setting value : String} :
    s.ensureCompatible t = .error (.invalid setting value) ↔
      s.validate = .error (.invalid setting value) ∨
        s.validate = .ok () ∧ t.validate = .error (.invalid setting value) := by
  cases hs : s.validate with
  | error e => simp [ensureCompatible_of_error hs]
  | ok =>
    cases ht : t.validate with
    | error e => simp [ensureCompatible_of_peer_error hs ht]
    | ok => simp [ensureCompatible_of_valid hs ht, SharedWidth.refusal]

end

/-- Two snapshots are compatible exactly if both are valid and they have the same widths, so this
is a relation between valid snapshots that is reflexive, symmetric and transitive; and as long as
a snapshot stays valid with the same widths, it gets and gives the same answers. Valid snapshots
refuse each other for the same width, each with its own value first; a snapshot that is not valid
is refused from both sides for what is wrong with it, and of two such each is refused by itself.
What is wrong with a snapshot is the first setting that lies outside its domain. -/
theorem compatible_by_widths (a b c : Settings) :
    (a.ensureCompatible b = .ok () ↔
      a.validate = .ok () ∧ b.validate = .ok () ∧ a.SameWidths b) ∧
    (a.validate = .ok () → a.ensureCompatible a = .ok ()) ∧
    (a.ensureCompatible b = .ok () → b.ensureCompatible a = .ok ()) ∧
    (a.ensureCompatible b = .ok () → b.ensureCompatible c = .ok () →
      a.ensureCompatible c = .ok ()) ∧
    (∀ a' : Settings, a.validate = .ok () → a'.validate = .ok () → a.SameWidths a' →
      a'.ensureCompatible b = a.ensureCompatible b ∧
        b.ensureCompatible a' = b.ensureCompatible a) ∧
    (∀ e, a.validate = .ok () → b.validate = .ok () → a.ensureCompatible b = .error e →
      ∃ setting ours theirs, e = .incompatible setting ours theirs ∧
        b.ensureCompatible a = .error (.incompatible setting theirs ours) ∧
        ∃ w, sharedWidths.find? (fun w => w.bits a != w.bits b) = some w ∧ setting = w.setting ∧
          ours = toString (w.bits a).toNat ∧ theirs = toString (w.bits b).toNat) ∧
    (∀ e, a.validate = .error e → b.validate = .ok () →
      a.ensureCompatible b = .error e ∧ b.ensureCompatible a = .error e) ∧
    (∀ e f, a.validate = .error e → b.validate = .error f →
      a.ensureCompatible b = .error e ∧ b.ensureCompatible a = .error f) ∧
    (∀ e, a.validate = .error e ↔
      ∃ d, domains.find? (fun d => !d.contains a) = some d ∧ e = .invalid d.setting (d.text a)) ∧
    (∀ setting value, a.ensureCompatible b = .error (.invalid setting value) ↔
      a.validate = .error (.invalid setting value) ∨
        a.validate = .ok () ∧ b.validate = .error (.invalid setting value)) := by
  refine ⟨ensureCompatible_eq_ok, fun ha => ?_, fun h => ?_, fun hab hbc => ?_,
    fun a' ha ha' hsame => ?_, fun e ha hb h => ?_, fun e ha hb => ?_, fun e f ha hb => ?_,
    fun e => ?_, fun _ _ => ensureCompatible_invalid⟩
  · exact ensureCompatible_eq_ok.mpr ⟨ha, ha, .refl a⟩
  · obtain ⟨ha, hb, hsame⟩ := ensureCompatible_eq_ok.mp h
    exact ensureCompatible_eq_ok.mpr ⟨hb, ha, hsame.symm⟩
  · obtain ⟨ha, -, hsame⟩ := ensureCompatible_eq_ok.mp hab
    obtain ⟨-, hc, hsame'⟩ := ensureCompatible_eq_ok.mp hbc
    exact ensureCompatible_eq_ok.mpr ⟨ha, hc, hsame.trans hsame'⟩
  · have hanswers := ha'.trans ha.symm
    exact ⟨ensureCompatible_congr hanswers rfl hsame.symm (.refl b),
      ensureCompatible_congr rfl hanswers (.refl b) hsame.symm⟩
  · obtain ⟨w, hw, rfl⟩ := (ensureCompatible_of_valid ha hb).mp h
    refine ⟨_, _, _, rfl, ?_, w, hw, rfl, rfl, rfl⟩
    exact (ensureCompatible_of_valid hb ha).mpr ⟨w, (mismatch?_comm a b).trans hw, rfl⟩
  · exact ⟨ensureCompatible_of_error ha, ensureCompatible_of_peer_error hb ha⟩
  · exact ⟨ensureCompatible_of_error ha, ensureCompatible_of_error hb⟩
  · rw [validate_eq_error]
    exact exists_congr fun d => and_congr_right fun _ => eq_comm

/-- A snapshot with a negative zero, an endless real time and a refresh rate that is no number. -/
def exporting : Settings :=
  { ({} : Build).settings 8 with
    realtime := .infinity .double false
    timeEpsilon := .ofCode .double true 0
    refreshRate := .nan .double }

/-- A snapshot that differs from this one in two widths. -/
def exportingNarrow : Settings := { exporting with traceBits := 16, hopsBits := 8, threads := 1 }

/-- A snapshot with two settings outside their domains. -/
def exportingNever : Settings := { exporting with realtime := .nan .double, sphericity := 0 }

theorem compatible_by_widths_exporting :
    exporting.validate = .ok () ∧ exportingNarrow.validate = .ok () ∧
      exporting.ensureCompatible exportingNarrow = .error (.incompatible "trace_bits" "64" "16") ∧
      exportingNarrow.ensureCompatible exporting = .error (.incompatible "trace_bits" "16" "64") ∧
      exportingNever.validate = .error (.invalid "realtime" "NaN") ∧
      exportingNever.ensureCompatible exporting = .error (.invalid "realtime" "NaN") ∧
      exporting.ensureCompatible exportingNever = .error (.invalid "realtime" "NaN") := by
  have hvalid : exporting.validate = .ok () := by
    rw [validate_eq_ok]
    constructor <;> decide
  have hnarrow : exportingNarrow.validate = .ok () := by
    rw [validate_eq_ok]
    constructor <;> decide
  obtain ⟨hok, -, -, -, -, hmirror, -⟩ := compatible_by_widths exporting exportingNarrow exporting
  obtain ⟨-, -, -, -, -, -, hone, -, hfirst, -⟩ :=
    compatible_by_widths exportingNever exporting exporting
  have hnever : exportingNever.validate = .error (.invalid "realtime" "NaN") :=
    (hfirst _).mpr ⟨_, rfl, by decide +kernel⟩
  have hboth := hone _ hnever hvalid
  cases h : exporting.ensureCompatible exportingNarrow with
  | ok => exact absurd (hok.mp h).2.2.traceBits (by decide)
  | error e =>
    obtain ⟨setting, ours, theirs, rfl, hback, w, hw, rfl, rfl, rfl⟩ := hmirror e hvalid hnarrow h
    cases hw
    exact ⟨hvalid, hnarrow, rfl, hback, hnever, hboth⟩

end Settings

end Aggregate
