import Aggregate.Settings.Check
import Aggregate.Proofs.Toml.Numbers

/-
  Valid snapshots

  `Settings.Valid` says what the checks of a snapshot ask for, and
  `validate_eq_ok` that they pass exactly then. A check that does not pass
  reports a setting and its value (`validate_error`). The checks see of a double
  what its text tells, so they cannot tell a snapshot from the one that is left
  of it in a document (`validate_canonical`).
-/

namespace Aggregate

/-! ## Doubles -/

theorem Binary.isNaN_nan : (Binary.nan .double).isNaN = true := by decide

theorem Binary.canonical_of_isNaN {x : Binary .double} (h : x.isNaN = true) :
    x.canonical = .nan .double := if_pos h

theorem Binary.canonical_of_number {x : Binary .double} (h : x.isNaN = false) : x.canonical = x :=
  if_neg (by simp [h])

theorem Binary.isNaN_canonical (x : Binary .double) : x.canonical.isNaN = x.isNaN := by
  cases h : x.isNaN with
  | true => rw [canonical_of_isNaN h, isNaN_nan]
  | false => rw [canonical_of_number h, h]

theorem Binary.less_canonical (x y : Binary .double) : x.less y.canonical = x.less y := by
  cases h : y.isNaN with
  | true => simp [Binary.less, isNaN_canonical, h]
  | false => rw [canonical_of_number h]

theorem Binary.lessEq_canonical (x y : Binary .double) : x.lessEq y.canonical = x.lessEq y := by
  cases h : y.isNaN with
  | true => simp [Binary.lessEq, isNaN_canonical, h]
  | false => rw [canonical_of_number h]

theorem Binary.text_canonical (style : NumberStyle) (x : Binary .double) :
    x.canonical.text style = x.text style := by
  cases h : x.isNaN with
  | true => simp [Binary.text, Binary.chars, isNaN_canonical, h]
  | false => rw [canonical_of_number h]

theorem Binary.isNaN_of_less {x y : Binary .double} (h : x.less y = true) : y.isNaN = false := by
  simp only [Binary.less, Bool.and_eq_true, Bool.not_eq_true'] at h
  exact h.1.2

theorem Binary.isNaN_of_lessEq {x y : Binary .double} (h : x.lessEq y = true) : y.isNaN = false := by
  simp only [Binary.lessEq, Bool.and_eq_true, Bool.not_eq_true'] at h
  exact h.1.2

namespace Settings

/-- The snapshot that a document of this one holds. -/
def canonical (s : Settings) : Settings := { s with
  realtime := s.realtime.canonical
  timeEpsilon := s.timeEpsilon.canonical
  refreshRate := s.refreshRate.canonical }

/-! ## Checks -/

theorem require_eq_ok {setting value : String} {valid : Bool} :
    require setting valid value = .ok () ↔ valid = true := by
  unfold require
  split
  · next h => exact ⟨fun _ => h, fun _ => rfl⟩
  · next h => exact ⟨fun h' => (by cases h'), fun h' => absurd h' h⟩

theorem oneOf_eq_ok {setting : String} {allowed : List Nat} {value : Nat} :
    oneOf setting allowed value = .ok () ↔ value ∈ allowed := by
  unfold oneOf
  rw [require_eq_ok, List.contains_iff_mem]

theorem bind_eq_ok {x : Except Error Unit} {f : Unit → Except Error Unit} :
    (x >>= f) = .ok () ↔ x = .ok () ∧ f () = .ok () := by
  cases x with
  | error e => exact ⟨fun h => (by cases h), fun h => (by cases h.1)⟩
  | ok => exact ⟨fun h => ⟨rfl, h⟩, fun h => h.2⟩

/-- Every setting lies in its domain. -/
structure Valid (s : Settings) : Prop where
  exportNum : s.exportNum.toNat ∈ [1, 2]
  realBits : s.realBits.toNat ∈ [32, 64]
  traceBits : s.traceBits.toNat ∈ [16, 64]
  deviceBits : s.deviceBits.toNat ∈ [8, 16, 24, 32, 48, 64]
  hopsBits : s.hopsBits.toNat ∈ [8, 16, 32]
  threads : s.threads ≠ 0
  timeEpsilon : (Binary.ofCode .double false 0).lessEq s.timeEpsilon = true
  realtime : (Binary.ofCode .double false 0).less s.realtime = true
  antialias : s.antialias ≠ 0
  sphericity : s.sphericity ≠ 0

/-- The checks pass exactly for the valid snapshots. -/
theorem validate_eq_ok {s : Settings} : s.validate = .ok () ↔ s.Valid := by
  unfold validate
  simp only [bind_eq_ok, oneOf_eq_ok, require_eq_ok, bne_iff_ne]
  constructor
  · rintro ⟨h1, h2, h3, h4, h5, h6, h7, h8, h9, h10⟩
    exact ⟨h1, h2, h3, h4, h5, h6, h7, h8, h9, h10⟩
  · rintro ⟨h1, h2, h3, h4, h5, h6, h7, h8, h9, h10⟩
    exact ⟨h1, h2, h3, h4, h5, h6, h7, h8, h9, h10⟩

/-- A check that can only report a setting and its value. -/
def Reports (x : Except Error Unit) : Prop :=
  ∀ e, x = .error e → ∃ setting value, e = .invalid setting value

theorem reports_require (setting value : String) (valid : Bool) :
    Reports (require setting valid value) := by
  intro e h
  unfold require at h
  split at h
  · cases h
  · cases h
    exact ⟨setting, value, rfl⟩

theorem Reports.bind {x : Except Error Unit} {f : Unit → Except Error Unit} (hx : Reports x)
    (hf : Reports (f ())) : Reports (x >>= f) := by
  intro e h
  cases x with
  | error => exact hx e h
  | ok => exact hf e h

/-- A snapshot that is refused has a setting outside its domain, which is reported. -/
theorem validate_error {s : Settings} {e : Error} (h : s.validate = .error e) :
    ∃ setting value, e = .invalid setting value := by
  have hreports : Reports s.validate := by
    unfold validate oneOf
    -- Nine checks, and the last one.
    repeat refine Reports.bind (reports_require _ _ _) ?_
    exact reports_require _ _ _
  exact hreports e h

/-- The checks do not see what a document loses. -/
theorem validate_canonical (s : Settings) : s.canonical.validate = s.validate := by
  unfold validate canonical
  simp only [Binary.less_canonical, Binary.lessEq_canonical, Binary.text_canonical]

/-- Of a valid snapshot a document loses at most the bits of a refresh rate that is no number. -/
theorem Valid.canonical_eq {s : Settings} (h : s.Valid) :
    s.canonical = { s with refreshRate := s.refreshRate.canonical } := by
  have htimeEpsilon := Binary.canonical_of_number (Binary.isNaN_of_lessEq h.timeEpsilon)
  have hrealtime := Binary.canonical_of_number (Binary.isNaN_of_less h.realtime)
  unfold canonical
  rw [htimeEpsilon, hrealtime]

end Settings

end Aggregate
