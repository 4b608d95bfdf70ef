import Aggregate.Proofs.Settings.Compatibility
import Aggregate.Proofs.Settings.Fields
import Aggregate.Proofs.Toml.Ranges

/-
  Accepted snapshots can be published again

  A snapshot may be accepted from any text, with whole numbers in any base, with
  classes as tables, with other keys in between. Whatever the text, what is
  accepted lies where the writer and the checks want it: its counts are the whole
  numbers of the document, which are in the range that documents have, so it can
  be written, and what is written is accepted as the same snapshot
  (`accepted_republished`).
-/

namespace Aggregate

/-- The characters of a double do not tell more of it than its canonical form. -/
theorem Binary.chars_canonical (style : NumberStyle) (x : Binary .double) :
    x.canonical.chars style = x.chars style := by
  cases h : x.isNaN with
  | true => simp [Binary.chars, isNaN_canonical, h]
  | false => rw [canonical_of_number h]

namespace Settings

/-! ## Accepting and writing -/

theorem parse_eq_ok {text : String} {s : Settings} :
    parse text = .ok s ↔ ∃ values, Toml.read text.toList = some values ∧
      ofValues? values = some s ∧ s.validate = .ok () := by
  unfold parse parseChars
  constructor
  · intro h
    split at h
    · cases h
    · next t ht =>
      obtain ⟨values, hread, hvalues⟩ := Option.bind_eq_some_iff.mp ht
      cases hvalidate : t.validate with
      | error e =>
        rw [hvalidate] at h
        cases h
      | ok =>
        rw [hvalidate] at h
        cases h
        exact ⟨values, hread, hvalues, hvalidate⟩
  · rintro ⟨values, hread, hvalues, hvalidate⟩
    rw [hread, Option.bind_some, hvalues]
    simp only [hvalidate]
    rfl

theorem render_canonical (s : Settings) : s.canonical.render = s.render := by
  have hcells : s.canonical.cells.flatMap lineChars = s.cells.flatMap lineChars := by
    simp only [cells, canonical, List.flatMap_cons, lineChars, Cell.chars, Binary.chars_canonical]
  unfold render renderChars
  rw [hcells]
  rfl

theorem render_of_le {s : Settings} (h : (s.threads.toNat : Int) ≤ Toml.maxInteger) :
    s.render = .ok (String.ofList (s.cells.flatMap lineChars)) := by
  unfold render renderChars
  rw [if_pos h]
  rfl

theorem threads_le {text : List Char} {values : List (String × Toml.Value)} {s : Settings}
    (hread : Toml.read text = some values) (hvalues : ofValues? values = some s) :
    (s.threads.toNat : Int) ≤ Toml.maxInteger := by
  have hcell : ("threads", Cell.count s.threads.toNat) ∈ s.cells := by simp [cells]
  exact (Toml.lookup_inRange hread (lookup_count hvalues hcell)).2

/-! ## Comparing -/

/-- A check that can only report a setting on which two snapshots differ. -/
def Disagrees (x : Except Error Unit) : Prop :=
  ∀ e, x = .error e → ∃ setting ours theirs, e = .incompatible setting ours theirs

/-- Two valid snapshots can only be refused for a setting on which they differ. -/
theorem ensureCompatible_error {ours peer : Settings} (hours : ours.validate = .ok ())
    (hpeer : peer.validate = .ok ()) : Disagrees (ours.ensureCompatible peer) := by
  intro e h
  obtain ⟨w, -, rfl⟩ := (ensureCompatible_of_valid hours hpeer).mp h
  exact ⟨_, _, _, rfl⟩

/-! ## Publishing again -/

/-- Whatever text a snapshot was accepted from, it is valid, its counts are the whole numbers of
that text, and it can be written. What is written is accepted as the same snapshot, bit by bit but
for a refresh rate that is no number, and is written the same again. A valid snapshot can refuse it
only for a setting on which the two differ. -/
theorem accepted_republished {text : String} {s : Settings} (h : parse text = .ok s) :
    s.validate = .ok () ∧
    (1 ≤ s.threads.toNat ∧ s.threads.toNat ≤ Nat.pow 2 63 - 1) ∧
    (∃ values, Toml.read text.toList = some values ∧
      ∀ key n, (key, Cell.count n) ∈ s.cells → values.lookup key = some (.integer n)) ∧
    (∃ out, s.render = .ok out ∧ ∃ t, parse out = .ok t ∧ s.Matches t ∧ t.render = .ok out) ∧
    ∀ ours : Settings, ours.validate = .ok () → ∀ e, ours.ensureCompatible s = .error e →
      ∃ setting own theirs, e = .incompatible setting own theirs := by
  obtain ⟨values, hread, hvalues, hvalidate⟩ := parse_eq_ok.mp h
  have hvalid := validate_eq_ok.mp hvalidate
  have hthreads := threads_le hread hvalues
  have hrender := render_of_le hthreads
  have hparse : parse (String.ofList (s.cells.flatMap lineChars)) = .ok s.canonical := by
    unfold parse
    rw [String.toList_ofList, parseChars_cells hthreads, hvalidate]
    rfl
  refine ⟨hvalidate, ⟨?_, ?_⟩, ?_, ?_, ?_⟩
  · have hpos : s.threads.toNat ≠ 0 := fun h0 => hvalid.threads (UInt64.toNat_inj.mp h0)
    omega
  · have hmax : Toml.maxInteger = (Nat.pow 2 63 - 1 : Nat) := rfl
    omega
  · exact ⟨values, hread, fun key n hc => lookup_count hvalues hc⟩
  · exact ⟨_, hrender, s.canonical, hparse, hvalid.matches_canonical,
      (render_canonical s).trans hrender⟩
  · intro ours hours e he
    exact ensureCompatible_error hours hvalidate e he

/-- A snapshot whose refresh rate is no number, with bits that no document keeps. -/
def unrefreshed : Settings :=
  { ({} : Build).settings 8 with
    realtime := .infinity .double false
    timeEpsilon := .ofCode .double false 0
    refreshRate := .ofCode .double true 0x7ff0000000000001 }

theorem parse_unrefreshed :
    parse (String.ofList (unrefreshed.cells.flatMap lineChars)) = .ok unrefreshed.canonical := by
  have hvalidate : unrefreshed.validate = .ok () := by
    rw [validate_eq_ok]
    constructor <;> decide
  unfold parse
  rw [String.toList_ofList, parseChars_cells (by decide), hvalidate]
  rfl

theorem accepted_republished_unrefreshed :
    parse (String.ofList (unrefreshed.cells.flatMap lineChars)) = .ok unrefreshed.canonical ∧
      ∃ out, unrefreshed.canonical.render = .ok out ∧
        ∃ t, parse out = .ok t ∧ unrefreshed.canonical.Matches t ∧ t.render = .ok out :=
  ⟨parse_unrefreshed, (accepted_republished parse_unrefreshed).2.2.2.1⟩

end Settings

end Aggregate
