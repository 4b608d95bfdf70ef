import Aggregate.Proofs.Settings.RoundTrip

/-
  What a snapshot takes from a document

  A snapshot that is put together from the values of a document holds what the
  document says, field by field: every key is among the values, and what stands
  there reads as the cell of the snapshot (`cells_read`). Whole numbers are taken
  over as they are, never cut down to the bits of their field.
-/

namespace Aggregate

theorem SystemClass.word_of_ofWord? {w : String} {c : SystemClass}
    (h : SystemClass.ofWord? w = some c) : c.word = w := by
  unfold ofWord? at h
  split at h <;> cases h <;> rfl

theorem Environment.word_of_ofWord? {w : String} {e : Environment}
    (h : Environment.ofWord? w = some e) : e.word = w := by
  unfold ofWord? at h
  split at h <;> cases h <;> rfl

theorem Configuration.word_of_ofWord? {w : String} {c : Configuration}
    (h : Configuration.ofWord? w = some c) : c.word = w := by
  unfold ofWord? at h
  split at h <;> cases h <;> rfl

namespace Settings

/-- A value of a document that reads as the cell. -/
def Cell.Reads (v : Toml.Value) : Cell → Prop
  | .word value => word? v = some value
  | .flag value => flag? v = some value
  | .count value => v = .integer value
  | .real value => real? v = some value

/-- The cell is what the values of a document hold under its key. -/
def Cell.IsRead (values : List (String × Toml.Value)) (c : String × Cell) : Prop :=
  ∃ v, values.lookup c.1 = some v ∧ c.2.Reads v

section
variable {values : List (String × Toml.Value)} {key : String}

theorem isRead_word {α : Type} {ofWord? : String → Option α} {word : α → String} {a : α}
    (hword : ∀ {w a}, ofWord? w = some a → word a = w)
    (h : setting? values (fun v => (word? v).bind ofWord?) key = some a) :
    Cell.IsRead values (key, .word (word a)) := by
  obtain ⟨v, hv, hform⟩ := Option.bind_eq_some_iff.mp h
  obtain ⟨w, hw, ha⟩ := Option.bind_eq_some_iff.mp hform
  refine ⟨v, hv, ?_⟩
  rw [hword ha]
  exact hw

theorem isRead_flag {b : Bool} (h : setting? values flag? key = some b) :
    Cell.IsRead values (key, .flag b) := Option.bind_eq_some_iff.mp h

theorem isRead_real {x : Binary .double} (h : setting? values real? key = some x) :
    Cell.IsRead values (key, .real x) := Option.bind_eq_some_iff.mp h

theorem count?_eq_some {bound n : Nat} {v : Toml.Value} (h : count? bound v = some n) :
    v = .integer n ∧ n < bound := by
  unfold count? at h
  split at h
  · next value =>
    rw [Option.ite_none_right_eq_some] at h
    obtain ⟨⟨hlow, hhigh⟩, heq⟩ := h
    cases heq
    exact ⟨congrArg Toml.Value.integer (Int.toNat_of_nonneg hlow).symm, by omega⟩
  · cases h

/-- A count that fits its field is not changed by being put there. -/
theorem isRead_count {α : Type} {bound : Nat} {ofNat : Nat → α} {toNat : α → Nat} {a : α}
    (hfits : ∀ n, n < bound → toNat (ofNat n) = n)
    (h : setting? values (fun v => (count? bound v).map ofNat) key = some a) :
    Cell.IsRead values (key, .count (toNat a)) := by
  obtain ⟨v, hv, hform⟩ := Option.bind_eq_some_iff.mp h
  obtain ⟨n, hn, rfl⟩ := Option.map_eq_some_iff.mp hform
  obtain ⟨hvalue, hlt⟩ := count?_eq_some hn
  refine ⟨v, hv, ?_⟩
  rw [hfits n hlt]
  exact hvalue

theorem isRead_byte {n : UInt8} (h : setting? values byte? key = some n) :
    Cell.IsRead values (key, .count n.toNat) :=
  isRead_count (fun _ hlt => UInt8.toNat_ofNat_of_lt' hlt) h

theorem isRead_number {n : UInt32} (h : setting? values number? key = some n) :
    Cell.IsRead values (key, .count n.toNat) :=
  isRead_count (fun _ hlt => UInt32.toNat_ofNat_of_lt' hlt) h

theorem isRead_size {n : UInt64} (h : setting? values size? key = some n) :
    Cell.IsRead values (key, .count n.toNat) :=
  isRead_count (fun _ hlt => UInt64.toNat_ofNat_of_lt' hlt) h

end

/-- Every field of a snapshot put together from the values of a document was read there. -/
theorem cells_read {values : List (String × Toml.Value)} {s : Settings}
    (h : ofValues? values = some s) : ∀ c ∈ s.cells, Cell.IsRead values c := by
  -- The settings are asked for one after the other, and each was there.
  unfold ofValues? at h
  obtain ⟨system, h1, h⟩ := Option.bind_eq_some_iff.mp h
  obtain ⟨environment, h2, h⟩ := Option.bind_eq_some_iff.mp h
  obtain ⟨configuration, h3, h⟩ := Option.bind_eq_some_iff.mp h
  obtain ⟨parallel, h4, h⟩ := Option.bind_eq_some_iff.mp h
  obtain ⟨synchronised, h5, h⟩ := Option.bind_eq_some_iff.mp h
  obtain ⟨exportNum, h6, h⟩ := Option.bind_eq_some_iff.mp h
  obtain ⟨exportPtr, h7, h⟩ := Option.bind_eq_some_iff.mp h
  obtain ⟨onlineDrop, h8, h⟩ := Option.bind_eq_some_iff.mp h
  obtain ⟨messagePush, h9, h⟩ := Option.bind_eq_some_iff.mp h
  obtain ⟨valuePush, h10, h⟩ := Option.bind_eq_some_iff.mp h
  obtain ⟨warningTrace, h11, h⟩ := Option.bind_eq_some_iff.mp h
  obtain ⟨realBits, h12, h⟩ := Option.bind_eq_some_iff.mp h
  obtain ⟨traceBits, h13, h⟩ := Option.bind_eq_some_iff.mp h
  obtain ⟨deviceBits, h14, h⟩ := Option.bind_eq_some_iff.mp h
  obtain ⟨hopsBits, h15, h⟩ := Option.bind_eq_some_iff.mp h
  obtain ⟨realtime, h16, h⟩ := Option.bind_eq_some_iff.mp h
  obtain ⟨timeEpsilon, h17, h⟩ := Option.bind_eq_some_iff.mp h
  obtain ⟨threads, h18, h⟩ := Option.bind_eq_some_iff.mp h
  obtain ⟨refreshRate, h19, h⟩ := Option.bind_eq_some_iff.mp h
  obtain ⟨antialias, h20, h⟩ := Option.bind_eq_some_iff.mp h
  obtain ⟨sphericity, h21, h⟩ := Option.bind_eq_some_iff.mp h
  obtain ⟨tailGranularity, h22, h⟩ := Option.bind_eq_some_iff.mp h
  obtain ⟨fieldDrawLimit, h23, h⟩ := Option.bind_eq_some_iff.mp h
  cases h
  simp only [cells, List.forall_mem_cons]
  refine ⟨isRead_word SystemClass.word_of_ofWord? h1, isRead_word Environment.word_of_ofWord? h2,
    isRead_word Configuration.word_of_ofWord? h3, isRead_flag h4, isRead_flag h5, isRead_byte h6,
    isRead_flag h7, isRead_flag h8, isRead_flag h9, isRead_flag h10, isRead_flag h11,
    isRead_number h12, isRead_number h13, isRead_number h14, isRead_number h15, isRead_real h16,
    isRead_real h17, isRead_size h18, isRead_real h19, isRead_number h20, isRead_number h21,
    isRead_number h22, isRead_number h23, ?_⟩
  exact fun _ hc => absurd hc List.not_mem_nil

/-- A count of a snapshot is the whole number that the document holds for it. -/
theorem lookup_count {values : List (String × Toml.Value)} {s : Settings}
    (h : ofValues? values = some s) {key : String} {n : Nat} (hc : (key, Cell.count n) ∈ s.cells) :
    values.lookup key = some (.integer n) := by
  obtain ⟨v, hlookup, hv⟩ := cells_read h _ hc
  rw [hlookup]
  exact congrArg some hv

end Settings

end Aggregate
