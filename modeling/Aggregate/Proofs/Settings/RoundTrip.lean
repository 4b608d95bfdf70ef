import Aggregate.Settings.Document
import Aggregate.Proofs.Settings.Validity
import Aggregate.Proofs.Toml.Lines

/-
  Published snapshots are read back

  Every line of a rendered snapshot is an assignment of a scalar to a name of
  its own, so the document holds one value for each setting (`read_render`).
  From values that hold those of a snapshot, in whatever order, the snapshot is
  put together again (`ofValues?_of_lookup`), up to the bits of what is no
  number. Reading it back therefore ends as checking the snapshot itself does,
  which is the main result, `parse_render`.
-/

namespace Aggregate.Settings

/-! ## Cells -/

/-- The value that a cell is read as. -/
def Cell.value : Cell → Toml.Value
  | .word value => .text value
  | .flag value => .boolean value
  | .count value => .integer value
  | .real value => .real value.canonical

/-- A cell that a document can hold. -/
def Cell.Writable : Cell → Prop
  | .word value => Toml.Literal value.toList
  | .count value => (value : Int) ≤ Toml.maxInteger
  | .flag _ | .real _ => True

theorem Cell.writes {c : Cell} (h : c.Writable) : Toml.Writes c.chars c.value := by
  cases c with
  | word value =>
    have hwrites := Toml.writes_literal h
    rw [String.ofList_toList] at hwrites
    exact hwrites
  | flag value => exact Toml.writes_boolText value
  | count value => exact Toml.writes_digits h
  | real value => exact Toml.writes_chars value

theorem literal_system (c : SystemClass) : Toml.Literal c.word.toList := by
  cases c <;> exact Toml.literal_of_all rfl

theorem literal_environment (e : Environment) : Toml.Literal e.word.toList := by
  cases e <;> exact Toml.literal_of_all rfl

theorem literal_configuration (c : Configuration) : Toml.Literal c.word.toList := by
  cases c <;> exact Toml.literal_of_all rfl

theorem writable_byte (n : UInt8) : (Cell.count n.toNat).Writable := by
  have hlt := n.toNat_lt
  show (n.toNat : Int) ≤ Toml.maxInteger
  unfold Toml.maxInteger
  omega

theorem writable_number (n : UInt32) : (Cell.count n.toNat).Writable := by
  have hlt := n.toNat_lt
  show (n.toNat : Int) ≤ Toml.maxInteger
  unfold Toml.maxInteger
  omega

/-- Every cell can be written, unless the number of threads is out of range. -/
theorem writable_cells {s : Settings} (h : (s.threads.toNat : Int) ≤ Toml.maxInteger) :
    ∀ c ∈ s.cells, c.2.Writable := by
  simp only [cells, List.forall_mem_cons]
  refine ⟨literal_system _, literal_environment _, literal_configuration _, trivial, trivial,
    writable_byte _, trivial, trivial, trivial, trivial, trivial, writable_number _,
    writable_number _, writable_number _, writable_number _, trivial, trivial, h, trivial,
    writable_number _, writable_number _, writable_number _, writable_number _, ?_⟩
  exact fun _ hc => absurd hc List.not_mem_nil

/-! ## Keys -/

/-- The keys of a document, in order. -/
def keys : List String := [
  "system", "environment", "configuration", "parallel", "synchronised", "export_num",
  "export_ptr", "online_drop", "message_push", "value_push", "warning_trace", "real_bits",
  "trace_bits", "device_bits", "hops_bits", "realtime", "time_epsilon", "threads",
  "refresh_rate", "antialias", "sphericity", "tail_granularity", "field_draw_limit"]

theorem keys_cells (s : Settings) : s.cells.map Prod.fst = keys := rfl

theorem nodup_keys : keys.Nodup := by decide

theorem bareName_keys : ∀ k ∈ keys, Toml.BareName k.toList := by
  have hall : (keys.all fun k => !k.toList.isEmpty && k.toList.all Toml.isNameChar) = true := rfl
  intro k hk
  have hkey := List.all_eq_true.mp hall k hk
  simp only [Bool.and_eq_true, Bool.not_eq_true', List.isEmpty_eq_false_iff, List.all_eq_true] at hkey
  exact ⟨hkey.1, hkey.2⟩

theorem bareName_cells (s : Settings) : ∀ c ∈ s.cells, Toml.BareName c.1.toList := by
  intro c hc
  refine bareName_keys c.1 ?_
  rw [← keys_cells s]
  exact List.mem_map_of_mem hc

/-! ## Reading the lines -/

theorem lineChars_eq (cell : String × Cell) :
    lineChars cell = Toml.assignmentLine cell.1.toList cell.2.chars := by
  have hequals : " = ".toList = [' ', '=', ' '] := rfl
  unfold lineChars Toml.assignmentLine
  rw [hequals]
  simp

/-- The document of a snapshot holds the values of its cells. -/
theorem read_cells {s : Settings} (h : (s.threads.toNat : Int) ≤ Toml.maxInteger) :
    Toml.read (s.cells.flatMap lineChars) = some (s.cells.map fun c => (c.1, c.2.value)) := by
  have hlines : lineChars = fun cell => Toml.assignmentLine cell.1.toList cell.2.chars :=
    funext lineChars_eq
  have hnodup : (s.cells.map Prod.fst).Nodup := by
    rw [keys_cells]
    exact nodup_keys
  rw [hlines]
  exact Toml.read_assignments (bareName_cells s) (fun c hc => Cell.writes (writable_cells h c hc))
    hnodup

/-! ## Putting a snapshot together -/

theorem system_ofWord? (c : SystemClass) : SystemClass.ofWord? c.word = some c := by
  cases c <;> rfl

theorem environment_ofWord? (e : Environment) : Environment.ofWord? e.word = some e := by
  cases e <;> rfl

theorem configuration_ofWord? (c : Configuration) : Configuration.ofWord? c.word = some c := by
  cases c <;> rfl

theorem count?_of_lt {bound n : Nat} (h : n < bound) : count? bound (.integer n) = some n := by
  have hrange : (0 : Int) ≤ n ∧ (n : Int) < bound := by omega
  exact if_pos hrange

theorem byte?_toNat (n : UInt8) : byte? (.integer n.toNat) = some n := by
  unfold byte?
  rw [count?_of_lt n.toNat_lt, Option.map_some, UInt8.ofNat_toNat]

theorem number?_toNat (n : UInt32) : number? (.integer n.toNat) = some n := by
  unfold number?
  rw [count?_of_lt n.toNat_lt, Option.map_some, UInt32.ofNat_toNat]

theorem size?_toNat (n : UInt64) : size? (.integer n.toNat) = some n := by
  unfold size?
  rw [count?_of_lt n.toNat_lt, Option.map_some, UInt64.ofNat_toNat]

theorem setting?_of_lookup {α : Type} {values : List (String × Toml.Value)} {key : String}
    {v : Toml.Value} (form : Toml.Value → Option α) (h : values.lookup key = some v) :
    setting? values form key = form v := by
  unfold setting?
  rw [h, Option.bind_some]

/-- Values that hold those of a snapshot give it back, whatever else they hold. -/
theorem ofValues?_of_lookup {s : Settings} {values : List (String × Toml.Value)}
    (h : ∀ c ∈ s.cells, values.lookup c.1 = some c.2.value) :
    ofValues? values = some s.canonical := by
  simp only [cells, List.forall_mem_cons, Cell.value] at h
  obtain ⟨h1, h2, h3, h4, h5, h6, h7, h8, h9, h10, h11, h12, h13, h14, h15, h16, h17, h18, h19, h20,
    h21, h22, h23, -⟩ := h
  unfold ofValues?
  simp only [setting?_of_lookup _ h1, setting?_of_lookup _ h2, setting?_of_lookup _ h3,
    setting?_of_lookup _ h4, setting?_of_lookup _ h5, setting?_of_lookup _ h6,
    setting?_of_lookup _ h7, setting?_of_lookup _ h8, setting?_of_lookup _ h9,
    setting?_of_lookup _ h10, setting?_of_lookup _ h11, setting?_of_lookup _ h12,
    setting?_of_lookup _ h13, setting?_of_lookup _ h14, setting?_of_lookup _ h15,
    setting?_of_lookup _ h16, setting?_of_lookup _ h17, setting?_of_lookup _ h18,
    setting?_of_lookup _ h19, setting?_of_lookup _ h20, setting?_of_lookup _ h21,
    setting?_of_lookup _ h22, setting?_of_lookup _ h23]
  simp only [word?, flag?, real?, byte?_toNat, number?_toNat, size?_toNat, system_ofWord?,
    environment_ofWord?, configuration_ofWord?, Option.bind_some, Option.pure_def,
    Option.bind_eq_bind]
  rfl

theorem lookup_of_mem {values : List (String × Toml.Value)} {key : String} {v : Toml.Value}
    (hnodup : (values.map Prod.fst).Nodup) (h : (key, v) ∈ values) :
    values.lookup key = some v := by
  induction values with
  | nil => cases h
  | cons w values ih =>
    rw [List.map_cons, List.nodup_cons] at hnodup
    rw [List.lookup_cons]
    rcases List.mem_cons.mp h with rfl | hmem
    · simp
    · have hne : key ≠ w.1 := fun heq => hnodup.1 (heq ▸ List.mem_map_of_mem hmem)
      rw [beq_false_of_ne hne]
      exact ih hnodup.2 hmem

/-- The document of a snapshot gives it back. -/
theorem ofValues?_cells (s : Settings) :
    ofValues? (s.cells.map fun c => (c.1, c.2.value)) = some s.canonical := by
  refine ofValues?_of_lookup fun c hc => lookup_of_mem ?_ (List.mem_map_of_mem hc)
  rw [List.map_map]
  show (s.cells.map Prod.fst).Nodup
  rw [keys_cells]
  exact nodup_keys

/-! ## The round trip -/

theorem parseChars_cells {s : Settings} (h : (s.threads.toNat : Int) ≤ Toml.maxInteger) :
    parseChars (s.cells.flatMap lineChars) = s.validate.map fun _ => s.canonical := by
  unfold parseChars
  rw [read_cells h, Option.bind_some, ofValues?_cells]
  simp only [validate_canonical]

/-- The same snapshot, bit by bit, except for a refresh rate that is no number: that stays one. -/
structure Matches (s t : Settings) : Prop where
  others : t = { s with refreshRate := t.refreshRate }
  number : s.refreshRate.isNaN = false → t.refreshRate = s.refreshRate
  noNumber : s.refreshRate.isNaN = true → t.refreshRate.isNaN = true

theorem Valid.matches_canonical {s : Settings} (h : s.Valid) : s.Matches s.canonical := by
  have hcanonical : s.canonical.refreshRate = s.refreshRate.canonical := rfl
  refine ⟨?_, ?_, ?_⟩
  · rw [hcanonical]
    exact h.canonical_eq
  · exact Binary.canonical_of_number
  · intro hnan
    rw [hcanonical, Binary.isNaN_canonical, hnan]

/-- A snapshot is refused by the writer exactly if its number of threads leaves the signed 64-bit
range. Otherwise its document is read as the checks of the snapshot end: as the snapshot itself if
it is valid, and with the very report of the checks if it is not. -/
theorem parse_render (s : Settings) :
    match s.render with
    | .error e => e = .unwritable ∧ Nat.pow 2 63 - 1 < s.threads.toNat
    | .ok text => s.threads.toNat ≤ Nat.pow 2 63 - 1 ∧
      match s.validate with
      | .ok _ => ∃ t, parse text = .ok t ∧ s.Matches t
      | .error e => parse text = .error e ∧ ∃ setting value, e = .invalid setting value := by
  have hmax : Toml.maxInteger = (Nat.pow 2 63 - 1 : Nat) := rfl
  unfold render renderChars
  by_cases hthreads : (s.threads.toNat : Int) ≤ Toml.maxInteger
  · have hparse : parse (String.ofList (s.cells.flatMap lineChars)) =
        s.validate.map fun _ => s.canonical := by
      unfold parse
      rw [String.toList_ofList, parseChars_cells hthreads]
    rw [if_pos hthreads]
    refine ⟨by omega, ?_⟩
    cases hvalidate : s.validate with
    | ok =>
      rw [hvalidate] at hparse
      exact ⟨s.canonical, hparse, (validate_eq_ok.mp hvalidate).matches_canonical⟩
    | error e =>
      rw [hvalidate] at hparse
      exact ⟨hparse, validate_error hvalidate⟩
  · rw [if_neg hthreads]
    exact ⟨rfl, by omega⟩

end Aggregate.Settings
