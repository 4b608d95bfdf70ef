import Aggregate.Proofs.Settings.Fields
import Aggregate.Proofs.Toml.Layout
import Mathlib.Data.List.Nodup

/-
  The layout of a snapshot does not matter

  A document may hold the lines of a snapshot in any order, with blank lines,
  comments and other settings between them. `Piece` is a line of such a document.
  It is read by its fields alone: as long as every line of the snapshot is there
  once, the outcome is that of checking the snapshot (`parse_complete`). A line
  that is missing or comes twice makes the document unreadable before anything is
  checked (`parse_incomplete`, `parse_repeated`), also where the checks would have
  refused the snapshot.
-/

namespace Aggregate.Settings

/-! ## Lines -/

/-- A line of a document: one that a snapshot is rendered with, one that assigns a whole number to
another name, a line of blanks, or a comment. -/
inductive Piece where
  | cell (cell : String × Cell)
  | extra (name : String) (n : Int)
  | blank (indent : List Char) (carriage : Bool)
  | comment (indent text : List Char) (carriage : Bool)

namespace Piece

def chars : Piece → List Char
  | .cell c => lineChars c
  | .extra name n => Toml.assignmentLine name.toList (Toml.integerChars n)
  | .blank indent carriage => indent ++ Toml.lineBreak carriage
  | .comment indent text carriage => indent ++ '#' :: (text ++ Toml.lineBreak carriage)

/-- What the line assigns, if it assigns anything. -/
def meaning : Piece → Option (String × Toml.Value)
  | .cell c => some (c.1, c.2.value)
  | .extra name n => some (name, .integer n)
  | .blank _ _ | .comment _ _ _ => none

/-- The name that the line assigns to. -/
def name? (p : Piece) : Option String := p.meaning.map Prod.fst

def cell? : Piece → Option (String × Cell)
  | .cell c => some c
  | _ => none

def extraName? : Piece → Option String
  | .extra name _ => some name
  | _ => none

/-- A line that may stand in a document of the snapshot: its own lines, whole numbers in range for
bare names that are no settings, and lines that say nothing. -/
def Admissible (s : Settings) : Piece → Prop
  | .cell c => c ∈ s.cells
  | .extra name n => Toml.BareName name.toList ∧ name ∉ keys ∧
      Toml.minInteger ≤ n ∧ n ≤ Toml.maxInteger
  | .blank indent _ => ∀ c ∈ indent, Toml.isBlank c = true
  | .comment indent text _ =>
    (∀ c ∈ indent, Toml.isBlank c = true) ∧ ∀ c ∈ text, Toml.isPrintable c = true

end Piece

/-- The text of lines one after another. -/
def document (pieces : List Piece) : String := String.ofList (pieces.flatMap Piece.chars)

section
variable {s : Settings} {p : Piece} {pieces : List Piece}

theorem eq_cell_of_cell? {c : String × Cell} (h : p.cell? = some c) : p = .cell c := by
  cases p <;> cases h
  rfl

theorem eq_extra_of_extraName? {name : String} (h : p.extraName? = some name) :
    ∃ n, p = .extra name n := by
  cases p <;> cases h
  exact ⟨_, rfl⟩

theorem start_of_indent {indent after : List Char} {d : Char}
    (hindent : ∀ c ∈ indent, Toml.isBlank c = true) (hd : d ≠ '\ufeff') :
    ∃ c more, indent ++ d :: after = c :: more ∧ c ≠ '\ufeff' := by
  cases indent with
  | nil => exact ⟨d, after, rfl, hd⟩
  | cons c indent =>
    have hc := hindent c (List.mem_cons_self ..)
    exact ⟨c, _, rfl, Toml.ne_of_kind hc (by decide)⟩

theorem piece_start (h : p.Admissible s) : ∃ c more, p.chars = c :: more ∧ c ≠ '\ufeff' := by
  cases p with
  | cell c =>
    show ∃ d more, lineChars c = d :: more ∧ d ≠ '\ufeff'
    rw [lineChars_eq]
    exact Toml.start_of_bareName (bareName_cells s c h)
  | extra name n => exact Toml.start_of_bareName h.1
  | blank indent carriage => cases carriage <;> exact start_of_indent h (by decide)
  | comment indent text carriage => exact start_of_indent h.1 (by decide)

theorem piece_line (hthreads : (s.threads.toNat : Int) ≤ Toml.maxInteger) (h : p.Admissible s)
    (rest : List Char) :
    Toml.line (p.chars ++ rest) = some (.ofOption p.meaning, rest) := by
  cases p with
  | cell c =>
    have hwrites := Cell.writes (writable_cells hthreads c h)
    have hline := Toml.line_assign (bareName_cells s c h) hwrites rest
    rw [String.ofList_toList] at hline
    show Toml.line (lineChars c ++ rest) = _
    rw [lineChars_eq]
    exact hline
  | extra name n =>
    obtain ⟨hname, -, hlow, hhigh⟩ := h
    have hline := Toml.line_assign hname (Toml.writes_integer hlow hhigh) rest
    rw [String.ofList_toList] at hline
    exact hline
  | blank indent carriage => exact Toml.line_blank h carriage rest
  | comment indent text carriage => exact Toml.line_comment h.1 h.2 carriage rest

/-! ## Documents -/

theorem read_document (hthreads : (s.threads.toNat : Int) ≤ Toml.maxInteger)
    (hpieces : ∀ p ∈ pieces, p.Admissible s) :
    Toml.read (document pieces).toList =
      if (pieces.filterMap Piece.name?).Nodup then some (pieces.filterMap Piece.meaning)
      else none := by
  have hnames : (pieces.filterMap Piece.meaning).map Prod.fst = pieces.filterMap Piece.name? :=
    List.map_filterMap
  unfold document
  rw [String.toList_ofList, Toml.read_layout (fun p hp => piece_start (hpieces p hp))
    (fun p hp => piece_line hthreads (hpieces p hp)), hnames]

theorem names_perm (pieces : List Piece) :
    (pieces.filterMap Piece.name?).Perm
      ((pieces.filterMap Piece.cell?).map Prod.fst ++ pieces.filterMap Piece.extraName?) := by
  induction pieces with
  | nil => exact .nil
  | cons p pieces ih =>
    cases p with
    | cell c => exact ih.cons c.1
    | extra name n => exact (ih.cons name).trans List.perm_middle.symm
    | blank indent carriage => exact ih
    | comment indent text carriage => exact ih

theorem nodup_names (hpieces : ∀ p ∈ pieces, p.Admissible s)
    (hcells : (pieces.filterMap Piece.cell?).Perm s.cells)
    (hextras : (pieces.filterMap Piece.extraName?).Nodup) :
    (pieces.filterMap Piece.name?).Nodup := by
  have hkeys : ((pieces.filterMap Piece.cell?).map Prod.fst).Perm keys := by
    rw [← keys_cells s]
    exact hcells.map Prod.fst
  rw [(names_perm pieces).nodup_iff, List.nodup_append]
  refine ⟨hkeys.nodup_iff.mpr nodup_keys, hextras, fun k hk name hname heq => ?_⟩
  obtain ⟨p, hp, hextra⟩ := List.mem_filterMap.mp hname
  obtain ⟨n, rfl⟩ := eq_extra_of_extraName? hextra
  exact (hpieces _ hp).2.1 (heq ▸ hkeys.mem_iff.mp hk)

/-- A setting that the document assigns is assigned by its own line. -/
theorem cell_mem_of_meaning (hpieces : ∀ p ∈ pieces, p.Admissible s) {c : String × Cell}
    (hc : c ∈ s.cells) {v : Toml.Value} (h : (c.1, v) ∈ pieces.filterMap Piece.meaning) :
    .cell c ∈ pieces := by
  obtain ⟨p, hp, hmeaning⟩ := List.mem_filterMap.mp h
  have hp' := hpieces p hp
  cases p with
  | cell d =>
    have hpair : (d.1, d.2.value) = (c.1, v) := Option.some.inj hmeaning
    have hkey : d.1 = c.1 := (Prod.mk.inj hpair).1
    have hnodup : (s.cells.map Prod.fst).Nodup := by
      rw [keys_cells]
      exact nodup_keys
    rw [← List.inj_on_of_nodup_map hnodup hp' hc hkey]
    exact hp
  | extra name n =>
    have hpair : (name, Toml.Value.integer n) = (c.1, v) := Option.some.inj hmeaning
    have hname : name = c.1 := (Prod.mk.inj hpair).1
    have hkey : c.1 ∈ keys := by
      rw [← keys_cells s]
      exact List.mem_map_of_mem hc
    exact absurd (hname ▸ hkey) hp'.2.1
  | blank indent carriage => cases hmeaning
  | comment indent text carriage => cases hmeaning

/-! ## Outcomes -/

/-- With every line of the snapshot once, reading ends as checking the snapshot does. -/
theorem parse_complete (hthreads : (s.threads.toNat : Int) ≤ Toml.maxInteger)
    (hpieces : ∀ p ∈ pieces, p.Admissible s)
    (hcells : (pieces.filterMap Piece.cell?).Perm s.cells)
    (hextras : (pieces.filterMap Piece.extraName?).Nodup) :
    parse (document pieces) = s.validate.map fun _ => s.canonical := by
  have hnodup := nodup_names hpieces hcells hextras
  have hread := read_document hthreads hpieces
  rw [if_pos hnodup] at hread
  have hnames : ((pieces.filterMap Piece.meaning).map Prod.fst).Nodup := by
    rw [List.map_filterMap]
    exact hnodup
  have hvalues : ofValues? (pieces.filterMap Piece.meaning) = some s.canonical := by
    refine ofValues?_of_lookup fun c hc => lookup_of_mem hnames ?_
    obtain ⟨p, hp, hcell⟩ := List.mem_filterMap.mp (hcells.mem_iff.mpr hc)
    rw [eq_cell_of_cell? hcell] at hp
    exact List.mem_filterMap.mpr ⟨_, hp, rfl⟩
  unfold parse parseChars
  rw [hread, Option.bind_some, hvalues]
  simp only [validate_canonical]

theorem parse_repeated (hthreads : (s.threads.toNat : Int) ≤ Toml.maxInteger)
    (hpieces : ∀ p ∈ pieces, p.Admissible s)
    (h : ¬(pieces.filterMap Piece.name?).Nodup) :
    parse (document pieces) = .error .unreadable := by
  unfold parse parseChars
  rw [read_document hthreads hpieces, if_neg h]
  rfl

/-- A setting that is left out is missed before anything is checked. -/
theorem parse_incomplete (hthreads : (s.threads.toNat : Int) ≤ Toml.maxInteger)
    (hpieces : ∀ p ∈ pieces, p.Admissible s)
    {c : String × Cell} (hc : c ∈ s.cells) (h : .cell c ∉ pieces) :
    parse (document pieces) = .error .unreadable := by
  by_cases hnodup : (pieces.filterMap Piece.name?).Nodup
  · have hvalues : ofValues? (pieces.filterMap Piece.meaning) = none := by
      rw [Option.eq_none_iff_forall_ne_some]
      intro t ht
      have hkey : c.1 ∈ t.cells.map Prod.fst := by
        rw [keys_cells, ← keys_cells s]
        exact List.mem_map_of_mem hc
      obtain ⟨d, hd, hdc⟩ := List.mem_map.mp hkey
      obtain ⟨v, hlookup, -⟩ := cells_read ht d hd
      obtain ⟨before, after, heq, -⟩ := List.lookup_eq_some_iff.mp hlookup
      have hmem : (c.1, v) ∈ pieces.filterMap Piece.meaning := by
        rw [heq, hdc]
        simp
      exact h (cell_mem_of_meaning hpieces hc hmem)
    unfold parse parseChars
    rw [read_document hthreads hpieces, if_pos hnodup, Option.bind_some, hvalues]
  · exact parse_repeated hthreads hpieces hnodup

end

/-- The lines of a rendered snapshot, in any order, with other settings, blank lines and comments
between them, are read with the outcome of checking the snapshot. If one is left out, or a line
that assigns comes twice, the document is not read at all, whatever the checks would have said. -/
theorem layout_indifferent {s : Settings} (hthreads : s.threads.toNat ≤ Nat.pow 2 63 - 1)
    {pieces : List Piece} (hpieces : ∀ p ∈ pieces, p.Admissible s) :
    s.render = .ok (document (s.cells.map .cell)) ∧
    ((pieces.filterMap Piece.cell?).Perm s.cells → (pieces.filterMap Piece.extraName?).Nodup →
      match s.validate with
      | .ok _ => ∃ t, parse (document pieces) = .ok t ∧ s.Matches t
      | .error e => parse (document pieces) = .error e ∧
        ∃ setting value, e = .invalid setting value) ∧
    ((∃ c ∈ s.cells, .cell c ∉ pieces) ∨ ¬(pieces.filterMap Piece.name?).Nodup →
      parse (document pieces) = .error .unreadable) := by
  have hmax : Toml.maxInteger = (Nat.pow 2 63 - 1 : Nat) := rfl
  have hle : (s.threads.toNat : Int) ≤ Toml.maxInteger := by omega
  refine ⟨?_, fun hcells hextras => ?_, ?_⟩
  · unfold render renderChars document
    rw [if_pos hle, List.flatMap_map]
    rfl
  · have hparse := parse_complete hle hpieces hcells hextras
    cases hvalidate : s.validate with
    | ok =>
      rw [hvalidate] at hparse
      exact ⟨s.canonical, hparse, (validate_eq_ok.mp hvalidate).matches_canonical⟩
    | error e =>
      rw [hvalidate] at hparse
      exact ⟨hparse, validate_error hvalidate⟩
  · rintro (⟨c, hc, hmissing⟩ | hrepeated)
    · exact parse_incomplete hle hpieces hc hmissing
    · exact parse_repeated hle hpieces hrepeated

/-- A snapshot without threads, which the checks refuse. -/
def threadless : Settings :=
  { ({} : Build).settings 0 with
    realtime := .infinity .double false
    timeEpsilon := .ofCode .double false 0 }

/-- Its lines in reverse, behind a comment, a line of blanks and a setting of another name. -/
def reversed : List Piece :=
  [.comment [] "settings".toList false, .blank [' ', '\t'] true, .extra "seed" (-5)] ++
    threadless.cells.reverse.map .cell

theorem admissible_reversed : ∀ p ∈ reversed, p.Admissible threadless := by
  have hcells : ∀ p ∈ threadless.cells.reverse.map Piece.cell, p.Admissible threadless := by
    intro p hp
    obtain ⟨c, hc, rfl⟩ := List.mem_map.mp hp
    exact List.mem_reverse.mp hc
  have hothers : ∀ p ∈ [.comment [] "settings".toList false, .blank [' ', '\t'] true,
      .extra "seed" (-5)], Piece.Admissible threadless p := by
    have htext : "settings".toList.all Toml.isPrintable = true := rfl
    have hblank : [' ', '\t'].all Toml.isBlank = true := rfl
    have hname : "seed".toList.all Toml.isNameChar = true := rfl
    simp only [List.forall_mem_cons]
    refine ⟨⟨fun _ hc => absurd hc List.not_mem_nil, List.all_eq_true.mp htext⟩,
      List.all_eq_true.mp hblank, ⟨⟨by decide, List.all_eq_true.mp hname⟩, by decide, by decide,
        by decide⟩, ?_⟩
    exact fun _ hp => absurd hp List.not_mem_nil
  exact List.forall_mem_append.mpr ⟨hothers, hcells⟩

theorem layout_indifferent_reversed :
    threadless.threads.toNat ≤ Nat.pow 2 63 - 1 ∧ (∀ p ∈ reversed, p.Admissible threadless) ∧
      parse (document reversed) = .error (.invalid "threads" "0") ∧
      parse (document []) = .error .unreadable := by
  have hthreads : threadless.threads.toNat ≤ Nat.pow 2 63 - 1 := by decide
  have hcells : reversed.filterMap Piece.cell? = threadless.cells.reverse := rfl
  have hextras : reversed.filterMap Piece.extraName? = ["seed"] := rfl
  have hvalidate : threadless.validate = .error (.invalid "threads" "0") := rfl
  have hcomplete := (layout_indifferent hthreads admissible_reversed).2.1
    (by rw [hcells]; exact List.reverse_perm _) (by rw [hextras]; exact List.nodup_singleton _)
  have hnone : ∀ p ∈ ([] : List Piece), p.Admissible threadless :=
    fun _ hp => absurd hp List.not_mem_nil
  have hincomplete := (layout_indifferent hthreads hnone).2.2
    (.inl ⟨_, List.mem_cons_self .., List.not_mem_nil⟩)
  rw [hvalidate] at hcomplete
  exact ⟨hthreads, admissible_reversed, hcomplete.1, hincomplete⟩

end Aggregate.Settings
