import Aggregate.Toml.Document

/-
  Whole numbers of a document are in range

  However a whole number is written, in whatever base and behind whatever sign,
  the reader refuses it outside the signed 64-bit range. `Reader.Yields` says
  this of a reader and is carried through the ways that readers are put
  together, up to the lines of a document. The tables that the lines fill take
  the values over as they are: dotted keys and headers only put tables and
  arrays beside them. So every whole number among the values of a document is
  in range (`read_inRange`).
-/

namespace Aggregate.Toml

/-- In the signed 64-bit range, if it is a whole number. -/
def Value.InRange : Value → Prop
  | .integer n => minInteger ≤ n ∧ n ≤ maxInteger
  | _ => True

/-! ## Readers -/

/-- Whatever the reader reads has the property. -/
def Reader.Yields {α : Type} (p : Reader α) (P : α → Prop) : Prop :=
  ∀ s a rest, p s = some (a, rest) → P a

namespace Reader.Yields

variable {α β : Type} {p q : Reader α} {P : α → Prop} {Q : β → Prop}

theorem any (p : Reader α) : p.Yields fun _ => True := fun _ _ _ _ => trivial

theorem or (hp : p.Yields P) (hq : q.Yields P) : (Reader.or p q).Yields P := by
  intro s a rest h
  rcases Option.or_eq_some_iff.mp h with h | ⟨-, h⟩
  · exact hp s a rest h
  · exact hq s a rest h

theorem map {g : α → β} (hp : p.Yields P) (hg : ∀ a, P a → Q (g a)) :
    (Reader.map g p).Yields Q := by
  intro s b rest h
  obtain ⟨⟨a, rest'⟩, ha, heq⟩ := Option.map_eq_some_iff.mp h
  cases heq
  exact hg a (hp s a rest' ha)

end Reader.Yields

theorem integer?_inRange {negative : Bool} {n : Nat} {v : Int} (h : integer? negative n = some v) :
    (Value.integer v).InRange := by
  simp only [integer?, Option.ite_none_right_eq_some] at h
  obtain ⟨hrange, heq⟩ := h
  cases heq
  exact hrange

theorem decimalInteger_inRange : decimalInteger.Yields fun n => (Value.integer n).InRange := by
  intro s n rest h
  obtain ⟨r, -, hr⟩ := Option.bind_eq_some_iff.mp h
  obtain ⟨v, hv, heq⟩ := Option.map_eq_some_iff.mp hr
  cases heq
  exact integer?_inRange hv

/-- A whole number is in range in every base. -/
theorem integer_inRange : integer.Yields fun n => (Value.integer n).InRange := by
  intro s n rest h
  unfold integer at h
  split at h
  · split at h
    · obtain ⟨r, -, hr⟩ := Option.bind_eq_some_iff.mp h
      obtain ⟨v, hv, heq⟩ := Option.map_eq_some_iff.mp hr
      cases heq
      exact integer?_inRange hv
    · exact decimalInteger_inRange _ n rest h
  · exact decimalInteger_inRange _ n rest h

theorem scalar_inRange : scalar.Yields Value.InRange := by
  have htext := (Reader.Yields.any text).map (g := fun t => Value.text (String.ofList t))
    (Q := Value.InRange) fun _ _ => trivial
  have hmoment := (Reader.Yields.any moment).map (g := fun _ => Value.moment)
    (Q := Value.InRange) fun _ _ => trivial
  have hreal := (Reader.Yields.any real).map (g := Value.real) (Q := Value.InRange)
    fun _ _ => trivial
  have hinteger := integer_inRange.map (g := Value.integer) (Q := Value.InRange) fun _ h => h
  have hboolean := (Reader.Yields.any boolean).map (g := Value.boolean) (Q := Value.InRange)
    fun _ _ => trivial
  exact htext.or (hmoment.or (hreal.or (hinteger.or hboolean)))

/-- A value with parts is no number, whatever its parts are. -/
theorem compound_inRange (value : Reader Value) : (compound value).Yields Value.InRange := by
  intro s v rest h
  unfold compound at h
  split at h
  · unfold array at h
    split at h
    · obtain ⟨after, -, heq⟩ := Option.map_eq_some_iff.mp h
      cases heq
      trivial
    · split at h
      · cases h
        trivial
      · cases h
  · unfold inlineTable at h
    simp only at h
    split at h
    · obtain ⟨es, -, heq⟩ := Option.map_eq_some_iff.mp h
      cases heq
      trivial
    · cases h
  · cases h

theorem value_inRange : value.Yields Value.InRange :=
  scalar_inRange.or (compound_inRange _)

theorem assignment_inRange : (assignment value).Yields fun a => a.value.InRange := by
  intro s a rest h
  unfold assignment at h
  split at h
  · obtain ⟨⟨v, rest'⟩, hv, heq⟩ := Option.map_eq_some_iff.mp h
    cases heq
    exact value_inRange _ v rest' hv
  · cases h

/-! ## Lines -/

/-- The value that a line assigns is in range. -/
def Line.InRange : Line → Prop
  | .assign a => a.value.InRange
  | .blank | .opens _ => True

theorem statement_inRange : Reader.Yields statement Line.InRange := by
  intro s l rest h
  unfold statement at h
  split at h
  · exact (Reader.Yields.any header).map (g := Line.opens) (fun _ _ => trivial) _ l rest h
  · exact assignment_inRange.map (g := Line.assign) (fun _ h => h) _ l rest h

theorem line_inRange : line.Yields Line.InRange := by
  intro s l rest h
  unfold line at h
  split at h
  · cases h
    trivial
  · obtain ⟨⟨l', rest'⟩, hl, hr⟩ := Option.bind_eq_some_iff.mp h
    obtain ⟨after, -, heq⟩ := Option.map_eq_some_iff.mp hr
    cases heq
    exact statement_inRange _ l' rest' hl

theorem lines_inRange {s : List Char} {ls : List Line} (h : lines s = some ls) :
    ∀ l ∈ ls, l.InRange := by
  induction s using lines.induct generalizing ls with
  | case1 s hempty =>
    rw [lines, if_pos hempty] at h
    cases h
    exact fun _ hl => absurd hl List.not_mem_nil
  | case2 s hempty hline =>
    rw [lines, if_neg hempty, hline] at h
    cases h
  | case3 s hempty l rest hline hlt ih =>
    rw [lines, if_neg hempty, hline] at h
    simp only [if_pos hlt] at h
    obtain ⟨more, hmore, heq⟩ := Option.map_eq_some_iff.mp h
    cases heq
    exact List.forall_mem_cons.mpr ⟨line_inRange s l rest hline, ih hmore⟩
  | case4 s hempty l rest hline hlt =>
    rw [lines, if_neg hempty, hline] at h
    simp only [if_neg hlt] at h
    cases h

theorem sections_inRange {ls : List Line} (h : ∀ l ∈ ls, l.InRange) :
    ∀ a ∈ (sections ls).1, a.value.InRange := by
  induction ls with
  | nil => exact fun _ ha => absurd ha List.not_mem_nil
  | cons l ls ih =>
    obtain ⟨hl, hrest⟩ := List.forall_mem_cons.mp h
    cases l with
    | blank => exact ih hrest
    | assign a => exact List.forall_mem_cons.mpr ⟨hl, ih hrest⟩
    | opens h => exact fun _ ha => absurd ha List.not_mem_nil

/-! ## Tables -/

/-- The values that the keys of the table itself stand for are in range. -/
def Entries.InRange (es : Entries) : Prop := ∀ e ∈ es, e.2.toValue.InRange

/-- An operation on a table that keeps its values in range. -/
def Entries.Keeps (change : Entries → Option Entries) : Prop :=
  ∀ es es' : Entries, es.InRange → change es = some es' → es'.InRange

namespace Entries

variable {es es' : Entries} {key : String}

theorem inRange_table (origin : Origin) (sub : Entries) :
    (Node.table origin sub).toValue.InRange := by
  rw [Node.toValue]
  trivial

theorem inRange_elements (earlier : List Entries) (last : Entries) :
    (Node.elements earlier last).toValue.InRange := by
  rw [Node.toValue]
  trivial

theorem inRange_put {node : Node} (hes : es.InRange) (hnode : node.toValue.InRange) :
    (es.put key node).InRange := by
  induction es with
  | nil =>
    intro e he
    rw [List.mem_singleton.mp he]
    exact hnode
  | cons e es ih =>
    obtain ⟨hfirst, hrest⟩ := List.forall_mem_cons.mp hes
    unfold put
    split
    · exact List.forall_mem_cons.mpr ⟨hnode, hrest⟩
    · exact List.forall_mem_cons.mpr ⟨hfirst, ih hrest⟩

/-- A table put under a key, made from another in whatever way. -/
theorem inRange_map_put {sub : Option Entries} {node : Entries → Node} (hes : es.InRange)
    (hnode : ∀ sub, (node sub).toValue.InRange)
    (h : (sub.map fun sub => es.put key (node sub)) = some es') : es'.InRange := by
  obtain ⟨made, -, rfl⟩ := Option.map_eq_some_iff.mp h
  exact inRange_put hes (hnode made)

theorem keeps_insert {value : Value} (hv : value.InRange) : Keeps (insert key value) := by
  intro es es' hes h
  unfold insert at h
  split at h
  · cases h
    intro e he
    rcases List.mem_append.mp he with he | he
    · exact hes e he
    · rw [List.mem_singleton.mp he, Node.toValue]
      exact hv
  · cases h

theorem keeps_assign {value : Value} (hv : value.InRange) (path : List String) :
    Keeps (assign key value path) := by
  intro es es' hes h
  cases path with
  | nil =>
    rw [assign] at h
    exact keeps_insert hv es es' hes h
  | cons k path =>
    -- On a dotted path a table or an array is put in the place of what was there.
    rw [assign] at h
    split at h
    · exact inRange_map_put hes (inRange_table _) h
    · split at h
      · cases h
      · exact inRange_map_put hes (inRange_table _) h
    · split at h
      · cases h
      · exact inRange_map_put hes (inRange_elements _) h
    · cases h

theorem keeps_fill {assignments : List Assignment} (h : ∀ a ∈ assignments, a.value.InRange) :
    Keeps (fill assignments) := by
  induction assignments with
  | nil =>
    intro es es' hes hfill
    cases hfill
    exact hes
  | cons a assignments ih =>
    obtain ⟨hfirst, hrest⟩ := List.forall_mem_cons.mp h
    intro es es' hes hfill
    unfold fill at hfill
    rw [List.foldlM_cons] at hfill
    obtain ⟨middle, hassign, hmore⟩ := Option.bind_eq_some_iff.mp hfill
    exact ih hrest middle es' (keeps_assign hfirst a.path es middle hes hassign) hmore

theorem keeps_define (change : Entries → Option Entries) : Keeps (define change key) := by
  intro es es' hes h
  unfold define at h
  split at h
  · exact inRange_map_put hes (inRange_table _) h
  · exact inRange_map_put hes (inRange_table _) h
  · cases h

theorem keeps_append (change : Entries → Option Entries) : Keeps (append change key) := by
  intro es es' hes h
  unfold append at h
  split at h
  · exact inRange_map_put hes (inRange_elements _) h
  · exact inRange_map_put hes (inRange_elements _) h
  · cases h

theorem keeps_descend {change : Entries → Option Entries} (hchange : Keeps change)
    (path : List String) : Keeps (descend change path) := by
  intro es es' hes h
  cases path with
  | nil =>
    rw [descend] at h
    exact hchange es es' hes h
  | cons k path =>
    rw [descend] at h
    split at h
    · exact inRange_map_put hes (inRange_table _) h
    · exact inRange_map_put hes (inRange_table _) h
    · exact inRange_map_put hes (inRange_elements _) h
    · cases h

end Entries

theorem keeps_section (s : Section) : Entries.Keeps s.apply := by
  intro es es' hes h
  unfold Section.apply at h
  split at h
  · exact Entries.keeps_descend (Entries.keeps_define _) _ es es' hes h
  · exact Entries.keeps_descend (Entries.keeps_append _) _ es es' hes h

theorem keeps_sections (ss : List Section) :
    Entries.Keeps fun es => ss.foldlM (fun es s => s.apply es) es := by
  induction ss with
  | nil =>
    intro es es' hes h
    cases h
    exact hes
  | cons s ss ih =>
    intro es es' hes h
    simp only [List.foldlM_cons] at h
    obtain ⟨middle, hsection, hmore⟩ := Option.bind_eq_some_iff.mp h
    exact ih middle es' (keeps_section s es middle hes hsection) hmore

theorem assemble_inRange {ls : List Line} {es : Entries} (hls : ∀ l ∈ ls, l.InRange)
    (h : assemble ls = some es) : es.InRange := by
  obtain ⟨root, hroot, hrest⟩ := Option.bind_eq_some_iff.mp h
  have hempty : Entries.InRange [] := fun _ he => absurd he List.not_mem_nil
  have hfilled := Entries.keeps_fill (sections_inRange hls) [] root hempty hroot
  exact keeps_sections _ root es hfilled hrest

/-! ## Documents -/

theorem toValues_eq_map (es : Entries) :
    Entries.toValues es = es.map fun e => (e.1, e.2.toValue) := by
  induction es with
  | nil => rfl
  | cons e es ih => rw [List.map_cons, Entries.toValues, ih]

theorem read_inRange {text : List Char} {values : List (String × Value)}
    (h : read text = some values) : ∀ v ∈ values, v.2.InRange := by
  obtain ⟨es, hes, rfl⟩ := Option.map_eq_some_iff.mp h
  obtain ⟨ls, hls, hassemble⟩ := Option.bind_eq_some_iff.mp hes
  have hrange := assemble_inRange (lines_inRange hls) hassemble
  intro v hv
  rw [toValues_eq_map] at hv
  obtain ⟨e, he, rfl⟩ := List.mem_map.mp hv
  exact hrange e he

/-- A whole number that a key of a document stands for is in the signed 64-bit range. -/
theorem lookup_inRange {text : List Char} {values : List (String × Value)} {key : String} {n : Int}
    (h : read text = some values) (hkey : values.lookup key = some (.integer n)) :
    minInteger ≤ n ∧ n ≤ maxInteger := by
  obtain ⟨before, after, rfl, -⟩ := List.lookup_eq_some_iff.mp hkey
  exact read_inRange h (key, .integer n) (by simp)

end Aggregate.Toml
