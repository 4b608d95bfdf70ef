import Aggregate.Toml.Document
import Aggregate.Proofs.Toml.Scalars

/-
  Documents of plain assignments

  A line with a name, an equals sign and a scalar is read as the assignment it
  writes (`line_assign`). A text of lines that each assign to one name or say
  nothing stands for the values that are assigned, in their order, if no name
  comes twice, and is no document otherwise (`read_layout`). The table that the
  assignments fill is followed line by line: a name that is there already stops
  it for good (`fill_eq`).
-/

namespace Aggregate.Toml

variable {rest : List Char}

/-! ## Keys -/

/-- Characters of a name without quotes. -/
structure BareName (cs : List Char) : Prop where
  ne_nil : cs ≠ []
  chars : ∀ c ∈ cs, isNameChar c = true

theorem BareName.exists_cons {cs : List Char} (h : BareName cs) :
    ∃ c more, cs = c :: more ∧ isNameChar c = true := by
  obtain ⟨c, more, rfl⟩ := List.exists_cons_of_ne_nil h.ne_nil
  exact ⟨c, more, rfl, h.chars c (List.mem_cons_self ..)⟩

theorem skipBlanks_cons {c : Char} {s : List Char} (hc : isBlank c = false) :
    skipBlanks (c :: s) = c :: s := by
  unfold skipBlanks
  rw [List.dropWhile_cons_of_neg (by simp [hc])]

theorem isBlank_of_isNameChar {c : Char} (hc : isNameChar c = true) : isBlank c = false := by
  simp only [isBlank, Bool.or_eq_false_iff, beq_eq_false_iff_ne]
  exact ⟨ne_of_kind hc (by decide), ne_of_kind hc (by decide)⟩

theorem name_append {cs : List Char} (hcs : BareName cs) :
    name (cs ++ ' ' :: rest) = some (String.ofList cs, ' ' :: rest) := by
  have hspace : isNameChar ' ' = false := by decide
  have htake : (cs ++ ' ' :: rest).takeWhile isNameChar = cs := by
    rw [List.takeWhile_append_of_pos hcs.chars, List.takeWhile_cons_of_neg (by simp [hspace]),
      List.append_nil]
  have hdrop : (cs ++ ' ' :: rest).dropWhile isNameChar = ' ' :: rest := by
    rw [List.dropWhile_append_of_pos hcs.chars, List.dropWhile_cons_of_neg (by simp [hspace])]
  obtain ⟨c, more, rfl, hc⟩ := hcs.exists_cons
  unfold name
  split
  · next h => exact absurd (List.cons.inj h).1 (ne_of_kind hc (by decide))
  · next h => exact absurd (List.cons.inj h).1 (ne_of_kind hc (by decide))
  · simp only [htake, hdrop]
    rfl

theorem many_none {α : Type} {p : Reader α} {s : List Char} (h : p s = none) :
    Reader.many p s = ([], s) := by
  rw [Reader.many]
  split
  · rfl
  · next hsome =>
    rw [h] at hsome
    cases hsome

theorem key_append {cs : List Char} (hcs : BareName cs) :
    key (cs ++ ' ' :: '=' :: rest) = some (([], String.ofList cs), '=' :: rest) := by
  have hskip : skipBlanks (cs ++ ' ' :: '=' :: rest) = cs ++ ' ' :: '=' :: rest := by
    obtain ⟨c, more, rfl, hc⟩ := hcs.exists_cons
    exact skipBlanks_cons (isBlank_of_isNameChar hc)
  have hpadded : paddedName (cs ++ ' ' :: '=' :: rest) = some (String.ofList cs, '=' :: rest) := by
    unfold paddedName
    rw [hskip, name_append hcs]
    rfl
  unfold key Reader.separated
  simp only [hpadded]
  rw [many_none (by rfl)]
  rfl

/-! ## Lines -/

theorem value_of_scalar {s : List Char} {r : Value × List Char} (h : scalar s = some r) :
    value s = some r := by
  show ((scalar s).or _) = some r
  rw [h]
  rfl

theorem assignment_append {cs v : List Char} {x : Value} (hcs : BareName cs) (hv : Writes v x) :
    assignment value (cs ++ ' ' :: '=' :: ' ' :: (v ++ '\n' :: rest)) =
      some (⟨[], String.ofList cs, x⟩, '\n' :: rest) := by
  have hvalue := value_of_scalar (hv.scalar_eq rest)
  have hskip : skipBlanks (' ' :: (v ++ '\n' :: rest)) = v ++ '\n' :: rest := by
    obtain ⟨c, more, rfl, hc⟩ := hv.start
    exact skipBlanks_cons hc
  unfold assignment
  simp only [key_append hcs, hskip, hvalue, Option.map_some]

/-- The characters of a line that assigns to a name. -/
def assignmentLine (cs v : List Char) : List Char := cs ++ ' ' :: '=' :: ' ' :: (v ++ ['\n'])

theorem lineEnd?_none {c : Char} {s : List Char} (hc : isNameChar c = true) :
    lineEnd? (c :: s) = none := by
  have hskip : skipComment (skipBlanks (c :: s)) = c :: s := by
    rw [skipBlanks_cons (isBlank_of_isNameChar hc)]
    unfold skipComment
    split
    · next h => exact absurd (List.cons.inj h).1 (ne_of_kind hc (by decide))
    · rfl
  unfold lineEnd?
  rw [hskip]
  unfold newline?
  split
  · next h => cases h
  · split
    · next h => exact absurd (List.cons.inj h).1 (ne_of_kind hc (by decide))
    · next h => exact absurd (List.cons.inj h).1 (ne_of_kind hc (by decide))
    · rfl

theorem statement_of_ne {c : Char} {s : List Char} (hc : c ≠ '[') :
    statement (c :: s) = Reader.map .assign (assignment value) (c :: s) := by
  unfold statement
  split
  · next h => exact absurd (List.cons.inj h).1 hc
  · rfl

/-- A line with a name, an equals sign and a scalar is the assignment it writes. -/
theorem line_assign {cs v : List Char} {x : Value} (hcs : BareName cs) (hv : Writes v x)
    (rest : List Char) :
    line (assignmentLine cs v ++ rest) = some (.assign ⟨[], String.ofList cs, x⟩, rest) := by
  have hassignment : assignment value (cs ++ ' ' :: '=' :: ' ' :: (v ++ '\n' :: rest)) =
      some (⟨[], String.ofList cs, x⟩, '\n' :: rest) := assignment_append hcs hv
  have hline : assignmentLine cs v ++ rest = cs ++ ' ' :: '=' :: ' ' :: (v ++ '\n' :: rest) := by
    simp [assignmentLine]
  rw [hline]
  obtain ⟨c, more, rfl, hc⟩ := hcs.exists_cons
  have hstatement : statement (c :: (more ++ ' ' :: '=' :: ' ' :: (v ++ '\n' :: rest))) =
      some (.assign ⟨[], String.ofList (c :: more), x⟩, '\n' :: rest) := by
    rw [List.cons_append] at hassignment
    rw [statement_of_ne (ne_of_kind hc (by decide)), Reader.map, hassignment]
    rfl
  unfold line
  rw [List.cons_append, lineEnd?_none hc, skipBlanks_cons (isBlank_of_isNameChar hc)]
  simp only [hstatement, Option.bind_some]
  rfl

theorem lines_flatMap {α : Type} {text : α → List Char} {meaning : α → Line} {as : List α}
    (hne : ∀ a ∈ as, text a ≠ []) (h : ∀ a ∈ as, ∀ rest, line (text a ++ rest) = some (meaning a, rest)) :
    lines (as.flatMap text) = some (as.map meaning) := by
  induction as with
  | nil =>
    rw [lines]
    rfl
  | cons a as ih =>
    have hmore := ih (fun b hb => hne b (List.mem_cons_of_mem _ hb))
      (fun b hb => h b (List.mem_cons_of_mem _ hb))
    have htext := hne a (List.mem_cons_self ..)
    have hlength : 0 < (text a).length := List.length_pos_iff.mpr htext
    have hempty : ¬(text a ++ as.flatMap text).isEmpty = true := by
      simp [htext]
    have hshorter : (as.flatMap text).length < (text a ++ as.flatMap text).length := by
      rw [List.length_append]
      omega
    rw [List.flatMap_cons, lines, if_neg hempty, h a (List.mem_cons_self ..)]
    simp only [if_pos hshorter, hmore]
    rfl

/-! ## Tables -/

/-- The line that assigns a value to a name. -/
def Line.ofPair (v : String × Value) : Line := .assign ⟨[], v.1, v.2⟩

/-- A line that assigns a value to a name, or says nothing. -/
def Line.ofOption : Option (String × Value) → Line
  | some v => .ofPair v
  | none => .blank

theorem sections_ofOption (vs : List (Option (String × Value))) :
    sections (vs.map Line.ofOption) = ((vs.filterMap id).map fun v => ⟨[], v.1, v.2⟩, []) := by
  induction vs with
  | nil => rfl
  | cons v vs ih =>
    cases v with
    | none => exact ih
    | some v =>
      rw [List.map_cons, Line.ofOption, Line.ofPair, sections, ih]
      rfl

theorem lookup_append_single {es : Entries} {key key' : String} {node : Node} :
    (es ++ [(key, node)]).lookup key' = none ↔ es.lookup key' = none ∧ key' ≠ key := by
  rw [List.lookup_append, Option.or_eq_none_iff, List.lookup_cons]
  by_cases h : key' = key
  · simp [h]
  · simp [h, beq_false_of_ne h]

/-- Assignments to different names, none of them taken, put their values behind what is there. A
name that is taken, or comes twice, cannot be assigned to. -/
theorem fill_eq (vs : List (String × Value)) (es : Entries) :
    Entries.fill (vs.map fun v => ⟨[], v.1, v.2⟩) es =
      if (vs.map Prod.fst).Nodup ∧ ∀ v ∈ vs, es.lookup v.1 = none then
        some (es ++ vs.map fun v => (v.1, .value v.2))
      else none := by
  -- By induction on the assignments, the table growing by one name with each.
  induction vs generalizing es with
  | nil =>
    rw [if_pos ⟨List.nodup_nil, fun _ hv => absurd hv List.not_mem_nil⟩, List.map_nil, List.map_nil,
      List.append_nil]
    rfl
  | cons v vs ih =>
    unfold Entries.fill at ih ⊢
    rw [List.map_cons, List.foldlM_cons]
    cases hlookup : es.lookup v.1 with
    | some node =>
      have hassign : Entries.assign v.1 v.2 [] es = none := by
        rw [Entries.assign, Entries.insert, hlookup]
      have htaken : ¬∀ w ∈ v :: vs, es.lookup w.1 = none := by
        intro h
        rw [h v (List.mem_cons_self ..)] at hlookup
        cases hlookup
      rw [hassign, if_neg fun h => htaken h.2]
      rfl
    | none =>
      have hassign : Entries.assign v.1 v.2 [] es = some (es ++ [(v.1, .value v.2)]) := by
        rw [Entries.assign, Entries.insert, hlookup]
      have hiff : ((vs.map Prod.fst).Nodup ∧
            ∀ w ∈ vs, List.lookup w.1 (es ++ [(v.1, Node.value v.2)]) = none) ↔
          ((v :: vs).map Prod.fst).Nodup ∧ ∀ w ∈ v :: vs, es.lookup w.1 = none := by
        rw [List.map_cons, List.nodup_cons, List.forall_mem_cons]
        simp only [lookup_append_single]
        constructor
        · rintro ⟨hnodup, hfree⟩
          refine ⟨⟨fun hmem => ?_, hnodup⟩, hlookup, fun w hw => (hfree w hw).1⟩
          obtain ⟨w, hw, heq⟩ := List.mem_map.mp hmem
          exact (hfree w hw).2 heq
        · rintro ⟨⟨hnew, hnodup⟩, -, hfree⟩
          refine ⟨hnodup, fun w hw => ⟨hfree w hw, fun heq => hnew ?_⟩⟩
          rw [← heq]
          exact List.mem_map_of_mem hw
      have hmore := ih (es ++ [(v.1, .value v.2)])
      rw [ite_congr (propext hiff) (fun _ => rfl) (fun _ => rfl), List.append_assoc] at hmore
      rw [hassign]
      exact hmore

theorem toValues_values (vs : List (String × Value)) :
    Entries.toValues (vs.map fun v => (v.1, .value v.2)) = vs := by
  induction vs with
  | nil => rfl
  | cons v vs ih =>
    rw [List.map_cons, Entries.toValues, ih, Node.toValue]

/-! ## Documents -/

theorem skipByteOrderMark_of_ne {c : Char} {s : List Char} (hc : c ≠ '\ufeff') :
    skipByteOrderMark (c :: s) = c :: s := by
  unfold skipByteOrderMark
  split
  · next h => exact absurd (List.cons.inj h).1 hc
  · rfl

variable {α : Type} {text : α → List Char} {meaning : α → Option (String × Value)} {as : List α}

theorem skipByteOrderMark_flatMap (h : ∀ a ∈ as, ∃ c more, text a = c :: more ∧ c ≠ '\ufeff') :
    skipByteOrderMark (as.flatMap text) = as.flatMap text := by
  cases as with
  | nil => rfl
  | cons a as =>
    obtain ⟨c, more, htext, hc⟩ := h a (List.mem_cons_self ..)
    rw [List.flatMap_cons, htext]
    exact skipByteOrderMark_of_ne hc

/-- A text of lines that each assign to a name or say nothing stands for what they assign, if they
assign to each name once. -/
theorem read_layout (hstart : ∀ a ∈ as, ∃ c more, text a = c :: more ∧ c ≠ '\ufeff')
    (hline : ∀ a ∈ as, ∀ rest, line (text a ++ rest) = some (.ofOption (meaning a), rest)) :
    read (as.flatMap text) =
      if ((as.filterMap meaning).map Prod.fst).Nodup then some (as.filterMap meaning)
      else none := by
  have hlines : lines (as.flatMap text) = some ((as.map meaning).map Line.ofOption) := by
    rw [List.map_map]
    refine lines_flatMap (fun a ha => ?_) hline
    obtain ⟨c, more, htext, -⟩ := hstart a ha
    rw [htext]
    exact List.cons_ne_nil _ _
  have hpairs : (as.map meaning).filterMap id = as.filterMap meaning := by
    rw [List.filterMap_map]
    rfl
  have hfill : Entries.fill ((as.filterMap meaning).map fun v => ⟨[], v.1, v.2⟩) [] =
      if ((as.filterMap meaning).map Prod.fst).Nodup then
        some ((as.filterMap meaning).map fun v => (v.1, .value v.2))
      else none := by
    rw [fill_eq]
    exact ite_congr (propext (and_iff_left fun _ _ => rfl)) (fun _ => rfl) (fun _ => rfl)
  unfold read assemble
  rw [skipByteOrderMark_flatMap hstart, hlines, Option.bind_some, sections_ofOption, hpairs]
  simp only [hfill]
  split
  · show some (Entries.toValues _) = _
    rw [toValues_values]
  · rfl

theorem start_of_bareName {cs v : List Char} (h : BareName cs) :
    ∃ c more, assignmentLine cs v = c :: more ∧ c ≠ '\ufeff' := by
  obtain ⟨c, more, rfl, hc⟩ := h.exists_cons
  exact ⟨c, _, rfl, ne_of_kind hc (by decide)⟩

/-- A text of assignments to different names stands for the values that they assign. -/
theorem read_assignments {key : α → String} {chars : α → List Char} {value : α → Value}
    (hkey : ∀ a ∈ as, BareName (key a).toList) (hvalue : ∀ a ∈ as, Writes (chars a) (value a))
    (hnodup : (as.map key).Nodup) :
    read (as.flatMap fun a => assignmentLine (key a).toList (chars a)) =
      some (as.map fun a => (key a, value a)) := by
  have hpairs : as.filterMap (fun a => some (key a, value a)) = as.map fun a => (key a, value a) :=
    congrFun List.filterMap_eq_map as
  have hkeys : ((as.map fun a => (key a, value a)).map Prod.fst).Nodup := by
    rw [List.map_map]
    exact hnodup
  have hline : ∀ a ∈ as, ∀ rest, line (assignmentLine (key a).toList (chars a) ++ rest) =
      some (.ofOption (some (key a, value a)), rest) := by
    intro a ha rest
    rw [line_assign (hkey a ha) (hvalue a ha), String.ofList_toList]
    rfl
  rw [read_layout (fun a ha => start_of_bareName (hkey a ha)) hline, hpairs, if_pos hkeys]

end Aggregate.Toml
