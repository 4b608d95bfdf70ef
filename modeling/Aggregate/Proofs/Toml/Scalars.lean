import Aggregate.Toml.Expression
import Aggregate.Record
import Aggregate.Proofs.Toml.Numbers

/-
  Reading scalars back

  The readers of scalars are tried in order: texts, moments, real numbers, whole
  numbers, truth values. A scalar is read back if its own reader takes it and no
  earlier one does. `Bare` says that a text is neither quoted nor the start of a
  moment, which leaves it to the last three readers (`scalar_bare`).
-/

namespace Aggregate.Toml

variable {s rest : List Char}

/-! ## Runs of digits -/

/-- A text has only one run of digits at its start. -/
theorem run_unique {ds es r : List Char} {a b : Char} (hds : AllDigits ds) (hes : AllDigits es)
    (ha : isDigit a = false) (hb : isDigit b = false) (h : ds ++ a :: s = es ++ b :: r) :
    ds = es ∧ a = b := by
  induction ds generalizing es with
  | nil =>
    cases es with
    | nil => exact ⟨rfl, (List.cons.inj h).1⟩
    | cons e es =>
      have he := hes e (List.mem_cons_self ..)
      rw [← (List.cons.inj h).1, ha] at he
      cases he
  | cons d ds ih =>
    have hd := hds d (List.mem_cons_self ..)
    cases es with
    | nil =>
      rw [(List.cons.inj h).1, hb] at hd
      cases hd
    | cons e es =>
      obtain ⟨rfl, htail⟩ := List.cons.inj h
      obtain ⟨rfl, hab⟩ := ih hds.tail hes.tail htail
      exact ⟨rfl, hab⟩

/-! ## Moments -/

/-- No dash and no colon follows the digits that the text starts with. -/
def Undated (s : List Char) : Prop :=
  ∀ ds r, AllDigits ds → ds ≠ [] → s ≠ ds ++ '-' :: r ∧ s ≠ ds ++ ':' :: r

theorem undated_of_head {c : Char} (hc : isDigit c = false) : Undated (c :: s) := by
  intro ds r hds hne
  obtain ⟨d, more, rfl, hd⟩ := hds.exists_cons hne
  have hdc : d ≠ c := ne_of_kind hd hc
  constructor
  · intro h
    exact hdc (List.cons.inj h).1.symm
  · intro h
    exact hdc (List.cons.inj h).1.symm

theorem undated_of_digits {ds : List Char} {c : Char} (hds : AllDigits ds) (hc : isDigit c = false)
    (hdash : c ≠ '-') (hcolon : c ≠ ':') : Undated (ds ++ c :: s) := by
  intro es r hes _
  constructor
  · intro h
    exact hdash (run_unique hds hes hc rfl h).2
  · intro h
    exact hcolon (run_unique hds hes hc rfl h).2

theorem fixedNumber_eq_some {count low high n : Nat} (h : fixedNumber count low high s = some (n, rest)) :
    ∃ ds, AllDigits ds ∧ ds.length = count ∧ s = ds ++ rest := by
  obtain ⟨r, hr, hn⟩ := Option.bind_eq_some_iff.mp h
  unfold Reader.counted at hr
  simp only at hr
  split at hr
  · next htaken =>
    cases hr
    simp only at hn
    split at hn
    · cases hn
      exact ⟨s.take count, List.all_eq_true.mp htaken.2, htaken.1, (List.take_append_drop _ _).symm⟩
    · cases hn
  · cases hr

theorem mark_none {c : Char} (h : ∀ r, s ≠ c :: r) : mark c s = none := by
  refine if_neg ?_
  intro hprefix
  obtain ⟨r, hr⟩ := List.isPrefixOf_iff_prefix.mp hprefix
  exact h r hr.symm

/-- Neither mark of a moment follows a number at the start of the text. -/
theorem mark_after_fixedNumber {count low high n : Nat} {c : Char} (hs : Undated s)
    (hc : c = '-' ∨ c = ':') (h : fixedNumber (count + 1) low high s = some (n, rest)) :
    mark c rest = none := by
  obtain ⟨ds, hds, hlength, rfl⟩ := fixedNumber_eq_some h
  refine mark_none fun r hr => ?_
  have hne : ds ≠ [] := List.ne_nil_of_length_eq_add_one hlength
  obtain ⟨hdash, hcolon⟩ := hs ds r hds hne
  rcases hc with rfl | rfl
  · exact hdash (congrArg (ds ++ ·) hr)
  · exact hcolon (congrArg (ds ++ ·) hr)

theorem date_none (hs : Undated s) : date s = none := by
  unfold date
  cases hyear : fixedNumber 4 0 9999 s with
  | none => rfl
  | some r =>
    have hmark := mark_after_fixedNumber hs (.inl rfl) hyear
    simp [hmark]

theorem time_none (hs : Undated s) : time s = none := by
  unfold time
  cases hhour : fixedNumber 2 0 23 s with
  | none => rfl
  | some r =>
    have hmark := mark_after_fixedNumber hs (.inr rfl) hhour
    simp [hmark]

theorem moment_none (hs : Undated s) : moment s = none := by
  unfold moment
  rw [date_none hs]
  exact time_none hs

/-! ## Texts -/

/-- Characters that stand for themselves between double quotes. -/
def Literal (cs : List Char) : Prop := ∀ c ∈ cs, isPrintable c = true ∧ c ≠ '"' ∧ c ≠ '\\'

theorem literal_of_all {cs : List Char}
    (h : (cs.all fun c => isPrintable c && c != '"' && c != '\\') = true) : Literal cs := by
  intro c hc
  have hchar := List.all_eq_true.mp h c hc
  simp only [Bool.and_eq_true, bne_iff_ne] at hchar
  exact ⟨hchar.1.1, hchar.1.2, hchar.2⟩

theorem basicBody_literal {cs : List Char} (h : Literal cs) :
    basicBody (cs ++ '"' :: rest) = some (cs, rest) := by
  induction cs with
  | nil => simp [basicBody]
  | cons c cs ih =>
    obtain ⟨hprintable, hquote, hbackslash⟩ := h c (List.mem_cons_self ..)
    have hmore := ih (fun x hx => h x (List.mem_cons_of_mem _ hx))
    rw [List.cons_append, basicBody]
    · rw [if_pos hprintable, hmore]
      rfl
    · exact hquote
    · exact hbackslash

/-- A line end behind the closing quote keeps an empty text apart from tripled quotes. -/
theorem text_literal {cs : List Char} (h : Literal cs) :
    text ('"' :: (cs ++ '"' :: '\n' :: rest)) = some (cs, '\n' :: rest) := by
  have hbody : lineText ('"' :: (cs ++ '"' :: '\n' :: rest)) = some (cs, '\n' :: rest) :=
    basicBody_literal h
  unfold text
  split
  · next htriple =>
    have htail := (List.cons.inj htriple).2
    cases cs with
    | nil => cases (List.cons.inj (List.cons.inj htail).2).1
    | cons c cs => exact absurd (List.cons.inj htail).1 (h c (List.mem_cons_self ..)).2.1
  · next htriple => cases (List.cons.inj htriple).1
  · exact hbody

theorem text_none {c : Char} (hquote : c ≠ '"') (happostrophe : c ≠ '\'') : text (c :: s) = none := by
  unfold text
  split
  · next h => exact absurd (List.cons.inj h).1 hquote
  · next h => exact absurd (List.cons.inj h).1 happostrophe
  · unfold lineText
    split
    · next h => exact absurd (List.cons.inj h).1 hquote
    · next h => exact absurd (List.cons.inj h).1 happostrophe
    · rfl

/-! ## Scalars -/

/-- A text that is neither quoted nor the start of a moment. -/
structure Bare (s : List Char) : Prop where
  text : text s = none
  moment : moment s = none

theorem bare_of_head {c : Char} (hc : isDigit c = false) (hquote : c ≠ '"')
    (happostrophe : c ≠ '\'') : Bare (c :: s) :=
  ⟨text_none hquote happostrophe, moment_none (undated_of_head hc)⟩

theorem bare_of_digits {ds : List Char} {c : Char} (hds : AllDigits ds) (hne : ds ≠ [])
    (hc : isDigit c = false) (hdash : c ≠ '-') (hcolon : c ≠ ':') : Bare (ds ++ c :: s) := by
  refine ⟨?_, moment_none (undated_of_digits hds hc hdash hcolon)⟩
  obtain ⟨d, more, rfl, hd⟩ := hds.exists_cons hne
  exact text_none (ne_of_kind hd rfl) (ne_of_kind hd rfl)

theorem bare_digits (n : Nat) : Bare (Decimal.digits n ++ '\n' :: rest) :=
  bare_of_digits (allDigits_digits n) (Decimal.digits_ne_nil n) rfl (by decide) (by decide)

/-- The text of a double starts with a letter, a minus sign or digits before a point. -/
theorem Spelling.shape {x : Binary .double} {cs : List Char} (h : Spelling x cs) :
    (∃ c more, cs = c :: more ∧ (c = 'n' ∨ c = 'i' ∨ c = '-')) ∨
      ∃ ds r, AllDigits ds ∧ ds ≠ [] ∧ cs = ds ++ '.' :: r := by
  cases h with
  | noNumber h => exact .inl ⟨_, _, rfl, .inl rfl⟩
  | infinite h =>
    cases x.negative with
    | false => exact .inl ⟨_, _, rfl, .inr (.inl rfl)⟩
    | true => exact .inl ⟨_, _, rfl, .inr (.inr rfl)⟩
  | @finite h whole fraction parts =>
    cases x.negative with
    | false => exact .inr ⟨whole, fraction, parts.isWhole.digits, parts.isWhole.ne_nil, rfl⟩
    | true => exact .inl ⟨_, _, rfl, .inr (.inr rfl)⟩

theorem bare_spelling {x : Binary .double} {cs : List Char} (h : Spelling x cs) :
    Bare (cs ++ '\n' :: rest) := by
  rcases h.shape with ⟨c, more, rfl, hc⟩ | ⟨ds, r, hds, hne, rfl⟩
  · rcases hc with rfl | rfl | rfl
    · exact bare_of_head rfl (by decide) (by decide)
    · exact bare_of_head rfl (by decide) (by decide)
    · exact bare_of_head rfl (by decide) (by decide)
  · rw [List.append_assoc, List.cons_append]
    exact bare_of_digits hds hne rfl (by decide) (by decide)

/-- A bare text is left to the last three readers. -/
theorem scalar_bare (h : Bare s) :
    scalar s = (Reader.map .real real s).or
      ((Reader.map .integer integer s).or (Reader.map .boolean boolean s)) := by
  have htext : Reader.map (fun t => Value.text (String.ofList t)) text s = none := by
    unfold Reader.map
    rw [h.text, Option.map_none]
  have hmoment : Reader.map (fun _ => Value.moment) moment s = none := by
    unfold Reader.map
    rw [h.moment, Option.map_none]
  unfold scalar Reader.or
  simp only [htext, hmoment, Option.none_or]

/-- Characters that are read back as a value, up to the end of their line, and start with it. -/
structure Writes (cs : List Char) (value : Value) : Prop where
  start : ∃ c more, cs = c :: more ∧ isBlank c = false
  scalar_eq (rest : List Char) : scalar (cs ++ '\n' :: rest) = some (value, '\n' :: rest)

theorem start_of_digits {ds s : List Char} (hds : AllDigits ds) (hne : ds ≠ []) :
    ∃ c more, ds ++ s = c :: more ∧ isBlank c = false := by
  obtain ⟨d, more, rfl, hd⟩ := hds.exists_cons hne
  refine ⟨d, more ++ s, rfl, ?_⟩
  simp only [isBlank, Bool.or_eq_false_iff, beq_eq_false_iff_ne]
  exact ⟨ne_of_kind hd rfl, ne_of_kind hd rfl⟩

theorem start_of_spelling {x : Binary .double} {cs : List Char} (h : Spelling x cs) :
    ∃ c more, cs = c :: more ∧ isBlank c = false := by
  rcases h.shape with ⟨c, more, rfl, hc⟩ | ⟨ds, r, hds, hne, rfl⟩
  · refine ⟨c, more, rfl, ?_⟩
    rcases hc with rfl | rfl | rfl <;> rfl
  · exact start_of_digits hds hne

theorem writes_literal {cs : List Char} (h : Literal cs) :
    Writes ('"' :: (cs ++ ['"'])) (.text (String.ofList cs)) := by
  refine ⟨⟨_, _, rfl, rfl⟩, fun rest => ?_⟩
  rw [List.cons_append, List.append_assoc, List.cons_append, List.nil_append]
  unfold scalar Reader.or Reader.map
  simp only [text_literal h, Option.map_some, Option.some_or]

theorem writes_digits {n : Nat} (h : (n : Int) ≤ maxInteger) :
    Writes (Decimal.digits n) (.integer n) := by
  refine ⟨?_, fun rest => ?_⟩
  · simpa using start_of_digits (s := []) (allDigits_digits n) (Decimal.digits_ne_nil n)
  · rw [scalar_bare (bare_digits n)]
    unfold Reader.map
    simp only [real_digits, integer_digits h, Option.map_none, Option.map_some, Option.none_or,
      Option.some_or]

theorem writes_chars (x : Binary .double) : Writes (x.chars .document) (.real x.canonical) := by
  have hspelling := spelling_chars x
  refine ⟨start_of_spelling hspelling, fun rest => ?_⟩
  rw [scalar_bare (bare_spelling hspelling)]
  unfold Reader.map
  simp only [real_chars, Option.map_some, Option.some_or]

theorem writes_boolText (b : Bool) : Writes (boolText b).toList (.boolean b) := by
  cases b with
  | true =>
    refine ⟨⟨_, _, rfl, rfl⟩, fun rest => ?_⟩
    have hbare : Bare ('t' :: 'r' :: 'u' :: 'e' :: '\n' :: rest) :=
      bare_of_head rfl (by decide) (by decide)
    exact scalar_bare hbare
  | false =>
    refine ⟨⟨_, _, rfl, rfl⟩, fun rest => ?_⟩
    have hbare : Bare ('f' :: 'a' :: 'l' :: 's' :: 'e' :: '\n' :: rest) :=
      bare_of_head rfl (by decide) (by decide)
    exact scalar_bare hbare

end Aggregate.Toml
