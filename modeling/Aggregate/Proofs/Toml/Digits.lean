import Aggregate.Toml.Number

/-
  Digits of numbers

  The digits that a number is written with spell that number (`numberOf_digits`)
  and do not start with a zero unless it is zero (`digits_eq_cons`). A reader of
  digits takes a run of them up to the first character that is neither a digit
  nor an underscore, see `wholeDigits_append` and `digits_append`.
-/

namespace Aggregate

/-! ## Writing -/

theorem Decimal.digits_zero : Decimal.digits 0 = ['0'] := rfl

theorem Decimal.digits_ne_nil (n : Nat) : Decimal.digits n ≠ [] := Nat.toDigits_ne_nil

theorem Decimal.digits_eq_cons {n : Nat} (h : 0 < n) :
    ∃ d ds, Decimal.digits n = d :: ds ∧ d ≠ '0' := by
  induction n using Nat.strongRecOn with
  | ind n ih =>
    unfold Decimal.digits at ih ⊢
    by_cases hlt : n < 10
    · refine ⟨n.digitChar, [], Nat.toDigits_of_lt_base hlt, ?_⟩
      rw [Ne, Nat.digitChar_eq_zero]
      omega
    · obtain ⟨d, ds, hds, hd⟩ := ih (n / 10) (by omega) (by omega)
      refine ⟨d, ds ++ [(n % 10).digitChar], ?_, hd⟩
      rw [Nat.toDigits_of_base_le (by decide) (by omega), hds, List.cons_append]

namespace Toml

/-- Whether these are decimal digits. -/
def AllDigits (ds : List Char) : Prop := ∀ d ∈ ds, isDigit d = true

theorem AllDigits.tail {d : Char} {ds : List Char} (h : AllDigits (d :: ds)) : AllDigits ds :=
  fun c hc => h c (List.mem_cons_of_mem _ hc)

theorem AllDigits.exists_cons {ds : List Char} (h : AllDigits ds) (hne : ds ≠ []) :
    ∃ d more, ds = d :: more ∧ isDigit d = true := by
  obtain ⟨d, more, rfl⟩ := List.exists_cons_of_ne_nil hne
  exact ⟨d, more, rfl, h d (List.mem_cons_self ..)⟩

theorem ne_of_kind {kind : Char → Bool} {c d : Char} (hc : kind c = true) (hd : kind d = false) :
    c ≠ d := by
  rintro rfl
  rw [hc] at hd
  cases hd

theorem isDigit_eq (c : Char) : isDigit c = c.isDigit := by
  unfold isDigit Char.isDigit
  rw [Bool.and_comm, Bool.and_comm (decide (c.val ≥ _))]
  rfl

theorem allDigits_digits (n : Nat) : AllDigits (Decimal.digits n) := by
  intro d hd
  rw [isDigit_eq]
  exact Nat.isDigit_of_mem_toDigits (by decide) (by decide) hd

theorem allDigits_replicate_zero (n : Nat) : AllDigits (List.replicate n '0') := by
  intro d hd
  rw [List.eq_of_mem_replicate hd]
  rfl

theorem AllDigits.append {xs ys : List Char} (hx : AllDigits xs) (hy : AllDigits ys) :
    AllDigits (xs ++ ys) := by
  intro d hd
  rcases List.mem_append.mp hd with h | h
  · exact hx d h
  · exact hy d h

/-! ## Values -/

theorem digitValue_of_isDigit {d : Char} (h : isDigit d = true) :
    digitValue d = d.toNat - '0'.toNat := if_pos h

theorem numberOf_eq_ofDigitChars {ds : List Char} (h : AllDigits ds) (init : Nat) :
    ds.foldl (fun n d => 10 * n + digitValue d) init = Nat.ofDigitChars 10 ds init := by
  induction ds generalizing init with
  | nil => rfl
  | cons d ds ih =>
    have hd := digitValue_of_isDigit (h d (List.mem_cons_self ..))
    rw [List.foldl_cons, hd, Nat.ofDigitChars_cons]
    exact ih h.tail _

/-- The digits of a number spell it. -/
theorem numberOf_digits (n : Nat) : numberOf 10 (Decimal.digits n) = n := by
  unfold numberOf
  rw [numberOf_eq_ofDigitChars (allDigits_digits n)]
  exact Nat.ofDigitChars_ten_toDigits

theorem foldl_replicate_zero (n init : Nat) :
    (List.replicate n '0').foldl (fun n d => 10 * n + digitValue d) init =
      init * Nat.pow 10 n := by
  rw [numberOf_eq_ofDigitChars (allDigits_replicate_zero n), Nat.ofDigitChars_replicate_zero]
  exact Nat.mul_comm _ _

/-- Zeros behind digits multiply by powers of ten. -/
theorem numberOf_append_zeros (ds : List Char) (n : Nat) :
    numberOf 10 (ds ++ List.replicate n '0') = numberOf 10 ds * Nat.pow 10 n := by
  unfold numberOf
  rw [List.foldl_append, foldl_replicate_zero]

theorem numberOf_zeros_append (n : Nat) (ds : List Char) :
    numberOf 10 (List.replicate n '0' ++ ds) = numberOf 10 ds := by
  unfold numberOf
  rw [List.foldl_append, foldl_replicate_zero, Nat.zero_mul]

/-! ## Reading -/

/-- A character that ends a run of digits. -/
structure EndsDigits (c : Char) : Prop where
  digit : isDigit c = false
  underscore : c ≠ '_'

theorem endsDigits_newline : EndsDigits '\n' := ⟨rfl, by decide⟩

theorem endsDigits_point : EndsDigits '.' := ⟨rfl, by decide⟩

variable {ds rest : List Char} {c : Char}

theorem moreDigits_append (hds : AllDigits ds) (hc : EndsDigits c) :
    moreDigits isDigit (ds ++ c :: rest) = (ds, c :: rest) := by
  induction ds with
  | nil =>
    have hdigit := hc.digit
    have hunderscore := hc.underscore
    unfold moreDigits
    split <;> simp_all
  | cons d ds ih =>
    have hd := hds d (List.mem_cons_self ..)
    have hunderscore : d ≠ '_' := ne_of_kind hd rfl
    rw [List.cons_append, moreDigits]
    · rw [if_pos hd, ih hds.tail]
    -- An underscore would have been passed over.
    · rintro rfl
      exact absurd rfl hunderscore
    · rintro _ _ rfl
      exact absurd rfl hunderscore

/-- A run of digits is read up to its end. -/
theorem digits_append (hne : ds ≠ []) (hds : AllDigits ds) (hc : EndsDigits c) :
    digits isDigit (ds ++ c :: rest) = some (ds, c :: rest) := by
  obtain ⟨d, more, rfl, hd⟩ := hds.exists_cons hne
  rw [List.cons_append, digits, if_pos hd, moreDigits_append hds.tail hc]

/-- Digits that may stand before a point: a zero stands alone. -/
structure Whole (ds : List Char) : Prop where
  digits : AllDigits ds
  ne_nil : ds ≠ []
  zero : ds.head? = some '0' → ds = ['0']

theorem whole_zero : Whole ['0'] :=
  ⟨allDigits_replicate_zero 1, List.cons_ne_nil _ _, fun _ => rfl⟩

theorem whole_of_head {d : Char} (hds : AllDigits (d :: ds)) (hd : d ≠ '0') : Whole (d :: ds) :=
  ⟨hds, List.cons_ne_nil _ _, fun h => absurd (Option.some.inj h) hd⟩

/-- The digits of a number may stand before a point. -/
theorem whole_digits (n : Nat) : Whole (Decimal.digits n) := by
  rcases Nat.eq_zero_or_pos n with rfl | hn
  · exact whole_zero
  · have hall := allDigits_digits n
    obtain ⟨d, ds, hds, hd⟩ := Decimal.digits_eq_cons hn
    rw [hds] at hall ⊢
    exact whole_of_head hall hd

theorem wholeDigits_append (hds : Whole ds) (hc : EndsDigits c) :
    wholeDigits (ds ++ c :: rest) = some (ds, c :: rest) := by
  unfold wholeDigits
  split
  · next s hs =>
    have hhead : ds.head? = some '0' := by
      obtain ⟨d, more, rfl⟩ := List.exists_cons_of_ne_nil hds.ne_nil
      exact congrArg some (List.cons.inj hs).1
    rw [hds.zero hhead] at hs ⊢
    cases hs
    rfl
  · exact digits_append hds.ne_nil hds.digits hc

end Toml

end Aggregate
