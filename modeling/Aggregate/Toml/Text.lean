import Aggregate.Toml.Reader

/-
  Quoted texts

  A text stands between double quotes, with escapes, or between single quotes,
  taken as it is. Tripled quotes let a text run over several lines; the line end
  right after the opening quotes does not belong to it, and up to two quotes may
  touch the closing ones.
-/

namespace Aggregate.Toml

def hexDigit? (c : Char) : Option Nat :=
  if '0' ≤ c ∧ c ≤ '9' then some (c.toNat - '0'.toNat)
  else if 'a' ≤ c ∧ c ≤ 'f' then some (c.toNat - 'a'.toNat + 10)
  else if 'A' ≤ c ∧ c ≤ 'F' then some (c.toNat - 'A'.toNat + 10)
  else none

def hexNumber? (ds : List Char) : Option Nat :=
  ds.foldl (fun acc d => acc.bind fun n => (hexDigit? d).map (16 * n + ·)) (some 0)

/-- The character with the code that hexadecimal digits spell; surrogates are none. -/
def codedCharacter? (ds : List Char) : Option Char :=
  (hexNumber? ds).bind fun n => if n.isValidChar then some (Char.ofNat n) else none

/-- The character that a one-letter escape stands for. -/
def escaped? : Char → Option Char
  | 'b' => some '\x08'
  | 't' => some '\t'
  | 'n' => some '\n'
  | 'f' => some '\x0c'
  | 'r' => some '\r'
  | '"' => some '"'
  | '\\' => some '\\'
  | _ => none

/-- What follows a backslash: a letter, or a code of four or eight digits. -/
def escape : Reader Char
  | 'u' :: s => (Reader.counted (hexDigit? · |>.isSome) 4 s).bind fun r =>
    (codedCharacter? r.1).map (·, r.2)
  | 'U' :: s => (Reader.counted (hexDigit? · |>.isSome) 8 s).bind fun r =>
    (codedCharacter? r.1).map (·, r.2)
  | c :: s => (escaped? c).map (·, s)
  | [] => none

theorem length_counted {kind : Char → Bool} {n : Nat} {s : List Char} {r : List Char × List Char}
    (h : Reader.counted kind n s = some r) : r.2.length ≤ s.length := by
  unfold Reader.counted at h
  simp only at h
  split at h
  · cases h; simp only [List.length_drop]; omega
  · cases h

theorem length_escape {s rest : List Char} {c : Char} (h : escape s = some (c, rest)) :
    rest.length < s.length := by
  unfold escape at h
  split at h
  · obtain ⟨r, hr, hc⟩ := Option.bind_eq_some_iff.1 h
    obtain ⟨_, _, he⟩ := Option.map_eq_some_iff.1 hc
    cases he
    have := length_counted hr
    simp only [List.length_cons]; omega
  · obtain ⟨r, hr, hc⟩ := Option.bind_eq_some_iff.1 h
    obtain ⟨_, _, he⟩ := Option.map_eq_some_iff.1 hc
    cases he
    have := length_counted hr
    simp only [List.length_cons]; omega
  · obtain ⟨_, _, he⟩ := Option.map_eq_some_iff.1 h
    cases he
    simp
  · cases h

/-- Put characters before a text that was read. -/
def prepend (cs : List Char) (r : Option (List Char × List Char)) :
    Option (List Char × List Char) :=
  r.map fun r => (cs ++ r.1, r.2)

/-- The rest of a text in double quotes. -/
def basicBody (s : List Char) : Option (List Char × List Char) :=
  match s with
  | [] => none
  | '"' :: rest => some ([], rest)
  | '\\' :: rest =>
    match _h : escape rest with
    | none => none
    | some (c, rest) => prepend [c] (basicBody rest)
  | c :: rest => if isPrintable c then prepend [c] (basicBody rest) else none
termination_by s.length
decreasing_by
  · have := length_escape _h; simp only [List.length_cons]; omega
  · simp

/-- The rest of a text in single quotes. -/
def literalBody : List Char → Option (List Char × List Char)
  | [] => none
  | '\'' :: rest => some ([], rest)
  | c :: rest => if isPrintable c then prepend [c] (literalBody rest) else none

/-- The closing quotes of a text over several lines, with up to two quotes of its own. -/
def closing? (quote : Char) (s : List Char) : Option (List Char × List Char) :=
  let run := s.takeWhile (· == quote)
  if run.length < 3 then none
  else
    let own := min (run.length - 3) 2
    some (List.replicate own quote, s.drop (own + 3))

def skipBreaks : List Char → List Char
  | ' ' :: s => skipBreaks s
  | '\t' :: s => skipBreaks s
  | '\n' :: s => skipBreaks s
  | '\r' :: '\n' :: s => skipBreaks s
  | s => s

theorem length_skipBreaks_le (s : List Char) : (skipBreaks s).length ≤ s.length := by
  fun_induction skipBreaks s <;> grind

/-- The rest of a text in tripled double quotes. A backslash at the end of a line joins it to the
next character that is neither a blank nor a line end. -/
def basicLines (s : List Char) : Option (List Char × List Char) :=
  match closing? '"' s with
  | some r => some r
  | none =>
    match s with
    | [] => none
    | '\\' :: rest =>
      match _h : newline? (skipBlanks rest) with
      | some after => basicLines (skipBreaks after)
      | none =>
        match _h : escape rest with
        | none => none
        | some (c, rest) => prepend [c] (basicLines rest)
    | c :: rest =>
      match _h : newline? (c :: rest) with
      | some after => prepend ['\n'] (basicLines after)
      | none => if isPrintable c then prepend [c] (basicLines rest) else none
termination_by s.length
decreasing_by
  · have := length_newline? _h
    have := length_skipBreaks_le after
    have : (skipBlanks rest).length ≤ rest.length := length_dropWhile_le _ _
    simp only [List.length_cons]; omega
  · have := length_escape _h; simp only [List.length_cons]; omega
  · have := length_newline? _h; simp only [List.length_cons] at *; omega
  · simp

/-- The rest of a text in tripled single quotes. -/
def literalLines (s : List Char) : Option (List Char × List Char) :=
  match closing? '\'' s with
  | some r => some r
  | none =>
    match s with
    | [] => none
    | c :: rest =>
      match _h : newline? (c :: rest) with
      | some after => prepend ['\n'] (literalLines after)
      | none => if isPrintable c then prepend [c] (literalLines rest) else none
termination_by s.length
decreasing_by
  · have := length_newline? _h; simp only [List.length_cons] at *; omega
  · simp

/-- Skip the line end right after the opening quotes, if there is one. -/
def skipNewline (s : List Char) : List Char := (newline? s).getD s

/-- A text that stays within its line. -/
def lineText : Reader (List Char)
  | '"' :: s => basicBody s
  | '\'' :: s => literalBody s
  | _ => none

def text : Reader (List Char)
  | '"' :: '"' :: '"' :: s => basicLines (skipNewline s)
  | '\'' :: '\'' :: '\'' :: s => literalLines (skipNewline s)
  | s => lineText s

end Aggregate.Toml
