/-
  Readers

  A reader takes what it recognises from the front of a text and returns the
  rest; `none` means that the text is no document at all, so a reader never
  needs to say why. The format's blanks, line ends and comments are skipped by
  the functions at the end.
-/

namespace Aggregate.Toml

/-- Reads a value from the front of a text and returns it with the rest. -/
abbrev Reader (α : Type) := List Char → Option (α × List Char)

namespace Reader

def or {α : Type} (p q : Reader α) : Reader α := fun s => (p s).or (q s)

def map {α β : Type} (g : α → β) (p : Reader α) : Reader β := fun s =>
  (p s).map fun r => (g r.1, r.2)

/-- The given characters, nothing else. -/
def exact {α : Type} (value : α) (expected : List Char) : Reader α := fun s =>
  if expected.isPrefixOf s then some (value, s.drop expected.length) else none

/-- A number of characters, all of one kind. -/
def counted (kind : Char → Bool) (n : Nat) : Reader (List Char) := fun s =>
  let taken := s.take n
  if taken.length = n ∧ taken.all kind then some (taken, s.drop n) else none

/-- Read again and again while the reader succeeds and gets on. -/
def many {α : Type} (p : Reader α) (s : List Char) : List α × List Char :=
  match p s with
  | none => ([], s)
  | some (a, rest) =>
    if rest.length < s.length then
      let more := many p rest
      (a :: more.1, more.2)
    else ([], s)
termination_by s.length

/-- One or more values, each but the first after a separator. Where no value follows a separator
the separator stays unread. -/
def separated {α : Type} (separator : Char) (p : Reader α) : Reader (List α) := fun s =>
  match p s with
  | none => none
  | some (a, rest) =>
    let more := many (fun s => match s with
      | c :: s => if c = separator then p s else none
      | [] => none) rest
    some (a :: more.1, more.2)

end Reader

/-! ## Blanks, line ends and comments -/

def isBlank (c : Char) : Bool := c == ' ' || c == '\t'

/-- What is not a control character; tabs are allowed wherever text is. -/
def isPrintable (c : Char) : Bool := c == '\t' || (decide (' ' ≤ c) && c != '\x7f')

def skipBlanks (s : List Char) : List Char := s.dropWhile isBlank

/-- The end of a line: a line feed, after a carriage return or not. -/
def newline? : List Char → Option (List Char)
  | '\n' :: s => some s
  | '\r' :: '\n' :: s => some s
  | _ => none

/-- Skip a comment up to the end of its line, if there is one. -/
def skipComment : List Char → List Char
  | '#' :: s => s.dropWhile isPrintable
  | s => s

/-- The rest of a line that holds nothing more: blanks, a comment, and the end of the line or of
the text. -/
def lineEnd? (s : List Char) : Option (List Char) :=
  match skipComment (skipBlanks s) with
  | [] => some []
  | s => newline? s

theorem length_newline? {s rest : List Char} (h : newline? s = some rest) :
    rest.length < s.length := by
  unfold newline? at h
  split at h
  · cases h; simp
  · cases h; simp only [List.length_cons]; omega
  · cases h

theorem length_dropWhile_le {α : Type} (p : α → Bool) (s : List α) :
    (s.dropWhile p).length ≤ s.length := (List.dropWhile_suffix p).length_le

theorem length_skipComment_le (s : List Char) : (skipComment s).length ≤ s.length := by
  unfold skipComment
  split
  · exact Nat.le_succ_of_le (length_dropWhile_le _ _)
  · exact Nat.le_refl _

/-- Skip blanks, comments and line ends, as between the items of an array. A comment ends with its
line, so one that does not is left where it stands. -/
def skipLines (s : List Char) : List Char :=
  match _h : newline? (skipComment (skipBlanks s)) with
  | some rest => skipLines rest
  | none => skipBlanks s
termination_by s.length
decreasing_by
  have := length_newline? _h
  have := length_skipComment_le (skipBlanks s)
  have : (skipBlanks s).length ≤ s.length := length_dropWhile_le _ _
  omega

end Aggregate.Toml
