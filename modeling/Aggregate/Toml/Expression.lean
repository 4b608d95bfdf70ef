import Aggregate.Toml.Text
import Aggregate.Toml.Moment
import Aggregate.Toml.Table

/-
  Keys and values

  A key is one or more names with points between them. A value is a text, a
  number, a truth value, a moment, an array or a table in braces. Arrays and
  tables in braces nest, but only so deep; a key may have only so many names.
-/

namespace Aggregate.Toml

/-- A bound on the nesting of values and on the names of a key: both stay below it. -/
def nestingLimit : Nat := 80

/-! ## Keys -/

/-- A character of a name without quotes. -/
def isNameChar (c : Char) : Bool :=
  isDigit c || (decide ('a' ≤ c) && decide (c ≤ 'z')) || (decide ('A' ≤ c) && decide (c ≤ 'Z')) ||
    c == '_' || c == '-'

def name : Reader String := fun s =>
  match s with
  | '"' :: _ | '\'' :: _ => Reader.map String.ofList lineText s
  | _ =>
    let taken := s.takeWhile isNameChar
    if taken.isEmpty then none else some (String.ofList taken, s.dropWhile isNameChar)

def paddedName : Reader String := fun s =>
  (name (skipBlanks s)).map fun r => (r.1, skipBlanks r.2)

/-- The names of a key, those before the last apart. -/
def key : Reader (List String × String) := fun s =>
  (Reader.separated '.' paddedName s).bind fun r =>
    match r.1.getLast? with
    | some last =>
      if r.1.length < nestingLimit then some ((r.1.dropLast, last), r.2) else none
    | none => none

/-! ## Values -/

/-- A value that is assigned to a key. -/
structure Assignment where
  path : List String
  key : String
  value : Value

/-- Carry out assignments in order. -/
def Entries.fill (assignments : List Assignment) (es : Entries) : Option Entries :=
  assignments.foldlM (fun es a => Entries.assign a.key a.value a.path es) es

def boolean : Reader Bool :=
  Reader.or (Reader.exact true ['t', 'r', 'u', 'e']) (Reader.exact false ['f', 'a', 'l', 's', 'e'])

def scalar : Reader Value :=
  Reader.or (Reader.map (fun t => .text (String.ofList t)) text)
    (Reader.or (Reader.map (fun _ => .moment) moment)
      (Reader.or (Reader.map .real real)
        (Reader.or (Reader.map .integer integer) (Reader.map .boolean boolean))))

/-- A value with the blanks, comments and line ends around it. -/
def item (value : Reader Value) : Reader Value := fun s =>
  (value (skipLines s)).map fun r => (r.1, skipLines r.2)

/-- The end of an array: a comma may follow the last item. -/
def arrayEnd? (s : List Char) : Option (List Char) :=
  let s := match s with
    | ',' :: s => skipLines s
    | s => s
  match s with
  | ']' :: s => some s
  | _ => none

/-- The rest of an array after its opening bracket. -/
def array (value : Reader Value) : Reader Value := fun s =>
  match Reader.separated ',' (item value) s with
  | some (items, rest) => (arrayEnd? rest).map (.array items, ·)
  | none =>
    match skipLines s with
    | ']' :: rest => some (.array [], rest)
    | _ => none

/-- A key, an equals sign and a value. -/
def assignment (value : Reader Value) : Reader Assignment := fun s =>
  match key s with
  | some ((path, k), '=' :: rest) => (value (skipBlanks rest)).map fun r => (⟨path, k, r.1⟩, r.2)
  | _ => none

/-- An assignment with the blanks behind it. -/
def paddedAssignment (value : Reader Value) : Reader Assignment := fun s =>
  (assignment value s).map fun r => (r.1, skipBlanks r.2)

/-- The rest of a table after its opening brace. -/
def inlineTable (value : Reader Value) : Reader Value := fun s =>
  let read := (Reader.separated ',' (paddedAssignment value) s).getD ([], skipBlanks s)
  match read.2 with
  | '\x7d' :: rest =>
    (Entries.fill read.1 []).map fun es => (.table (Entries.toValues es), rest)
  | _ => none

/-- A value with parts, which are read by the given reader. -/
def compound (value : Reader Value) : Reader Value
  | '[' :: s => array value s
  | '\x7b' :: s => inlineTable value s
  | _ => none

/-- A value with no more than so many levels of parts. -/
def valueWithin : Nat → Reader Value
  | 0 => scalar
  | depth + 1 => Reader.or scalar (compound (valueWithin depth))

def value : Reader Value := valueWithin (nestingLimit - 1)

end Aggregate.Toml
