import Aggregate.Toml.Expression

/-
  Documents

  A document is a sequence of lines: assignments, headers that open a table or
  add one to an array, and lines that say nothing. The assignments before the
  first header fill the table of the document itself, those after a header the
  table it opened. A document stands for the values of its keys; one that
  breaks a rule of the format stands for nothing.
-/

namespace Aggregate.Toml

/-- A header: it defines a table, or adds one to an array. -/
inductive Header where
  | table (path : List String) (key : String)
  | element (path : List String) (key : String)
  deriving DecidableEq, Repr

/-- A line of a document. A value may run over several lines of the text. -/
inductive Line where
  | blank
  | assign (assignment : Assignment)
  | opens (header : Header)

/-- The header of a table or of an element of an array. -/
def header : Reader Header
  | '[' :: '[' :: s =>
    match Toml.key s with
    | some ((path, k), ']' :: ']' :: rest) => some (.element path k, rest)
    | _ => none
  | '[' :: s =>
    match Toml.key s with
    | some ((path, k), ']' :: rest) => some (.table path k, rest)
    | _ => none
  | _ => none

/-- What a line says, before whatever ends it. -/
def statement (s : List Char) : Option (Line × List Char) :=
  match s with
  | '[' :: _ => Reader.map .opens header s
  | _ => Reader.map .assign (assignment value) s

def line : Reader Line := fun s =>
  match lineEnd? s with
  | some rest => some (.blank, rest)
  | none =>
    (statement (skipBlanks s)).bind fun r => (lineEnd? r.2).map (r.1, ·)

def lines (s : List Char) : Option (List Line) :=
  if s.isEmpty then some []
  else
    match line s with
    | none => none
    | some (l, rest) =>
      if rest.length < s.length then (lines rest).map (l :: ·) else none
termination_by s.length

/-- A header with the assignments that follow it. -/
structure Section where
  header : Header
  assignments : List Assignment

/-- The assignments before the first header, and the sections. -/
def sections : List Line → List Assignment × List Section
  | [] => ([], [])
  | .blank :: rest => sections rest
  | .assign a :: rest =>
    let r := sections rest
    (a :: r.1, r.2)
  | .opens h :: rest =>
    let r := sections rest
    ([], ⟨h, r.1⟩ :: r.2)

/-- Carry out a section. -/
def Section.apply (s : Section) (es : Entries) : Option Entries :=
  match s.header with
  | .table path key => Entries.descend (Entries.define (Entries.fill s.assignments) key) path es
  | .element path key => Entries.descend (Entries.append (Entries.fill s.assignments) key) path es

/-- The table that the lines of a document fill. -/
def assemble (ls : List Line) : Option Entries :=
  let r := sections ls
  (Entries.fill r.1 []).bind fun root => r.2.foldlM (fun es s => s.apply es) root

/-- Skip a mark of the byte order at the start of a text. -/
def skipByteOrderMark : List Char → List Char
  | '\ufeff' :: s => s
  | s => s

/-- The values of the keys of a document. -/
def read (text : List Char) : Option (List (String × Value)) :=
  ((lines (skipByteOrderMark text)).bind assemble).map Entries.toValues

end Aggregate.Toml
