import Aggregate.Decimal.Basic

/-
  Tables under construction

  A document fills one table. Its lines assign values to dotted keys and open
  tables by headers, and the order matters: a table is defined once, by a
  header, by dotted keys or as a value, and only what a header merely passed
  through may still be defined by a header of its own.

  `Node` is a table's content while that is decided. Once the document is read
  the nodes are plain values, see `Node.value`.
-/

namespace Aggregate.Toml

inductive Value where
  | text (value : String)
  | integer (value : Int)
  | real (value : Binary .double)
  | boolean (value : Bool)
  | moment
  | array (items : List Value)
  | table (entries : List (String × Value))

/-- How a table came to be: defined by a header, passed through by a header, or made by a dotted
key. -/
inductive Origin where
  | defined
  | passed
  | dotted
  deriving DecidableEq, Repr

/-- What a key stands for while the document is read. `elements` are the tables of an array, of
which the last is still open. -/
inductive Node where
  | value (value : Value)
  | table (origin : Origin) (entries : List (String × Node))
  | elements (earlier : List (List (String × Node))) (last : List (String × Node))

/-- The content of a table, in the order of its keys. -/
abbrev Entries := List (String × Node)

namespace Entries

/-- Put a node under a key: in place of the one there, or at the end. -/
def put (key : String) (node : Node) : Entries → Entries
  | [] => [(key, node)]
  | (k, n) :: rest => if k = key then (key, node) :: rest else (k, n) :: put key node rest

/-- Assign a value to a key that has none yet. -/
def insert (key : String) (value : Value) (es : Entries) : Option Entries :=
  match es.lookup key with
  | none => some (es ++ [(key, .value value)])
  | some _ => none

/-- Assign a value to a dotted key, given by the keys before the last and the last. The tables on
the way are made or extended; one that a header defined cannot be, and the innermost must have been
made by dotted keys. -/
def assign (key : String) (value : Value) : List String → Entries → Option Entries
  | [], es => es.insert key value
  | k :: path, es =>
    match es.lookup k with
    | none => (assign key value path []).map fun sub => es.put k (.table .dotted sub)
    | some (.table origin sub) =>
      if origin = .defined ∨ (path = [] ∧ origin ≠ .dotted) then none
      else (assign key value path sub).map fun sub => es.put k (.table origin sub)
    | some (.elements earlier last) =>
      if path = [] then none
      else (assign key value path last).map fun last => es.put k (.elements earlier last)
    | some (.value _) => none

/-- Change the table at a path of headers. Tables that are missing on the way are passed through;
an array of tables leads to its last one. -/
def descend (change : Entries → Option Entries) : List String → Entries → Option Entries
  | [], es => change es
  | k :: path, es =>
    match es.lookup k with
    | none => (descend change path []).map fun sub => es.put k (.table .passed sub)
    | some (.table origin sub) =>
      (descend change path sub).map fun sub => es.put k (.table origin sub)
    | some (.elements earlier last) =>
      (descend change path last).map fun last => es.put k (.elements earlier last)
    | some (.value _) => none

/-- Define the table under a key and fill it. -/
def define (fill : Entries → Option Entries) (key : String) (es : Entries) : Option Entries :=
  match es.lookup key with
  | none => (fill []).map fun sub => es.put key (.table .defined sub)
  | some (.table .passed sub) => (fill sub).map fun sub => es.put key (.table .defined sub)
  | some _ => none

/-- Add a table to the array under a key and fill it. -/
def append (fill : Entries → Option Entries) (key : String) (es : Entries) : Option Entries :=
  match es.lookup key with
  | none => (fill []).map fun sub => es.put key (.elements [] sub)
  | some (.elements earlier last) =>
    (fill []).map fun sub => es.put key (.elements (earlier ++ [last]) sub)
  | some _ => none

end Entries

mutual

/-- The value that a node has become. -/
def Node.toValue : Node → Value
  | .value value => value
  | .table _ entries => .table (Entries.toValues entries)
  | .elements earlier last => .array (tablesToValues earlier ++ [.table (Entries.toValues last)])

def Entries.toValues : List (String × Node) → List (String × Value)
  | [] => []
  | (key, node) :: rest => (key, node.toValue) :: Entries.toValues rest

/-- The values of the tables of an array. -/
def tablesToValues : List (List (String × Node)) → List Value
  | [] => []
  | entries :: rest => .table (Entries.toValues entries) :: tablesToValues rest

end

end Aggregate.Toml
