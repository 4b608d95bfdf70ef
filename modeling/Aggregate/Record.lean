/-
  Texts of records

  The readable text of a composite value: a name with its fields in braces, or
  the members of a sequence in brackets. Every description of a value in the
  library is built from these.
-/

namespace Aggregate

/-- The field `name: value` of a record text. -/
def fieldText (field : String × String) : String :=
  field.1 ++ ": " ++ field.2

/-- A record: its name, then its fields between braces. -/
def recordText (name : String) (fields : List (String × String)) : String :=
  name ++ " \x7b " ++ ", ".intercalate (fields.map fieldText) ++ " \x7d"

/-- A sequence of members between brackets. -/
def sequenceText (members : List String) : String :=
  "[" ++ ", ".intercalate members ++ "]"

def boolText (b : Bool) : String :=
  if b then "true" else "false"

end Aggregate
