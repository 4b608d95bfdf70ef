/-
  Log events

  What a part of the library reports beside its result: a level, the target it
  is filed under, a fixed message and named fields. Fields keep the order in
  which they were given.
-/

namespace Aggregate

inductive Level where
  | debug
  | info
  | warn
  deriving DecidableEq, Repr

/-- The name a level is printed under. -/
def Level.name : Level → String
  | .debug => "DEBUG"
  | .info => "INFO"
  | .warn => "WARN"

structure Event where
  level : Level
  target : String
  message : String
  fields : List (String × String)
  deriving DecidableEq, Repr

end Aggregate
