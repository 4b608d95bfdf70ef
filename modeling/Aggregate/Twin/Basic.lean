import Aggregate.Element

/-
  Twins

  A `Twin α mirrored` offers two accessors, first and second. A mirrored twin
  keeps one cell behind both, so what is written through one is read through
  the other; a separate twin keeps two cells that never affect each other.
-/

namespace Aggregate

/-- One cell behind both accessors, or one behind each. -/
inductive Twin (α : Type) : Bool → Type where
  | mirrored (cell : α) : Twin α true
  | separate (first second : α) : Twin α false

namespace Twin

variable {α : Type} {mirrors : Bool}

/-- Every cell with the same value. -/
def new (mirrors : Bool) (value : α) : Twin α mirrors :=
  match mirrors with
  | true => .mirrored value
  | false => .separate value value

/-- Fill the cells, first one first, by a computation over some state. -/
def build {σ : Type} (mirrors : Bool) (compute : σ → α × σ) (s : σ) : Twin α mirrors × σ :=
  match mirrors with
  | true =>
    let r := compute s
    (.mirrored r.1, r.2)
  | false =>
    let a := compute s
    let b := compute a.2
    (.separate a.1 b.1, b.2)

def first : Twin α mirrors → α
  | .mirrored cell => cell
  | .separate first _ => first

def second : Twin α mirrors → α
  | .mirrored cell => cell
  | .separate _ second => second

/-- Change a value through the first accessor. -/
def changeFirst (change : α → α) : Twin α mirrors → Twin α mirrors
  | .mirrored cell => .mirrored (change cell)
  | .separate first second => .separate (change first) second

def changeSecond (change : α → α) : Twin α mirrors → Twin α mirrors
  | .mirrored cell => .mirrored (change cell)
  | .separate first second => .separate first (change second)

/-- The distinct cells, in order. -/
def toList : Twin α mirrors → List α
  | .mirrored cell => [cell]
  | .separate first second => [first, second]

section

variable [Element α]

/-- Whether all distinct cells are equal. -/
def equal (t u : Twin α mirrors) : Bool := Element.equalAll t.toList u.toList

def text (t : Twin α mirrors) : String :=
  recordText "Twin" [("mirrored", boolText mirrors), ("first", Element.text t.first),
    ("second", Element.text t.second)]

/-- The key that a twin is digested as. -/
def key (t : Twin α mirrors) : Key := Element.sequenceKey t.toList

end

end Twin

end Aggregate
