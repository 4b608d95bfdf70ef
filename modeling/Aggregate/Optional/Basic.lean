import Aggregate.Element

/-
  Optional values

  An `Optional α enabled` carries a value of `α` if it is enabled and nothing
  otherwise, so that code which fills and reads it is written once. It is also
  a sequence: of one value when enabled, of none when not. A disabled one
  reads as the default and never asks for the value it would store.
-/

namespace Aggregate

/-- A value that is stored only if enabled. -/
inductive Optional (α : Type) : Bool → Type where
  | stored (value : α) : Optional α true
  | absent : Optional α false

namespace Optional

variable {α : Type} {enabled : Bool}

/-- Store the value that a computation over some state yields; a disabled optional does not run
the computation. -/
def make {σ : Type} (enabled : Bool) (compute : σ → α × σ) (s : σ) : Optional α enabled × σ :=
  match enabled with
  | true =>
    let r := compute s
    (.stored r.1, r.2)
  | false => (.absent, s)

def new (enabled : Bool) (value : α) : Optional α enabled :=
  (make enabled (fun s : Unit => (value, s)) ()).1

/-- The stored values as a sequence. -/
def toList : Optional α enabled → List α
  | .stored value => [value]
  | .absent => []

def length (_ : Optional α enabled) : Nat := if enabled then 1 else 0

def isEmpty (o : Optional α enabled) : Bool := o.length == 0

def map (change : α → α) : Optional α enabled → Optional α enabled
  | .stored value => .stored (change value)
  | .absent => .absent

def get : Optional α true → α
  | .stored value => value

section

variable [Element α]

/-- The stored value, or the default. -/
def front : Optional α enabled → α
  | .stored value => value
  | .absent => Element.default

/-- Whether two optionals store equal values. -/
def equal (o p : Optional α enabled) : Bool := Element.equalAll o.toList p.toList

def text (o : Optional α enabled) : String :=
  match o.toList.head? with
  | some value => "Optional(" ++ Element.text value ++ ")"
  | none => "Optional(-)"

/-- The key that an optional is digested as. -/
def key (o : Optional α enabled) : Key := Element.sequenceKey o.toList

end

end Optional

end Aggregate
