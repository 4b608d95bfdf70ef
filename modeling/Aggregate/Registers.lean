/-
  Registers

  Named places that hold values, as the programs over containers and locks use
  them. A name holds at most one value, and names keep the order in which they
  were first used.
-/

namespace Aggregate

structure Registers (β : Type) where
  entries : List (String × β)
  deriving DecidableEq, Repr

namespace Registers

variable {β : Type}

def empty : Registers β := ⟨[]⟩

def get? (rs : Registers β) (name : String) : Option β := rs.entries.lookup name

/-- Put a value under a name. -/
def put (rs : Registers β) (name : String) (value : β) : Registers β :=
  ⟨if rs.entries.any (·.1 == name) then
      rs.entries.map fun e => if e.1 == name then (name, value) else e
    else rs.entries ++ [(name, value)]⟩

def erase (rs : Registers β) (name : String) : Registers β :=
  ⟨rs.entries.filter (·.1 != name)⟩

def swap (rs : Registers β) (a b : String) : Registers β :=
  match rs.get? a, rs.get? b with
  | some x, some y => (rs.put a y).put b x
  | _, _ => rs

end Registers

end Aggregate
