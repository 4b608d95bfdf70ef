/-
  Turns

  Workers that share a state take their steps in some order. Taking turns is one
  such order: in every round each worker takes a step, in the order of their
  numbers, until all have ended.
-/

namespace Aggregate

variable {S : Type}

/-- Rounds of so many workers until all have ended, for at most so many rounds. -/
def takeTurns (step : Nat → S → S) (workers : Nat) (hasEnded : S → Bool) : Nat → S → S
  | 0, s => s
  | turns + 1, s =>
    if hasEnded s then s
    else takeTurns step workers hasEnded turns
      ((List.range workers).foldl (fun s worker => step worker s) s)

end Aggregate
