import Aggregate.Execution.For
import Aggregate.Execution.While

/-
  Taking turns

  Workers that take turns follow one of the schedules there are
  (`takeTurns_eq_foldl`), so what every schedule keeps they keep. They have all
  ended after so many rounds as there is left to do, if a round in which not all
  end leaves less to do than there was (`takeTurns_ended`).
-/

namespace Aggregate

section
variable {S : Type} {step : Nat → S → S} {workers : Nat} {hasEnded : S → Bool}

theorem takeTurns_of_ended (turns : Nat) {s : S} (ended : hasEnded s = true) :
    takeTurns step workers hasEnded turns s = s := by
  cases turns with
  | zero => rfl
  | succ turns => rw [takeTurns, if_pos ended]

theorem takeTurns_eq_foldl (turns : Nat) :
    ∀ s : S, ∃ schedule : List Nat, takeTurns step workers hasEnded turns s =
      schedule.foldl (fun s worker => step worker s) s := by
  induction turns with
  | zero => intro s; exact ⟨[], rfl⟩
  | succ turns ih =>
    intro s
    rw [takeTurns]
    split
    · exact ⟨[], rfl⟩
    · obtain ⟨schedule, hrest⟩ := ih ((List.range workers).foldl (fun s worker => step worker s) s)
      exact ⟨List.range workers ++ schedule, by rw [hrest, List.foldl_append]⟩

/-- Rounds that keep an invariant and leave less to do come to an end. -/
theorem takeTurns_ended (Inv : S → Prop) (left : S → Nat)
    (hround : ∀ s, Inv s → hasEnded s = false →
      let next := (List.range workers).foldl (fun s worker => step worker s) s
      Inv next ∧ (hasEnded next = true ∨ left next < left s)) (turns : Nat) :
    ∀ {s : S}, Inv s → left s < turns →
      hasEnded (takeTurns step workers hasEnded turns s) = true := by
  induction turns with
  | zero => intro s _ hleft; cases hleft
  | succ turns ih =>
    intro s hinv hleft
    rw [takeTurns]
    split
    · next ended => exact ended
    · next hgo =>
      obtain ⟨hnext, ended | hless⟩ := hround s hinv (Bool.of_not_eq_true hgo)
      · rw [takeTurns_of_ended turns ended]
        exact ended
      · exact ih hnext (by omega)

end

theorem Loop.finish_eq_run {S L : Type} (len : Nat) (body : Body S L) (turns : Nat)
    (l : Loop S L) : ∃ schedule, finish len body turns l = run len body schedule l :=
  takeTurns_eq_foldl turns l

theorem Polling.finish_eq_run {S : Type} (predicate : Nat → S → Bool × S) (turns : Nat)
    (p : Polling S) : ∃ schedule, finish predicate turns p = run predicate schedule p :=
  takeTurns_eq_foldl turns p

end Aggregate
