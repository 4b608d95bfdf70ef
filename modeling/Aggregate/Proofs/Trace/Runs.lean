import Aggregate.Proofs.Trace.Operations

/-
  Programs run by operations

  Running a program is carrying out operations one after the other: `Along` says
  of a run that it ends in the context that some operations lead to, and that
  each of its entries shows the trace after some of them. `run_along` is that
  every run of every program is of this kind, whatever it catches, repeats or
  unwinds, so what holds after all operations holds all along a program.
-/

namespace Aggregate

variable {w : Width} {reporting : Bool}

/-- The run carries out operations, and its entries show traces on the way. -/
def Run.Along (reporting : Bool) (c : Context w) (r : Run w) : Prop :=
  ∃ ops, r.context = c.operate reporting ops ∧
    ∀ e ∈ r.entries, ∃ done, done <+: ops ∧ e.trace = (c.operate reporting done).trace

theorem Run.Consists.along {c : Context w} {live : Nat} {ops : List (Operation w)} {r : Run w}
    (h : r.Consists reporting c live ops) : r.Along reporting c := by
  refine ⟨ops, h.context, fun e he => ?_⟩
  have hseen : e.trace ∈ c.seen reporting ops := by
    rw [← h.entries]
    exact List.mem_map_of_mem he
  obtain ⟨⟨op, d⟩, hm, ht⟩ := List.mem_map.mp hseen
  obtain ⟨done, hdone, rfl⟩ := exists_done_of_moment ops (List.mem_filter.mp hm).1
  exact ⟨done, hdone, ht.symm⟩

/-- Every run of every program carries out operations. -/
theorem run_along (reporting : Bool) (code : Code w) (c : Context w) :
    Run.Along reporting c (code.run reporting c) :=
  (operations_run reporting code c).along

end Aggregate
