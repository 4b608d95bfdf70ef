/-
  Lists changed in one place

  The parts of a system that take turns stand in a list, and a step changes one
  of them. These lemmas say what becomes of a total and of a count over the list and
  of what its places yield when one place changes, and that a test which at most
  one place passes tells the places apart. Where places have names, a lookup sees
  through a function of what they hold (`lookup_map`).
-/

namespace Aggregate

def total (sizes : List Nat) : Nat := sizes.foldr (· + ·) 0

@[simp] theorem total_nil : total [] = 0 := rfl

@[simp] theorem total_cons (size : Nat) (sizes : List Nat) :
    total (size :: sizes) = size + total sizes := rfl

theorem total_append (xs ys : List Nat) : total (xs ++ ys) = total xs + total ys := by
  induction xs with
  | nil => simp
  | cons x xs ih => rw [List.cons_append, total_cons, total_cons, ih, Nat.add_assoc]

theorem total_replicate (n size : Nat) : total (List.replicate n size) = n * size := by
  induction n with
  | zero => rw [List.replicate_zero, total_nil, Nat.zero_mul]
  | succ n ih => rw [List.replicate_succ, total_cons, ih, Nat.succ_mul, Nat.add_comm]

variable {α β : Type} {xs : List α} {k : Nat} {old now : α}

theorem split_at {a : α} (h : xs[k]? = some a) :
    ∃ before after, xs = before ++ a :: after ∧ ∀ b, xs.set k b = before ++ b :: after := by
  obtain ⟨hk, ha⟩ := List.getElem?_eq_some_iff.mp h
  refine ⟨xs.take k, xs.drop (k + 1), ?_, fun b => ?_⟩
  · rw [← ha, List.getElem_cons_drop, List.take_append_drop]
  · rw [List.set_eq_take_append_cons_drop, if_pos hk]

/-- What stands in a place after one place has changed: the new part, or what stood there. -/
theorem place_set {j : Nat} {a : α} (h : (xs.set k now)[j]? = some a) :
    (k = j ∧ now = a) ∨ (k ≠ j ∧ xs[j]? = some a) := by
  rw [List.getElem?_set] at h
  split at h
  · next heq =>
    split at h
    · exact .inl ⟨heq, Option.some.inj h⟩
    · cases h
  · next hne => exact .inr ⟨hne, h⟩

/-- A total gains what the new part adds and loses what the old one did. -/
theorem total_set_add (f : α → Nat) (now : α) (h : xs[k]? = some old) :
    total ((xs.set k now).map f) + f old = total (xs.map f) + f now := by
  obtain ⟨before, after, hsplit, hset⟩ := split_at h
  rw [hset, hsplit, List.map_append, List.map_append, total_append, total_append, List.map_cons,
    List.map_cons, total_cons, total_cons]
  omega

theorem countP_set_add (q : α → Bool) (now : α) (h : xs[k]? = some old) :
    (xs.set k now).countP q + (q old).toNat = xs.countP q + (q now).toNat := by
  obtain ⟨before, after, hsplit, hset⟩ := split_at h
  rw [hset, hsplit, List.countP_append, List.countP_append, List.countP_cons, List.countP_cons]
  cases q old <;> cases q now <;> simp <;> omega

theorem countP_set (q : α → Bool) (h : xs[k]? = some old) (hq : q now = q old) :
    (xs.set k now).countP q = xs.countP q := by
  have hcount := countP_set_add q now h
  rw [hq] at hcount
  exact Nat.add_right_cancel hcount

/-- A test that at most one place passes tells the places apart. -/
theorem place_unique {q : α → Bool} :
    ∀ {xs : List α} {j k : Nat} {a b : α}, xs.countP q ≤ 1 → xs[j]? = some a → q a = true →
      xs[k]? = some b → q b = true → j = k := by
  intro xs
  induction xs with
  | nil => intro j k a b _ hj; simp at hj
  | cons x xs ih =>
    intro j k a b hle hj ha hk hb
    rw [List.countP_cons] at hle
    -- Beside a first place that passes the test no other one does.
    have hfirst : ∀ {i : Nat} {c : α}, xs[i]? = some c → q c = true → q x = false := by
      intro i c hi hc
      have hpos : 0 < xs.countP q := List.countP_pos_iff.mpr ⟨c, List.mem_of_getElem? hi, hc⟩
      cases hx : q x with
      | false => rfl
      | true => simp only [hx, if_true] at hle; omega
    cases j with
    | zero =>
      cases k with
      | zero => rfl
      | succ k =>
        rw [List.getElem?_cons_zero] at hj
        rw [List.getElem?_cons_succ] at hk
        have hx := hfirst hk hb
        rw [Option.some.inj hj, ha] at hx
        cases hx
    | succ j =>
      rw [List.getElem?_cons_succ] at hj
      cases k with
      | zero =>
        rw [List.getElem?_cons_zero] at hk
        have hx := hfirst hj ha
        rw [Option.some.inj hk, hb] at hx
        cases hx
      | succ k =>
        rw [List.getElem?_cons_succ] at hk
        exact congrArg Nat.succ (ih (Nat.le_trans (Nat.le_add_right _ _) hle) hj ha hk hb)

theorem filterMap_set (f : α → Option β) (h : xs[k]? = some old) (hf : f now = f old) :
    (xs.set k now).filterMap f = xs.filterMap f := by
  obtain ⟨before, after, hsplit, hset⟩ := split_at h
  rw [hset, hsplit, List.filterMap_append, List.filterMap_append, List.filterMap_cons,
    List.filterMap_cons, hf]

theorem filterMap_set_some {f : α → Option β} {b : β} (h : xs[k]? = some old) (hold : f old = none)
    (hnow : f now = some b) : ((xs.set k now).filterMap f).Perm (b :: xs.filterMap f) := by
  obtain ⟨before, after, hsplit, hset⟩ := split_at h
  rw [hset, hsplit, List.filterMap_append, List.filterMap_append, List.filterMap_cons_some hnow,
    List.filterMap_cons_none hold]
  exact List.perm_middle

theorem filterMap_set_none {f : α → Option β} {b : β} (h : xs[k]? = some old)
    (hold : f old = some b) (hnow : f now = none) :
    (b :: (xs.set k now).filterMap f).Perm (xs.filterMap f) := by
  obtain ⟨before, after, hsplit, hset⟩ := split_at h
  rw [hset, hsplit, List.filterMap_append, List.filterMap_append, List.filterMap_cons_some hold,
    List.filterMap_cons_none hnow]
  exact List.perm_middle.symm

theorem lookup_map {γ : Type} [BEq γ] (f : α → β) (entries : List (γ × α)) (name : γ) :
    (entries.map fun e => (e.1, f e.2)).lookup name = (entries.lookup name).map f := by
  induction entries with
  | nil => rfl
  | cons e rest ih =>
    obtain ⟨key, value⟩ := e
    simp only [List.map_cons, List.lookup_cons]
    cases name == key with
    | true => rfl
    | false => exact ih

end Aggregate
