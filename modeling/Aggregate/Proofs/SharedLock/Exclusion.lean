import Mathlib.Data.List.Perm.Basic
import Aggregate.SharedLock.Contexts
import Aggregate.Proofs.Places

/-
  Readers or a writer

  Whatever the contexts do and in whatever order, a reader-writer lock records the
  guards that are live: so many readers, or a single writer (`Records`). It does so
  without knowing whose guards they are or in which order they were taken, so each
  guard can be given back at any time: `Records` only depends on the guards up to
  their order, and taking access and giving it back adds and removes one of them.
-/

namespace Aggregate.SharedLock

/-- The lock records these guards: its readers, and its writer beside no one else. -/
def Records : SharedLock true → List Access → Prop
  | .real readers writer, guards =>
    guards.count .shared = readers ∧ guards.count .exclusive = writer.toNat ∧
      (writer = true → readers = 0)

section
variable {lock taken : SharedLock true} {guards others : List Access} {access : Access}

theorem records_new : Records (.new true) [] := ⟨rfl, rfl, fun h => by cases h⟩

theorem Records.perm (h : Records lock guards) (hperm : guards.Perm others) :
    Records lock others := by
  cases lock with
  | real readers writer =>
    obtain ⟨hshared, hexclusive, halone⟩ := h
    exact ⟨(hperm.count_eq _).symm.trans hshared, (hperm.count_eq _).symm.trans hexclusive, halone⟩

theorem Records.acquire (h : Records lock guards) (htaken : lock.acquire? access = some taken) :
    Records taken (access :: guards) := by
  cases lock with
  | real readers writer =>
    obtain ⟨hshared, hexclusive, -⟩ := h
    cases access with
    | shared =>
      cases writer with
      | true => cases htaken
      | false =>
        cases htaken
        exact ⟨by simpa using hshared, by simpa using hexclusive, fun h => by cases h⟩
    | exclusive =>
      rw [acquire?] at htaken
      split at htaken
      · cases htaken
      · next hfree =>
        cases htaken
        obtain ⟨hwriter, hreaders⟩ := not_or.mp hfree
        rw [Bool.not_eq_true] at hwriter
        rw [hwriter] at hexclusive
        rw [Decidable.not_not.mp hreaders] at hshared
        exact ⟨by simpa using hshared, by simpa using hexclusive, fun _ => rfl⟩

theorem Records.release (h : Records lock (access :: guards)) :
    Records (lock.release access) guards := by
  cases lock with
  | real readers writer =>
    obtain ⟨hshared, hexclusive, halone⟩ := h
    cases access with
    | shared =>
      have hreaders : guards.count .shared + 1 = readers := by simpa using hshared
      refine ⟨by omega, by simpa using hexclusive, fun hwriter => ?_⟩
      have hnone := halone hwriter
      omega
    | exclusive =>
      have hwriter : guards.count .exclusive + 1 = writer.toNat := by simpa using hexclusive
      have hle := Bool.toNat_le writer
      refine ⟨by simpa using hshared, ?_, fun h => by cases h⟩
      show guards.count .exclusive = 0
      omega

theorem length_eq_counts (guards : List Access) :
    guards.length = guards.count .shared + guards.count .exclusive := by
  induction guards with
  | nil => rfl
  | cons access guards ih => cases access <;> simp [ih] <;> omega

theorem Records.eq_real (h : Records lock guards) :
    lock = .real (guards.count .shared) (guards.contains .exclusive) := by
  cases lock with
  | real readers writer =>
    obtain ⟨hshared, hexclusive, -⟩ := h
    have hwriter : guards.contains .exclusive = writer := by
      rw [Bool.eq_iff_iff, List.contains_iff_mem, ← List.count_pos_iff, hexclusive]
      cases writer <;> simp
    rw [hshared, hwriter]

/-- A writer is alone. -/
theorem Records.alone (h : Records lock guards) (hmem : .exclusive ∈ guards) :
    guards = [.exclusive] := by
  cases lock with
  | real readers writer =>
    obtain ⟨hshared, hexclusive, halone⟩ := h
    have hpos : 0 < writer.toNat := hexclusive ▸ List.count_pos_iff.mpr hmem
    have hle := Bool.toNat_le writer
    have hreaders := halone (Bool.toNat_eq_one.mp (by omega))
    have hlength := length_eq_counts guards
    have hone : guards.length = 1 := by omega
    obtain ⟨access, rfl⟩ := List.length_eq_one_iff.mp hone
    rw [List.mem_singleton.mp hmem]

theorem Records.admits_shared (h : Records lock guards) :
    lock.admits .shared = true ↔ .exclusive ∉ guards := by
  rw [h.eq_real, admits, acquire?]
  cases hwriter : guards.contains .exclusive <;> simpa using hwriter

theorem Records.admits_exclusive (h : Records lock guards) :
    lock.admits .exclusive = true ↔ guards = [] := by
  have hlength := length_eq_counts guards
  rw [h.eq_real, admits, acquire?, ← List.length_eq_zero_iff, hlength]
  by_cases hwriter : .exclusive ∈ guards
  · have hpos := List.count_pos_iff.mpr hwriter
    simp only [List.contains_iff_mem.mpr hwriter, true_or, if_true, Option.isSome_none,
      Bool.false_eq_true, false_iff]
    omega
  · have hnone := List.count_eq_zero.mpr hwriter
    simp [hwriter, hnone]

theorem Records.eq_new_iff (h : Records lock guards) : lock = .new true ↔ guards = [] := by
  rw [← h.admits_exclusive]
  constructor
  · rintro rfl
    rfl
  · intro hadmits
    rw [h.eq_real, h.admits_exclusive.mp hadmits]
    rfl

end

/-! ## Contexts -/

section
variable {lock lock' : SharedLock true} {guards now rest : List Access}

theorem Records.move {m : Move} (h : Records lock (guards ++ rest))
    (hmove : lock.move guards m = some (lock', now)) : Records lock' (now ++ rest) := by
  cases m with
  | acquire access =>
    obtain ⟨taken, htaken, heq⟩ := Option.map_eq_some_iff.mp hmove
    cases heq
    exact h.acquire htaken
  | tryAcquire access =>
    rw [SharedLock.move] at hmove
    split at hmove
    · next taken htaken =>
      cases hmove
      exact h.acquire htaken
    · cases hmove
      exact h
  | drop place =>
    obtain ⟨access, hplace, heq⟩ := Option.map_eq_some_iff.mp hmove
    cases heq
    obtain ⟨hlt, rfl⟩ := List.getElem?_eq_some_iff.mp hplace
    have hperm := (List.getElem_cons_eraseIdx_perm hlt).symm.append_right rest
    exact (h.perm hperm).release

end

theorem flatten_split {α : Type} {xs : List (List α)} {k : Nat} {old : List α}
    (h : xs[k]? = some old) : ∃ rest, xs.flatten.Perm (old ++ rest) ∧
      ∀ now, (xs.set k now).flatten.Perm (now ++ rest) := by
  obtain ⟨before, after, hsplit, hset⟩ := split_at h
  have hperm : ∀ part : List α,
      (before ++ part :: after).flatten.Perm (part ++ (before.flatten ++ after.flatten)) := by
    intro part
    rw [List.flatten_append, List.flatten_cons]
    exact List.perm_append_comm_assoc ..
  exact ⟨before.flatten ++ after.flatten, hsplit ▸ hperm old, fun now => hset now ▸ hperm now⟩

theorem records_step {s : System true} (h : Records s.lock s.guards) (k : Nat) (m : Move) :
    Records (s.step k m).lock (s.step k m).guards := by
  rw [System.step]
  split
  · exact h
  · next guards hold =>
    split
    · exact h
    · next lock now hmove =>
      obtain ⟨rest, hguards, hset⟩ := flatten_split hold
      exact ((h.perm hguards).move hmove).perm (hset now).symm

theorem records_run (schedule : List (Nat × Move)) {s : System true}
    (h : Records s.lock s.guards) : Records (s.run schedule).lock (s.run schedule).guards :=
  List.foldlRecOn (motive := fun s : System true => Records s.lock s.guards) schedule _ h
    fun _ h turn _ => records_step h turn.1 turn.2

theorem records_start (n : Nat) :
    Records (System.start true n).lock (System.start true n).guards := by
  have hnone : (System.start true n).guards = [] := by
    simp [System.start, System.guards]
  rw [hnone]
  exact records_new

/-! ## What a context gets -/

section
variable {s : System true} {k : Nat} {guards : List Access} {access : Access}

theorem step_admitted (hold : s.contexts[k]? = some guards)
    (hadmits : s.lock.admits access = true) :
    (s.step k (.tryAcquire access)).contexts[k]? = some (access :: guards) := by
  obtain ⟨taken, htaken⟩ := Option.isSome_iff_exists.mp hadmits
  have hlt := (List.getElem?_eq_some_iff.mp hold).1
  simp only [System.step, hold, move, htaken, List.getElem?_set_self hlt]

/-- A try that fails changes nothing. -/
theorem step_refused (hadmits : s.lock.admits access = false) :
    s.step k (.tryAcquire access) = s := by
  have hnone : s.lock.acquire? access = none := by simpa [admits] using hadmits
  rw [System.step]
  split
  · rfl
  · next guards hold =>
    simp only [move, hnone]
    obtain ⟨hlt, rfl⟩ := List.getElem?_eq_some_iff.mp hold
    rw [List.set_getElem_self hlt]

/-- Waiting for access gives what a try gives, once there is no need to wait. -/
theorem step_acquire (s : System true) (k : Nat) (access : Access) :
    s.step k (.acquire access) = s.step k (.tryAcquire access) := by
  cases hadmits : s.lock.admits access with
  | true =>
    obtain ⟨taken, htaken⟩ := Option.isSome_iff_exists.mp hadmits
    simp only [System.step, move, htaken, Option.map_some]
  | false =>
    have hnone : s.lock.acquire? access = none := by simpa [admits] using hadmits
    rw [step_refused hadmits]
    cases hold : s.contexts[k]? <;> simp only [System.step, hold, move, hnone, Option.map_none]

/-- A try gives its context a guard if the lock admits it, and only then. -/
theorem step_obtains_iff (hold : s.contexts[k]? = some guards) :
    (s.step k (.tryAcquire access)).contexts[k]? = some (access :: guards) ↔
      s.lock.admits access = true := by
  refine ⟨fun hgot => Bool.of_not_eq_false fun hrefused => ?_, step_admitted hold⟩
  rw [step_refused hrefused, hold] at hgot
  exact absurd (congrArg List.length (Option.some.inj hgot)) (by simp)

theorem step_drop (hold : s.contexts[k]? = some guards) {place : Nat}
    (hplace : place < guards.length) :
    (s.step k (.drop place)).contexts[k]? = some (guards.eraseIdx place) := by
  have hlt := (List.getElem?_eq_some_iff.mp hold).1
  simp only [System.step, hold, move, List.getElem?_eq_getElem hplace, Option.map_some,
    List.getElem?_set_self hlt]

end

/-- Over every run of any number of contexts that share an enabled reader-writer lock: it records
how many shared guards are live and whether an exclusive one is, and an exclusive guard is the only
one; a try gets exclusive access if no guard is live and shared access if no exclusive one is, and
changes nothing if it gets none; waiting for access gets what a try gets; every guard can be
dropped, and once none is live the lock is as new. -/
theorem readers_or_writer (n : Nat) (schedule : List (Nat × Move)) :
    let s := (System.start true n).run schedule
    s.lock = .real (s.guards.count .shared) (s.guards.contains .exclusive) ∧
      (.exclusive ∈ s.guards → s.guards = [.exclusive]) ∧
      (∀ (k : Nat) (guards : List Access), s.contexts[k]? = some guards →
        ((s.step k (.tryAcquire .exclusive)).contexts[k]? = some (.exclusive :: guards) ↔
          s.guards = []) ∧
        ((s.step k (.tryAcquire .shared)).contexts[k]? = some (.shared :: guards) ↔
          .exclusive ∉ s.guards) ∧
        (∀ access : Access,
          (s.step k (.tryAcquire access)).contexts[k]? ≠ some (access :: guards) →
            s.step k (.tryAcquire access) = s) ∧
        (∀ access : Access, s.step k (.acquire access) = s.step k (.tryAcquire access)) ∧
        ∀ place < guards.length,
          (s.step k (.drop place)).contexts[k]? = some (guards.eraseIdx place)) ∧
      (s.guards = [] → s.lock = .new true) := by
  intro s
  have h : Records s.lock s.guards := records_run schedule (records_start n)
  refine ⟨h.eq_real, h.alone, fun k guards hold => ⟨?_, ?_, fun access hfailed => ?_,
    step_acquire s k, ?_⟩, h.eq_new_iff.mpr⟩
  · rw [step_obtains_iff hold, h.admits_exclusive]
  · rw [step_obtains_iff hold, h.admits_shared]
  · rw [Ne, step_obtains_iff hold, Bool.not_eq_true] at hfailed
    exact step_refused hfailed
  · exact fun place => step_drop hold

/-- Two contexts: readers overlap and leave in another order than they came, a writer is refused
until both have left. -/
def overlapping : List (Nat × Move) :=
  [(0, .acquire .shared), (1, .tryAcquire .shared), (1, .tryAcquire .exclusive), (0, .drop 0),
    (0, .tryAcquire .exclusive), (1, .drop 0)]

theorem readers_or_writer_overlapping :
    let s := (System.start true 2).run overlapping
    ((System.start true 2).run (overlapping.take 3)).lock = .real 2 false ∧
      s.lock = .new true ∧
      (s.step 0 (.tryAcquire .exclusive)).contexts[0]? = some [.exclusive] := by
  intro s
  have hboth := (readers_or_writer 2 (overlapping.take 3)).1
  obtain ⟨-, -, htries, hnew⟩ := readers_or_writer 2 overlapping
  have hnone : s.guards = [] := by decide
  exact ⟨hboth, hnew hnone, (htries 0 [] (by decide)).1.mpr hnone⟩

end Aggregate.SharedLock
