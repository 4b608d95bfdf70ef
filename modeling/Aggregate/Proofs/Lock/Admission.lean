import Aggregate.Lock.Basic
import Aggregate.Proofs.Places

/-
  What a lock says of its users

  The users of a lock stand in a list, and some of them are inside, between taking
  the lock and giving it back. `Admits` relates the two: an enabled lock is held
  while exactly one user is inside; a disabled one says nothing, but it is only
  given to a single user. Either way no two users are inside at a time. Taking and
  giving back the lock keep the relation, and so does any step of a user that
  stays where it is.
-/

namespace Aggregate.Lock

variable {enabled : Bool} {α : Type}

/-- The lock is held while one user is inside; a disabled lock has a single user. -/
def Admits (inside : α → Bool) : Lock enabled → List α → Prop
  | .real held, users => users.countP inside = held.toNat
  | .bypass, users => users.length = 1

variable {inside : α → Bool} {lock taken : Lock enabled} {users : List α} {k : Nat} {old now : α}

theorem Admits.inside_le (h : Admits inside lock users) : users.countP inside ≤ 1 := by
  cases lock with
  | real held =>
    rw [show users.countP inside = held.toNat from h]
    exact Bool.toNat_le held
  | bypass =>
    rw [← show users.length = 1 from h]
    exact List.countP_le_length

theorem Admits.stay (h : Admits inside lock users) (hold : users[k]? = some old)
    (hsame : inside now = inside old) : Admits inside lock (users.set k now) := by
  cases lock with
  | real held => exact (countP_set inside hold hsame).trans h
  | bypass => exact List.length_set.trans h

theorem Admits.acquire (h : Admits inside lock users) (hold : users[k]? = some old)
    (htaken : lock.acquire? = some taken) (hout : inside old = false)
    (hin : inside now = true) : Admits inside taken (users.set k now) := by
  cases lock with
  | real held =>
    cases held with
    | true => cases htaken
    | false =>
      cases htaken
      have hcount := countP_set_add inside now hold
      rw [hout, hin, show users.countP inside = 0 from h] at hcount
      exact hcount
  | bypass => cases htaken; exact List.length_set.trans h

theorem Admits.release (h : Admits inside lock users) (hold : users[k]? = some old)
    (hin : inside old = true) (hout : inside now = false) :
    Admits inside lock.release (users.set k now) := by
  have hle := h.inside_le
  have hcount := countP_set_add inside now hold
  rw [hin, hout] at hcount
  cases lock with
  | real held =>
    show (users.set k now).countP inside = 0
    simp only [Bool.toNat_true, Bool.toNat_false] at hcount
    omega
  | bypass => exact List.length_set.trans h

theorem Admits.outside {lock taken : Lock true} (h : Admits inside lock users)
    (htaken : lock.acquire? = some taken) : ∀ user ∈ users, inside user = false := by
  cases lock with
  | real held =>
    cases held with
    | true => cases htaken
    | false =>
      intro user hu
      have hnone := List.countP_eq_zero.mp (show users.countP inside = 0 from h) user hu
      simpa using hnone

/-- A lock that cannot be taken has somebody inside. -/
theorem Admits.exists_inside (h : Admits inside lock users) (hheld : lock.acquire? = none) :
    ∃ user ∈ users, inside user = true := by
  cases lock with
  | real held =>
    cases held with
    | true =>
      have hone : users.countP inside = 1 := h
      exact List.countP_pos_iff.mp (hone ▸ Nat.one_pos)
    | false => cases hheld
  | bypass => cases hheld

/-- An enabled lock is held while somebody is inside. -/
theorem Admits.isFree_iff {lock : Lock true} (h : Admits inside lock users) :
    lock.isFree = true ↔ ∀ user ∈ users, inside user = false := by
  cases lock with
  | real held =>
    have hcount : users.countP inside = held.toNat := h
    have hnone := List.countP_eq_zero (p := inside) (l := users)
    simp only [Bool.not_eq_true] at hnone
    rw [← hnone, hcount]
    cases held <;> simp [isFree]

end Aggregate.Lock
