import Mathlib.Data.List.Basic

-- A semaphore whose permits are only taken if there is one left.
structure Semaphore where
  available : Nat
deriving DecidableEq, Repr

namespace Semaphore

def new (capacity : Nat) : Semaphore where
  available := capacity

def tryAcquire (s : Semaphore) : Option Semaphore :=
  if s.available = 0 then none else some ⟨s.available - 1⟩

def release (s : Semaphore) : Semaphore where
  available := s.available + 1

-- The permits which are not available are held by the members of a list which satisfy `p`, one by
-- each of them.
def HeldBy (capacity : Nat) (p : α → Bool) (holders : List α) (s : Semaphore) : Prop :=
  s.available + holders.countP p = capacity

variable {capacity : Nat} {p : α → Bool} {holders : List α} {s : Semaphore}

theorem available_of_tryAcquire (h : s.tryAcquire = some s') : s'.available + 1 = s.available := by
  unfold tryAcquire at h
  split at h <;> cases h
  exact Nat.succ_pred ‹_›

-- How a change of one member changes the number of holders.
theorem countP_set (h : holders[i]? = some a) :
    (holders.set i b).countP p + (if p a then 1 else 0) = holders.countP p + if p b then 1 else 0 := by
  obtain ⟨hi, rfl⟩ := List.getElem?_eq_some_iff.mp h
  have hp : (if p holders[i] then 1 else 0) ≤ holders.countP p := by
    split
    · exact List.countP_pos_iff.mpr ⟨_, List.getElem_mem hi, ‹_›⟩
    · exact Nat.zero_le _
  rw [List.countP_set hi]
  omega

namespace HeldBy

theorem new (h : ∀ a ∈ holders, ¬p a) : (new capacity).HeldBy capacity p holders := by
  simp [HeldBy, Semaphore.new, List.countP_eq_zero.mpr h]

theorem set (h : s.HeldBy capacity p holders) (ha : holders[i]? = some a) (hp : p b = p a) :
    s.HeldBy capacity p (holders.set i b) := by
  have := countP_set (p := p) (b := b) ha
  simp only [HeldBy, hp] at *
  omega

theorem set_acquire (h : s.HeldBy capacity p holders) (hs : s.tryAcquire = some s')
    (ha : holders[i]? = some a) (hp : ¬p a) (hp' : p b) :
    s'.HeldBy capacity p (holders.set i b) := by
  have := countP_set (p := p) (b := b) ha
  have := available_of_tryAcquire hs
  simp only [HeldBy, hp, hp', if_true, Bool.false_eq_true, if_false] at *
  omega

theorem set_release (h : s.HeldBy capacity p holders) (ha : holders[i]? = some a) (hp : p a)
    (hp' : ¬p b) : s.release.HeldBy capacity p (holders.set i b) := by
  have := countP_set (p := p) (b := b) ha
  simp only [HeldBy, release, hp, hp', if_true, Bool.false_eq_true, if_false] at *
  omega

theorem append (h : s.HeldBy capacity p holders) (hp : ¬p b) :
    s.HeldBy capacity p (holders ++ [b]) := by
  simpa [HeldBy, List.countP_append, hp] using h

theorem append_acquire (h : s.HeldBy capacity p holders) (hs : s.tryAcquire = some s') (hp : p b) :
    s'.HeldBy capacity p (holders ++ [b]) := by
  have := available_of_tryAcquire hs
  simp only [HeldBy, List.countP_append, List.countP_singleton, hp, if_true] at *
  omega

end HeldBy
end Semaphore
