import Mathlib.Logic.Function.Basic

/-!
# Locks that belong to sessions

A server has open sessions and a lock under each key. A lock is tried without waiting, by a
session, which may have it already; it comes free when its session ends.

* `Valid`: the locks belong to open sessions;
* `holder_of_tryLock`: who has the locks after one was got;
* `holder_finish`: an end of a session frees its locks and no others.
-/

namespace Seiran

universe u v

structure SessionLocks (κ : Type u) (ι : Type v) where
  isOpen : ι → Bool
  holder : κ → Option ι

namespace SessionLocks

variable {κ : Type u} {ι : Type v}

def empty : SessionLocks κ ι := { isOpen := fun _ => false, holder := fun _ => none }

structure Valid (L : SessionLocks κ ι) : Prop where
  isOpen : ∀ {k c}, L.holder k = some c → L.isOpen c = true

theorem valid_empty : (empty : SessionLocks κ ι).Valid := ⟨fun h => by cases h⟩

variable {L L' : SessionLocks κ ι} {k k' : κ} {c d : ι}

section Sessions

variable [DecidableEq ι]

def connect (L : SessionLocks κ ι) (c : ι) : SessionLocks κ ι :=
  { L with isOpen := Function.update L.isOpen c true }

def finish (L : SessionLocks κ ι) (c : ι) : SessionLocks κ ι :=
  { isOpen := Function.update L.isOpen c false
    holder := fun k => if L.holder k = some c then none else L.holder k }

theorem isOpen_connect : (L.connect c).isOpen d = true ↔ d = c ∨ L.isOpen d = true := by
  by_cases h : d = c
  · simp [connect, h]
  · simp [connect, h]

@[simp] theorem holder_connect : (L.connect c).holder = L.holder := rfl

theorem isOpen_finish : (L.finish c).isOpen d = true ↔ d ≠ c ∧ L.isOpen d = true := by
  by_cases h : d = c
  · simp [finish, h]
  · simp [finish, h]

theorem holder_finish : (L.finish c).holder k = some d ↔ d ≠ c ∧ L.holder k = some d := by
  simp only [finish]
  split
  · rename_i h
    simp only [reduceCtorEq, h, Option.some.injEq, false_iff, not_and]
    exact fun hne heq => hne heq.symm
  · rename_i h
    exact ⟨fun hd => ⟨fun heq => h (heq ▸ hd), hd⟩, fun hd => hd.2⟩

theorem Valid.connect (h : L.Valid) : (L.connect c).Valid where
  isOpen := fun hk => isOpen_connect.mpr (.inr (h.isOpen hk))

theorem Valid.finish (h : L.Valid) : (L.finish c).Valid where
  isOpen := fun hk => by
    obtain ⟨hne, hk⟩ := holder_finish.mp hk
    exact isOpen_finish.mpr ⟨hne, h.isOpen hk⟩

end Sessions

section Locks

variable [DecidableEq κ] [DecidableEq ι]

/-- Another session must not have the lock. -/
def tryLock (L : SessionLocks κ ι) (k : κ) (c : ι) : Option (SessionLocks κ ι) :=
  if L.holder k = none ∨ L.holder k = some c then
    some { L with holder := Function.update L.holder k (some c) }
  else none

theorem free_of_tryLock (h : L.tryLock k c = some L') : L.holder k = none ∨ L.holder k = some c := by
  simp only [tryLock, Option.ite_none_right_eq_some] at h
  exact h.1

theorem isOpen_of_tryLock (h : L.tryLock k c = some L') : L'.isOpen = L.isOpen := by
  simp only [tryLock, Option.ite_none_right_eq_some, Option.some.injEq] at h
  rw [← h.2]

theorem holder_of_tryLock (h : L.tryLock k c = some L') (k' : κ) :
    L'.holder k' = if k' = k then some c else L.holder k' := by
  simp only [tryLock, Option.ite_none_right_eq_some, Option.some.injEq] at h
  rw [← h.2]
  exact Function.update_apply ..

theorem Valid.tryLock (h : L.Valid) (hc : L.isOpen c = true) (hL : L.tryLock k c = some L') :
    L'.Valid where
  isOpen := fun {k' d} hk => by
    rw [holder_of_tryLock hL] at hk
    rw [isOpen_of_tryLock hL]
    split at hk
    · cases hk
      exact hc
    · exact h.isOpen hk

end Locks

end SessionLocks

end Seiran
