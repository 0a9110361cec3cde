import Mathlib.Data.List.Basic

/-!
# The common prefix of two lists

A sorted key list can be stored front-coded: each key as the length of the
prefix it shares with the key before it and the rest of its elements.
`take_commonPrefixLen` says that nothing is lost.
-/

namespace Seiran

variable {α : Type*} [DecidableEq α]

/-- The length of the longest common prefix of two lists. -/
def commonPrefixLen (a b : List α) : Nat :=
  ((a.zip b).takeWhile fun p => p.1 = p.2).length

@[simp] theorem commonPrefixLen_nil_left (b : List α) : commonPrefixLen [] b = 0 := rfl

@[simp] theorem commonPrefixLen_nil_right (a : List α) : commonPrefixLen a [] = 0 := by
  simp [commonPrefixLen]

@[simp] theorem commonPrefixLen_cons_self (x : α) (a b : List α) :
    commonPrefixLen (x :: a) (x :: b) = commonPrefixLen a b + 1 := by
  simp [commonPrefixLen]

theorem commonPrefixLen_cons_ne {x y : α} (h : x ≠ y) (a b : List α) :
    commonPrefixLen (x :: a) (y :: b) = 0 := by
  simp [commonPrefixLen, h]

theorem commonPrefixLen_append_left (p a b : List α) :
    commonPrefixLen (p ++ a) (p ++ b) = p.length + commonPrefixLen a b := by
  induction p with
  | nil => simp
  | cons x p ih => simp only [List.cons_append, commonPrefixLen_cons_self, ih, List.length_cons]; omega

theorem commonPrefixLen_le_left (a b : List α) : commonPrefixLen a b ≤ a.length :=
  calc commonPrefixLen a b
    _ ≤ (a.zip b).length := (List.takeWhile_sublist _).length_le
    _ ≤ a.length := by rw [List.length_zip]; exact Nat.min_le_left _ _

/-- Front coding loses nothing: the common prefix taken from the first list,
followed by the rest of the second, is the second. -/
theorem take_commonPrefixLen (a b : List α) :
    a.take (commonPrefixLen a b) ++ b.drop (commonPrefixLen a b) = b := by
  induction a generalizing b with
  | nil => rfl
  | cons x a ih =>
    cases b with
    | nil => simp
    | cons y b =>
      by_cases h : x = y
      · subst h
        simp only [commonPrefixLen_cons_self, List.take_succ_cons, List.drop_succ_cons,
          List.cons_append, ih]
      · simp [commonPrefixLen_cons_ne h]

end Seiran
