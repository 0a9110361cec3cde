import Mathlib.Algebra.Group.Int.Defs
import Mathlib.Algebra.Group.Nat.Defs
import Mathlib.Order.Defs.LinearOrder

/-!
# The order of 64-bit integers

`Int64` as a linear order, with the order it has, and sums that do not wrap.
-/

namespace Seiran

instance instLinearOrderInt64 : LinearOrder Int64 where
  le_refl := Int64.le_refl
  le_trans _ _ _ := Int64.le_trans
  le_antisymm _ _ := Int64.le_antisymm
  le_total := Int64.le_total
  lt_iff_le_not_ge a b := by
    rw [Int64.not_le]
    exact ⟨fun h => ⟨Int64.le_of_lt h, h⟩, And.right⟩
  toDecidableLE := inferInstance
  toDecidableEq := inferInstance
  toDecidableLT := inferInstance
  min_def _ _ := rfl
  max_def _ _ := rfl

/-! What membership of lists with these elements is decided with -/

instance instLawfulBEqInt64 : LawfulBEq Int64 := inferInstance

instance instLawfulBEqInt64Int64 : LawfulBEq (Int64 × Int64) := inferInstance

instance instLawfulBEqInt64String : LawfulBEq (Int64 × String) := inferInstance

namespace I64

theorem lt_iff {a b : Int64} : a < b ↔ a.toInt < b.toInt := Int64.lt_iff_toInt_lt

theorem le_iff {a b : Int64} : a ≤ b ↔ a.toInt ≤ b.toInt := Int64.le_iff_toInt_le

theorem toInt_range (a : Int64) : -2 ^ 63 ≤ a.toInt ∧ a.toInt < 2 ^ 63 :=
  ⟨a.le_toInt, a.toInt_lt⟩

theorem toInt_add_one {a : Int64} (h : a.toInt < 2 ^ 63 - 1) : (a + 1).toInt = a.toInt + 1 := by
  have := toInt_range a
  rw [Int64.toInt_add]
  exact Int.bmod_eq_of_le (by show -(2 ^ 64 / 2 : Int) ≤ a.toInt + 1; omega)
    (by show a.toInt + 1 < (2 ^ 64 + 1) / 2; omega)

theorem toInt_sub_one {a : Int64} (h : -2 ^ 63 < a.toInt) : (a - 1).toInt = a.toInt - 1 := by
  have := toInt_range a
  rw [Int64.toInt_sub]
  exact Int.bmod_eq_of_le (by show -(2 ^ 64 / 2 : Int) ≤ a.toInt - 1; omega)
    (by show a.toInt - 1 < (2 ^ 64 + 1) / 2; omega)

end I64

end Seiran
