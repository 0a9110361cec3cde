import Mathlib.Algebra.Group.Int.Defs
import Mathlib.Algebra.Group.Nat.Defs
import Mathlib.Data.Nat.Log

/-!
# Integers as binary64 numbers

`roundNat` and `roundInt` round to the nearest integer with a significand of 53
bits, ties to even; `ofNat64` is the bit pattern. Only finite numbers occur.

* `roundNat_mono`, `roundInt_mono`: a larger integer is not rounded to a
  smaller one.
-/

namespace Seiran.Binary64

/-- The quotient by `2 ^ s`, rounded to the nearest, ties to even. -/
def roundShift (n s : Nat) : Nat :=
  let q := n / 2 ^ s
  let r := n % 2 ^ s
  if 2 ^ s < 2 * r ∨ 2 * r = 2 ^ s ∧ q % 2 = 1 then q + 1 else q

/-- The bits of `n` below its 53 highest. -/
def lowBits (n : Nat) : Nat := Nat.log2 n - 52

def roundNat (n : Nat) : Nat := roundShift n (lowBits n) * 2 ^ lowBits n

def roundInt (i : Int) : Int := if 0 ≤ i then roundNat i.toNat else -roundNat (-i).toNat

/-- The bits of `n as f64`. -/
def ofNat64 (n : Nat) : UInt64 :=
  if n = 0 then 0
  else
    let r := roundNat n
    let e := Nat.log2 r
    UInt64.ofNat ((e + 1022) * 2 ^ 52 + r * 2 ^ 52 / 2 ^ e)

/-- Neither an infinity nor NaN. -/
def isFinite (bits : UInt64) : Bool := bits.toNat / 2 ^ 52 % 2 ^ 11 ≠ 2 ^ 11 - 1

example : ofNat64 (2 ^ 63) = 0x43e0000000000000 := by decide
example : ofNat64 (2 ^ 53 + 1) = 0x4340000000000000 := by decide

/-! ## Rounding keeps the order -/

theorem roundShift_eq (n s : Nat) :
    roundShift n s = if 2 ^ s < 2 * (n % 2 ^ s) ∨ 2 * (n % 2 ^ s) = 2 ^ s ∧ n / 2 ^ s % 2 = 1 then
      n / 2 ^ s + 1 else n / 2 ^ s := rfl

theorem div_le_roundShift (n s : Nat) : n / 2 ^ s ≤ roundShift n s := by
  rw [roundShift_eq]
  split <;> omega

theorem roundShift_le (n s : Nat) : roundShift n s ≤ n / 2 ^ s + 1 := by
  rw [roundShift_eq]
  split <;> omega

theorem roundShift_mono (s : Nat) {n m : Nat} (h : n ≤ m) : roundShift n s ≤ roundShift m s := by
  have hq : n / 2 ^ s ≤ m / 2 ^ s := Nat.div_le_div_right h
  rcases Nat.lt_or_eq_of_le hq with hlt | heq
  · exact (roundShift_le n s).trans (hlt.trans_le (div_le_roundShift m s))
  · -- the same quotient: the larger remainder is rounded up if the smaller is
    have hr : n % 2 ^ s ≤ m % 2 ^ s := by
      have hn := Nat.div_add_mod n (2 ^ s)
      have hm := Nat.div_add_mod m (2 ^ s)
      rw [heq] at hn
      omega
    rw [roundShift_eq, roundShift_eq, heq]
    split <;> split <;> omega

theorem roundNat_le_pow (n : Nat) : roundNat n ≤ 2 ^ (Nat.log2 n + 1) := by
  have hn : n < 2 ^ (Nat.log2 n + 1) := Nat.lt_log2_self
  by_cases hlow : Nat.log2 n ≤ 52
  · have hzero : lowBits n = 0 := by
      unfold lowBits
      omega
    have hround : roundShift n 0 ≤ n := by
      rw [roundShift_eq, Nat.pow_zero, Nat.div_one, Nat.mod_one]
      split <;> omega
    unfold roundNat
    rw [hzero, Nat.pow_zero, Nat.mul_one]
    omega
  · -- at most 2 ^ 53 times the unit of the last place
    have hexp : Nat.log2 n + 1 = 53 + lowBits n := by
      unfold lowBits
      omega
    have hq : n / 2 ^ lowBits n < 2 ^ 53 := by
      rw [Nat.div_lt_iff_lt_mul (Nat.two_pow_pos _), ← Nat.pow_add, ← hexp]
      exact hn
    have hround : roundShift n (lowBits n) ≤ 2 ^ 53 := (roundShift_le n _).trans hq
    unfold roundNat
    rw [hexp, Nat.pow_add]
    exact Nat.mul_le_mul_right _ hround

theorem pow_le_roundNat {n : Nat} (hn : n ≠ 0) : 2 ^ Nat.log2 n ≤ roundNat n := by
  have hle : 2 ^ Nat.log2 n ≤ n := Nat.log2_self_le hn
  by_cases hlow : Nat.log2 n ≤ 52
  · have hzero : lowBits n = 0 := by
      unfold lowBits
      omega
    have hround : n ≤ roundShift n 0 := by
      have := div_le_roundShift n 0
      rwa [Nat.pow_zero, Nat.div_one] at this
    unfold roundNat
    rw [hzero, Nat.pow_zero, Nat.mul_one]
    omega
  · have hexp : Nat.log2 n = 52 + lowBits n := by
      unfold lowBits
      omega
    have hq : 2 ^ 52 ≤ n / 2 ^ lowBits n := by
      rw [Nat.le_div_iff_mul_le (Nat.two_pow_pos _), ← Nat.pow_add, ← hexp]
      exact hle
    unfold roundNat
    calc 2 ^ Nat.log2 n = 2 ^ 52 * 2 ^ lowBits n := by rw [← Nat.pow_add, ← hexp]
      _ ≤ roundShift n (lowBits n) * 2 ^ lowBits n :=
          Nat.mul_le_mul_right _ (hq.trans (div_le_roundShift n _))

theorem roundNat_mono {n m : Nat} (h : n ≤ m) : roundNat n ≤ roundNat m := by
  by_cases hn : n = 0
  · rw [hn]
    exact Nat.zero_le _
  · have hlog : Nat.log2 n ≤ Nat.log2 m := by
      rw [Nat.log2_eq_log_two, Nat.log2_eq_log_two]
      exact Nat.log_mono_right h
    rcases Nat.lt_or_eq_of_le hlog with hlt | heq
    · -- a power of two lies between
      calc roundNat n ≤ 2 ^ (Nat.log2 n + 1) := roundNat_le_pow n
        _ ≤ 2 ^ Nat.log2 m := Nat.pow_le_pow_right (by decide) hlt
        _ ≤ roundNat m := pow_le_roundNat (by omega)
    · have hlow : lowBits n = lowBits m := by rw [lowBits, lowBits, heq]
      unfold roundNat
      rw [hlow]
      exact Nat.mul_le_mul_right _ (roundShift_mono _ h)

theorem roundInt_mono {i j : Int} (h : i ≤ j) : roundInt i ≤ roundInt j := by
  unfold roundInt
  split <;> split
  · exact Int.ofNat_le.mpr (roundNat_mono (by omega))
  · omega
  · omega
  · exact Int.neg_le_neg (Int.ofNat_le.mpr (roundNat_mono (by omega)))

end Seiran.Binary64
