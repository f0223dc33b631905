import Mathlib.Algebra.Order.Ring.Int
import Mathlib.Data.Nat.Notation

set_option autoImplicit false

/-! # Integers among the binary64 numbers

The values of the format that are integers, and the nearest one to a given integer. A significand
has 53 bits, so that every integer up to `2 ^ 53` is a value, and beyond that only some are. -/

namespace Binary64

/-- The distance between the values around `n`, as far as they are integers. -/
def ulp (n : ℕ) : ℕ := 2 ^ (n.log2 - 52)

/-- The value that is nearest to `n`; half way between two it is the one whose significand is
even. -/
def roundNat (n : ℕ) : ℕ :=
  let m := n / ulp n
  let r := n % ulp n
  if ulp n < 2 * r ∨ (2 * r = ulp n ∧ m % 2 = 1) then (m + 1) * ulp n else m * ulp n

/-- The value nearest to `n`, or `none` if that is an infinity. -/
def round (n : ℤ) : Option ℤ :=
  if (roundNat n.natAbs).log2 < 1024 then some (n.sign * roundNat n.natAbs) else none

section Exact

variable {n : ℕ}

theorem ulp_of_lt (h : n < 2 ^ 53) : ulp n = 1 := by
  have hlog : n.log2 - 52 = 0 := by
    by_cases hzero : n = 0
    · simp [hzero]
    · have hlt := (Nat.log2_lt hzero).mpr h
      omega
  rw [ulp, hlog, pow_zero]

/-- Up to `2 ^ 53` every natural number is a value. -/
theorem roundNat_of_le (h : n ≤ 2 ^ 53) : roundNat n = n := by
  rcases Nat.lt_or_eq_of_le h with hlt | rfl
  · unfold roundNat
    simp only [ulp_of_lt hlt, Nat.div_one, Nat.mod_one, Nat.mul_one]
    rw [if_neg (by omega)]
  · decide +kernel

/-- So is every integer. -/
theorem round_of_le {a : ℤ} (hlow : -2 ^ 53 ≤ a) (hhigh : a ≤ 2 ^ 53) : round a = some a := by
  have habs : a.natAbs ≤ 2 ^ 53 := by omega
  have hlog : a.natAbs.log2 < 1024 := by
    by_cases hzero : a.natAbs = 0
    · rw [hzero]
      decide
    · have hlt := (Nat.log2_lt hzero).mpr (show a.natAbs < 2 ^ 54 by omega)
      omega
  unfold round
  rw [roundNat_of_le habs, if_pos hlog, Int.sign_mul_natAbs]

end Exact

/-- Half way between two values the even significand wins. -/
example : round 9007199254740993 = some 9007199254740992 ∧
    round 9007199254740995 = some 9007199254740996 := by decide +kernel

end Binary64
