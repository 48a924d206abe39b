/-
# Whole numbers in double precision

A `Double` holds 53 binary digits. A whole number with more of them is rounded to the
nearest one that has no more, and to the one whose last digit is even if two are as near.
Numbers up to 2^53 are held as they are.
-/

import Mathlib.Data.Nat.Log
import Mathlib.Tactic.Ring

namespace Otoroshi

/-- The last place of a number that is rounded to 53 binary digits. -/
def lastPlace (n : Nat) : Nat := 2 ^ (Nat.log2 n - 52)

/-- The nearest multiple of a place, and the even one of two. -/
def roundToPlace (place n : Nat) : Nat :=
  let quotient := n / place
  let rest := n % place
  if 2 * rest < place then quotient * place
  else if place < 2 * rest then (quotient + 1) * place
  else (quotient + quotient % 2) * place

/-- A whole number as a `Double`. -/
def toDouble (n : Int) : Int := n.sign * roundToPlace (lastPlace n.natAbs) n.natAbs

theorem lastPlace_of_lt {n : Nat} (h : n < 2 ^ 53) : lastPlace n = 1 := by
  have hlog : Nat.log2 n < 53 := by
    by_cases hzero : n = 0
    · subst hzero
      decide
    · exact (Nat.log2_lt hzero).mpr h
  have hplace : Nat.log2 n - 52 = 0 := by
    omega
  rw [lastPlace, hplace, pow_zero]

theorem roundToPlace_one (n : Nat) : roundToPlace 1 n = n := by
  rw [roundToPlace, Nat.mod_one, if_pos (by decide), Nat.div_one, Nat.mul_one]

/-- Numbers up to 2^53 are held as they are. -/
theorem toDouble_of_le {n : Int} (hlow : -2 ^ 53 ≤ n) (hhigh : n ≤ 2 ^ 53) : toDouble n = n := by
  have hround : roundToPlace (lastPlace n.natAbs) n.natAbs = n.natAbs := by
    by_cases hlt : n.natAbs < 2 ^ 53
    · rw [lastPlace_of_lt hlt, roundToPlace_one]
    · have hbound : n.natAbs = 2 ^ 53 := by
        omega
      rw [hbound]
      rfl
  rw [toDouble, hround, Int.sign_mul_natAbs]

theorem toDouble_nonneg {n : Int} (h : 0 ≤ n) : 0 ≤ toDouble n :=
  Int.mul_nonneg (Int.sign_nonneg_iff.mpr h) (Int.natCast_nonneg _)

/-- The next number is not held. -/
example : toDouble (2 ^ 53 + 1) = 2 ^ 53 := by
  decide

end Otoroshi
