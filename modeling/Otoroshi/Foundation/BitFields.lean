/-
# Fields of a word

Numbers are packed into one word of bits by shifting each to its place and taking all of them
together. A field that fits its place is read back by a shift and a mask. The highest field has
a sign, and is read back if it fits what is left of the word.
-/

import Mathlib.Algebra.Ring.Nat
import Mathlib.Tactic.LinearCombination

namespace Otoroshi

namespace BitFields

variable {w l m : Nat} {high middle low x : BitVec w}

/-- Two fields next to each other. -/
theorem toNat_shiftLeft_or (hlow : low.toNat < 2 ^ l) (hl : l ≤ w) :
    (high <<< l ||| low).toNat = high.toNat % 2 ^ (w - l) * 2 ^ l + low.toNat := by
  have hword : 2 ^ w = 2 ^ (w - l) * 2 ^ l := by
    rw [← Nat.pow_add, Nat.sub_add_cancel hl]
  rw [BitVec.toNat_or, BitVec.toNat_shiftLeft, Nat.shiftLeft_eq, hword, Nat.mul_mod_mul_right,
    ← Nat.shiftLeft_eq, ← Nat.shiftLeft_add_eq_or_of_lt hlow]

/-- A mask of ones reads the lowest field. -/
theorem toNat_and_ones (x : BitVec w) (hl : l ≤ w) :
    (x &&& BitVec.ofNat w (2 ^ l - 1)).toNat = x.toNat % 2 ^ l := by
  have hones : (2 ^ l - 1) % 2 ^ w = 2 ^ l - 1 := by
    have hle : 2 ^ l ≤ 2 ^ w := Nat.pow_le_pow_right (by decide) hl
    have hpos : 0 < 2 ^ l := Nat.pow_pos (by decide)
    exact Nat.mod_eq_of_lt (by omega)
  rw [BitVec.toNat_and, BitVec.toNat_ofNat, hones, Nat.and_two_pow_sub_one_eq_mod]

/-- The lowest field of two. -/
theorem and_ones_of_shiftLeft_or (hlow : low.toNat < 2 ^ l) (hl : l ≤ w) :
    (high <<< l ||| low) &&& BitVec.ofNat w (2 ^ l - 1) = low := by
  apply BitVec.eq_of_toNat_eq
  rw [toNat_and_ones _ hl, toNat_shiftLeft_or hlow hl, Nat.mul_add_mod',
    Nat.mod_eq_of_lt hlow]

/-- The other field of two, without a sign. -/
theorem toNat_ushiftRight_of_shiftLeft_or (hlow : low.toNat < 2 ^ l) (hl : l ≤ w) :
    ((high <<< l ||| low) >>> l).toNat = high.toNat % 2 ^ (w - l) := by
  rw [BitVec.toNat_ushiftRight, toNat_shiftLeft_or hlow hl, Nat.shiftRight_eq_div_pow,
    Nat.mul_comm, Nat.mul_add_div (Nat.pow_pos (by decide)), Nat.div_eq_of_lt hlow, Nat.add_zero]

/-- The word with a sign is the highest field, as far as it fits, and the lowest one. -/
theorem toInt_shiftLeft_or (hlow : low.toNat < 2 ^ l) (hl : l < w) :
    (high <<< l ||| low).toInt =
      high.toInt.bmod (2 ^ (w - l)) * (2 ^ l : Nat) + low.toNat := by
  obtain ⟨half, hhalf⟩ : ∃ half, half = 2 ^ (w - l - 1) := ⟨_, rfl⟩
  have hrange : 2 ^ (w - l) = 2 * half := by
    rw [hhalf, ← Nat.pow_succ']
    congr 1
    omega
  have hword : 2 ^ w = 2 * half * 2 ^ l := by
    rw [← hrange, ← Nat.pow_add, Nat.sub_add_cancel (Nat.le_of_lt hl)]
  have hpos : 0 < half := hhalf ▸ Nat.pow_pos (by decide)
  have hsize : 0 < 2 ^ l := Nat.pow_pos (by decide)
  have hsign : ((2 ^ w : Nat) : Int) ∣ high.toInt - high.toNat := by
    rw [BitVec.toInt_eq_toNat_bmod]
    exact Int.dvd_bmod_sub_self
  rw [BitVec.toInt_eq_toNat_bmod, toNat_shiftLeft_or hlow (Nat.le_of_lt hl), hrange, hword]
  rw [hword] at hsign
  generalize 2 ^ l = size at *
  obtain ⟨top, htop⟩ : ∃ top, top = high.toInt.bmod (2 * half) := ⟨_, rfl⟩
  have hbelow : -(half : Int) ≤ top := by
    have hle := Int.le_bmod (x := high.toInt) (m := 2 * half) (by omega)
    omega
  have habove : top + 1 ≤ half := by
    have hlt := Int.bmod_lt (x := high.toInt) (m := 2 * half) (by omega)
    omega
  have hsame : ((2 * half : Nat) : Int) ∣ top - (high.toNat % (2 * half) : Nat) := by
    obtain ⟨i, hi⟩ : ((2 * half : Nat) : Int) ∣ top - high.toInt := htop ▸ Int.dvd_bmod_sub_self
    obtain ⟨j, hj⟩ := hsign
    have hmod := Nat.div_add_mod high.toNat (2 * half)
    refine ⟨i + size * j + (high.toNat / (2 * half) : Nat), ?_⟩
    have hcast : (high.toNat : Int) = (2 * half : Nat) * (high.toNat / (2 * half) : Nat) +
        (high.toNat % (2 * half) : Nat) := by
      rw [← Int.natCast_mul, ← Int.natCast_add, hmod]
    push_cast at hi hj hcast ⊢
    linear_combination hi + hj + hcast
  rw [← htop, Int.bmod_eq_iff (Nat.mul_pos (by omega) hsize)]
  have hlow' := Int.mul_le_mul_of_nonneg_right hbelow (Int.natCast_nonneg size)
  have hhigh' := Int.mul_le_mul_of_nonneg_right habove (Int.natCast_nonneg size)
  have hmiddle : ((2 * half * size : Nat) : Int) = 2 * (half * size) := by
    push_cast
    rw [Int.mul_assoc]
  rw [Int.neg_mul] at hlow'
  rw [Int.add_mul, Int.one_mul] at hhigh'
  refine ⟨?_, ?_, ?_⟩
  · omega
  · omega
  · obtain ⟨k, hk⟩ := hsame
    refine ⟨k, ?_⟩
    push_cast at hk ⊢
    linear_combination (size : Int) * hk

/-- The highest field is read back with its sign, if it fits. -/
theorem sshiftRight_of_shiftLeft_or_eq_iff (hlow : low.toNat < 2 ^ l) (hl : l < w) :
    (high <<< l ||| low).sshiftRight l = high ↔
      -2 ^ (w - l - 1) ≤ high.toInt ∧ high.toInt < 2 ^ (w - l - 1) := by
  have hread : ((high <<< l ||| low).sshiftRight l).toInt = high.toInt.bmod (2 ^ (w - l)) := by
    have hpos : (0 : Int) < (2 ^ l : Nat) := Int.natCast_pos.mpr (Nat.pow_pos (by decide))
    have hzero : (low.toNat : Int) / (2 ^ l : Nat) = 0 :=
      Int.ediv_eq_zero_of_lt (Int.natCast_nonneg _) (Int.ofNat_lt.mpr hlow)
    rw [BitVec.toInt_sshiftRight, Int.shiftRight_eq_div_pow, toInt_shiftLeft_or hlow hl,
      Int.add_comm, Int.add_mul_ediv_right _ _ (Int.ne_of_gt hpos), hzero, Int.zero_add]
  have hrange : 2 ^ (w - l) = 2 * 2 ^ (w - l - 1) := by
    rw [← Nat.pow_succ']
    congr 1
    omega
  rw [← BitVec.toInt_inj, hread, hrange,
    Int.bmod_eq_iff (Nat.mul_pos (by decide) (Nat.pow_pos (by decide)))]
  have hcast : ((2 ^ (w - l - 1) : Nat) : Int) = 2 ^ (w - l - 1) := by push_cast; rfl
  rw [← hcast, Int.sub_self]
  refine ⟨fun h => ?_, fun h => ?_⟩
  · omega
  · refine ⟨by omega, by omega, Int.dvd_zero _⟩

end BitFields

end Otoroshi
