/-
# Sixty-four bit arithmetic read as integer arithmetic

Sums and differences of 64-bit integers are the exact ones as long as they fit,
a quotient by a small positive constant always fits, an arithmetic shift is a
division by a power of two, and masking with `2 ^ k - 1` is the remainder modulo
`2 ^ k`, for negative numbers too.
-/

import Mathlib.Data.Int.Order.Basic
import Mathlib.Algebra.Order.Ring.Int
import Mathlib.Tactic.Positivity
import Mathlib.Tactic.Zify

namespace Gokit.Math

variable {a b m : Int64}

theorem toInt_bmod_of_fits {n : Int} (hlow : -2 ^ 63 ≤ n) (hhigh : n < 2 ^ 63) :
    n.bmod (2 ^ 64) = n :=
  Int.bmod_eq_of_le (by norm_num at *; omega) (by norm_num at *; omega)

theorem toInt_add_of_fits (hlow : -2 ^ 63 ≤ a.toInt + b.toInt)
    (hhigh : a.toInt + b.toInt < 2 ^ 63) : (a + b).toInt = a.toInt + b.toInt := by
  rw [Int64.toInt_add, toInt_bmod_of_fits hlow hhigh]

theorem toInt_sub_of_fits (hlow : -2 ^ 63 ≤ a.toInt - b.toInt)
    (hhigh : a.toInt - b.toInt < 2 ^ 63) : (a - b).toInt = a.toInt - b.toInt := by
  rw [Int64.toInt_sub, toInt_bmod_of_fits hlow hhigh]

theorem toInt_mul_of_fits (hlow : -2 ^ 63 ≤ a.toInt * b.toInt)
    (hhigh : a.toInt * b.toInt < 2 ^ 63) : (a * b).toInt = a.toInt * b.toInt := by
  rw [Int64.toInt_mul, toInt_bmod_of_fits hlow hhigh]

/-- A number is taken to 64 bits by adding a multiple of `2 ^ 64`. -/
theorem exists_toInt_ofInt (n : Int) : ∃ k, (Int64.ofInt n).toInt = n + 2 ^ 64 * k := by
  refine ⟨-(n.bdiv (2 ^ 64)), ?_⟩
  rw [Int64.toInt_ofInt, show Int64.size = 2 ^ 64 from rfl, Int.bmod_eq_self_sub_mul_bdiv]
  push_cast
  omega

/-- Division truncates toward zero, and by a positive number cannot overflow. -/
theorem toInt_div_of_pos (hb : 0 < b.toInt) : (a / b).toInt = a.toInt.tdiv b.toInt := by
  have hlow := a.le_toInt
  have hhigh := a.toInt_lt
  have habs : (a.toInt.tdiv b.toInt).natAbs ≤ a.toInt.natAbs := by
    rw [Int.natAbs_tdiv]
    exact Nat.div_le_self _ _
  rw [Int64.toInt_div]
  rcases Int.lt_or_le a.toInt 0 with hneg | hnonneg
  · have hsign : a.toInt.tdiv b.toInt ≤ 0 := by
      have hopposite := Int.tdiv_nonneg (a := -a.toInt) (by omega) hb.le
      rw [Int.neg_tdiv] at hopposite
      omega
    exact toInt_bmod_of_fits (by omega) (by omega)
  · have hsign : 0 ≤ a.toInt.tdiv b.toInt := Int.tdiv_nonneg hnonneg hb.le
    exact toInt_bmod_of_fits (by omega) (by omega)

/-- The bits of a 64-bit integer, as a natural number. -/
theorem toNat_toBitVec (a : Int64) : (a.toBitVec.toNat : Int) = a.toInt % 2 ^ 64 := by
  have hnonneg : 0 ≤ a.toInt % 2 ^ 64 := Int.emod_nonneg _ (by norm_num)
  rw [← BitVec.ofInt_toInt (x := a.toBitVec), Int64.toInt_toBitVec, BitVec.toNat_ofInt]
  exact Int.toNat_of_nonneg hnonneg

/-- Masking with `2 ^ k - 1`. -/
theorem toInt_and_mask {k : Nat} (hk : k < 63) (hm : m.toInt = 2 ^ k - 1) :
    (a &&& m).toInt = a.toInt % 2 ^ k := by
  have hpow : (2 : Int) ^ k < 2 ^ 63 := pow_lt_pow_right₀ (by norm_num) hk
  have hpos : (0 : Int) < 2 ^ k := by positivity
  have hmask : m.toBitVec.toNat = 2 ^ k - 1 := by
    have hnat := toNat_toBitVec m
    rw [hm, Int.emod_eq_of_lt (by omega) (by omega)] at hnat
    have hone : 1 ≤ 2 ^ k := Nat.one_le_two_pow
    zify [hone]
    exact hnat
  have hdvd : (2 : Int) ^ k ∣ 2 ^ 64 := pow_dvd_pow 2 (by omega)
  have hrem : ((a.toBitVec.toNat % 2 ^ k : Nat) : Int) = a.toInt % 2 ^ k := by
    push_cast
    rw [toNat_toBitVec, Int.emod_emod_of_dvd _ hdvd]
  have hlow : 0 ≤ a.toInt % 2 ^ k := Int.emod_nonneg _ hpos.ne'
  have hhigh : a.toInt % 2 ^ k < 2 ^ k := Int.emod_lt_of_pos _ hpos
  rw [← Int64.toInt_toBitVec, Int64.toBitVec_and, BitVec.toInt_and, hmask,
    Nat.and_two_pow_sub_one_eq_mod, hrem]
  exact toInt_bmod_of_fits (by omega) (by omega)

theorem toInt_shiftRight {k : Nat} (hk : k < 64) (hb : b.toInt = k) :
    (a >>> b).toInt = a.toInt / 2 ^ k := by
  have hshift : (b.toBitVec.smod 64).toNat = k := by
    have hsmod : (b.toBitVec.smod 64).toInt = k := by
      rw [BitVec.toInt_smod, Int64.toInt_toBitVec, hb]
      exact Int.fmod_eq_of_lt (by omega) (by simpa using hk)
    have hnat := toNat_toBitVec (Int64.ofBitVec (b.toBitVec.smod 64))
    rw [← Int64.toInt_toBitVec, Int64.toBitVec_ofBitVec, hsmod,
      Int.emod_eq_of_lt (by omega) (by omega)] at hnat
    exact_mod_cast hnat
  rw [← Int64.toInt_toBitVec, Int64.toBitVec_shiftRight, BitVec.sshiftRight_eq', hshift,
    BitVec.toInt_sshiftRight, Int.shiftRight_eq_div_pow, Int64.toInt_toBitVec]
  norm_cast

end Gokit.Math
