/-
# Periodic instants

The instants of a schedule that recurs with a fixed period are those of one residue
class.  Around every moment there is a last one and a next one, a period apart, and both
are found from the time that has elapsed since the last one.
-/

import Mathlib.Order.Bounds.Basic
import Mathlib.Algebra.Order.Ring.Int
import Mathlib.Algebra.Group.Basic

namespace Gokit.Math

/-- The instant belongs to the schedule with the given period and phase. -/
def Occurs (period phase instant : Int) : Prop := (instant - phase) % period = 0

/-- The time since the last instant of the schedule. -/
def elapsed (period phase now : Int) : Int := (now - phase) % period

section Schedule

variable {period : Int} (hperiod : 0 < period)
include hperiod

/-- Two instants of one schedule that are less than a period apart are the same. -/
theorem Occurs.eq_of_lt {phase a b : Int} (ha : Occurs period phase a)
    (hb : Occurs period phase b) (hlow : b - a < period) (hhigh : a - b < period) : a = b := by
  obtain ⟨i, hi⟩ := Int.dvd_of_emod_eq_zero ha
  obtain ⟨j, hj⟩ := Int.dvd_of_emod_eq_zero hb
  have hdiff : a - b = period * (i - j) := by
    rw [Int.mul_sub]
    omega
  have hsame : i - j = 0 := by
    rcases Int.lt_trichotomy (i - j) 0 with hneg | hzero | hpos
    · have : period * (i - j) ≤ period * (-1) := Int.mul_le_mul_of_nonneg_left (by omega) hperiod.le
      omega
    · exact hzero
    · have : period * 1 ≤ period * (i - j) := Int.mul_le_mul_of_nonneg_left (by omega) hperiod.le
      omega
  rw [hsame, Int.mul_zero] at hdiff
  omega

variable (phase now : Int)

theorem elapsed_nonneg : 0 ≤ elapsed period phase now := Int.emod_nonneg _ (Int.ne_of_gt hperiod)

theorem elapsed_lt : elapsed period phase now < period := Int.emod_lt_of_pos _ hperiod

omit hperiod in
theorem occurs_sub_elapsed : Occurs period phase (now - elapsed period phase now) := by
  unfold Occurs elapsed
  rw [sub_right_comm]
  exact Int.emod_eq_zero_of_dvd Int.dvd_self_sub_emod

omit hperiod in
theorem occurs_sub_elapsed_add : Occurs period phase (now - elapsed period phase now + period) := by
  have hlast : Occurs period phase _ := occurs_sub_elapsed phase now
  unfold Occurs at hlast ⊢
  rw [add_sub_right_comm, Int.add_emod_right, hlast]

/-- **The last instant.** -/
theorem isGreatest_sub_elapsed :
    IsGreatest {t | t ≤ now ∧ Occurs period phase t} (now - elapsed period phase now) := by
  have hlow := elapsed_nonneg hperiod phase now
  have hhigh := elapsed_lt hperiod phase now
  have hlast : Occurs period phase _ := occurs_sub_elapsed phase now
  refine ⟨⟨by omega, hlast⟩, fun t ht => ?_⟩
  by_contra hlater
  have heq := Occurs.eq_of_lt hperiod ht.2 hlast (by omega) (by have := ht.1; omega)
  omega

/-- **The next instant**, a period later. -/
theorem isLeast_sub_elapsed_add :
    IsLeast {t | now < t ∧ Occurs period phase t} (now - elapsed period phase now + period) := by
  have hlow := elapsed_nonneg hperiod phase now
  have hhigh := elapsed_lt hperiod phase now
  have hnext : Occurs period phase _ := occurs_sub_elapsed_add phase now
  refine ⟨⟨by omega, hnext⟩, fun t ht => ?_⟩
  by_contra hearlier
  have heq := Occurs.eq_of_lt hperiod ht.2 hnext (by have := ht.1; omega) (by omega)
  omega

/-- An instant has come by a later moment exactly if the next one has. -/
theorem exists_occurs_iff (after : Int) :
    (∃ t, now < t ∧ t ≤ after ∧ Occurs period phase t) ↔
      now - elapsed period phase now + period ≤ after := by
  have hleast := isLeast_sub_elapsed_add hperiod phase now
  constructor
  · rintro ⟨t, hlater, hcome, hoccurs⟩
    exact Int.le_trans (hleast.2 ⟨hlater, hoccurs⟩) hcome
  · intro hcome
    exact ⟨_, hleast.1.1, hcome, hleast.1.2⟩

end Schedule

end Gokit.Math
