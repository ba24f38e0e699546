/-
# Daily and weekly resets

A game resets at a fixed local hour, every day or on one day of the week.  Local time is
the Unix time in milliseconds plus a configured offset, the first of January 1970 was a
Thursday, and everything is 64-bit arithmetic whose remainders have the sign of the
dividend.

The daily functions find the reset instants around a moment, and the one that compares
two quotients agrees with them.  The weekly functions take the difference between the
day of the reset and the current one; Sunday may be given as 0 or as 7.  Given as 7 it
lies a week ahead when it is Sunday already, and on that day, before the hour of the
reset, the reset of the day itself is missed.
-/

import Gokit.Math.MachineInt
import Gokit.Math.Periodic

namespace Gokit.Util

open Gokit.Math

def secMs : Int64 := 1000
def minMs : Int64 := 60 * secMs
def hourMs : Int64 := 60 * minMs
def dayMs : Int64 := 24 * hourMs
def weekMs : Int64 := 7 * dayMs

/-! ## The functions -/

section Functions

variable (timezoneOffset : Int64)

/-- The day of the week, Sunday is 0. -/
def getWeekday (nowMs : Int64) : Int64 :=
  let ws := (nowMs + timezoneOffset) % weekMs
  let d := ws / dayMs
  (d + 4) % 7

def isNewDayReset (before after resetHour : Int64) : Bool :=
  let before := before + timezoneOffset
  let after := after + timezoneOffset
  (before - resetHour * hourMs) / dayMs != (after - resetHour * hourMs) / dayMs

def getNextDayResetTime (nowMs resetHour : Int64) : Int64 :=
  let thisDayResetTime := nowMs - (nowMs + timezoneOffset) % dayMs + resetHour * hourMs
  if thisDayResetTime > nowMs then thisDayResetTime else thisDayResetTime + dayMs

def getLastResetTime (nowMs resetHour : Int64) : Int64 :=
  getNextDayResetTime timezoneOffset nowMs resetHour - dayMs

def getNextWeekResetTime (nowMs resetHour resetWeekDay : Int64) : Int64 :=
  let nowWeekDay := getWeekday timezoneOffset nowMs
  let diff := (resetWeekDay - nowWeekDay) * dayMs
  let thisWeekResetTime := nowMs - (nowMs + timezoneOffset) % dayMs + diff + resetHour * hourMs
  if thisWeekResetTime > nowMs then thisWeekResetTime else thisWeekResetTime + weekMs

def getLastWeekResetTime (nowMs resetHour resetWeekDay : Int64) : Int64 :=
  getNextWeekResetTime timezoneOffset nowMs resetHour resetWeekDay - weekMs

def isWeekReset (before after resetHour resetWeekDay : Int64) : Bool :=
  decide (after ≥ getNextWeekResetTime timezoneOffset before resetHour resetWeekDay)

end Functions

/-! ## The instants of a reset -/

/-- The day of the week at a local time, Sunday is 0. -/
def localWeekday (localMs : Int) : Int := (localMs / 86400000 + 4) % 7

/-- The local time of the instant is `resetHour:00`. -/
def AtHour (offset resetHour instant : Int) : Prop :=
  (instant + offset) % 86400000 = resetHour * 3600000

/-- The local time of the instant is `resetHour:00`, on the day of the week. -/
def AtWeekHour (offset resetHour resetWeekDay instant : Int) : Prop :=
  localWeekday (instant + offset) = resetWeekDay % 7 ∧ AtHour offset resetHour instant

theorem atHour_iff {resetHour : Int} (hlow : 0 ≤ resetHour) (hhigh : resetHour ≤ 23)
    (offset instant : Int) :
    AtHour offset resetHour instant ↔
      Occurs 86400000 (resetHour * 3600000 - offset) instant := by
  unfold AtHour Occurs
  omega

/-- The phase of a weekly reset; the week begins on a Thursday. -/
def weekPhase (offset resetHour resetWeekDay : Int) : Int :=
  (resetWeekDay + 3) % 7 * 86400000 + resetHour * 3600000 - offset

theorem atWeekHour_iff {resetHour : Int} (hlow : 0 ≤ resetHour) (hhigh : resetHour ≤ 23)
    (offset resetWeekDay instant : Int) :
    AtWeekHour offset resetHour resetWeekDay instant ↔
      Occurs 604800000 (weekPhase offset resetHour resetWeekDay) instant := by
  unfold AtWeekHour AtHour localWeekday Occurs weekPhase
  omega

/-! ## The computation, in the integers -/

theorem toInt_dayMs : dayMs.toInt = 86400000 := by decide

theorem toInt_weekMs : weekMs.toInt = 604800000 := by decide

theorem ofInt_dayMs : Int64.ofInt 86400000 = dayMs := by decide

theorem ofInt_weekMs : Int64.ofInt 604800000 = weekMs := by decide

/-- The remainder of a local time that is not negative. -/
theorem toInt_emod_dayMs {a : Int64} (ha : 0 ≤ a.toInt) :
    (a % dayMs).toInt = a.toInt % 86400000 := by
  rw [Int64.toInt_mod, toInt_dayMs, Int.tmod_eq_emod_of_nonneg ha]

theorem toInt_ediv_dayMs {a : Int64} (ha : 0 ≤ a.toInt) :
    (a / dayMs).toInt = a.toInt / 86400000 := by
  rw [toInt_div_of_pos (by decide), toInt_dayMs, Int.tdiv_eq_ediv_of_nonneg ha]

/-- Hours are exact. -/
theorem toInt_mul_hourMs {resetHour : Int64} (hlow : 0 ≤ resetHour.toInt)
    (hhigh : resetHour.toInt ≤ 23) : (resetHour * hourMs).toInt = resetHour.toInt * 3600000 := by
  have hhour : hourMs.toInt = 3600000 := by decide
  rw [toInt_mul_of_fits (by rw [hhour]; omega) (by rw [hhour]; omega), hhour]

/-! ## Daily resets -/

/-- The reset of the local day. -/
def thisDayReset (offset nowMs resetHour : Int) : Int :=
  nowMs - (nowMs + offset) % 86400000 + resetHour * 3600000

/-- Nothing overflows on the way to the next reset. -/
structure NextDayFits (offset nowMs resetHour : Int) : Prop where
  sum : nowMs + offset < 2 ^ 63
  low : -2 ^ 63 ≤ thisDayReset offset nowMs resetHour
  high : thisDayReset offset nowMs resetHour < 2 ^ 63
  next : thisDayReset offset nowMs resetHour ≤ nowMs →
    thisDayReset offset nowMs resetHour + 86400000 < 2 ^ 63

section Daily

variable {timezoneOffset nowMs resetHour : Int64} (hlow : 0 ≤ resetHour.toInt)
  (hhigh : resetHour.toInt ≤ 23) (hlocal : 0 ≤ nowMs.toInt + timezoneOffset.toInt)
  (hfits : NextDayFits timezoneOffset.toInt nowMs.toInt resetHour.toInt)
include hlow hhigh hlocal hfits

/-- The next reset is a day after the last one. -/
theorem toInt_getNextDayResetTime :
    (getNextDayResetTime timezoneOffset nowMs resetHour).toInt =
      nowMs.toInt - elapsed 86400000 (resetHour.toInt * 3600000 - timezoneOffset.toInt)
        nowMs.toInt + 86400000 := by
  obtain ⟨hsum, hbelow, habove, hnext⟩ := hfits
  have hnow := nowMs.le_toInt
  have hnow' := nowMs.toInt_lt
  have hlocalMs : (nowMs + timezoneOffset).toInt = nowMs.toInt + timezoneOffset.toInt :=
    toInt_add_of_fits (by omega) hsum
  have hrem := toInt_emod_dayMs (hlocalMs ▸ hlocal)
  rw [hlocalMs] at hrem
  have hreset : nowMs - (nowMs + timezoneOffset) % dayMs + resetHour * hourMs =
      Int64.ofInt (thisDayReset timezoneOffset.toInt nowMs.toInt resetHour.toInt) := by
    unfold thisDayReset
    rw [Int64.ofInt_add, Int64.ofInt_sub, Int64.ofInt_toInt, ← hrem, Int64.ofInt_toInt,
      ← toInt_mul_hourMs hlow hhigh, Int64.ofInt_toInt]
  have hthis := Int64.toInt_ofInt_of_le hbelow habove
  unfold getNextDayResetTime
  rw [hreset]
  generalize hday : thisDayReset timezoneOffset.toInt nowMs.toInt resetHour.toInt = day at *
  unfold thisDayReset at hday
  unfold elapsed
  simp only [gt_iff_lt, Int64.lt_iff_toInt_lt, hthis]
  split
  · omega
  · rw [toInt_add_of_fits (by rw [hthis, toInt_dayMs]; omega) (by rw [hthis, toInt_dayMs]; omega),
      hthis, toInt_dayMs]
    omega

end Daily

/-- **The comparison of quotients** finds out whether the next reset has come. -/
theorem isNewDayReset_iff {timezoneOffset before after resetHour : Int64}
    (hlow : 0 ≤ resetHour.toInt) (hhigh : resetHour.toInt ≤ 23) (hle : before ≤ after)
    (hlocal : resetHour.toInt * 3600000 ≤ before.toInt + timezoneOffset.toInt)
    (hsum : after.toInt + timezoneOffset.toInt < 2 ^ 63) :
    isNewDayReset timezoneOffset before after resetHour = true ↔
      before.toInt - elapsed 86400000 (resetHour.toInt * 3600000 - timezoneOffset.toInt)
        before.toInt + 86400000 ≤ after.toInt := by
  have horder : before.toInt ≤ after.toInt := Int64.le_iff_toInt_le.mp hle
  have hhours := toInt_mul_hourMs hlow hhigh
  have hquotient : ∀ t : Int64, resetHour.toInt * 3600000 ≤ t.toInt + timezoneOffset.toInt →
      t.toInt + timezoneOffset.toInt < 2 ^ 63 →
      ((t + timezoneOffset - resetHour * hourMs) / dayMs).toInt =
        (t.toInt + timezoneOffset.toInt - resetHour.toInt * 3600000) / 86400000 := by
    intro t hbelow habove
    have hlocalMs : (t + timezoneOffset).toInt = t.toInt + timezoneOffset.toInt :=
      toInt_add_of_fits (by omega) habove
    have hdiff : (t + timezoneOffset - resetHour * hourMs).toInt =
        t.toInt + timezoneOffset.toInt - resetHour.toInt * 3600000 := by
      rw [toInt_sub_of_fits] <;> rw [hlocalMs, hhours] <;> omega
    rw [toInt_ediv_dayMs (by rw [hdiff]; omega), hdiff]
  unfold isNewDayReset elapsed
  simp only [bne_iff_ne, ne_eq, ← Int64.toInt_inj]
  rw [hquotient before hlocal (by omega), hquotient after (by omega) hsum]
  omega

/-- **The daily reset functions agree.** For every offset and hour, the next reset time is the
first instant after a moment whose local time is the hour, the last one the last such
instant not after it, and a day has been reset between two moments exactly if the second is
not before the next reset of the first. -/
theorem dayResets_agree (timezoneOffset resetHour : Int64) (hlow : 0 ≤ resetHour.toInt)
    (hhigh : resetHour.toInt ≤ 23) :
    (∀ nowMs : Int64, 0 ≤ nowMs.toInt + timezoneOffset.toInt →
      NextDayFits timezoneOffset.toInt nowMs.toInt resetHour.toInt →
      IsLeast {t | nowMs.toInt < t ∧ AtHour timezoneOffset.toInt resetHour.toInt t}
        (getNextDayResetTime timezoneOffset nowMs resetHour).toInt ∧
      (-2 ^ 63 ≤ (getNextDayResetTime timezoneOffset nowMs resetHour).toInt - 86400000 →
        IsGreatest {t | t ≤ nowMs.toInt ∧ AtHour timezoneOffset.toInt resetHour.toInt t}
          (getLastResetTime timezoneOffset nowMs resetHour).toInt)) ∧
    ∀ before after : Int64, before ≤ after →
      resetHour.toInt * 3600000 ≤ before.toInt + timezoneOffset.toInt →
      after.toInt + timezoneOffset.toInt < 2 ^ 63 →
      NextDayFits timezoneOffset.toInt before.toInt resetHour.toInt →
      (isNewDayReset timezoneOffset before after resetHour = true ↔
        after ≥ getNextDayResetTime timezoneOffset before resetHour) := by
  constructor
  · intro nowMs hlocal hfits
    have hnext := toInt_getNextDayResetTime hlow hhigh hlocal hfits
    simp only [atHour_iff hlow hhigh]
    refine ⟨?_, fun hlast => ?_⟩
    · rw [hnext]
      exact isLeast_sub_elapsed_add (by decide) _ _
    · have hsub : (getLastResetTime timezoneOffset nowMs resetHour).toInt =
          nowMs.toInt - elapsed 86400000 (resetHour.toInt * 3600000 - timezoneOffset.toInt)
            nowMs.toInt := by
        have hbound := (getNextDayResetTime timezoneOffset nowMs resetHour).toInt_lt
        unfold getLastResetTime
        rw [toInt_sub_of_fits] <;> rw [toInt_dayMs] <;> omega
      rw [hsub]
      exact isGreatest_sub_elapsed (by decide) _ _
  · intro before after hle hlocal hsum hfits
    rw [isNewDayReset_iff hlow hhigh hle hlocal hsum, ge_iff_le, Int64.le_iff_toInt_le,
      toInt_getNextDayResetTime hlow hhigh (by omega) hfits]

/-- A moment of the year 2024 in UTC+8, one millisecond before the reset at five in the
morning, and the reset. -/
theorem dayResets_agree_boundary :
    isNewDayReset 28800000 1704056399999 1704056400000 5 = true ∧
      (1704056400000 : Int64) ≥ getNextDayResetTime 28800000 1704056399999 5 := by
  have hreset := (dayResets_agree 28800000 5 (by decide) (by decide)).2 1704056399999
    1704056400000 (by decide) (by decide) (by decide) ⟨by decide, by decide, by decide, by decide⟩
  have hnew : isNewDayReset 28800000 1704056399999 1704056400000 5 = true := by decide
  exact ⟨hnew, hreset.mp hnew⟩

/-! ## Weekly resets -/

/-- The days of the wrapped local time in its week, as `GetWeekday` counts them. -/
def wrappedWeekday (localMs : Int) : Int := ((localMs.tmod 604800000).tdiv 86400000 + 4).tmod 7

/-- What the weekly functions compute from the wrapped local time, before it is taken to
64 bits. -/
def thisWeekReset (localMs nowMs resetHour resetWeekDay : Int) : Int :=
  nowMs - localMs.tmod 86400000 + (resetWeekDay - wrappedWeekday localMs) * 86400000 +
    resetHour * 3600000

theorem wrappedWeekday_bounds (localMs : Int) :
    -7 < wrappedWeekday localMs ∧ wrappedWeekday localMs < 7 :=
  ⟨Int.lt_tmod_of_pos _ (by decide), Int.tmod_lt_of_pos _ (by decide)⟩

theorem wrappedWeekday_of_nonneg {localMs : Int} (hlocal : 0 ≤ localMs) :
    wrappedWeekday localMs = localWeekday localMs := by
  unfold wrappedWeekday localWeekday
  rw [Int.tmod_eq_emod_of_nonneg hlocal, Int.tdiv_eq_ediv_of_nonneg (by omega),
    Int.tmod_eq_emod_of_nonneg (by omega)]
  omega

theorem toInt_getWeekday (timezoneOffset nowMs : Int64) :
    (getWeekday timezoneOffset nowMs).toInt =
      wrappedWeekday (nowMs + timezoneOffset).toInt := by
  generalize hlocal : nowMs + timezoneOffset = localMs
  have hseven : (7 : Int64).toInt = 7 := by decide
  have hfour : (4 : Int64).toInt = 4 := by decide
  have hweek : (localMs % weekMs).toInt = localMs.toInt.tmod 604800000 := by
    rw [Int64.toInt_mod, toInt_weekMs]
  have hday : (localMs % weekMs / dayMs).toInt =
      (localMs.toInt.tmod 604800000).tdiv 86400000 := by
    rw [toInt_div_of_pos (by decide), toInt_dayMs, hweek]
  have hlow := Int.lt_tmod_of_pos localMs.toInt (b := 604800000) (by decide)
  have hhigh := Int.tmod_lt_of_pos localMs.toInt (b := 604800000) (by decide)
  have hrem := Int.lt_tmod_of_pos (localMs.toInt.tmod 604800000) (b := 86400000) (by decide)
  have hrem' := Int.tmod_lt_of_pos (localMs.toInt.tmod 604800000) (b := 86400000) (by decide)
  have hsplit := Int.tmod_def (localMs.toInt.tmod 604800000) 86400000
  unfold getWeekday wrappedWeekday
  simp only [hlocal]
  rw [Int64.toInt_mod, hseven, toInt_add_of_fits, hday, hfour]
  · rw [hday, hfour]
    omega
  · rw [hday, hfour]
    omega

/-- **The next weekly reset** as an integer computation, with one step to 64 bits. -/
theorem getNextWeekResetTime_eq (timezoneOffset nowMs : Int64) {resetHour resetWeekDay : Int64}
    (hlow : 0 ≤ resetHour.toInt) (hhigh : resetHour.toInt ≤ 23) :
    getNextWeekResetTime timezoneOffset nowMs resetHour resetWeekDay =
      let reset := thisWeekReset (nowMs + timezoneOffset).toInt nowMs.toInt resetHour.toInt
        resetWeekDay.toInt
      if nowMs.toInt < (Int64.ofInt reset).toInt then Int64.ofInt reset
      else Int64.ofInt (reset + 604800000) := by
  have hrem : ((nowMs + timezoneOffset) % dayMs).toInt =
      (nowMs + timezoneOffset).toInt.tmod 86400000 := by
    rw [Int64.toInt_mod, toInt_dayMs]
  have hreset : Int64.ofInt (thisWeekReset (nowMs + timezoneOffset).toInt nowMs.toInt
      resetHour.toInt resetWeekDay.toInt) =
      nowMs - (nowMs + timezoneOffset) % dayMs +
        (resetWeekDay - getWeekday timezoneOffset nowMs) * dayMs + resetHour * hourMs := by
    unfold thisWeekReset
    rw [Int64.ofInt_add, Int64.ofInt_add, Int64.ofInt_sub, Int64.ofInt_toInt, ← hrem,
      Int64.ofInt_toInt, Int64.ofInt_mul, Int64.ofInt_sub, Int64.ofInt_toInt,
      ← toInt_getWeekday, Int64.ofInt_toInt, ofInt_dayMs, ← toInt_mul_hourMs hlow hhigh,
      Int64.ofInt_toInt]
  unfold getNextWeekResetTime
  simp only [Int64.ofInt_add _ 604800000, hreset, ofInt_weekMs, gt_iff_lt, Int64.lt_iff_toInt_lt]

/-- It is Sunday, before the hour of the reset, and Sunday is given as 7. -/
def SundayAhead (offset nowMs resetHour resetWeekDay : Int) : Prop :=
  resetWeekDay = 7 ∧ localWeekday (nowMs + offset) = 0 ∧
    (nowMs + offset) % 86400000 < resetHour * 3600000

/-- The time since the last reset of the week. -/
def sinceWeekReset (offset nowMs resetHour resetWeekDay : Int) : Int :=
  elapsed 604800000 (weekPhase offset resetHour resetWeekDay) nowMs

/-- Both names of Sunday are the same day. -/
theorem sinceWeekReset_seven (offset nowMs resetHour : Int) :
    sinceWeekReset offset nowMs resetHour (Int64.toInt 7) =
      sinceWeekReset offset nowMs resetHour (Int64.toInt 0) := rfl

/-- The local time and the resets around the moment are 64-bit numbers. -/
structure WeekFits (offset nowMs resetHour resetWeekDay : Int) : Prop where
  sum : nowMs + offset < 2 ^ 63
  last : -2 ^ 63 ≤ nowMs - sinceWeekReset offset nowMs resetHour resetWeekDay
  next : nowMs - sinceWeekReset offset nowMs resetHour resetWeekDay + 604800000 < 2 ^ 63

/-- What is computed is less than a month from the moment, and so is the next reset: they
do not differ by a multiple of 2^64. -/
theorem wraps_eq_zero {now rem day weekDay hour since extra k : Int} (hrem : -86400000 < rem)
    (hrem' : rem < 86400000) (hday : -7 < day ∧ day < 7) (hweekDay : 0 ≤ weekDay)
    (hweekDay' : weekDay ≤ 7) (hhour : 0 ≤ hour) (hhour' : hour ≤ 23) (hsince : 0 ≤ since)
    (hsince' : since < 604800000) (hextra : 0 ≤ extra) (hextra' : extra ≤ 1)
    (heq : now - since + 604800000 =
      now - rem + (weekDay - day) * 86400000 + hour * 3600000 + 604800000 * extra + 2 ^ 64 * k) :
    k = 0 := by
  omega

/-- 2^64 milliseconds are no number of days. -/
theorem reset_ne_of_wrapped {now offset rem days day weekDay hour since weeks phase : Int}
    (extra : Int) (hrem : rem = now + offset - 2 ^ 64 - 86400000 * days)
    (hweeks : now - since - (phase * 86400000 + hour * 3600000 - offset) = 604800000 * weeks) :
    now - since + 604800000 ≠
      now - rem + (weekDay - day) * 86400000 + hour * 3600000 + 604800000 * extra := by
  omega

section Weekly

variable {timezoneOffset nowMs resetHour resetWeekDay : Int64} (hlow : 0 ≤ resetHour.toInt)
  (hhigh : resetHour.toInt ≤ 23) (hfirst : 0 ≤ resetWeekDay.toInt)
  (hlast : resetWeekDay.toInt ≤ 7) (hlocal : 0 ≤ nowMs.toInt + timezoneOffset.toInt)
include hlow hhigh hfirst hlast hlocal

/-- The day of the reset in the current week is the last reset or the next one, unless it is
Sunday and the reset of the day is still to come. -/
theorem thisWeekReset_cases :
    let reset := thisWeekReset (nowMs.toInt + timezoneOffset.toInt) nowMs.toInt resetHour.toInt
      resetWeekDay.toInt
    let last := nowMs.toInt - sinceWeekReset timezoneOffset.toInt nowMs.toInt resetHour.toInt
      resetWeekDay.toInt
    (SundayAhead timezoneOffset.toInt nowMs.toInt resetHour.toInt resetWeekDay.toInt ∧
        reset = last + 1209600000) ∨
      (¬ SundayAhead timezoneOffset.toInt nowMs.toInt resetHour.toInt resetWeekDay.toInt ∧
        (nowMs.toInt < reset ∧ reset = last + 604800000 ∨
          reset ≤ nowMs.toInt ∧ reset = last)) := by
  unfold SundayAhead sinceWeekReset elapsed weekPhase thisWeekReset
  rw [wrappedWeekday_of_nonneg hlocal, Int.tmod_eq_emod_of_nonneg hlocal]
  unfold localWeekday
  dsimp only
  omega

/-- The next reset, when nothing is in the way. -/
theorem toInt_getNextWeekResetTime
    (hsunday : ¬ SundayAhead timezoneOffset.toInt nowMs.toInt resetHour.toInt
      resetWeekDay.toInt)
    (hfits : WeekFits timezoneOffset.toInt nowMs.toInt resetHour.toInt resetWeekDay.toInt) :
    (getNextWeekResetTime timezoneOffset nowMs resetHour resetWeekDay).toInt =
      nowMs.toInt - sinceWeekReset timezoneOffset.toInt nowMs.toInt resetHour.toInt
        resetWeekDay.toInt + 604800000 := by
  obtain ⟨hsum, hbelow, habove⟩ := hfits
  have hlocalMs : (nowMs + timezoneOffset).toInt = nowMs.toInt + timezoneOffset.toInt :=
    toInt_add_of_fits (by omega) hsum
  have hcases := thisWeekReset_cases hlow hhigh hfirst hlast hlocal
  rw [getNextWeekResetTime_eq timezoneOffset nowMs hlow hhigh, hlocalMs]
  dsimp only at hcases ⊢
  generalize thisWeekReset (nowMs.toInt + timezoneOffset.toInt) nowMs.toInt resetHour.toInt
    resetWeekDay.toInt = reset at hcases ⊢
  rcases hcases with ⟨hahead, -⟩ | ⟨-, ⟨hlater, heq⟩ | ⟨hearlier, heq⟩⟩
  · exact absurd hahead hsunday
  · have hthis : (Int64.ofInt reset).toInt = reset := Int64.toInt_ofInt_of_le (by omega) (by omega)
    rw [hthis, if_pos hlater, hthis, heq]
  · have hthis : (Int64.ofInt reset).toInt = reset := Int64.toInt_ofInt_of_le (by omega) (by omega)
    rw [hthis, if_neg (by omega), heq, Int64.toInt_ofInt_of_le (by omega) habove]

/-- On the Sunday itself the next reset is missed. -/
theorem toInt_getNextWeekResetTime_ne_of_sunday
    (hsum : nowMs.toInt + timezoneOffset.toInt < 2 ^ 63)
    (hsunday : SundayAhead timezoneOffset.toInt nowMs.toInt resetHour.toInt
      resetWeekDay.toInt) :
    (getNextWeekResetTime timezoneOffset nowMs resetHour resetWeekDay).toInt ≠
      nowMs.toInt - sinceWeekReset timezoneOffset.toInt nowMs.toInt resetHour.toInt
        resetWeekDay.toInt + 604800000 := by
  have hlocalMs : (nowMs + timezoneOffset).toInt = nowMs.toInt + timezoneOffset.toInt :=
    toInt_add_of_fits (by omega) hsum
  rw [getNextWeekResetTime_eq timezoneOffset nowMs hlow hhigh, hlocalMs]
  rcases thisWeekReset_cases hlow hhigh hfirst hlast hlocal with ⟨-, heq⟩ | ⟨hnot, -⟩
  · dsimp only at heq ⊢
    rw [heq]
    split
    · obtain ⟨k, hk⟩ := exists_toInt_ofInt (nowMs.toInt - sinceWeekReset timezoneOffset.toInt
        nowMs.toInt resetHour.toInt resetWeekDay.toInt + 1209600000)
      omega
    · obtain ⟨k, hk⟩ := exists_toInt_ofInt (nowMs.toInt - sinceWeekReset timezoneOffset.toInt
        nowMs.toInt resetHour.toInt resetWeekDay.toInt + 1209600000 + 604800000)
      omega
  · exact absurd hsunday hnot

omit hlocal in
/-- When the local time overflows, the remainders are those of another day. -/
theorem toInt_getNextWeekResetTime_ne_of_overflow
    (hsum : 2 ^ 63 ≤ nowMs.toInt + timezoneOffset.toInt) :
    (getNextWeekResetTime timezoneOffset nowMs resetHour resetWeekDay).toInt ≠
      nowMs.toInt - sinceWeekReset timezoneOffset.toInt nowMs.toInt resetHour.toInt
        resetWeekDay.toInt + 604800000 := by
  have hlocalMs : (nowMs + timezoneOffset).toInt =
      nowMs.toInt + timezoneOffset.toInt - 2 ^ 64 := by
    have hnow := nowMs.toInt_lt
    have hoffset := timezoneOffset.toInt_lt
    rw [Int64.toInt_add, Int.bmod_def]
    norm_num at *
    omega
  have hweek : (0 : Int) < 604800000 := by decide
  have hday : (0 : Int) < 86400000 := by decide
  have hrem := Int.tmod_def (nowMs + timezoneOffset).toInt 86400000
  obtain ⟨weeks, hweeks⟩ := Int.dvd_of_emod_eq_zero
    (@occurs_sub_elapsed 604800000 (weekPhase timezoneOffset.toInt resetHour.toInt
      resetWeekDay.toInt) nowMs.toInt)
  have hne : ∀ extra, 0 ≤ extra → extra ≤ 1 →
      (Int64.ofInt (thisWeekReset (nowMs + timezoneOffset).toInt nowMs.toInt resetHour.toInt
        resetWeekDay.toInt + 604800000 * extra)).toInt ≠
      nowMs.toInt - sinceWeekReset timezoneOffset.toInt nowMs.toInt resetHour.toInt
        resetWeekDay.toInt + 604800000 := by
    intro extra hextra hextra' heq
    obtain ⟨k, hk⟩ := exists_toInt_ofInt (thisWeekReset (nowMs + timezoneOffset).toInt
      nowMs.toInt resetHour.toInt resetWeekDay.toInt + 604800000 * extra)
    rw [heq] at hk
    have hzero := wraps_eq_zero (Int.lt_tmod_of_pos _ hday) (Int.tmod_lt_of_pos _ hday)
      (wrappedWeekday_bounds _) hfirst hlast hlow hhigh (elapsed_nonneg hweek _ _)
      (elapsed_lt hweek _ _) hextra hextra' hk
    subst hzero
    rw [Int.mul_zero, Int.add_zero] at hk
    exact reset_ne_of_wrapped extra (hrem.trans (congrArg (· - 86400000 * _) hlocalMs)) hweeks hk
  rw [getNextWeekResetTime_eq timezoneOffset nowMs hlow hhigh]
  dsimp only
  split
  · simpa using hne 0 (by decide) (by decide)
  · simpa using hne 1 (by decide) (by decide)

end Weekly

/-- The weekly functions at a moment are right: the next reset is the first instant after it
at the hour of the day, at most a week ahead and the same for both names of Sunday, the last
one is the last such instant not after it, and a week is reset by a later moment exactly if
there is such an instant in between. -/
structure WeekResets (timezoneOffset nowMs resetHour resetWeekDay : Int64) : Prop where
  next : IsLeast {t | nowMs.toInt < t ∧
      AtWeekHour timezoneOffset.toInt resetHour.toInt resetWeekDay.toInt t}
    (getNextWeekResetTime timezoneOffset nowMs resetHour resetWeekDay).toInt
  within : (getNextWeekResetTime timezoneOffset nowMs resetHour resetWeekDay).toInt ≤
    nowMs.toInt + 604800000
  sunday : resetWeekDay = 7 → getNextWeekResetTime timezoneOffset nowMs resetHour resetWeekDay =
    getNextWeekResetTime timezoneOffset nowMs resetHour 0
  last : IsGreatest {t | t ≤ nowMs.toInt ∧
      AtWeekHour timezoneOffset.toInt resetHour.toInt resetWeekDay.toInt t}
    (getLastWeekResetTime timezoneOffset nowMs resetHour resetWeekDay).toInt
  reset : ∀ after : Int64, nowMs ≤ after →
    (isWeekReset timezoneOffset nowMs after resetHour resetWeekDay = true ↔
      ∃ t, nowMs.toInt < t ∧ t ≤ after.toInt ∧
        AtWeekHour timezoneOffset.toInt resetHour.toInt resetWeekDay.toInt t)

/-- **The weekly reset functions are right** at a moment if and only if it is not a Sunday given
as 7 whose reset is still to come, and the local time and the resets around the moment are
64-bit numbers. -/
theorem weekResets_iff (timezoneOffset nowMs resetHour resetWeekDay : Int64)
    (hlow : 0 ≤ resetHour.toInt) (hhigh : resetHour.toInt ≤ 23) (hfirst : 0 ≤ resetWeekDay.toInt)
    (hlast : resetWeekDay.toInt ≤ 7) (hlocal : 0 ≤ nowMs.toInt + timezoneOffset.toInt) :
    WeekResets timezoneOffset nowMs resetHour resetWeekDay ↔
      ¬ SundayAhead timezoneOffset.toInt nowMs.toInt resetHour.toInt resetWeekDay.toInt ∧
        WeekFits timezoneOffset.toInt nowMs.toInt resetHour.toInt resetWeekDay.toInt := by
  have hweek : (0 : Int) < 604800000 := by decide
  have hleast := isLeast_sub_elapsed_add hweek
    (weekPhase timezoneOffset.toInt resetHour.toInt resetWeekDay.toInt) nowMs.toInt
  have hgreatest := isGreatest_sub_elapsed hweek
    (weekPhase timezoneOffset.toInt resetHour.toInt resetWeekDay.toInt) nowMs.toInt
  constructor
  · intro hresets
    have hnext := hresets.next
    have hlastReset := hresets.last
    simp only [atWeekHour_iff hlow hhigh] at hnext hlastReset
    have hequal := hnext.unique hleast
    have hsum : nowMs.toInt + timezoneOffset.toInt < 2 ^ 63 := by
      by_contra hover
      exact toInt_getNextWeekResetTime_ne_of_overflow hlow hhigh hfirst hlast
        (Int.not_lt.mp hover) hequal
    refine ⟨fun hsunday => ?_, hsum, ?_, ?_⟩
    · exact toInt_getNextWeekResetTime_ne_of_sunday hlow hhigh hfirst hlast hlocal hsum hsunday
        hequal
    · exact (Int64.le_toInt _).trans_eq (hlastReset.unique hgreatest)
    · exact hequal.symm.trans_lt (Int64.toInt_lt _)
  · rintro ⟨hsunday, hfits⟩
    have hnext := toInt_getNextWeekResetTime hlow hhigh hfirst hlast hlocal hsunday hfits
    have hsub : (getLastWeekResetTime timezoneOffset nowMs resetHour resetWeekDay).toInt =
        nowMs.toInt - sinceWeekReset timezoneOffset.toInt nowMs.toInt resetHour.toInt
          resetWeekDay.toInt := by
      obtain ⟨-, hbelow, habove⟩ := hfits
      unfold getLastWeekResetTime
      rw [toInt_sub_of_fits] <;> rw [hnext, toInt_weekMs] <;> omega
    refine ⟨?_, ?_, ?_, ?_, ?_⟩
    · simp only [atWeekHour_iff hlow hhigh, hnext]
      exact hleast
    · have hsince : 0 ≤ sinceWeekReset timezoneOffset.toInt nowMs.toInt resetHour.toInt
          resetWeekDay.toInt := elapsed_nonneg hweek _ _
      omega
    · rintro rfl
      have hfits' : WeekFits timezoneOffset.toInt nowMs.toInt resetHour.toInt (Int64.toInt 0) :=
        ⟨hfits.sum, sinceWeekReset_seven .. ▸ hfits.last, sinceWeekReset_seven .. ▸ hfits.next⟩
      have hzero := toInt_getNextWeekResetTime hlow hhigh (by decide) (by decide) hlocal
        (fun hsunday => absurd hsunday.1 (by decide)) hfits'
      rw [← Int64.toInt_inj, hnext, hzero, sinceWeekReset_seven]
    · simp only [atWeekHour_iff hlow hhigh, hsub]
      exact hgreatest
    · intro after _
      unfold isWeekReset
      rw [decide_eq_true_iff, ge_iff_le, Int64.le_iff_toInt_le, hnext]
      simp only [atWeekHour_iff hlow hhigh]
      exact (exists_occurs_iff hweek _ _ _).symm

/-- A Thursday of 1970, with the reset on Sundays at five. -/
theorem weekResets_thursday : WeekResets 0 0 5 7 :=
  (weekResets_iff 0 0 5 7 (by decide) (by decide) (by decide) (by decide) (by decide)).mpr
    ⟨fun hsunday => absurd hsunday.2.1 (by decide), by decide, by decide, by decide⟩

/-- A Sunday of January 1970 at midnight, five hours before its reset. -/
theorem weekResets_sunday : ¬ WeekResets 0 259200000 5 7 ∧
    getNextWeekResetTime 0 259200000 5 7 = 882000000 ∧
    getNextWeekResetTime 0 259200000 5 0 = 277200000 := by
  have hseven : getNextWeekResetTime 0 259200000 5 7 = 882000000 := by decide
  have hzero : getNextWeekResetTime 0 259200000 5 0 = 277200000 := by decide
  refine ⟨fun hresets => ?_, hseven, hzero⟩
  have hsame := hresets.sunday rfl
  rw [hseven, hzero] at hsame
  exact absurd hsame (by decide)

end Gokit.Util
