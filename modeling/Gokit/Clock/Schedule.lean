/-
# The wheel is never late

The pointers of the four levels are the digits of one counter of ticks.  A list
is served by the tick that brings the counter to a multiple of the level's unit
with the list's slot as its digit, so each list has a distance: the number of
ticks until it is served next.  The places chosen by `addTimer` and by the cascade
keep the invariant that every timer is served less than one tick after it is due,
or at the very next tick.

In the middle of a tick the counter already has its new value but only the
pointers of the levels done so far show it.  The lists that this tick serves, the
current ones, are empty at the levels that are done and may still hold timers at
the others.
-/

import Gokit.Clock.Refinement

namespace Gokit.Clock

open Gokit.Math

/-! ## Units, digits and distances -/

/-- The ticks between two moves of a level's pointer. -/
def unit : Level → Int
  | 0 => 1
  | 1 => 1024
  | 2 => 262144
  | 3 => 16777216

def size : Level → Int
  | 0 => 1024
  | 1 => 256
  | 2 => 64
  | 3 => 64

/-- The ticks after which a level's pointer is back. -/
def period (level : Level) : Int := unit level * size level

def digit (count : Int) (level : Level) : Int := count / unit level % size level

/-- The number of ticks until the list at `place` is served next. -/
def dist (count : Int) (place : Level × Int64) : Int :=
  (place.2.toInt * unit place.1 - count - 1) % period place.1 + 1

/-- The list at `place` is served by the tick that brings the counter to
`count`. -/
def Current (count : Int) (place : Level × Int64) : Prop :=
  (place.2.toInt * unit place.1 - count) % period place.1 = 0

/-- Times that stay clear of overflow. -/
def Bounded (time : Int64) : Prop := -2 ^ 61 < time.toInt ∧ time.toInt < 2 ^ 61

theorem toInt_levelSlots_eq (level : Level) : (levelSlots level).toInt = size level := by
  fin_cases level <;> decide

theorem toInt_nextSlot {D : Type} (c : Clock D) (level : Level)
    (hslot : InWheel (level, c.slot level)) :
    (c.nextSlot level).toInt = ((c.slot level).toInt + 1) % size level := by
  obtain ⟨k, hk, hmask, hslots⟩ := toInt_levelSlots level
  obtain ⟨hlow, hhigh⟩ := inWheel_iff.mp hslot
  have hbound : (levelSlots level).toInt ≤ 2 ^ 10 := by fin_cases level <;> decide
  have hone : (1 : Int64).toInt = 1 := by decide
  rw [nextSlot, toInt_and_mask hk hmask, ← toInt_levelSlots_eq, hslots,
    toInt_add_of_fits (by omega) (by omega), hone]

/-! ## Where a timer is put -/

theorem tdiv_si (n : Int) :
    (0 ≤ n → 20 * n.tdiv 20 ≤ n ∧ n < 20 * n.tdiv 20 + 20) ∧
      (n < 0 → n ≤ 20 * n.tdiv 20 ∧ 20 * n.tdiv 20 < n + 20 ∧ n.tdiv 20 ≤ 0) := by
  constructor
  · intro hn
    rw [Int.tdiv_eq_ediv_of_nonneg hn]
    omega
  · intro hn
    have hneg : n.tdiv 20 = -((-n) / 20) := by
      rw [← Int.tdiv_eq_ediv_of_nonneg (by omega), Int.neg_tdiv, Int.neg_neg]
    rw [hneg]
    omega

/-- The level and slot computed by `place`, in terms of the number of ticks to
wait. -/
inductive PlaceCase (slot : Level → Int64) (ticks : Int) : Level × Int64 → Prop
  | near (level : Level) (s : Int64) (hlow : unit level ≤ ticks) (hhigh : ticks < period level)
      (hslot : s.toInt = (ticks / unit level + (slot level).toInt) % size level) :
      PlaceCase slot ticks (level, s)
  | far (hfar : period 3 ≤ ticks) : PlaceCase slot ticks (3, levelMasks 3)

/-- The slot of a level that the number of ticks to wait leads to. -/
theorem toInt_slotFor {slot : Level → Int64} {ticks : Int64} {level : Level}
    (hslot : InWheel (level, slot level)) (hlow : 1 ≤ ticks.toInt)
    (hhigh : ticks.toInt < period level) :
    (((ticks >>> levelDivis level) + slot level) &&& levelMasks level).toInt =
      (ticks.toInt / unit level + (slot level).toInt) % size level := by
  obtain ⟨k, hk, hmask, hslots⟩ := toInt_levelSlots level
  obtain ⟨hslotLow, hslotHigh⟩ := inWheel_iff.mp hslot
  obtain ⟨d, hd, hdivis, hunit⟩ : ∃ d : Nat, d < 64 ∧ (levelDivis level).toInt = d ∧
      unit level = 2 ^ d := by
    fin_cases level
    · exact ⟨0, by decide, by decide, by decide⟩
    · exact ⟨10, by decide, by decide, by decide⟩
    · exact ⟨18, by decide, by decide, by decide⟩
    · exact ⟨24, by decide, by decide, by decide⟩
  have hbound : (levelSlots level).toInt ≤ 2 ^ 10 ∧ period level ≤ 2 ^ 30 := by
    fin_cases level <;> decide
  have hquot : 0 ≤ ticks.toInt / 2 ^ d ∧ ticks.toInt / 2 ^ d ≤ ticks.toInt :=
    ⟨Int.ediv_nonneg (by omega) (by positivity), Int.ediv_le_self _ (by omega)⟩
  have hshift := toInt_shiftRight (a := ticks) hd hdivis
  rw [toInt_and_mask hk hmask, ← toInt_levelSlots_eq, hslots,
    toInt_add_of_fits (by rw [hshift]; omega) (by rw [hshift]; omega), hshift, hunit]

theorem toInt_si : si.toInt = 20 := by decide

variable {when base : Int64}

/-- Rounding up, with a lower bound of one tick. -/
theorem toInt_ticksUntil_eq (hwhen : Bounded when) (hbase : Bounded base) :
    (ticksUntil when base).toInt = max 1 ((when.toInt - base.toInt + 19).tdiv 20) := by
  obtain ⟨hwhenLow, hwhenHigh⟩ := hwhen
  obtain ⟨hbaseLow, hbaseHigh⟩ := hbase
  have hsi := toInt_si
  have hone : (1 : Int64).toInt = 1 := by decide
  have hzero : (0 : Int64).toInt = 0 := by decide
  have hsub : (when - base).toInt = when.toInt - base.toInt :=
    toInt_sub_of_fits (by omega) (by omega)
  have hadd : (when - base + si).toInt = when.toInt - base.toInt + 20 := by
    rw [toInt_add_of_fits (by omega) (by omega), hsub, hsi]
  have hdiff : (when - base + si - 1).toInt = when.toInt - base.toInt + 19 := by
    rw [toInt_sub_of_fits (by omega) (by omega), hadd, hone]
    omega
  have hquot : ((when - base + si - 1) / si).toInt = (when.toInt - base.toInt + 19).tdiv 20 := by
    rw [toInt_div_of_pos (by omega), hdiff, hsi]
  by_cases hclamp : (when - base + si - 1) / si ≤ 0
  · rw [ticksUntil, if_pos hclamp, hone]
    rw [Int64.le_iff_toInt_le, hquot] at hclamp
    omega
  · rw [ticksUntil, if_neg hclamp, hquot]
    rw [Int64.le_iff_toInt_le, hquot] at hclamp
    omega

theorem toInt_ticksUntil (hwhen : Bounded when) (hbase : Bounded base) :
    1 ≤ (ticksUntil when base).toInt ∧
      (base.toInt + 20 * ((ticksUntil when base).toInt - 1) < when.toInt ∨
        (ticksUntil when base).toInt = 1) := by
  obtain ⟨hnonneg, hneg⟩ := tdiv_si (when.toInt - base.toInt + 19)
  rw [toInt_ticksUntil_eq hwhen hbase]
  omega

theorem one_le_ticksUntil (when base : Int64) : 1 ≤ (ticksUntil when base).toInt := by
  have hzero : (0 : Int64).toInt = 0 := by decide
  unfold ticksUntil
  dsimp only
  split
  · decide
  · rename_i hclamp
    rw [Int64.le_iff_toInt_le, hzero] at hclamp
    omega

/-- The place of a timer, whatever the times are. -/
theorem placeCase_place {slot : Level → Int64} (hslots : ∀ level, InWheel (level, slot level))
    (when base : Int64) : PlaceCase slot (ticksUntil when base).toInt (place slot when base) := by
  have hlow := one_le_ticksUntil when base
  unfold place
  generalize ticksUntil when base = ticks at hlow ⊢
  have hlt : ∀ level, ticks < levelTicks level ↔ ticks.toInt < period level := by
    intro level
    have hperiod : (levelTicks level).toInt = period level := by fin_cases level <;> decide
    rw [Int64.lt_iff_toInt_lt, hperiod]
  have hnear : ∀ level, unit level ≤ ticks.toInt → ticks.toInt < period level →
      PlaceCase slot ticks.toInt
        (level, ((ticks >>> levelDivis level) + slot level) &&& levelMasks level) :=
    fun level hunit hhigh => .near level _ hunit hhigh (toInt_slotFor (hslots level) hlow hhigh)
  have hlevels : List.finRange 4 = [0, 1, 2, 3] := by decide
  simp only [hlevels, List.find?_cons, List.find?_nil, hlt]
  have hunits : unit 1 = period 0 ∧ unit 2 = period 1 ∧ unit 3 = period 2 := by decide
  by_cases h0 : ticks.toInt < period 0
  · simp only [h0, decide_true]
    exact hnear 0 hlow h0
  by_cases h1 : ticks.toInt < period 1
  · simp only [h0, h1, decide_true, decide_false]
    exact hnear 1 (by omega) h1
  by_cases h2 : ticks.toInt < period 2
  · simp only [h0, h1, h2, decide_true, decide_false]
    exact hnear 2 (by omega) h2
  by_cases h3 : ticks.toInt < period 3
  · simp only [h0, h1, h2, h3, decide_true, decide_false]
    exact hnear 3 (by omega) h3
  · simp only [h0, h1, h2, h3, decide_false]
    exact .far (by omega)

theorem place_spec {slot : Level → Int64} (hwhen : Bounded when) (hbase : Bounded base)
    (hslots : ∀ level, InWheel (level, slot level)) :
    ∃ ticks, 1 ≤ ticks ∧ (base.toInt + 20 * (ticks - 1) < when.toInt ∨ ticks = 1) ∧
      PlaceCase slot ticks (place slot when base) := by
  obtain ⟨hlow, hlate⟩ := toInt_ticksUntil hwhen hbase
  exact ⟨_, hlow, hlate, placeCase_place hslots when base⟩

/-! ## Distances of places -/

theorem unit_size_cases (level : Level) :
    (unit level = 1 ∧ size level = 1024) ∨ (unit level = 1024 ∧ size level = 256) ∨
      (unit level = 262144 ∧ size level = 64) ∨ (unit level = 16777216 ∧ size level = 64) := by
  fin_cases level <;> decide

theorem pred_add_one : ∀ level : Level, 1 ≤ level.val → (level - 1).val + 1 = level.val := by
  decide

theorem units_of_pos : ∀ level : Level, 1 ≤ level.val →
    (unit (level - 1) = 1 ∧ size (level - 1) = 1024 ∧ unit level = 1024) ∨
      (unit (level - 1) = 1024 ∧ size (level - 1) = 256 ∧ unit level = 262144) ∨
      (unit (level - 1) = 262144 ∧ size (level - 1) = 64 ∧ unit level = 16777216) := by
  decide

theorem unit_dvd_unit : ∀ level higher : Level, level.val ≤ higher.val →
    unit level ∣ unit higher := by
  decide

theorem dist_pos (count : Int) (place : Level × Int64) : 1 ≤ dist count place := by
  rw [dist, period]
  rcases unit_size_cases place.1 with ⟨hu, hs⟩ | ⟨hu, hs⟩ | ⟨hu, hs⟩ | ⟨hu, hs⟩ <;>
    rw [hu, hs] <;> omega

theorem dist_le_period (count : Int) (place : Level × Int64) :
    dist count place ≤ period place.1 := by
  rw [dist, period]
  rcases unit_size_cases place.1 with ⟨hu, hs⟩ | ⟨hu, hs⟩ | ⟨hu, hs⟩ | ⟨hu, hs⟩ <;>
    rw [hu, hs] <;> omega

section Places

variable {level : Level} {s : Int64} {count steps : Int}

/-- The list `steps` slots ahead of a pointer that shows the counter. -/
theorem dist_of_shown (hlow : 1 ≤ steps) (hhigh : steps < size level)
    (hs : s.toInt = (steps + digit count level) % size level) :
    ¬ Current count (level, s) ∧
      dist count (level, s) = steps * unit level - count % unit level := by
  simp only [Current, dist, period, digit] at hs ⊢
  rcases unit_size_cases level with ⟨hu, hz⟩ | ⟨hu, hz⟩ | ⟨hu, hz⟩ | ⟨hu, hz⟩ <;>
    rw [hu, hz] at hs ⊢ <;> rw [hz] at hhigh <;> omega

/-- The list `steps` slots ahead of a pointer that shows the counter before this
tick. -/
theorem dist_of_stale (hlow : 1 ≤ steps) (hhigh : steps < size level)
    (hs : s.toInt = (steps + digit (count - 1) level) % size level) :
    Current count (level, s) ∨ dist count (level, s) ≤ steps * unit level := by
  simp only [Current, dist, period, digit] at hs ⊢
  rcases unit_size_cases level with ⟨hu, hz⟩ | ⟨hu, hz⟩ | ⟨hu, hz⟩ | ⟨hu, hz⟩ <;>
    rw [hu, hz] at hs ⊢ <;> rw [hz] at hhigh <;> omega

/-- One tick later: a list is served now, or its distance is one less. -/
theorem dist_succ (count : Int) (place : Level × Int64) :
    (Current count place ∧ dist (count - 1) place = 1) ∨
      (¬ Current count place ∧ dist (count - 1) place = dist count place + 1) := by
  simp only [Current, dist, period]
  rcases unit_size_cases place.1 with ⟨hu, hz⟩ | ⟨hu, hz⟩ | ⟨hu, hz⟩ | ⟨hu, hz⟩ <;>
    rw [hu, hz] <;> omega

/-- The list that a tick serves is the one its level's pointer moves to. -/
theorem eq_digit_of_current (hs : InWheel (level, s)) (hcurrent : Current count (level, s)) :
    count % unit level = 0 ∧ s.toInt = digit count level := by
  obtain ⟨hlow, hhigh⟩ := inWheel_iff.mp hs
  rw [toInt_levelSlots_eq] at hhigh
  simp only [Current, period, digit] at hcurrent ⊢
  rcases unit_size_cases level with ⟨hu, hz⟩ | ⟨hu, hz⟩ | ⟨hu, hz⟩ | ⟨hu, hz⟩ <;>
    rw [hu, hz] at hcurrent ⊢ <;> rw [hz] at hhigh <;> omega

/-- A pointer moves on with the counter exactly when the counter has come to a
multiple of its unit. -/
theorem digit_pred_succ (hzero : count % unit level = 0) :
    (digit (count - 1) level + 1) % size level = digit count level := by
  simp only [digit]
  rcases unit_size_cases level with ⟨hu, hz⟩ | ⟨hu, hz⟩ | ⟨hu, hz⟩ | ⟨hu, hz⟩ <;>
    rw [hu] at hzero ⊢ <;> rw [hz] <;> omega

theorem digit_pred_of_ne (hne : count % unit level ≠ 0) :
    digit (count - 1) level = digit count level := by
  simp only [digit]
  rcases unit_size_cases level with ⟨hu, hz⟩ | ⟨hu, hz⟩ | ⟨hu, hz⟩ | ⟨hu, hz⟩ <;>
    rw [hu] at hne ⊢ <;> rw [hz] <;> omega

end Places

/-! ## Placements -/

/-- The pointers below level `k` show the counter, the others the counter before
this tick. -/
def Shows (slot : Level → Int64) (count : Int) (k : Nat) : Prop :=
  ∀ level : Level, (slot level).toInt =
    if level.val < k then digit count level else digit (count - 1) level

section Placements

variable {D : Type}

/-- Between ticks: every timer is served less than one tick late, or at the next
tick. -/
def waiting (now count : Int) : Placement D where
  ok _ place timer := Bounded timer.when ∧
    (now + 20 * dist count place < timer.when.toInt + 20 ∨
      place.1.val = 0 ∧ dist count place = 1)
  mono _ _ _ _ := id

/-- During the tick that brings the counter to `count`, with the levels below `k`
done; the log had length `start` when it began. -/
def during (tk count : Int) (k start : Nat) : Placement D where
  ok log place timer := Bounded timer.when ∧ start ≤ log.length ∧
    (Current count place → k ≤ place.1.val ∧ (place.1.val = 0 ∨ tk < timer.when.toInt + 20)) ∧
    (¬ Current count place → tk + 20 * dist count place < timer.when.toInt + 20 ∨
      place.1.val = 0 ∧ dist count place = 1 ∧
        (tk - 20 < timer.when.toInt ∨ .refused timer.id ∈ log.drop start))
  mono log event place timer hok := by
    obtain ⟨hbounded, hstart, hcurrent, hother⟩ := hok
    refine ⟨hbounded, by simp; omega, hcurrent, fun hnot => ?_⟩
    rcases hother hnot with hserved | ⟨hlevel, hdist, htime | hrefused⟩
    · exact Or.inl hserved
    · exact Or.inr ⟨hlevel, hdist, Or.inl htime⟩
    · refine Or.inr ⟨hlevel, hdist, Or.inr ?_⟩
      rw [List.drop_append_of_le_length hstart]
      exact List.mem_append_left _ hrefused

variable {slot : Level → Int64} {tk count : Int} {k start : Nat} {log : List (Event D)}
  {timer : Timer D} {base : Int64}

/-- The number of slots ahead that `place` chooses. -/
theorem steps_bounds {level : Level} {ticks : Int} (hlow : unit level ≤ ticks)
    (hhigh : ticks < period level) :
    1 ≤ ticks / unit level ∧ ticks / unit level < size level ∧
      ticks / unit level * unit level ≤ ticks := by
  rw [period] at hhigh
  rcases unit_size_cases level with ⟨hu, hz⟩ | ⟨hu, hz⟩ | ⟨hu, hz⟩ | ⟨hu, hz⟩ <;>
    rw [hu] at hlow hhigh ⊢ <;> rw [hz] at hhigh ⊢ <;> omega

theorem emod_unit_nonneg (count : Int) (level : Level) : 0 ≤ count % unit level := by
  rcases unit_size_cases level with ⟨hu, -⟩ | ⟨hu, -⟩ | ⟨hu, -⟩ | ⟨hu, -⟩ <;> rw [hu] <;> omega

/-- A unit of one tick is that of level 0. -/
theorem level_eq_zero {level : Level} (hunit : unit level ≤ 1) : level = 0 := by
  revert hunit
  revert level
  decide

/-- Adding a timer between ticks. -/
theorem waiting_place (hslots : ∀ level, InWheel (level, slot level)) (hshows : Shows slot count 4)
    (hwhen : Bounded timer.when) (hbase : Bounded base) :
    (waiting base.toInt count).ok log (place slot timer.when base) timer := by
  obtain ⟨ticks, hone, hlate, hcase⟩ := place_spec hwhen hbase hslots
  refine ⟨hwhen, ?_⟩
  generalize place slot timer.when base = chosen at hcase ⊢
  cases hcase with
  | near level s hlow hhigh hs =>
    obtain ⟨hsteps, hsize, hle⟩ := steps_bounds hlow hhigh
    rw [hshows level, if_pos level.isLt] at hs
    obtain ⟨-, hdist⟩ := dist_of_shown hsteps hsize hs
    have hrem := emod_unit_nonneg count level
    rcases hlate with hlate | rfl
    · left
      omega
    · right
      obtain rfl := level_eq_zero hlow
      have hpos := dist_pos count (0, s)
      exact ⟨rfl, by omega⟩
  | far hfar =>
    have hdist := dist_le_period count (3, levelMasks 3)
    have hperiod : period 3 = 1073741824 := by decide
    left
    show base.toInt + 20 * dist count (3, levelMasks 3) < _
    simp only at hdist
    omega

/-- Adding a timer during a tick, counted from a time not before the tick. -/
theorem during_place (hslots : ∀ level, InWheel (level, slot level)) {shown : Nat}
    (hshows : Shows slot count shown) (hshown : 1 ≤ shown) (hk : k ≤ shown) (hk3 : k ≤ 3)
    (hwhen : Bounded timer.when) (hbase : Bounded base) (htk : tk ≤ base.toInt)
    (hdue : tk < timer.when.toInt + 20) (hstart : start ≤ log.length) :
    (during tk count k start).ok log (place slot timer.when base) timer := by
  obtain ⟨ticks, hone, hlate, hcase⟩ := place_spec hwhen hbase hslots
  refine ⟨hwhen, hstart, ?_⟩
  generalize place slot timer.when base = chosen at hcase ⊢
  cases hcase with
  | near level s hlow hhigh hs =>
    obtain ⟨hsteps, hsize, hle⟩ := steps_bounds hlow hhigh
    have hpos := dist_pos count (level, s)
    rw [hshows level] at hs
    by_cases hlevel : level.val < shown
    · rw [if_pos hlevel] at hs
      obtain ⟨hnot, hdist⟩ := dist_of_shown hsteps hsize hs
      have hrem := emod_unit_nonneg count level
      refine ⟨fun hcurrent => absurd hcurrent hnot, fun _ => ?_⟩
      rcases hlate with hlate | rfl
      · left
        omega
      · obtain rfl := level_eq_zero hlow
        exact Or.inr ⟨rfl, by omega, Or.inl (by omega)⟩
    · rw [if_neg hlevel] at hs
      refine ⟨fun _ => ⟨by simp only; omega, Or.inr hdue⟩, fun hnot => ?_⟩
      have hdist := (dist_of_stale hsteps hsize hs).resolve_left hnot
      rcases hlate with hlate | rfl
      · left
        omega
      · obtain rfl := level_eq_zero hlow
        exact absurd (show (0 : Level).val < shown from hshown) hlevel
  | far hfar =>
    refine ⟨fun _ => ⟨hk3, Or.inr hdue⟩, fun _ => ?_⟩
    have hdist := dist_le_period count (3, levelMasks 3)
    have hperiod : period 3 = 1073741824 := by decide
    simp only at hdist
    left
    omega

/-- A refused timer goes to the slot of the next tick. -/
theorem during_requeue {next : Int64} (hnext : next.toInt = (1 + digit count 0) % size 0)
    (hwhen : Bounded timer.when) (hstart : start ≤ log.length) :
    (during tk count k start).ok (log ++ [.refused timer.id]) (0, next) timer := by
  obtain ⟨hnot, hdist⟩ := dist_of_shown (le_refl 1) (by decide) hnext
  have hunit : unit 0 = 1 := rfl
  have hpos := dist_pos count (0, next)
  refine ⟨hwhen, by simp; omega, fun hcurrent => absurd hcurrent hnot, fun _ => ?_⟩
  refine Or.inr ⟨rfl, ?_, Or.inr ?_⟩
  · rw [hunit] at hdist
    omega
  · rw [List.drop_append_of_le_length hstart]
    exact List.mem_append_right _ (List.mem_singleton.mpr rfl)

/-- The tick begins. -/
theorem during_of_waiting {place : Level × Int64}
    (hok : (waiting (tk - 20) (count - 1)).ok log place timer) (hstart : start ≤ log.length) :
    (during tk count 0 start).ok log place timer := by
  obtain ⟨hwhen, hserved⟩ := hok
  refine ⟨hwhen, hstart, ?_⟩
  rcases dist_succ count place with ⟨hcurrent, hdist⟩ | ⟨hnot, hdist⟩
  · refine ⟨fun _ => ⟨Nat.zero_le _, ?_⟩, fun h => absurd hcurrent h⟩
    rcases hserved with hserved | ⟨hlevel, -⟩
    · right
      omega
    · exact Or.inl hlevel
  · refine ⟨fun h => absurd h hnot, fun _ => Or.inl ?_⟩
    have hpos := dist_pos count place
    rcases hserved with hserved | ⟨-, hone⟩
    · omega
    · omega

/-- The tick ends, with no current list left. -/
theorem waiting_of_during {place : Level × Int64}
    (hok : (during tk count k start).ok log place timer)
    (hdone : Current count place → ¬ k ≤ place.1.val) :
    (waiting tk count).ok log place timer ∧
      (tk - 20 < timer.when.toInt ∨ .refused timer.id ∈ log.drop start) := by
  obtain ⟨hwhen, -, hcurrent, hother⟩ := hok
  have hnot : ¬ Current count place := fun h => hdone h (hcurrent h).1
  have hpos := dist_pos count place
  rcases hother hnot with hserved | ⟨hlevel, hdist, hexcuse⟩
  · exact ⟨⟨hwhen, Or.inl hserved⟩, Or.inl (by omega)⟩
  · exact ⟨⟨hwhen, Or.inr ⟨hlevel, hdist⟩⟩, hexcuse⟩

end Placements

/-! ## One tick -/

section Tick

variable {D : Type} {c : Clock D} {lists : Lists} {tk : Int64} {count : Int} {start : Nat}

/-- Moving a pointer on makes it show the counter. -/
theorem Shows.advance {slot : Level → Int64} {next : Int64} (level : Level)
    (hshows : Shows slot count level.val) (hzero : count % unit level = 0)
    (hnext : next.toInt = ((slot level).toInt + 1) % size level) :
    Shows (Function.update slot level next) count (level.val + 1) := by
  intro other
  by_cases heq : other = level
  · subst heq
    have hold := hshows other
    rw [if_neg (lt_irrefl _)] at hold
    rw [Function.update_self, if_pos (Nat.lt_succ_self _), hnext, hold, digit_pred_succ hzero]
  · have hval : other.val ≠ level.val := fun h => heq (Fin.ext h)
    rw [Function.update_of_ne heq, hshows other]
    by_cases hlt : other.val < level.val
    · rw [if_pos hlt, if_pos (by omega)]
    · rw [if_neg hlt, if_neg (by omega)]

/-- What a tick must leave behind. -/
def TickDone (tk : Int64) (count : Int) (start : Nat) (lastTime : Int64) (c : Clock D) : Prop :=
  ∃ lists, Inv (waiting tk.toInt count) c [] lists ∧ Shows c.slot count 4 ∧
    c.lastTime = lastTime ∧ ∀ id timer, c.table id = some timer →
      tk.toInt - 20 < timer.when.toInt ∨ .refused id ∈ c.log.drop start

/-- The cascade stops: the counter is no multiple of the units of the levels left,
so they have no current list and their pointers show the counter already. -/
theorem tickDone_of_stop {k : Nat} (hinv : Inv (during tk.toInt count k start) c [] lists)
    (hshows : Shows c.slot count k)
    (hstop : ∀ level : Level, k ≤ level.val → count % unit level ≠ 0) :
    TickDone tk count start c.lastTime c := by
  have hdone : ∀ i, lists i ≠ [] → Current count i → ¬ k ≤ i.1.val := by
    intro i hi hcurrent hle
    exact hstop i.1 hle (eq_digit_of_current (hinv.rep.inWheel i hi) hcurrent).1
  refine ⟨lists, hinv.weaken fun i timer hi hok => (waiting_of_during hok (hdone i hi)).1, ?_,
    rfl, ?_⟩
  · intro level
    rw [if_pos level.isLt, hshows level]
    by_cases hlevel : level.val < k
    · rw [if_pos hlevel]
    · rw [if_neg hlevel, digit_pred_of_ne (hstop level (by omega))]
  · intro id timer htimer
    obtain ⟨t, hloc, hvalue⟩ := Option.bind_eq_some_iff.mp htimer
    obtain ⟨⟨i, hi⟩, -⟩ := hinv.rep.linked id t hloc
    have hok := hinv.placed i t hi timer hvalue
    rw [← hinv.rep.id_of_table htimer]
    exact (waiting_of_during hok (hdone i (List.ne_nil_of_mem hi))).2

variable [Inhabited D]

theorem moveLevel_timed {level : Level} (hlevel : 1 ≤ level.val)
    (hinv : Inv (during tk.toInt count level.val start) c [] lists)
    (hshows : Shows c.slot count level.val) (hzero : count % unit level = 0)
    (htk : Bounded tk) (fuel : Nat) :
    Exec.Safe (c.moveLevel fuel tk level) fun c' => ∃ lists',
      Inv (during tk.toInt count (level.val + 1) start) c' [] lists' ∧
      Shows c'.slot count (level.val + 1) ∧ c'.lastTime = c.lastTime := by
  have hnext := toInt_nextSlot c level (hinv.rep.slots level)
  have hshows' := hshows.advance level hzero hnext
  have hslots' := (hinv.rep.advance level).slots
  have hcurrent : Current count (level, c.nextSlot level) := by
    have hdigit : (c.nextSlot level).toInt = digit count level := by
      have hshown := hshows' level
      rwa [Function.update_self, if_pos (Nat.lt_succ_self _)] at hshown
    simp only [Current, period, digit] at hdigit ⊢
    rcases unit_size_cases level with ⟨hu, hz⟩ | ⟨hu, hz⟩ | ⟨hu, hz⟩ | ⟨hu, hz⟩ <;>
      rw [hu] at hzero hdigit ⊢ <;> rw [hz] at hdigit ⊢ <;> omega
  refine (hinv.moveLevel_safe fuel tk level ?_).mono ?_
  · intro log timer hok
    obtain ⟨hwhen, hstart, hserved, -⟩ := hok
    have hdue := (hserved hcurrent).2.resolve_left fun h => by
      have hval : level.val = 0 := h
      omega
    exact during_place hslots' hshows' (by omega) (by omega) (by omega) hwhen htk (le_refl _) hdue
      hstart
  · rintro c' ⟨lists', hinv', hslot', htime, -, hempty⟩
    refine ⟨lists', hinv'.weaken fun i timer hi hok => ?_, by rw [hslot']; exact hshows', htime⟩
    obtain ⟨hwhen, hstart, hserved, hother⟩ := hok
    refine ⟨hwhen, hstart, fun hcur => ⟨?_, (hserved hcur).2⟩, hother⟩
    -- the current list of this level is the one just emptied
    rcases Nat.lt_or_eq_of_le (hserved hcur).1 with hlt | heq
    · exact hlt
    · obtain ⟨other, s⟩ := i
      obtain rfl : level = other := Fin.ext heq
      have hdigit := (eq_digit_of_current (hinv'.rep.inWheel _ hi) hcur).2
      have hslot := (eq_digit_of_current (hslots' level) (by simpa using hcurrent)).2
      simp only [Function.update_self] at hslot
      have hs : s = c.nextSlot level := Int64.toInt_inj.mp (hdigit.trans hslot.symm)
      rw [hs] at hi
      exact absurd hempty hi

/-- The cascade from a level on, all levels below being done. -/
theorem cascade_timed (htk : Bounded tk) (fuel : Nat) :
    ∀ (levels : List Level) (k : Nat) {c : Clock D} {lists : Lists}, 1 ≤ k →
      levels.map Fin.val = List.range' k (4 - k) → k ≤ 4 →
      Inv (during tk.toInt count k start) c [] lists → Shows c.slot count k →
      (∀ level : Level, level.val + 1 = k → count % unit level = 0) →
      Exec.Safe (c.cascade fuel tk levels) (TickDone tk count start c.lastTime) := by
  intro levels
  induction levels with
  | nil =>
    intro k c lists hk hlevels hk4 hinv hshows _
    have hfour : 4 - k = 0 := by
      have hlength := congrArg List.length hlevels
      simpa using hlength.symm
    refine tickDone_of_stop hinv hshows fun level hle => ?_
    have hlt := level.isLt
    omega
  | cons i levels ih =>
    intro k c lists hk hlevels hk4 hinv hshows hbelow
    obtain ⟨n, hn⟩ : ∃ n, 4 - k = n + 1 := by
      cases hcase : 4 - k with
      | zero => simp [hcase] at hlevels
      | succ n => exact ⟨n, rfl⟩
    rw [hn, List.range'_succ, List.map_cons] at hlevels
    injection hlevels with hi hlevels
    subst hi
    -- the level below has come round exactly when the counter is a multiple of this unit
    have hpred : (i - 1).val + 1 = i.val := pred_add_one i hk
    have hshown : (c.slot (i - 1)).toInt = digit count (i - 1) := by
      rw [hshows (i - 1), if_pos (by omega)]
    have hround : (c.slot (i - 1)).toInt = 0 ↔ count % unit i = 0 := by
      have hzero := hbelow (i - 1) hpred
      rw [hshown, digit]
      rcases units_of_pos i hk with ⟨hu, hz, hu'⟩ | ⟨hu, hz, hu'⟩ | ⟨hu, hz, hu'⟩ <;>
        rw [hu] at hzero ⊢ <;> rw [hz, hu'] <;> omega
    by_cases hslot : c.slot (i - 1) ≠ 0
    · rw [cascade, if_pos hslot]
      have hne : count % unit i ≠ 0 := by
        rw [Ne, ← hround]
        intro h
        exact hslot (Int64.toInt_inj.mp (h.trans rfl))
      refine tickDone_of_stop hinv hshows fun level hle => ?_
      have hdvd : unit i ∣ unit level := unit_dvd_unit i level hle
      intro hzero
      exact hne (Int.emod_eq_zero_of_dvd (hdvd.trans (Int.dvd_of_emod_eq_zero hzero)))
    · rw [cascade, if_neg hslot]
      have hzero : count % unit i = 0 := by
        rw [← hround, not_not.mp hslot]
        rfl
      refine (moveLevel_timed hk hinv hshows hzero htk fuel).bind ?_
      rintro c' ⟨lists', hinv', hshows', htime⟩
      rw [← htime]
      refine ih (i.val + 1) (by omega) ?_ (by omega) hinv' hshows' ?_
      · rw [hlevels, show 4 - (i.val + 1) = n by omega]
      · intro level hlevel
        obtain rfl : level = i := Fin.ext (by omega)
        exact hzero

/-- **One tick.** If every timer waits less than a tick too long before it, the
same holds after it, and whatever is still pending was not due a tick ago or has
been refused in this tick. -/
theorem tick_timed {nowMs : Int64} (count : Int)
    (hinv : Inv (waiting (tk.toInt - 20) (count - 1)) c [] lists)
    (hshows : Shows c.slot (count - 1) 4) (htk : Bounded tk) (htime : Bounded c.lastTime)
    (hloop : tk.toInt ≤ c.lastTime.toInt) (hnow : c.lastTime.toInt ≤ nowMs.toInt) (env : Env D)
    (fuel : Nat) :
    Exec.Safe (c.tick env fuel nowMs tk) (TickDone tk count c.log.length c.lastTime) := by
  let c₁ : Clock D := { c with slot := Function.update c.slot 0 (c.nextSlot 0) }
  have hnext := toInt_nextSlot c 0 (hinv.rep.slots 0)
  have hshows₁ : Shows c₁.slot count 1 := by
    refine Shows.advance 0 ?_ (by simp [unit]) hnext
    intro level
    show _ = if level.val < 0 then _ else _
    rw [if_neg (Nat.not_lt_zero _), hshows level, if_pos level.isLt]
  have hinv₁ : Inv (during tk.toInt count 0 c.log.length) c₁ [] lists :=
    (hinv.weaken fun i timer _ hok => during_of_waiting hok (le_refl _)).advance 0
  have hslots₁ := hinv₁.rep.slots
  have hcurrent : Current count (0, c₁.slot 0) := by
    have hdigit := hshows₁ 0
    rw [if_pos (show (0 : Level).val < 1 by decide)] at hdigit
    simp only [Current, period, digit, unit, size] at hdigit ⊢
    omega
  refine Exec.Safe.bind (hinv₁.trigger_safe env fuel nowMs ?_ ?_) ?_
  · intro log timer hok _
    obtain ⟨hwhen, hstart, -, -⟩ := hok
    refine during_requeue ?_ hwhen hstart
    have hdigit := hshows₁ 0
    rw [if_pos (show (0 : Level).val < 1 by decide)] at hdigit
    rw [toInt_nextSlot c₁ 0 (hslots₁ 0), hdigit, Int.add_comm]
  · intro log timer hok hlater
    obtain ⟨hwhen, hstart, -, -⟩ := hok
    rw [Int64.le_iff_toInt_le, Int.not_le] at hlater
    exact during_place hslots₁ hshows₁ (le_refl _) (by omega) (by omega) hwhen htime hloop
      (by omega) hstart
  · rintro c' ⟨lists', hinv', hslot', htime', hempty⟩
    rw [show c.lastTime = c'.lastTime from htime'.symm]
    refine cascade_timed htk fuel [1, 2, 3] 1 (le_refl _) (by decide) (by decide)
      (hinv'.weaken fun i timer hi hok => ?_) (by rw [hslot']; exact hshows₁) ?_
    · obtain ⟨hwhen, hstart, hserved, hother⟩ := hok
      refine ⟨hwhen, hstart, fun hcur => ⟨?_, (hserved hcur).2⟩, hother⟩
      -- the current list of level 0 is the one just emptied
      rcases Nat.eq_zero_or_pos i.1.val with hzero | hpos
      · obtain ⟨level, s⟩ := i
        obtain rfl : level = 0 := Fin.ext hzero
        have hdigit := (eq_digit_of_current (hinv'.rep.inWheel _ hi) hcur).2
        have hslot := (eq_digit_of_current (hslots₁ 0) hcurrent).2
        have hs : s = c₁.slot 0 := Int64.toInt_inj.mp (hdigit.trans hslot.symm)
        rw [hs] at hi
        exact absurd hempty hi
      · exact hpos
    · intro level hlevel
      obtain rfl : level = 0 := Fin.ext (by simpa using hlevel)
      simp [unit]

end Tick

end Gokit.Clock
