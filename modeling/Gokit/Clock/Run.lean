/-
# The loop of the clock's goroutine

`run` reads the clock when it starts and then alternates between tasks and
batches of ticks.  A batch is entered on a reading `nowMs` of the clock, which may
be earlier than the one before: `lastTime` moves by whole ticks towards it, and
the ticks from the old `lastTime` up to the new one are made one by one.  Tasks
are served between batches only.
-/

import Gokit.Clock.Schedule

namespace Gokit.Clock

open Gokit.Math

variable {D : Type} [Inhabited D]

/-- Where the goroutine is: waiting in its `select`, or in the loop over the ticks
of a batch with the next tick `tk`. -/
inductive Phase
  | idle
  | ticking (nowMs tk : Int64)

structure Runner (D : Type) where
  clock : Clock D
  phase : Phase

/-- One step of `run`. All times that come from outside are bounded. -/
inductive RunStep : Runner D → Runner D → Prop
  | task {c c' : Clock D} (task : Task D) (htask : ∀ time, task.Sets time → Bounded time)
      (hperform : c.perform task = .ok c') : RunStep ⟨c, .idle⟩ ⟨c', .idle⟩
  | timer {c : Clock D} (nowMs : Int64) (hnow : Bounded nowMs) :
      RunStep ⟨c, .idle⟩
        ⟨{ c with lastTime := c.lastTime + si * ((nowMs - c.lastTime) / si) },
          .ticking nowMs (c.lastTime + si)⟩
  | tick {c c' : Clock D} {nowMs tk : Int64} (env : Env D) (fuel : Nat) (hloop : tk ≤ c.lastTime)
      (htick : c.tick env fuel nowMs tk = .ok c') :
      RunStep ⟨c, .ticking nowMs tk⟩ ⟨c', .ticking nowMs (tk + si)⟩
  | leave {c : Clock D} {nowMs tk : Int64} (hloop : ¬ tk ≤ c.lastTime) :
      RunStep ⟨c, .ticking nowMs tk⟩ ⟨c, .idle⟩

/-- The states a clock can get into from its start. -/
inductive Reaches : Runner D → Prop
  | start (nowMs : Int64) (hnow : Bounded nowMs) :
      Reaches ⟨{ newClock with lastTime := nowMs }, .idle⟩
  | step {r r' : Runner D} (hreach : Reaches r) (hstep : RunStep r r') : Reaches r'

/-! ## The goroutine makes runs of operations -/

variable {c : Clock D}

theorem run_concat (op : Op D) :
    ∀ {ops : List (Op D)} {start : Clock D}, start.run ops = .ok c →
      start.run (ops ++ [op]) = c.apply op := by
  intro ops
  induction ops with
  | nil =>
    intro start hrun
    obtain rfl : start = c := by simpa [run] using hrun
    cases happly : start.apply op <;> simp [run, happly]
  | cons first ops ih =>
    intro start hrun
    obtain ⟨mid, hfirst, hrest⟩ := Exec.bind_eq_ok_iff.mp hrun
    simp [run, hfirst, ih hrest]

/-- A run goes through each of its operations. -/
theorem run_split {start : Clock D} {op : Op D} {before after : List (Op D)}
    (hrun : start.run (before ++ op :: after) = .ok c) :
    ∃ mid mid', start.run before = .ok mid ∧ mid.apply op = .ok mid' ∧
      mid'.run after = .ok c := by
  induction before generalizing start with
  | nil =>
    obtain ⟨mid', happly, hrest⟩ := Exec.bind_eq_ok_iff.mp hrun
    exact ⟨start, mid', rfl, happly, hrest⟩
  | cons first before ih =>
    obtain ⟨next, hfirst, hrest⟩ := Exec.bind_eq_ok_iff.mp hrun
    obtain ⟨mid, mid', hbefore, happly, hafter⟩ := ih hrest
    exact ⟨mid, mid', by simp [run, hfirst, hbefore], happly, hafter⟩

/-- Every clock the goroutine reaches is the result of a run, so whatever holds
after every run holds at each of its steps. -/
theorem Reaches.exists_run {r : Runner D} (hreach : Reaches r) :
    ∃ ops, (newClock : Clock D).run ops = .ok r.clock := by
  induction hreach with
  | start nowMs hnow => exact ⟨[.setTime nowMs], rfl⟩
  | step hreach hstep ih =>
    obtain ⟨ops, hrun⟩ := ih
    cases hstep with
    | task task htask hperform =>
      exact ⟨ops ++ [.task task], (run_concat (.task task) hrun).trans hperform⟩
    | timer nowMs hnow => exact ⟨ops ++ [.setTime _], run_concat _ hrun⟩
    | @tick c c' nowMs tk env fuel hloop htick =>
      exact ⟨ops ++ [.tick env fuel nowMs tk],
        (run_concat (.tick env fuel nowMs tk) hrun).trans htick⟩
    | leave hloop => exact ⟨ops, hrun⟩

/-! ## Punctuality along the loop -/

structure IdleInv (c : Clock D) : Prop where
  lastTime : Bounded c.lastTime
  timed : ∃ count lists, Shows c.slot count 4 ∧ Inv (waiting c.lastTime.toInt count) c [] lists

/-- The invariant in a batch: the next tick is a whole number of ticks away from
`lastTime`, and if it is to be made the reading of the clock is not before it. -/
structure TickingInv (c : Clock D) (nowMs tk : Int64) : Prop where
  lastTime : Bounded c.lastTime
  low : -2 ^ 61 < tk.toInt
  high : tk.toInt < 2 ^ 61 + 20
  whole : (c.lastTime.toInt - tk.toInt) % 20 = 0
  now : tk.toInt ≤ c.lastTime.toInt → c.lastTime.toInt ≤ nowMs.toInt
  timed : ∃ count lists, Shows c.slot count 4 ∧ Inv (waiting (tk.toInt - 20) count) c [] lists

def RunInv : Runner D → Prop
  | ⟨c, .idle⟩ => IdleInv c
  | ⟨c, .ticking nowMs tk⟩ => TickingInv c nowMs tk

omit [Inhabited D] in
/-- At an earlier time every timer is served in time, too. -/
theorem Inv.earlier {now earlier count : Int} {lists : Lists}
    (hinv : Inv (waiting now count) c [] lists) (hle : earlier ≤ now) :
    Inv (waiting earlier count) c [] lists := by
  refine hinv.weaken fun i timer _ hok => ⟨hok.1, ?_⟩
  rcases hok.2 with hserved | hnext
  · left
    omega
  · exact Or.inr hnext

variable {nowMs : Int64}

omit [Inhabited D] in
/-- `lastTime` moves towards the reading of the clock by whole ticks. -/
theorem toInt_advance {lastTime : Int64} (hlast : Bounded lastTime) (hnow : Bounded nowMs) :
    ∃ ticks : Int, (lastTime + si * ((nowMs - lastTime) / si)).toInt =
        lastTime.toInt + 20 * ticks ∧
      (lastTime.toInt ≤ nowMs.toInt → 0 ≤ ticks ∧ lastTime.toInt + 20 * ticks ≤ nowMs.toInt) ∧
      (nowMs.toInt < lastTime.toInt → ticks ≤ 0 ∧ nowMs.toInt ≤ lastTime.toInt + 20 * ticks) := by
  obtain ⟨hlastLow, hlastHigh⟩ := hlast
  obtain ⟨hnowLow, hnowHigh⟩ := hnow
  have hsi := toInt_si
  have hsub : (nowMs - lastTime).toInt = nowMs.toInt - lastTime.toInt :=
    toInt_sub_of_fits (by omega) (by omega)
  have hquot : ((nowMs - lastTime) / si).toInt = (nowMs.toInt - lastTime.toInt).tdiv 20 := by
    rw [toInt_div_of_pos (by omega), hsub, hsi]
  obtain ⟨hnonneg, hneg⟩ := tdiv_si (nowMs.toInt - lastTime.toInt)
  have hmul : (si * ((nowMs - lastTime) / si)).toInt =
      20 * (nowMs.toInt - lastTime.toInt).tdiv 20 := by
    rw [toInt_mul_of_fits (by rw [hsi, hquot]; omega) (by rw [hsi, hquot]; omega), hsi, hquot]
  refine ⟨(nowMs.toInt - lastTime.toInt).tdiv 20, ?_, ?_, ?_⟩
  · rw [toInt_add_of_fits (by omega) (by omega), hmul]
  · intro hle
    omega
  · intro hlt
    omega

omit [Inhabited D] in
theorem Inv.setTime {G : Placement D} {lists : Lists} (hinv : Inv G c [] lists) (lastTime : Int64) :
    Inv G { c with lastTime } [] lists :=
  ⟨hinv.rep.congr rfl rfl rfl hinv.rep.slots, hinv.accounts.congr rfl rfl, hinv.placed⟩

omit [Inhabited D] in
theorem idleInv_start (hnow : Bounded nowMs) :
    IdleInv ({ newClock with lastTime := nowMs } : Clock D) where
  lastTime := hnow
  timed := by
    refine ⟨0, fun _ => [], ?_, (inv_newClock (waiting nowMs.toInt 0)).setTime nowMs⟩
    show ∀ level : Level, (0 : Int64).toInt =
      if level.val < 4 then digit 0 level else digit (0 - 1) level
    decide

/-- A task keeps the timers on time. -/
theorem IdleInv.task {c' : Clock D} (hinv : IdleInv c) {task : Task D}
    (htask : ∀ time, task.Sets time → Bounded time) (hperform : c.perform task = .ok c') :
    IdleInv c' := by
  obtain ⟨count, lists, hshows, htimed⟩ := hinv.timed
  obtain ⟨c'', lists', hperform', htimed', hslot, htime⟩ := htimed.perform_spec task
    fun log timer hsets =>
      waiting_place htimed.rep.slots hshows (htask timer.when hsets) hinv.lastTime
  obtain rfl := Except.ok.inj (hperform'.symm.trans hperform)
  rw [← hslot] at hshows
  rw [← htime] at htimed'
  exact ⟨htime ▸ hinv.lastTime, count, lists', hshows, htimed'⟩

omit [Inhabited D] in
/-- A reading of the clock opens a batch. -/
theorem IdleInv.timer (hinv : IdleInv c) (hnow : Bounded nowMs) :
    TickingInv { c with lastTime := c.lastTime + si * ((nowMs - c.lastTime) / si) } nowMs
      (c.lastTime + si) := by
  obtain ⟨count, lists, hshows, htimed⟩ := hinv.timed
  obtain ⟨ticks, hadvance, hforward, hback⟩ := toInt_advance hinv.lastTime hnow
  obtain ⟨hlow, hhigh⟩ := hinv.lastTime
  obtain ⟨hnowLow, hnowHigh⟩ := hnow
  have hsi := toInt_si
  have htk : (c.lastTime + si).toInt = c.lastTime.toInt + 20 := by
    rw [toInt_add_of_fits (by omega) (by omega), hsi]
  exact
    { lastTime := ⟨by simp only; omega, by simp only; omega⟩
      low := by omega
      high := by omega
      whole := by simp only; omega
      now := by simp only; omega
      timed := by
        rw [htk, Int.add_sub_cancel]
        exact ⟨count, lists, hshows, htimed.setTime _⟩ }

/-- A tick of a batch. -/
theorem TickingInv.tick {tk : Int64} (hinv : TickingInv c nowMs tk) (hloop : tk ≤ c.lastTime)
    (env : Env D) (fuel : Nat) :
    Exec.Safe (c.tick env fuel nowMs tk) fun c' => TickingInv c' nowMs (tk + si) ∧
      ∀ id timer, c'.table id = some timer →
        tk.toInt - 20 < timer.when.toInt ∨ .refused id ∈ c'.log.drop c.log.length := by
  obtain ⟨count, lists, hshows, htimed⟩ := hinv.timed
  obtain ⟨hlow, hhigh⟩ := hinv.lastTime
  have htkLow := hinv.low
  have hwhole := hinv.whole
  have hsi := toInt_si
  rw [Int64.le_iff_toInt_le] at hloop
  have hnow := hinv.now hloop
  have htk : (tk + si).toInt = tk.toInt + 20 := by
    rw [toInt_add_of_fits (by omega) (by omega), hsi]
  refine (tick_timed (count + 1) (by simpa using htimed) (by simpa using hshows)
    ⟨htkLow, by omega⟩ hinv.lastTime hloop hnow env fuel).mono ?_
  rintro c' ⟨lists', htimed', hshows', htime, hserved⟩
  refine ⟨?_, hserved⟩
  exact
    { lastTime := htime ▸ hinv.lastTime
      low := by omega
      high := by omega
      whole := by rw [htime]; omega
      now := by rw [htime]; omega
      timed := by
        rw [htk, Int.add_sub_cancel]
        exact ⟨count + 1, lists', hshows', htimed'⟩ }

omit [Inhabited D] in
/-- The end of a batch. -/
theorem TickingInv.leave {tk : Int64} (hinv : TickingInv c nowMs tk) (hloop : ¬ tk ≤ c.lastTime) :
    IdleInv c where
  lastTime := hinv.lastTime
  timed := by
    obtain ⟨count, lists, hshows, htimed⟩ := hinv.timed
    have hwhole := hinv.whole
    rw [Int64.le_iff_toInt_le] at hloop
    exact ⟨count, lists, hshows, htimed.earlier (by omega)⟩

theorem Reaches.inv {r : Runner D} (hreach : Reaches r) : RunInv r := by
  induction hreach with
  | start nowMs hnow => exact idleInv_start hnow
  | step hreach hstep ih =>
    cases hstep with
    | task task htask hperform => exact IdleInv.task ih htask hperform
    | timer nowMs hnow => exact IdleInv.timer ih hnow
    | tick env fuel hloop htick =>
      have hsafe := TickingInv.tick ih hloop env fuel
      rw [htick, Exec.safe_ok] at hsafe
      exact hsafe.1
    | leave hloop => exact TickingInv.leave ih hloop

/-- **No timer is served more than one tick late.** In every state the goroutine
can reach and for every tick it is about to make, each timer still pending after
the tick was due less than one tick before it or later, unless its receiver
refused it in this tick. -/
theorem tick_serves_in_time {tk : Int64} (hreach : Reaches ⟨c, .ticking nowMs tk⟩)
    (hloop : tk ≤ c.lastTime) (env : Env D) (fuel : Nat) :
    Exec.Safe (c.tick env fuel nowMs tk) fun c' => ∀ id timer, c'.table id = some timer →
      tk.toInt - 20 < timer.when.toInt ∨ .refused id ∈ c'.log.drop c.log.length :=
  (TickingInv.tick hreach.inv hloop env fuel).mono fun _ h => h.2

/-- The theorem at the first tick of a batch of two, with one timer pending. -/
theorem tick_serves_in_time_first :
    ∃ c c' : Clock Nat, Reaches ⟨c, .ticking 45 20⟩ ∧ (20 : Int64) ≤ c.lastTime ∧
      c.tick ⟨fun _ _ => true, id, fun _ => .refl _⟩ 5 45 20 = .ok c' ∧
      ∀ id timer, c'.table id = some timer →
        (20 : Int64).toInt - 20 < timer.when.toInt ∨ .refused id ∈ c'.log.drop c.log.length := by
  have hreach : ∃ c : Clock Nat, Reaches ⟨c, .ticking 45 20⟩ ∧ (20 : Int64) ≤ c.lastTime ∧
      ∃ c', c.tick ⟨fun _ _ => true, id, fun _ => .refl _⟩ 5 45 20 = .ok c' := by
    refine ⟨_, .step (.step (.start 0 ⟨by decide, by decide⟩)
      (.task (.newTimer 30 7 (some 1) none) ?_ rfl)) (.timer 45 ⟨by decide, by decide⟩),
      by decide, _, rfl⟩
    rintro time rfl
    exact ⟨by decide, by decide⟩
  obtain ⟨c, hreach, hloop, c', htick⟩ := hreach
  have hsafe := tick_serves_in_time hreach hloop ⟨fun _ _ => true, id, fun _ => .refl _⟩ 5
  rw [htick, Exec.safe_ok] at hsafe
  exact ⟨c, c', hreach, hloop, htick, hsafe⟩

end Gokit.Clock
