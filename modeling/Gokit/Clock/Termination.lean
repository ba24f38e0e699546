/-
# Which ticks return

A tick walks up to four lists, popping timers until a list is empty, while its callbacks
put timers back into the wheel.  A walk ends, having visited every timer once, if no timer
goes back to the list it came from.  For a timer within the range of the wheel this is so,
because it is put at least one slot ahead of the pointer of its level; and it is so for
timers put into the next slot of level 0.

A timer beyond the range of the wheel is parked in the last slot of level 3.  When the
pointer of level 3 moves onto this slot the timer is popped, parked again, and popped
again: the tick does not return.  We say exactly when this happens, and show a run of
the goroutine in which it does.
-/

import Gokit.Clock.Run

namespace Gokit.Clock

open Gokit.Math

variable {D : Type}

/-! ## Ticks that do not return -/

def LinkedAt (c : Clock D) (i : Level × Int64) (timer : Timer D) : Prop :=
  ∃ ts t, Exec.Returns (fun fuel => c.timersAt fuel i) ts ∧ t ∈ ts ∧
    valueOf c.heap t = some timer

/-- The pointers right before level 3 moves onto its last slot. -/
def brink : Level → Int64
  | 0 => 1023
  | 1 => 255
  | 2 => 63
  | 3 => 62

/-- The lists that are walked after level 0 when the pointers are at the brink. -/
inductive Walked : Level × Int64 → Prop
  | one : Walked (1, 0)
  | two : Walked (2, 0)
  | three : Walked (3, levelMasks 3)

/-- Seen from the tick, the timer is beyond the range of the wheel. -/
structure Far (timer : Timer D) (tkTime : Int64) : Prop where
  beyond : levelTicks 3 ≤ ticksUntil timer.when tkTime

/-- A timer is met by the cascade from the brink: its list is walked, or `trigger` puts it into
one that is. -/
inductive Met (when lastTime nowMs : Int64) : Level × Int64 → Prop
  | walked {i : Level × Int64} (hwalked : Walked i) : Met when lastTime nowMs i
  | triggered (hlater : ¬ when ≤ nowMs)
      (hwalked : Walked (place (Function.update brink 0 0) when lastTime)) :
      Met when lastTime nowMs (0, 0)

/-- The tick moves level 3 onto its last slot, and meets a timer that is parked there or will
be: one that is in a list to be walked, or that is put into one by `trigger`. -/
def Stuck (c : Clock D) (nowMs tkTime : Int64) : Prop :=
  c.slot = brink ∧ ∃ i timer, c.LinkedAt i timer ∧ Far timer tkTime ∧
    Met timer.when c.lastTime nowMs i

/-! ## Walks that visit every timer once -/

section Visits

variable {S : Type}

/-- The callback, writing down the timers it is called for. -/
def recording (fn : Clock D × S → Ptr → Exec (Clock D × S)) (state : Clock D × S × List Ptr)
    (t : Ptr) : Exec (Clock D × S × List Ptr) := do
  let (c, s) ← fn (state.1, state.2.1) t
  .ok (c, s, state.2.2 ++ [t])

/-- The walk over a slot returns, and has called its callback once for each timer that was in
the slot when it began. -/
def VisitsOnce (fn : Clock D × S → Ptr → Exec (Clock D × S)) (c : Clock D) (s : S)
    (i : Level × Int64) : Prop :=
  ∃ ts, Exec.Returns (fun fuel => c.timersAt fuel i) ts ∧ ts.Nodup ∧
    ∀ root, c.tw i = some root → ∃ c' s',
      Exec.Returns (fun fuel => popRange (recording fn) root fuel (c, s, [])) (c', s', ts)

variable [Inhabited D]

/-- The walks of the cascade visit every timer once. -/
def CascadeVisits (tkTime : Int64) : List Level → Clock D → Prop
  | [], _ => True
  | i :: levels, c => c.slot (i - 1) = 0 →
      VisitsOnce (demote tkTime)
          { c with slot := Function.update c.slot i (c.nextSlot i) } () (i, c.nextSlot i) ∧
        ∀ c', Exec.Returns (fun fuel => c.moveLevel fuel tkTime i) c' →
          CascadeVisits tkTime levels c'

/-- The tick returns, and each of its walks visits every timer once. -/
structure Terminates (env : Env D) (c : Clock D) (nowMs tkTime : Int64) : Prop where
  returns : ∃ c', Exec.Returns (fun fuel => c.tick env fuel nowMs tkTime) c'
  trigger : VisitsOnce (fire env nowMs)
    { c with slot := Function.update c.slot 0 (c.nextSlot 0) } [] (0, c.nextSlot 0)
  cascade : ∀ c', Exec.Returns (fun fuel =>
      ({ c with slot := Function.update c.slot 0 (c.nextSlot 0) } : Clock D).trigger env fuel
        nowMs) c' →
    CascadeVisits tkTime [1, 2, 3] c'

end Visits

/-! ## Places and pointers -/

variable {level : Level}

section Places

variable {slot : Level → Int64}

/-- Going ahead by less than a full round leads somewhere else. -/
theorem add_emod_ne {steps s n : Int} (hlow : 1 ≤ steps) (hhigh : steps < n) (hs : 0 ≤ s)
    (hn : s < n) : (steps + s) % n ≠ s := by
  by_cases hwrap : steps + s < n
  · rw [Int.emod_eq_of_lt (by omega) hwrap]
    omega
  · rw [← Int.sub_emod_right, Int.emod_eq_of_lt (by omega) (by omega)]
    omega

/-- A timer is put into the current slot of a level only when it is beyond the range of the
wheel and this is the last slot. -/
theorem eq_last_of_place (hslots : ∀ level, InWheel (level, slot level)) {when base : Int64}
    (hplace : place slot when base = (level, slot level)) :
    level = 3 ∧ slot level = levelMasks 3 ∧ levelTicks 3 ≤ ticksUntil when base := by
  have hcase := placeCase_place hslots when base
  have hticks : (levelTicks 3).toInt = period 3 := by decide
  rw [Int64.le_iff_toInt_le, hticks]
  generalize (ticksUntil when base).toInt = ticks at hcase ⊢
  generalize hi : place slot when base = i at hcase hplace
  cases hcase with
  | near other s hlow hhigh hslot =>
    obtain ⟨rfl, rfl⟩ := Prod.mk.inj hplace
    obtain ⟨hsteps, hsize, -⟩ := steps_bounds hlow hhigh
    obtain ⟨hfirst, hlast⟩ := inWheel_iff.mp (hslots other)
    rw [toInt_levelSlots_eq] at hlast
    exact absurd hslot.symm (add_emod_ne hsteps hsize hfirst hlast)
  | far hfar =>
    obtain ⟨rfl, hlast⟩ := Prod.mk.inj hplace
    exact ⟨rfl, hlast.symm, hfar⟩

theorem levelTicks_le (level : Level) : levelTicks level ≤ levelTicks 3 := by
  fin_cases level <;> decide

theorem place_of_far {timer : Timer D} {tkTime : Int64} (hfar : Far timer tkTime) :
    place slot timer.when tkTime = (3, levelMasks 3) := by
  replace hfar := hfar.beyond
  unfold place
  generalize ticksUntil timer.when tkTime = ticks at hfar ⊢
  have hnone : ((List.finRange 4).find? fun level => decide (ticks < levelTicks level)) =
      none := by
    refine List.find?_eq_none.mpr fun level _ => ?_
    rw [decide_eq_true_eq, Int64.not_lt]
    exact Int64.le_trans (levelTicks_le level) hfar
  dsimp only
  rw [hnone]

end Places

/-! ## What a callback leaves alone -/

/-- The timers that are linked stay where they are, and so do the pointers of the wheel. -/
structure Keeps (c c' : Clock D) (lists lists' : Lists) : Prop where
  rep : Rep c' lists'
  mem : ∀ i u, u ∈ lists i → u ∈ lists' i
  value : ∀ u timer, valueOf c.heap u = some timer → valueOf c'.heap u = some timer
  roots : ∀ j root, c.tw j = some root → c'.tw j = some root
  slot : c'.slot = c.slot
  lastTime : c'.lastTime = c.lastTime

section Keeps

variable {c c' : Clock D} {lists lists' : Lists} {t : Ptr} {timer : Timer D}

theorem Lists.put_of_ne (lists : Lists) {i j : Level × Int64} (t : Ptr) (hne : i ≠ j) :
    lists.put j t i = lists i := Function.update_of_ne hne _ _

theorem Relinked.keeps {i : Level × Int64} (hrelinked : Relinked c c' lists i t timer) :
    Keeps c c' lists (lists.put i t) where
  rep := hrelinked.rep
  mem _ _ hu := Lists.mem_put.mpr (Or.inl hu)
  value := hrelinked.keep
  roots := hrelinked.roots
  slot := hrelinked.slot
  lastTime := hrelinked.lastTime

theorem FireEffect.keeps {nowMs : Int64} {batchs batchs' : Batches D} (hheld : Held c lists t timer)
    (heffect : FireEffect nowMs c batchs lists t timer c' batchs' lists') :
    Keeps c c' lists lists' := by
  obtain ⟨hslot, htime, -, hroots⟩ := heffect.frame
  refine ⟨heffect.rep hheld, ?_, ?_, hroots, hslot, htime⟩
  · intro i u hu
    cases heffect with
    | sent | gathered => exact hu
    | requeued | readded => exact Lists.mem_put.mpr (Or.inl hu)
  · intro u timer' hvalue
    cases heffect with
    | sent | gathered => exact hvalue
    | requeued _ _ hrelinked => exact hrelinked.keep u timer' hvalue
    | readded _ _ hrelinked => exact hrelinked.keep u timer' hvalue

end Keeps

/-! ## Walks that return -/

section Returns

variable {c : Clock D} {lists : Lists}

theorem nextSlot_ne (hrep : Rep c lists) (level : Level) : c.nextSlot level ≠ c.slot level := by
  intro heq
  have hnext := toInt_nextSlot c level (hrep.slots level)
  obtain ⟨hfirst, hlast⟩ := inWheel_iff.mp (hrep.slots level)
  rw [toInt_levelSlots_eq] at hlast
  have hsize : 1 < size level := by
    rcases unit_size_cases level with ⟨-, h⟩ | ⟨-, h⟩ | ⟨-, h⟩ | ⟨-, h⟩ <;> omega
  rw [heq, Int.add_comm] at hnext
  exact add_emod_ne le_rfl hsize hfirst hlast hnext.symm

/-- No timer goes back to the current slot of level 0. -/
theorem FireEffect.current {nowMs : Int64} {batchs batchs' : Batches D} {c' : Clock D}
    {lists' : Lists} {t : Ptr} {timer : Timer D} (hheld : Held c lists t timer)
    (heffect : FireEffect nowMs c batchs lists t timer c' batchs' lists') :
    lists' (0, c.slot 0) = lists (0, c.slot 0) := by
  cases heffect with
  | sent | gathered => rfl
  | requeued =>
    refine lists.put_of_ne t fun heq => ?_
    exact nextSlot_ne hheld.rep 0 (Prod.mk.inj heq).2.symm
  | readded =>
    refine lists.put_of_ne t fun heq => ?_
    exact absurd (eq_last_of_place hheld.rep.slots heq.symm).1 (by decide)

/-! ### The rule for a walk -/

variable {S : Type} {fn : Clock D × S → Ptr → Exec (Clock D × S)} {i : Level × Int64}

/-- Writing down what is visited changes nothing else. -/
theorem popRange_of_recording {root : Ptr} {c' : Clock D} {s' : S} {seen' : List Ptr} :
    ∀ {fuel : Nat} {c : Clock D} {s : S} {seen : List Ptr},
      popRange (recording fn) root fuel (c, s, seen) = .ok (c', s', seen') →
      popRange fn root fuel (c, s) = .ok (c', s') := by
  intro fuel
  induction fuel with
  | zero =>
    intro c s seen hpop
    cases hpop
  | succ fuel ih =>
    intro c s seen hpop
    simp only [popRange] at hpop ⊢
    obtain ⟨empty, hempty, hpop⟩ := Exec.bind_eq_ok_iff.mp hpop
    rw [hempty, Exec.ok_bind]
    cases empty with
    | true =>
      obtain ⟨rfl, rfl, -⟩ : c = c' ∧ s = s' ∧ seen = seen' := by simpa using hpop
      rfl
    | false =>
      simp only [Bool.false_eq_true, if_false] at hpop ⊢
      obtain ⟨next, hnext, hpop⟩ := Exec.bind_eq_ok_iff.mp hpop
      obtain ⟨t, ht, hpop⟩ := Exec.bind_eq_ok_iff.mp hpop
      obtain ⟨removed, hremove, hpop⟩ := Exec.bind_eq_ok_iff.mp hpop
      obtain ⟨state, hstate, hpop⟩ := Exec.bind_eq_ok_iff.mp hpop
      obtain ⟨⟨c₁, s₁⟩, hfn, hrecorded⟩ := Exec.bind_eq_ok_iff.mp hstate
      obtain rfl := Except.ok.inj hrecorded
      simp only [hnext, ht, hremove, hfn, Exec.ok_bind]
      exact ih hpop

/-- A callback that does not put a timer back on the list is called once for each timer. -/
theorem popRange_recording {root : Ptr} (P : Clock D → S → Lists → Prop)
    (hrep : ∀ c s lists, P c s lists → Rep c lists ∧ c.tw i = some root)
    (hround : ∀ c s lists t rest heap timer, P c s lists → lists i = t :: rest →
      valueOf heap = valueOf c.heap →
      Held { c with heap } (Function.update lists i rest) t timer →
      ∃ c' s' lists', fn ({ c with heap }, s) t = .ok (c', s') ∧ P c' s' lists' ∧
        lists' i = rest) :
    ∀ todo c s lists, P c s lists → lists i = todo →
      ∃ c' s', ∀ seen fuel, todo.length < fuel →
        popRange (recording fn) root fuel (c, s, seen) = .ok (c', s', seen ++ todo) := by
  intro todo
  induction todo with
  | nil =>
    intro c s lists hP hlist
    obtain ⟨hrep', hroot⟩ := hrep c s lists hP
    refine ⟨c, s, fun seen fuel hfuel => ?_⟩
    obtain ⟨fuel, rfl⟩ : ∃ smaller, fuel = smaller + 1 := ⟨fuel - 1, by omega⟩
    rw [List.append_nil]
    exact hrep'.popRange_nil hroot hlist (recording fn) fuel (s, seen)
  | cons t rest ih =>
    intro c s lists hP hlist
    obtain ⟨hrep', hroot⟩ := hrep c s lists hP
    obtain ⟨heap, timer, hvalues, -, hheld, hunfold⟩ :=
      hrep'.popRange_cons hroot hlist (recording fn)
    obtain ⟨c₁, s₁, lists₁, hfn, hP₁, hlist₁⟩ :=
      hround c s lists t rest heap timer hP hlist hvalues hheld
    obtain ⟨c', s', hr⟩ := ih c₁ s₁ lists₁ hP₁ hlist₁
    refine ⟨c', s', fun seen fuel hfuel => ?_⟩
    rw [List.length_cons] at hfuel
    obtain ⟨fuel, rfl⟩ : ∃ smaller, fuel = smaller + 1 := ⟨fuel - 1, by omega⟩
    have hstep : recording fn ({ c with heap }, s, seen) t = .ok (c₁, s₁, seen ++ [t]) := by
      simp [recording, hfn]
    rw [hunfold, hstep, Exec.ok_bind, hr (seen ++ [t]) fuel (by omega), List.append_assoc,
      List.singleton_append]

/-- The rule: as long as no timer is put back into its slot, every timer of it is visited
once. -/
theorem Rep.visitsOnce (hrep : Rep c lists) (hwheel : InWheel i) (s : S)
    (P : Clock D → S → Lists → Prop) (hstart : P c s lists) (hrep' : ∀ c s lists, P c s lists →
      Rep c lists)
    (hround : ∀ c s lists t rest heap timer, P c s lists → lists i = t :: rest →
      valueOf heap = valueOf c.heap →
      Held { c with heap } (Function.update lists i rest) t timer →
      ∃ c' s' lists', fn ({ c with heap }, s) t = .ok (c', s') ∧ P c' s' lists' ∧
        (∀ j root, c.tw j = some root → c'.tw j = some root) ∧ lists' i = rest) :
    VisitsOnce fn c s i := by
  refine ⟨lists i, ⟨(lists i).length + 1, fun fuel hfuel => hrep.timersAt_spec hwheel hfuel⟩,
    hrep.rings.nodup i, ?_⟩
  intro root hroot
  obtain ⟨c', s', hr⟩ := popRange_recording (i := i)
    (fun c s lists => P c s lists ∧ c.tw i = some root)
    (fun c s lists h => ⟨hrep' c s lists h.1, h.2⟩)
    (fun c s lists t rest heap timer h hlist hvalues hheld => by
      obtain ⟨c', s', lists', hfn, hP, hroots, hrest⟩ :=
        hround c s lists t rest heap timer h.1 hlist hvalues hheld
      exact ⟨c', s', lists', hfn, ⟨hP, hroots i root h.2⟩, hrest⟩)
    (lists i) c s lists ⟨hstart, hroot⟩ rfl
  exact ⟨c', s', (lists i).length + 1, fun fuel hfuel => hr [] fuel hfuel⟩

variable [Inhabited D]

/-! ### The walks of a tick -/

/-- The walk of `trigger` visits every timer once. -/
theorem Rep.trigger_visitsOnce (hrep : Rep c lists) (env : Env D) (nowMs : Int64) :
    VisitsOnce (fire env nowMs) c [] (0, c.slot 0) := by
  refine hrep.visitsOnce (hrep.slots 0) []
    (fun c' _ lists' => Rep c' lists' ∧ c'.slot = c.slot) ⟨hrep, rfl⟩ (fun _ _ _ h => h.1) ?_
  rintro c' batchs' lists' t rest heap timer ⟨-, hslot⟩ hlist - hheld
  obtain ⟨c'', batchs'', lists'', hfire, heffect⟩ := hheld.fire_spec env nowMs batchs'
  have hkeeps := heffect.keeps hheld
  refine ⟨c'', batchs'', lists'', hfire, ⟨hkeeps.rep, hkeeps.slot.trans hslot⟩,
    hkeeps.roots, ?_⟩
  have hcurrent := heffect.current hheld
  simp only [hslot] at hcurrent
  rw [hcurrent, Function.update_self]

/-- The walk of a level of the cascade visits every timer once, unless one of the timers is put
back into the slot. -/
theorem Rep.moveLevel_visitsOnce (hrep : Rep c lists) (tkTime : Int64) (level : Level)
    (haway : ∀ t ∈ lists (level, c.nextSlot level), ∀ timer, valueOf c.heap t = some timer →
      place (Function.update c.slot level (c.nextSlot level)) timer.when tkTime ≠
        (level, c.nextSlot level)) :
    VisitsOnce (demote tkTime)
      { c with slot := Function.update c.slot level (c.nextSlot level) } ()
      (level, c.nextSlot level) := by
  let slot := Function.update c.slot level (c.nextSlot level)
  have hrep₁ : Rep { c with slot := slot } lists := hrep.advance level
  have hwheel : InWheel (level, c.nextSlot level) := inWheel_mask level (c.slot level + 1)
  refine hrep₁.visitsOnce hwheel () (fun c' _ lists' => Rep c' lists' ∧ c'.slot = slot ∧
    ∀ t ∈ lists' (level, c.nextSlot level), ∀ timer, valueOf c'.heap t = some timer →
      place slot timer.when tkTime ≠ (level, c.nextSlot level)) ⟨hrep₁, rfl, haway⟩
    (fun _ _ _ h => h.1) ?_
  rintro c' _ lists' t rest heap timer ⟨hrep', hslot, haway'⟩ hlist hvalues hheld
  obtain ⟨c'', hdemote, hrelinked⟩ := hheld.demote_spec tkTime
  have hvalue : valueOf c'.heap t = some timer := by
    rw [← hvalues]
    exact hheld.value
  have hne := haway' t (by rw [hlist]; exact List.mem_cons_self) timer hvalue
  rw [← hslot] at hne
  have hrest : Lists.put (Function.update lists' (level, c.nextSlot level) rest)
      (place c'.slot timer.when tkTime) t (level, c.nextSlot level) = rest := by
    rw [Lists.put_of_ne _ t (Ne.symm hne), Function.update_self]
  refine ⟨c'', (), _, hdemote, ⟨hrelinked.rep, hrelinked.slot.trans hslot, ?_⟩,
    hrelinked.roots, hrest⟩
  rw [hrest]
  intro u hu other hother
  have hu' : u ∈ lists' (level, c.nextSlot level) := by
    rw [hlist]
    exact List.mem_cons_of_mem t hu
  obtain ⟨value, hvalue'⟩ := hrep'.exists_value hu'
  have hkept := hrelinked.keep u value (by show valueOf heap u = _; rw [hvalues, hvalue'])
  obtain rfl := Option.some.inj (hkept.symm.trans hother)
  exact haway' u hu' value hvalue'

theorem VisitsOnce.trigger_returns (hrep : Rep c lists) {env : Env D} {nowMs : Int64}
    (hvisits : VisitsOnce (fire env nowMs) c [] (0, c.slot 0)) :
    ∃ c', Exec.Returns (fun fuel => c.trigger env fuel nowMs) c' := by
  obtain ⟨ts, -, -, hwalk⟩ := hvisits
  cases hroot : c.tw (0, c.slot 0) with
  | none => exact ⟨c, 0, fun fuel _ => hrep.trigger_of_none hroot env fuel nowMs⟩
  | some root =>
    obtain ⟨c', batchs', enough, henough⟩ := hwalk root hroot
    refine ⟨c'.sendBatches (env.order batchs'), enough, fun fuel hfuel => ?_⟩
    show c.trigger env fuel nowMs = _
    rw [hrep.trigger_of_some hroot, popRange_of_recording (henough fuel hfuel), Exec.ok_bind]

theorem VisitsOnce.moveLevel_returns (hrep : Rep c lists) {tkTime : Int64}
    (hvisits : VisitsOnce (demote tkTime)
      { c with slot := Function.update c.slot level (c.nextSlot level) } ()
      (level, c.nextSlot level)) :
    ∃ c', Exec.Returns (fun fuel => c.moveLevel fuel tkTime level) c' := by
  obtain ⟨ts, -, -, hwalk⟩ := hvisits
  cases hroot : c.tw (level, c.nextSlot level) with
  | none => exact ⟨_, 0, fun fuel _ => hrep.moveLevel_of_none hroot fuel tkTime⟩
  | some root =>
    obtain ⟨c', s', enough, henough⟩ := hwalk root hroot
    refine ⟨c', enough, fun fuel hfuel => ?_⟩
    show c.moveLevel fuel tkTime level = _
    rw [hrep.moveLevel_of_some hroot, popRange_of_recording (henough fuel hfuel), Exec.ok_bind]

end Returns

/-! ## Ticks that return -/

section NotStuck

variable {c : Clock D} {lists : Lists} {slot : Level → Int64} {lastTime nowMs tkTime : Int64}

/-- Pointers that come round to zero, and to the last slot of level 3, were at the brink. -/
theorem slot_eq_brink (hrep : Rep c lists) (h0 : c.nextSlot 0 = 0) (h1 : c.nextSlot 1 = 0)
    (h2 : c.nextSlot 2 = 0) (h3 : c.nextSlot 3 = levelMasks 3) : c.slot = brink := by
  have hback : ∀ level (target old : Int64), c.nextSlot level = target →
      old.toInt = (target.toInt - 1) % size level → c.slot level = old := by
    intro level target old htarget hold
    have hnext := toInt_nextSlot c level (hrep.slots level)
    obtain ⟨hfirst, hlast⟩ := inWheel_iff.mp (hrep.slots level)
    rw [toInt_levelSlots_eq] at hlast
    rw [htarget] at hnext
    rw [← Int64.toInt_inj, hold, hnext, Int.emod_sub_emod, Int.add_sub_cancel,
      Int.emod_eq_of_lt hfirst hlast]
  funext level
  fin_cases level
  · exact hback 0 0 1023 h0 (by decide)
  · exact hback 1 0 255 h1 (by decide)
  · exact hback 2 0 63 h2 (by decide)
  · exact hback 3 (levelMasks 3) 62 h3 (by decide)

theorem Walked.level_ne {i : Level × Int64} (h : Walked i) : i.1 ≠ 0 := by
  cases h <;> decide

/-- Reading the slots of the wheel. -/
theorem Rep.linkedAt_iff (hrep : Rep c lists) {i : Level × Int64} {timer : Timer D} :
    c.LinkedAt i timer ↔ ∃ t ∈ lists i, valueOf c.heap t = some timer := by
  have hreads : InWheel i → Exec.Returns (fun fuel => c.timersAt fuel i) (lists i) := by
    intro hwheel
    exact ⟨(lists i).length + 1, fun fuel hfuel => hrep.timersAt_spec hwheel hfuel⟩
  constructor
  · rintro ⟨ts, t, hts, ht, hvalue⟩
    by_cases hwheel : InWheel i
    · obtain rfl := hts.unique (hreads hwheel)
      exact ⟨t, ht, hvalue⟩
    · obtain ⟨enough, henough⟩ := hts
      have hfault := henough enough le_rfl
      simp [timersAt, listAt, hwheel] at hfault
  · rintro ⟨t, ht, hvalue⟩
    exact ⟨lists i, t, hreads (hrep.inWheel i (List.ne_nil_of_mem ht)), ht, hvalue⟩

/-- At the brink, no timer beyond the range of the wheel is met. -/
def clear (slot : Level → Int64) (lastTime nowMs tkTime : Int64) : Placement D where
  ok _ i timer := slot = brink → Far timer tkTime → ¬ Met timer.when lastTime nowMs i
  mono _ _ _ _ := id

theorem Inv.clear_of_not_stuck (hinv : Inv .any c [] lists) (hfree : ¬ c.Stuck nowMs tkTime) :
    Inv (clear c.slot c.lastTime nowMs tkTime) c [] lists where
  rep := hinv.rep
  accounts := hinv.accounts
  placed i t ht timer hvalue hbrink hfar hmet := by
    have hlinked : c.LinkedAt i timer := hinv.rep.linkedAt_iff.mpr ⟨t, ht, hvalue⟩
    exact hfree ⟨hbrink, i, timer, hlinked, hfar, hmet⟩

/-- A timer goes back to the slot its level moves to only from beyond the range of the wheel. -/
theorem Rep.eq_last_of_place (hrep : Rep c lists) {when : Int64}
    (hplace : place (Function.update c.slot level (c.nextSlot level)) when tkTime =
      (level, c.nextSlot level)) :
    level = 3 ∧ c.nextSlot level = levelMasks 3 ∧ levelTicks 3 ≤ ticksUntil when tkTime := by
  have hcurrent : place (Function.update c.slot level (c.nextSlot level)) when tkTime =
      (level, Function.update c.slot level (c.nextSlot level) level) := by
    rw [Function.update_self]
    exact hplace
  have hlast := Clock.eq_last_of_place (hrep.advance level).slots hcurrent
  simp only [Function.update_self] at hlast
  exact hlast

/-- The first pointer comes round at the brink. -/
theorem nextSlot_zero_of_brink (hbrink : c.slot = brink) : c.nextSlot 0 = 0 := by
  rw [nextSlot, hbrink]
  decide

variable [Inhabited D]

/-- A level of the cascade below the last. -/
theorem Inv.moveLevel_clear (hinv : Inv (clear slot lastTime nowMs tkTime) c [] lists)
    (hlevel : level ≠ 3) (hwalked : slot = brink → Walked (level, c.nextSlot level)) :
    VisitsOnce (demote tkTime)
        { c with slot := Function.update c.slot level (c.nextSlot level) } ()
        (level, c.nextSlot level) ∧
      ∃ c', Exec.Returns (fun fuel => c.moveLevel fuel tkTime level) c' ∧
        ∃ lists', Inv (clear slot lastTime nowMs tkTime) c' [] lists' ∧
          c'.slot = Function.update c.slot level (c.nextSlot level) := by
  have hvisits := hinv.rep.moveLevel_visitsOnce tkTime level
    fun _ _ _ _ hplace => hlevel (hinv.rep.eq_last_of_place hplace).1
  obtain ⟨c', hreturns⟩ := hvisits.moveLevel_returns hinv.rep
  obtain ⟨lists', hinv', hslot, -⟩ := hreturns.post fun fuel =>
    hinv.moveLevel_safe fuel tkTime level fun _ timer hok hbrink hfar =>
      absurd (.walked (hwalked hbrink)) (hok hbrink hfar)
  exact ⟨hvisits, c', hreturns, lists', hinv', hslot⟩

/-- The last level of the cascade, reached when the other pointers have come round. -/
theorem Inv.moveLast_clear (hinv : Inv (clear slot lastTime nowMs tkTime) c [] lists)
    (hbrink : c.nextSlot 3 = levelMasks 3 → slot = brink) :
    VisitsOnce (demote tkTime) { c with slot := Function.update c.slot 3 (c.nextSlot 3) } ()
      (3, c.nextSlot 3) := by
  apply hinv.rep.moveLevel_visitsOnce
  intro t ht timer hvalue hplace
  obtain ⟨-, hlast, hfar⟩ := hinv.rep.eq_last_of_place hplace
  rw [hlast] at ht
  exact hinv.placed _ t ht timer hvalue (hbrink hlast) ⟨hfar⟩ (.walked .three)

/-- The cascade goes on with a level whose predecessor has come round. -/
theorem cascade_cons {i : Level} {levels : List Level}
    (hlevel : c.slot (i - 1) = 0 →
      VisitsOnce (demote tkTime)
          { c with slot := Function.update c.slot i (c.nextSlot i) } () (i, c.nextSlot i) ∧
        ∃ c', Exec.Returns (fun fuel => c.moveLevel fuel tkTime i) c' ∧
          CascadeVisits tkTime levels c' ∧
          ∃ r, Exec.Returns (fun fuel => c'.cascade fuel tkTime levels) r) :
    CascadeVisits tkTime (i :: levels) c ∧
      ∃ r, Exec.Returns (fun fuel => c.cascade fuel tkTime (i :: levels)) r := by
  by_cases hzero : c.slot (i - 1) = 0
  · obtain ⟨hvisits, c', hreturns, hrest, r, hr⟩ := hlevel hzero
    constructor
    · refine fun _ => ⟨hvisits, fun other hother => ?_⟩
      rw [← hreturns.unique hother]
      exact hrest
    · refine ⟨r, ?_⟩
      simp only [cascade, hzero, ne_eq, not_true_eq_false, if_false]
      exact hreturns.bind hr
  · refine ⟨fun h => absurd h hzero, c, 0, fun fuel _ => ?_⟩
    show c.cascade fuel tkTime (i :: levels) = .ok c
    rw [cascade, if_pos hzero]

/-- `trigger` puts no timer where it would be met again. -/
theorem Inv.trigger_clear (hinv : Inv (clear c.slot c.lastTime nowMs tkTime) c [] lists)
    (env : Env D) (fuel : Nat) :
    Exec.Safe (({ c with slot := Function.update c.slot 0 (c.nextSlot 0) } : Clock D).trigger env
        fuel nowMs) fun c' =>
      ∃ lists', Inv (clear c.slot c.lastTime nowMs tkTime) c' [] lists' ∧
        c'.slot = Function.update c.slot 0 (c.nextSlot 0) := by
  have hinv₀ := hinv.advance 0
  refine (hinv₀.trigger_safe env fuel nowMs ?_ ?_).mono ?_
  · intro _ timer _ _ hbrink _
    have hnext : ({ c with slot := Function.update c.slot 0 (c.nextSlot 0) } : Clock D).nextSlot 0 =
        1 := by
      simp only [nextSlot, hbrink]
      decide
    rw [hnext]
    rintro (hwalked | _)
    exact hwalked.level_ne rfl
  · intro _ timer hok hlater hbrink hfar
    have hzero := nextSlot_zero_of_brink hbrink
    simp only [hbrink, hzero]
    generalize hplace : place _ _ _ = i
    rintro (hwalked | _)
    · refine hok hbrink hfar ?_
      show Met _ _ _ (0, Function.update c.slot 0 (c.nextSlot 0) 0)
      rw [Function.update_self, hzero]
      exact .triggered hlater (hplace ▸ hwalked)
    · have hslots := hinv₀.rep.slots
      simp only [hbrink, hzero] at hslots
      exact absurd (Clock.eq_last_of_place hslots hplace).1 (by decide)
  · rintro c' ⟨lists', hinv', hslot, -⟩
    exact ⟨lists', hinv', hslot⟩

/-- A tick that is not stuck terminates. -/
theorem Inv.terminates (hinv : Inv .any c [] lists) (hfree : ¬ c.Stuck nowMs tkTime)
    (env : Env D) : c.Terminates env nowMs tkTime := by
  have hclear := hinv.clear_of_not_stuck hfree
  have hrep₀ := hinv.rep.advance 0
  have hvisits := hrep₀.trigger_visitsOnce env nowMs
  obtain ⟨c₁, hc₁⟩ := hvisits.trigger_returns hrep₀
  obtain ⟨lists₁, hinv₁, hslot₁⟩ := hc₁.post (hclear.trigger_clear env)
  have hcascade : CascadeVisits tkTime [1, 2, 3] c₁ ∧
      ∃ r, Exec.Returns (fun fuel => c₁.cascade fuel tkTime [1, 2, 3]) r := by
    refine cascade_cons fun h0 => ?_
    obtain ⟨hvisits₁, c₂, hc₂, lists₂, hinv₂, hslot₂⟩ :=
      hinv₁.moveLevel_clear (by decide : (1 : Level) ≠ 3) fun hbrink => by
        have hkept : c₁.slot 1 = c.slot 1 := by simp [hslot₁]
        rw [nextSlot, hkept, hbrink]
        exact .one
    refine ⟨hvisits₁, c₂, hc₂, cascade_cons fun h1 => ?_⟩
    obtain ⟨hvisits₂, c₃, hc₃, lists₃, hinv₃, hslot₃⟩ :=
      hinv₂.moveLevel_clear (by decide : (2 : Level) ≠ 3) fun hbrink => by
        have hkept : c₂.slot 2 = c.slot 2 := by simp [hslot₂, hslot₁]
        rw [nextSlot, hkept, hbrink]
        exact .two
    refine ⟨hvisits₂, c₃, hc₃, cascade_cons fun h2 => ?_⟩
    have hvisits₃ := hinv₃.moveLast_clear fun h3 => by
      apply slot_eq_brink hinv.rep
      · simpa [hslot₁] using h0
      · simpa [hslot₂, nextSlot, hslot₁] using h1
      · simpa [hslot₃, nextSlot, hslot₂, hslot₁] using h2
      · simpa [nextSlot, hslot₃, hslot₂, hslot₁] using h3
    obtain ⟨c₄, hc₄⟩ := hvisits₃.moveLevel_returns hinv₃.rep
    exact ⟨hvisits₃, c₄, hc₄, trivial, c₄, 0, fun _ _ => rfl⟩
  obtain ⟨hwalks, r, hr⟩ := hcascade
  refine ⟨⟨r, hc₁.bind hr⟩, hvisits, fun other hother => ?_⟩
  rw [← hc₁.unique hother]
  exact hwalks

end NotStuck

/-! ## One timer through a tick -/

structure Sits (c : Clock D) (lists : Lists) (j : Level × Int64) (t : Ptr) (timer : Timer D) :
    Prop where
  rep : Rep c lists
  mem : t ∈ lists j
  value : valueOf c.heap t = some timer

section Tracking

variable {c : Clock D} {lists : Lists} {i j : Level × Int64} {root t : Ptr} {timer : Timer D}

/-- One timer through a walk: at the end it is at `j`, if it was there, or if it was on the list
and its callback puts it there. -/
theorem popRange_tracks {S : Type} {fn : Clock D × S → Ptr → Exec (Clock D × S)}
    {slot : Level → Int64} {lastTime : Int64} {moves : Prop} (hsame : i = j → moves)
    (hfn : ∀ c s lists u value, Held c lists u value → c.slot = slot → c.lastTime = lastTime →
      ∃ c' s' lists', fn (c, s) u = .ok (c', s') ∧ Keeps c c' lists lists' ∧
        (moves → value = timer → u ∈ lists' j))
    (fuel : Nat) (s : S) (hrep : Rep c lists) (hroot : c.tw i = some root) (hslot : c.slot = slot)
    (htime : c.lastTime = lastTime) (hvalue : valueOf c.heap t = some timer)
    (hmem : t ∈ lists j ∨ t ∈ lists i ∧ moves) :
    Exec.Safe (popRange fn root fuel (c, s)) fun r =>
      ∃ lists', Sits r.1 lists' j t timer ∧ lists' i = [] ∧ r.1.slot = slot := by
  refine (popRange_safe (i := i) (fun c _ lists => (Rep c lists ∧ c.tw i = some root) ∧
    c.slot = slot ∧ c.lastTime = lastTime ∧ valueOf c.heap t = some timer ∧
    (t ∈ lists j ∨ t ∈ lists i ∧ moves)) (fun _ _ _ h => h.1) ?_ fuel c s lists
      ⟨⟨hrep, hroot⟩, hslot, htime, hvalue, hmem⟩).mono ?_
  · rintro c s lists u rest heap value ⟨⟨-, hroot⟩, hslot, htime, hvalue, hmem⟩ hlist hvalues -
      hheld
    obtain ⟨c', s', lists', hcall, hkeeps, hput⟩ := hfn _ s _ u value hheld hslot htime
    have hheap : valueOf heap t = some timer := by rw [hvalues, hvalue]
    rw [hcall, Exec.safe_ok]
    refine ⟨lists', ⟨hkeeps.rep, hkeeps.roots i root hroot⟩, hkeeps.slot.trans hslot,
      hkeeps.lastTime.trans htime, hkeeps.value t timer hheap, ?_⟩
    by_cases hut : u = t
    · subst hut
      left
      apply hput
      · rcases hmem with hj | ⟨-, hmoves⟩
        · by_cases hij : i = j
          · exact hsame hij
          · have hother : u ∈ Function.update lists i rest j := by
              rw [Function.update_of_ne (Ne.symm hij)]
              exact hj
            exact absurd (Links.mem_members_of_mem hother) (hheld.free j)
        · exact hmoves
      · exact Option.some.inj (hheld.value.symm.trans hheap)
    · have hstays : ∀ k, t ∈ lists k → t ∈ lists' k := by
        intro k hk
        apply hkeeps.mem
        by_cases hki : k = i
        · subst hki
          rw [hlist] at hk
          rw [Function.update_self]
          exact (List.mem_cons.mp hk).resolve_left (Ne.symm hut)
        · rw [Function.update_of_ne hki]
          exact hk
      exact hmem.imp (hstays j) (And.imp_left (hstays i))
  · rintro ⟨c', s'⟩ ⟨lists', ⟨⟨hrep', -⟩, hslot', -, hvalue', hmem'⟩, hempty⟩
    refine ⟨lists', ⟨hrep', ?_, hvalue'⟩, hempty, hslot'⟩
    rcases hmem' with hj | ⟨hi, -⟩
    · exact hj
    · rw [hempty] at hi
      exact absurd hi List.not_mem_nil

theorem Sits.sendBatches :
    ∀ (batchs : Batches D) {c : Clock D}, Sits c lists j t timer →
      Sits (c.sendBatches batchs) lists j t timer ∧ (c.sendBatches batchs).slot = c.slot := by
  intro batchs
  induction batchs with
  | nil =>
    intro c hsits
    exact ⟨hsits, rfl⟩
  | cons first rest ih =>
    intro c hsits
    exact ih ⟨hsits.rep.congr rfl rfl rfl hsits.rep.slots, hsits.mem, hsits.value⟩

variable [Inhabited D]

/-- `trigger` leaves a timer of another slot where it is, and adds one that is not due again. -/
theorem Rep.trigger_tracks (hrep : Rep c lists) (env : Env D) (fuel : Nat) {nowMs : Int64}
    (hne : (0, c.slot 0) ≠ j) (hvalue : valueOf c.heap t = some timer)
    (hmem : t ∈ lists j ∨ t ∈ lists (0, c.slot 0) ∧ ¬ timer.when ≤ nowMs ∧
      place c.slot timer.when c.lastTime = j) :
    Exec.Safe (c.trigger env fuel nowMs) fun c' =>
      ∃ lists', Sits c' lists' j t timer ∧ c'.slot = c.slot := by
  cases hroot : c.tw (0, c.slot 0) with
  | none =>
    rw [hrep.trigger_of_none hroot, Exec.safe_ok]
    have hempty := hrep.rings.empty _ hroot
    refine ⟨lists, ⟨hrep, ?_, hvalue⟩, rfl⟩
    rcases hmem with hj | ⟨hi, -⟩
    · exact hj
    · rw [hempty] at hi
      exact absurd hi List.not_mem_nil
  | some root =>
    rw [hrep.trigger_of_some hroot]
    refine (popRange_tracks (fun h => absurd h hne) ?_ fuel [] hrep hroot rfl rfl hvalue
      hmem).bind ?_
    · intro c' batchs' lists' u value hheld hslot htime
      obtain ⟨c'', batchs'', lists'', hfire, heffect⟩ := hheld.fire_spec env nowMs batchs'
      refine ⟨c'', batchs'', lists'', hfire, heffect.keeps hheld, ?_⟩
      rintro ⟨hlater, hplace⟩ rfl
      cases heffect with
      | sent _ hdue => exact absurd hdue hlater
      | gathered _ hdue => exact absurd hdue hlater
      | requeued _ hdue => exact absurd hdue hlater
      | readded =>
        rw [hslot, htime, hplace]
        exact Lists.mem_put.mpr (Or.inr ⟨rfl, rfl⟩)
    · rintro ⟨c', batchs'⟩ ⟨lists', hsits, -, hslot⟩
      obtain ⟨hsent, hslot'⟩ := hsits.sendBatches (env.order batchs')
      exact ⟨lists', hsent, hslot'.trans hslot⟩

variable {tkTime : Int64}

/-- A timer beyond the range of the wheel is left where it is by a level of the cascade, or
parked, and the slot the level moves to is empty afterwards. -/
theorem Sits.moveLevel (hsits : Sits c lists j t timer) (hfar : Far timer tkTime) (level : Level)
    (fuel : Nat) :
    Exec.Safe (c.moveLevel fuel tkTime level) fun c' => ∃ lists' j', Sits c' lists' j' t timer ∧
      (j' = j ∨ j' = (3, levelMasks 3)) ∧ j' ≠ (level, c.nextSlot level) ∧
      c'.slot = Function.update c.slot level (c.nextSlot level) := by
  have hrep₁ := hsits.rep.advance level
  cases hroot : c.tw (level, c.nextSlot level) with
  | none =>
    rw [hsits.rep.moveLevel_of_none hroot, Exec.safe_ok]
    refine ⟨lists, j, ⟨hrep₁, hsits.mem, hsits.value⟩, Or.inl rfl, ?_, rfl⟩
    rintro rfl
    exact List.ne_nil_of_mem hsits.mem (hsits.rep.rings.empty _ hroot)
  | some root =>
    rw [hsits.rep.moveLevel_of_some hroot]
    have htarget : ∃ j', (j' = j ∨ j' = (3, levelMasks 3)) ∧
        ((level, c.nextSlot level) = j' → j' = (3, levelMasks 3)) ∧
        (t ∈ lists j' ∨ t ∈ lists (level, c.nextSlot level) ∧ j' = (3, levelMasks 3)) := by
      by_cases hij : (level, c.nextSlot level) = j
      · exact ⟨_, Or.inr rfl, fun _ => rfl, Or.inr ⟨hij ▸ hsits.mem, rfl⟩⟩
      · exact ⟨j, Or.inl rfl, fun h => absurd h hij, Or.inl hsits.mem⟩
    obtain ⟨j', hj', hsame, hmem⟩ := htarget
    refine (popRange_tracks hsame ?_ fuel () hrep₁ hroot rfl rfl hsits.value hmem).bind ?_
    · intro c' _ lists' u value hheld _ _
      obtain ⟨c'', hdemote, hrelinked⟩ := hheld.demote_spec tkTime
      refine ⟨c'', (), _, hdemote, hrelinked.keeps, ?_⟩
      rintro rfl rfl
      exact Lists.mem_put.mpr (Or.inr ⟨(place_of_far hfar).symm, rfl⟩)
    · rintro ⟨c', _⟩ ⟨lists', hsits', hempty, hslot⟩
      refine ⟨lists', j', hsits', hj', ?_, hslot⟩
      rintro rfl
      exact List.ne_nil_of_mem hsits'.mem hempty

/-- A parked timer stays parked as long as it is beyond the range of the wheel. -/
theorem Sits.cascade (hfar : Far timer tkTime) (fuel : Nat) :
    ∀ (levels : List Level) {c : Clock D} {lists : Lists},
      Sits c lists (3, levelMasks 3) t timer →
      Exec.Safe (c.cascade fuel tkTime levels) fun c' =>
        ∃ lists', Sits c' lists' (3, levelMasks 3) t timer := by
  intro levels
  induction levels with
  | nil =>
    intro c lists hsits
    exact ⟨lists, hsits⟩
  | cons i levels ih =>
    intro c lists hsits
    by_cases hslot : c.slot (i - 1) ≠ 0
    · rw [Clock.cascade, if_pos hslot]
      exact ⟨lists, hsits⟩
    · rw [Clock.cascade, if_neg hslot]
      refine (hsits.moveLevel hfar i fuel).bind ?_
      rintro c' ⟨lists', j', hsits', hj', -⟩
      obtain rfl : j' = (3, levelMasks 3) := or_self_iff.mp hj'
      exact ih hsits'

theorem Sits.tick (hsits : Sits c lists (3, levelMasks 3) t timer) (hfar : Far timer tkTime)
    (env : Env D) (fuel : Nat) (nowMs : Int64) :
    Exec.Safe (c.tick env fuel nowMs tkTime) fun c' =>
      ∃ lists', Sits c' lists' (3, levelMasks 3) t timer := by
  have hne : ((0 : Level), Function.update c.slot 0 (c.nextSlot 0) 0) ≠ (3, levelMasks 3) :=
    fun h => absurd (Prod.mk.inj h).1 (by decide)
  refine ((hsits.rep.advance 0).trigger_tracks env fuel hne hsits.value (Or.inl hsits.mem)).bind ?_
  rintro c' ⟨lists', hsits', -⟩
  exact hsits'.cascade hfar fuel [1, 2, 3]

/-- A tick that is stuck returns for no number of rounds. -/
theorem Rep.tick_stuck (hrep : Rep c lists) {nowMs : Int64} (hstuck : c.Stuck nowMs tkTime)
    (env : Env D) (fuel : Nat) : Exec.Safe (c.tick env fuel nowMs tkTime) fun _ => False := by
  obtain ⟨hbrink, i, timer, hlinked, hfar, hwhere⟩ := hstuck
  obtain ⟨t, ht, hvalue⟩ := hrep.linkedAt_iff.mp hlinked
  have hzero := nextSlot_zero_of_brink hbrink
  have htarget : ∃ j, Walked j ∧ (t ∈ lists j ∨ t ∈ lists (0, c.nextSlot 0) ∧
      ¬ timer.when ≤ nowMs ∧
      place (Function.update c.slot 0 (c.nextSlot 0)) timer.when c.lastTime = j) := by
    rcases hwhere with hwalked | ⟨hlater, hwalked⟩
    · exact ⟨i, hwalked, Or.inl ht⟩
    · rw [hzero, hbrink]
      exact ⟨_, hwalked, Or.inr ⟨ht, hlater, rfl⟩⟩
  obtain ⟨j, hwalked, hmem⟩ := htarget
  have hne : ((0 : Level), c.nextSlot 0) ≠ j := by
    rintro rfl
    rw [hzero] at hwalked
    exact hwalked.level_ne rfl
  refine ((hrep.advance 0).trigger_tracks env fuel hne hvalue hmem).bind ?_
  -- every level of the cascade empties its slot, so the timer ends up in the last one
  rintro c₁ ⟨lists₁, hsits₁, hslot₁⟩
  rw [Clock.cascade, if_neg (by simp [hslot₁, hzero])]
  refine (hsits₁.moveLevel hfar 1 fuel).bind ?_
  rintro c₂ ⟨lists₂, j₂, hsits₂, hj₂, hne₂, hslot₂⟩
  have hnext₁ : c₁.nextSlot 1 = 0 := by
    have hkept : c₁.slot 1 = c.slot 1 := by simp [hslot₁]
    rw [nextSlot, hkept, hbrink]
    decide
  rw [hnext₁] at hne₂ hslot₂
  rw [Clock.cascade, if_neg (by simp [hslot₂])]
  refine (hsits₂.moveLevel hfar 2 fuel).bind ?_
  rintro c₃ ⟨lists₃, j₃, hsits₃, hj₃, hne₃, hslot₃⟩
  have hnext₂ : c₂.nextSlot 2 = 0 := by
    have hkept : c₂.slot 2 = c.slot 2 := by simp [hslot₂, hslot₁]
    rw [nextSlot, hkept, hbrink]
    decide
  rw [hnext₂] at hne₃ hslot₃
  rw [Clock.cascade, if_neg (by simp [hslot₃])]
  refine (hsits₃.moveLevel hfar 3 fuel).bind ?_
  rintro c₄ ⟨lists₄, j₄, -, hj₄, hne₄, -⟩
  have hnext₃ : c₃.nextSlot 3 = levelMasks 3 := by
    have hkept : c₃.slot 3 = c.slot 3 := by simp [hslot₃, hslot₂, hslot₁]
    rw [nextSlot, hkept, hbrink]
    decide
  rw [hnext₃] at hne₄
  have hlast : j₃ = (3, levelMasks 3) := by
    rcases hj₃ with rfl | rfl
    · rcases hj₂ with rfl | rfl
      · cases hwalked with
        | one => exact absurd rfl hne₂
        | two => exact absurd rfl hne₃
        | three => rfl
      · rfl
    · rfl
  exact absurd (hj₄.elim (fun h => h.trans hlast) id) hne₄

end Tracking

/-! ## Which ticks terminate -/

section Main

variable [Inhabited D]

/-- **A tick terminates unless it is stuck.** After every run of tasks and ticks, whatever the
readings of the clock are, a tick returns, each of its walks having visited every timer once,
exactly when it does not move level 3 onto its last slot with a timer to be parked there. -/
theorem tick_terminates_iff {ops : List (Op D)} {c : Clock D}
    (hrun : (newClock : Clock D).run ops = .ok c) (env : Env D) (nowMs tkTime : Int64) :
    c.Terminates env nowMs tkTime ↔ ¬ c.Stuck nowMs tkTime := by
  have hsafe := Inv.run_safe ops (inv_newClock (D := D) .any)
  rw [hrun, Exec.safe_ok] at hsafe
  obtain ⟨lists, hinv⟩ := hsafe
  constructor
  · intro hterminates hstuck
    obtain ⟨c', hreturns⟩ := hterminates.returns
    exact hreturns.post (hinv.rep.tick_stuck hstuck env)
  · intro hfree
    exact hinv.terminates hfree env

/-- The theorem at a clock with one timer pending. -/
theorem tick_terminates_iff_oneTimer :
    ∃ c : Clock Nat, (newClock : Clock Nat).run [.task (.newTimer 30 7 (some 1) none)] = .ok c ∧
      c.Terminates ⟨fun _ _ => true, id, fun _ => .refl _⟩ 45 20 := by
  have hrun : ∃ c : Clock Nat,
      (newClock : Clock Nat).run [.task (.newTimer 30 7 (some 1) none)] = .ok c ∧ c.slot 0 = 0 :=
    ⟨_, rfl, rfl⟩
  obtain ⟨c, hrun, hslot⟩ := hrun
  refine ⟨c, hrun, (tick_terminates_iff hrun _ 45 20).mpr ?_⟩
  rintro ⟨hbrink, -⟩
  rw [hbrink] at hslot
  exact absurd hslot (by decide)

/-! ### A run into the last slot -/

/-- The goroutine in a batch of ticks that ends when level 3 is at its last slot, with `count`
ticks made and a timer parked in this slot. -/
structure Parked (timer : Timer D) (count : Int) (tk : Int64) (c : Clock D) : Prop where
  reaches : Reaches ⟨c, .ticking 21139292160 tk⟩
  tick : tk.toInt = 20 * count + 20
  lastTime : c.lastTime = 21139292160
  shown : Shows c.slot count 4
  timed : ∃ lists, Inv (waiting (20 * count) count) c [] lists
  sits : ∃ lists t, Sits c lists (3, levelMasks 3) t timer

variable {timer : Timer D} {count : Int} {tk : Int64} {c : Clock D}

omit [Inhabited D] in
theorem far_of_le (hwhen : timer.when = 1152921504606846976) (htk : Bounded tk)
    (hle : tk.toInt ≤ 21139292160) : Far timer tk := by
  have hticks : (levelTicks 3).toInt = 2 ^ 30 := by decide
  have hvalue : timer.when.toInt = 2 ^ 60 := by rw [hwhen]; decide
  obtain ⟨hnonneg, -⟩ := tdiv_si (timer.when.toInt - tk.toInt + 19)
  obtain ⟨hlow, hhigh⟩ := htk
  refine ⟨?_⟩
  rw [Int64.le_iff_toInt_le, hticks, toInt_ticksUntil_eq ⟨by omega, by omega⟩ ⟨hlow, hhigh⟩]
  omega

omit [Inhabited D] in
/-- The pointers are at the brink before the last tick of the batch. -/
theorem slot_eq_brink_iff {slot : Level → Int64} (hshows : Shows slot count 4) (hlow : 0 ≤ count)
    (hhigh : count < 2 ^ 30) : slot = brink ↔ count = 1056964607 := by
  have hdigit : ∀ level, (slot level).toInt = digit count level := by
    intro level
    rw [hshows level, if_pos level.isLt]
  constructor
  · rintro rfl
    have h0 : (1023 : Int) = count / 1 % 1024 := hdigit 0
    have h1 : (255 : Int) = count / 2 ^ 10 % 256 := hdigit 1
    have h2 : (63 : Int) = count / 2 ^ 18 % 64 := hdigit 2
    have h3 : (62 : Int) = count / 2 ^ 24 % 64 := hdigit 3
    omega
  · rintro rfl
    funext level
    rw [← Int64.toInt_inj, hdigit]
    fin_cases level <;> decide

/-- One more tick of the batch: it terminates, and the timer stays where it is. -/
theorem Parked.step (hparked : Parked timer count tk c)
    (hwhen : timer.when = 1152921504606846976) (hlow : 0 ≤ count) (hhigh : count < 1056964607) :
    ∃ c', Parked timer (count + 1) (tk + si) c' := by
  obtain ⟨hreaches, htick, hlast, hshows, ⟨lists, htimed⟩, lists', t, hsits⟩ := hparked
  have hnow : (21139292160 : Int64).toInt = 21139292160 := by decide
  have hbounded : Bounded tk := ⟨by omega, by omega⟩
  have hloop : tk.toInt ≤ c.lastTime.toInt := by rw [hlast]; omega
  have hfree : ¬ c.Stuck 21139292160 tk := by
    rintro ⟨hbrink, -⟩
    have hcount := (slot_eq_brink_iff hshows hlow (by omega)).mp hbrink
    omega
  let env : Env D := ⟨fun _ _ => true, id, fun _ => .refl _⟩
  have hinv : Inv .any c [] lists := htimed.weaken fun _ _ _ _ => trivial
  obtain ⟨c', fuel, hreturns⟩ := (hinv.terminates hfree env).returns
  have hdone : c.tick env fuel 21139292160 tk = .ok c' := hreturns fuel le_rfl
  have hafter : Exec.Safe (c.tick env fuel 21139292160 tk)
      (TickDone tk (count + 1) c.log.length c.lastTime) := by
    have hbefore : Inv (waiting (tk.toInt - 20) (count + 1 - 1)) c [] lists := by
      rw [htick, Int.add_sub_cancel, Int.add_sub_cancel]
      exact htimed
    refine tick_timed (count + 1) hbefore (by simpa using hshows) hbounded ?_ hloop ?_ env fuel
    · rw [hlast]
      exact ⟨by decide, by decide⟩
    · rw [hlast]
  have hstill := hsits.tick (far_of_le hwhen hbounded (by omega)) env fuel 21139292160
  rw [hdone, Exec.safe_ok] at hafter hstill
  obtain ⟨lists₁, htimed₁, hshows₁, hlast₁, -⟩ := hafter
  obtain ⟨lists₂, hsits₂⟩ := hstill
  have hnext : 20 * (count + 1) = tk.toInt := by omega
  refine ⟨c', .step hreaches (.tick env fuel (Int64.le_iff_toInt_le.mpr hloop) hdone), ?_,
    hlast₁.trans hlast, hshows₁, ⟨lists₁, ?_⟩, lists₂, t, hsits₂⟩
  · rw [toInt_add_of_fits (by rw [toInt_si]; omega) (by rw [toInt_si]; omega), toInt_si]
    omega
  · rw [hnext]
    exact htimed₁

omit [Inhabited D] in
/-- All timers are in one slot, and due at the same time. -/
def parking (last : Level × Int64) (when : Int64) : Placement D where
  ok _ i timer := i = last ∧ timer.when = when
  mono _ _ _ _ := id

/-- A timer for a time beyond the range of the wheel. -/
def farTask : Task Nat := .newTimer 1152921504606846976 7 (some 1) none

/-- The batch begins, with a timer parked by `NewTimer`. -/
theorem exists_parked : ∃ (timer : Timer Nat) (c : Clock Nat),
    timer.when = 1152921504606846976 ∧ Parked timer 0 20 c := by
  have htask : ∀ time, farTask.Sets time → Bounded time := by
    rintro time rfl
    exact ⟨by decide, by decide⟩
  have hshows : Shows (newClock : Clock Nat).slot 0 4 := by
    show ∀ level : Level, (0 : Int64).toInt =
      if level.val < 4 then digit 0 level else digit (0 - 1) level
    decide
  have hzero : Bounded 0 := ⟨by decide, by decide⟩
  have hinv : ∀ G : Placement Nat, Inv G { newClock with lastTime := 0 } [] fun _ => [] :=
    fun G => (inv_newClock G).setTime 0
  have hperform : ∃ c, ({ newClock with lastTime := 0 } : Clock Nat).perform farTask = .ok c ∧
      ∃ t, c.locs 1 = some t := by
    refine ⟨_, rfl, ?_⟩
    exact ⟨0, rfl⟩
  obtain ⟨c, hperform, t, hloc⟩ := hperform
  obtain ⟨c₁, lists₁, hperform₁, htimed, hslot, htime⟩ :=
    (hinv (waiting (0 : Int64).toInt 0)).perform_spec farTask fun log timer hsets =>
      waiting_place (hinv .any).rep.slots hshows (htask timer.when hsets) hzero
  obtain rfl := Except.ok.inj (hperform.symm.trans hperform₁)
  obtain ⟨c₂, lists₂, hperform₂, hparking, -⟩ :=
    (hinv (parking (3, levelMasks 3) 1152921504606846976)).perform_spec farTask
      fun log timer hsets => by
      have hwhen : timer.when = 1152921504606846976 := hsets
      refine ⟨?_, hwhen⟩
      rw [hwhen]
      decide
  obtain rfl := Except.ok.inj (hperform.symm.trans hperform₂)
  obtain ⟨⟨i, hi⟩, timer, hvalue, -⟩ := hparking.rep.linked 1 t hloc
  obtain ⟨rfl, hwhen⟩ := hparking.placed i t hi timer hvalue
  have hlast : c.lastTime = 0 := htime
  have hadvance : c.lastTime + si * ((21139292160 - c.lastTime) / si) = 21139292160 := by
    rw [hlast]
    decide
  have htk : c.lastTime + si = 20 := by
    rw [hlast]
    decide
  have hreaches : Reaches ⟨_, .ticking 21139292160 (c.lastTime + si)⟩ :=
    .step (.step (.start 0 hzero) (.task farTask htask hperform))
      (.timer 21139292160 ⟨by decide, by decide⟩)
  rw [hadvance, htk] at hreaches
  have hrep := (hparking.setTime 21139292160).rep
  exact ⟨timer, _, hwhen, hreaches, rfl, rfl, hslot ▸ hshows, ⟨lists₁, htimed.setTime _⟩, lists₂,
    t, hrep, hi, hvalue⟩

/-- **A tick that never returns.** A timer is set for a time beyond the range of the wheel; when
level 3 has moved onto its last slot, no number of rounds is enough. -/
theorem exists_tick_diverges : ∃ (c : Clock Nat) (nowMs tk : Int64),
    Reaches ⟨c, .ticking nowMs tk⟩ ∧ tk ≤ c.lastTime ∧
      ∀ env fuel, c.tick env fuel nowMs tk = .error .diverges := by
  obtain ⟨timer, start, hwhen, hstart⟩ := exists_parked
  have hruns : ∀ n : Nat, (n : Int) ≤ 1056964607 → ∃ tk c, Parked timer n tk c := by
    intro n
    induction n with
    | zero => exact fun _ => ⟨20, start, hstart⟩
    | succ n ih =>
      intro hn
      obtain ⟨tk, c, hparked⟩ := ih (by omega)
      obtain ⟨c', hnext⟩ := hparked.step hwhen (by omega) (by omega)
      exact ⟨tk + si, c', by exact_mod_cast hnext⟩
  obtain ⟨tk, c, hparked⟩ := hruns 1056964607 (by decide)
  obtain ⟨hreaches, htick, hlast, hshows, -, lists, t, hsits⟩ := hparked
  have hbrink := (slot_eq_brink_iff hshows (by decide) (by decide)).mpr rfl
  have hnow : (21139292160 : Int64).toInt = 21139292160 := by decide
  have hbounded : Bounded tk := ⟨by omega, by omega⟩
  have hfar : Far timer tk := far_of_le hwhen hbounded (by omega)
  have hlinked : c.LinkedAt (3, levelMasks 3) timer :=
    hsits.rep.linkedAt_iff.mpr ⟨t, hsits.mem, hsits.value⟩
  have hstuck : c.Stuck 21139292160 tk := ⟨hbrink, _, timer, hlinked, hfar, .walked .three⟩
  refine ⟨c, _, tk, hreaches, ?_, fun env fuel => ?_⟩
  · rw [Int64.le_iff_toInt_le, hlast]
    omega
  · exact (hsits.rep.tick_stuck hstuck env fuel).eq_diverges

end Main

end Gokit.Clock
