/-
# What each step of the clock does to the wheel

The steps of tasks and ticks are described once, by what they do to the lists of
the wheel, to the table of pending timers and to the log; the invariants of the
clock are derived from these descriptions without looking at the heap again.

`popRange` is the only loop over a list.  Its rule asks for an invariant that
implies the representation and for one round: given that the first timer of the
list has been taken out and is held, the callback restores the invariant.
-/

import Gokit.Clock.Wheel

namespace Gokit.Clock

open Gokit.Math

variable {D : Type}

/-! ## Deleting and adding -/

section Tasks

variable {c : Clock D} {lists : Lists} {t : Ptr} {timer : Timer D}

/-- `delTimer` of a pending timer holds it and forgets its id. -/
theorem Rep.delTimer_spec (hrep : Rep c lists) {id : Int} (hloc : c.locs id = some t) :
    ∃ heap i front back timer, lists i = front ++ t :: back ∧
      valueOf c.heap t = some timer ∧ timer.id = id ∧
      c.delTimer id = .ok (({ c with heap } : Clock D).deleteLoc id, some t) ∧
      valueOf heap = valueOf c.heap ∧
      Held { c with heap } (Function.update lists i (front ++ back)) t timer := by
  obtain ⟨⟨i, hi⟩, timer, hvalue, hid⟩ := hrep.linked id t hloc
  obtain ⟨front, back, hlist⟩ := List.append_of_mem hi
  obtain ⟨heap, hremove, hrings, hvalues⟩ := removeFromList_spec hrep.rings hlist
  obtain ⟨timer', -, hheld⟩ := hrep.hold hlist hrings hvalues
  obtain rfl : timer = timer' := by
    have hvalue' := hheld.value
    rw [hvalues, hvalue] at hvalue'
    exact Option.some.inj hvalue'
  exact ⟨heap, i, front, back, timer, hlist, hvalue, hid, by simp [delTimer, hloc, hremove],
    hvalues, hheld⟩

theorem Held.setWhen_spec (hheld : Held c lists t timer) (hloc : c.locs timer.id = none)
    (when : Int64) :
    ∃ heap, setValue c.heap t { timer with when } = .ok heap ∧
      Held { c with heap } lists t { timer with when } ∧
      ({ c with heap } : Clock D).table = c.table ∧
      ∀ i, ∀ u ∈ lists i, valueOf heap u = valueOf c.heap u := by
  obtain ⟨heap, hset, hlinks, hvalues, -⟩ := setValue_spec hheld.value { timer with when }
  have hother : ∀ i, ∀ u ∈ lists i, valueOf heap u = valueOf c.heap u := by
    intro i u hu
    have hne : u ≠ t := fun h => hheld.free i (h ▸ Links.mem_members_of_mem hu)
    rw [hvalues, Function.update_of_ne hne]
  have hrep := hheld.rep
  refine ⟨heap, hset, ⟨?_, by simp [hvalues], hheld.free⟩, ?_, hother⟩
  · exact
      { rings := by
          show (linksOf heap).Rings c.tw lists
          rw [hlinks]
          exact hrep.rings
        inWheel := hrep.inWheel
        slots := hrep.slots
        known := by
          intro i u hu
          obtain ⟨other, hvalue, hother'⟩ := hrep.known i u hu
          exact ⟨other, (hother i u hu).trans hvalue, hother'⟩
        linked := by
          intro id u hu
          obtain ⟨⟨i, hi⟩, other, hvalue, hid⟩ := hrep.linked id u hu
          exact ⟨⟨i, hi⟩, other, (hother i u hi).trans hvalue, hid⟩ }
  · funext id
    cases hid : c.locs id with
    | none => simp [table, hid]
    | some u =>
      have hne : id ≠ timer.id := fun h => by simp [h, hloc] at hid
      have hid' : (c.deleteLoc timer.id).locs id = some u := by
        simpa [Clock.deleteLoc, hne] using hid
      obtain ⟨⟨i, hi⟩, -⟩ := hrep.linked id u hid'
      simp [table, hid, hother i u hi]

theorem Rep.alloc_spec (hrep : Rep c lists) (timer : Timer D) (genId : Int)
    (hfresh : c.locs timer.id = none) :
    Held { c with genId, heap := c.heap.alloc ⟨timer, none, none⟩ } lists c.heap.fresh timer ∧
      ({ c with genId, heap := c.heap.alloc ⟨timer, none, none⟩ } : Clock D).table = c.table ∧
      ∀ p value, valueOf c.heap p = some value →
        valueOf (c.heap.alloc ⟨timer, none, none⟩) p = some value := by
  obtain ⟨hlinks, hvalues⟩ := views_alloc c.heap (⟨timer, none, none⟩ : TimerCell D)
  have hkeep : ∀ p value, valueOf c.heap p = some value →
      valueOf (c.heap.alloc ⟨timer, none, none⟩) p = some value := by
    intro p value hp
    have hne : p ≠ c.heap.fresh := fun h => by simp [h, valueOf_fresh] at hp
    rw [hvalues, Function.update_of_ne hne, hp]
  have hfree : ∀ j, c.heap.fresh ∉ Links.members c.tw lists j := hrep.fresh_free
  have hsame : Function.update c.locs timer.id none = c.locs :=
    Function.update_eq_self_iff.mpr hfresh.symm
  refine ⟨⟨?_, by simp [hvalues], hfree⟩, ?_, hkeep⟩
  · exact
      { rings := by
          show (linksOf (c.heap.alloc ⟨timer, none, none⟩)).Rings c.tw lists
          rw [hlinks]
          refine hrep.rings.congr fun j p hp => ?_
          have hne : p ≠ c.heap.fresh := fun h => hfree j (h ▸ hp)
          exact ⟨by simp [hne], by simp [hne]⟩
        inWheel := hrep.inWheel
        slots := hrep.slots
        known := by
          intro i u hu
          obtain ⟨other, hvalue, hloc⟩ := hrep.known i u hu
          exact ⟨other, hkeep u other hvalue, by simpa [deleteLoc, hsame] using hloc⟩
        linked := by
          intro id u hu
          have hu' : c.locs id = some u := by simpa [deleteLoc, hsame] using hu
          obtain ⟨hlist, other, hvalue, hid⟩ := hrep.linked id u hu'
          exact ⟨hlist, other, hkeep u other hvalue, hid⟩ }
  · funext id
    cases hid : c.locs id with
    | none => simp [table, hid]
    | some u =>
      obtain ⟨-, other, hvalue, -⟩ := hrep.linked id u hid
      simp [table, hid, hvalue, hkeep u other hvalue]

end Tasks

/-! ## The loop over a list -/

section Loop

variable {S : Type} {c : Clock D} {lists : Lists} {root t : Ptr} {i : Level × Int64}

theorem Rep.popRange_nil (hrep : Rep c lists) (hroot : c.tw i = some root) (hlist : lists i = [])
    (fn : Clock D × S → Ptr → Exec (Clock D × S)) (fuel : Nat) (s : S) :
    popRange fn root (fuel + 1) (c, s) = .ok (c, s) := by
  obtain ⟨hempty, -⟩ := isEmpty_spec hrep.rings hroot
  simp only [popRange, hempty, hlist, Exec.ok_bind, decide_true, if_true]

/-- One round of the loop: the first timer is taken out and held. -/
theorem Rep.popRange_cons (hrep : Rep c lists) (hroot : c.tw i = some root) {rest : List Ptr}
    (hlist : lists i = t :: rest) (fn : Clock D × S → Ptr → Exec (Clock D × S)) :
    ∃ heap timer, valueOf heap = valueOf c.heap ∧ c.locs timer.id = some t ∧
      Held { c with heap } (Function.update lists i rest) t timer ∧
      ∀ (fuel : Nat) (s : S), popRange fn root (fuel + 1) (c, s) =
        fn ({ c with heap }, s) t >>= popRange fn root fuel := by
  obtain ⟨hempty, hfirst⟩ := isEmpty_spec hrep.rings hroot
  obtain ⟨hne, hnext⟩ := hfirst t rest hlist
  have hcut : lists i = [] ++ t :: rest := hlist
  obtain ⟨heap, hunlink, hrings, hvalues⟩ := unlink_spec hrep.rings hcut
  obtain ⟨timer, hloc, hheld⟩ := hrep.hold hcut hrings hvalues
  have hremove : listRemove c.heap root t = .ok (heap, true) := by
    simp [listRemove, hne, hunlink]
  rw [hlist] at hempty
  refine ⟨heap, timer, hvalues, hloc, hheld, fun fuel s => ?_⟩
  simp [popRange, hempty, hnext, hremove]

/-- The rule of `PopRange`: an invariant restored by the callback, after the first
timer of the list has been taken out, holds when the list is empty. -/
theorem popRange_safe {fn : Clock D × S → Ptr → Exec (Clock D × S)} {root : Ptr}
    {i : Level × Int64} (P : Clock D → S → Lists → Prop)
    (hrep : ∀ c s lists, P c s lists → Rep c lists ∧ c.tw i = some root)
    (hround : ∀ c s lists t rest heap timer, P c s lists → lists i = t :: rest →
      valueOf heap = valueOf c.heap → c.locs timer.id = some t →
      Held { c with heap } (Function.update lists i rest) t timer →
      Exec.Safe (fn ({ c with heap }, s) t) fun r => ∃ lists', P r.1 r.2 lists') :
    ∀ fuel c s lists, P c s lists →
      Exec.Safe (popRange fn root fuel (c, s)) fun r =>
        ∃ lists', P r.1 r.2 lists' ∧ lists' i = [] := by
  intro fuel
  induction fuel with
  | zero =>
    intro c s lists _
    exact Exec.safe_diverges _
  | succ fuel ih =>
    intro c s lists hP
    obtain ⟨hrep', hroot⟩ := hrep c s lists hP
    cases hlist : lists i with
    | nil =>
      rw [hrep'.popRange_nil hroot hlist, Exec.safe_ok]
      exact ⟨lists, hP, hlist⟩
    | cons t rest =>
      obtain ⟨heap, timer, hvalues, hloc, hheld, hunfold⟩ := hrep'.popRange_cons hroot hlist fn
      rw [hunfold]
      refine (hround c s lists t rest heap timer hP hlist hvalues hloc hheld).bind ?_
      rintro ⟨c', s'⟩ ⟨lists', hP'⟩
      exact ih c' s' lists' hP'

end Loop

/-! ## The callbacks -/

section Callbacks

variable {c : Clock D} {lists : Lists} {t : Ptr} {timer : Timer D}

/-- What the callback of `trigger` does with a timer: send it, gather it for its
batch channel, put it into the next slot, or add it again. -/
inductive FireEffect (nowMs : Int64) (c : Clock D) (batchs : Batches D) (lists : Lists)
    (t : Ptr) (timer : Timer D) : Clock D → Batches D → Lists → Prop
  | sent (ch : Chan) (hdue : timer.when ≤ nowMs) (hbatch : timer.batch = none)
      (hreceiver : timer.receiver = some ch) :
      FireEffect nowMs c batchs lists t timer
        ((c.deleteLoc timer.id).emit (.sent ch ⟨timer.id, nowMs, timer.data⟩)) batchs lists
  | gathered (ch : Chan) (hdue : timer.when ≤ nowMs) (hbatch : timer.batch = some ch) :
      FireEffect nowMs c batchs lists t timer (c.deleteLoc timer.id)
        (appendBatch batchs ch ⟨timer.id, nowMs, timer.data⟩) lists
  | requeued (c' : Clock D) (hdue : timer.when ≤ nowMs)
      (hrelinked : Relinked ((c.deleteLoc timer.id).emit (.refused timer.id)) c' lists
        (0, c.nextSlot 0) t timer) :
      FireEffect nowMs c batchs lists t timer c' batchs (lists.put (0, c.nextSlot 0) t)
  | readded (c' : Clock D) (hlater : ¬ timer.when ≤ nowMs)
      (hrelinked : Relinked (c.deleteLoc timer.id) c' lists
        (place c.slot timer.when c.lastTime) t timer) :
      FireEffect nowMs c batchs lists t timer c' batchs
        (lists.put (place c.slot timer.when c.lastTime) t)

/-- A timer that is sent or gathered leaves the wheel; the others stay. -/
theorem FireEffect.rep {nowMs : Int64} {batchs batchs' : Batches D} {c' : Clock D}
    {lists' : Lists} (hheld : Held c lists t timer)
    (heffect : FireEffect nowMs c batchs lists t timer c' batchs' lists') : Rep c' lists' := by
  cases heffect with
  | sent ch hdue hbatch hreceiver => exact hheld.rep.congr rfl rfl rfl hheld.rep.slots
  | gathered ch hdue hbatch => exact hheld.rep
  | requeued _ hdue hrelinked => exact hrelinked.rep
  | readded _ hlater hrelinked => exact hrelinked.rep

/-- The pointers, the time, the ids and the existing lists stay. -/
theorem FireEffect.frame {nowMs : Int64} {batchs batchs' : Batches D} {c' : Clock D}
    {lists' : Lists} (heffect : FireEffect nowMs c batchs lists t timer c' batchs' lists') :
    c'.slot = c.slot ∧ c'.lastTime = c.lastTime ∧ c'.genId = c.genId ∧
      ∀ j root, c.tw j = some root → c'.tw j = some root := by
  cases heffect with
  | sent ch hdue hbatch hreceiver => exact ⟨rfl, rfl, rfl, fun _ _ h => h⟩
  | gathered ch hdue hbatch => exact ⟨rfl, rfl, rfl, fun _ _ h => h⟩
  | requeued _ hdue hrelinked =>
    exact ⟨hrelinked.slot, hrelinked.lastTime, hrelinked.genId, hrelinked.roots⟩
  | readded _ hlater hrelinked =>
    exact ⟨hrelinked.slot, hrelinked.lastTime, hrelinked.genId, hrelinked.roots⟩

variable [Inhabited D]

theorem Held.fire_spec (hheld : Held c lists t timer) (env : Env D) (nowMs : Int64)
    (batchs : Batches D) :
    ∃ c' batchs' lists', fire env nowMs (c, batchs) t = .ok (c', batchs') ∧
      FireEffect nowMs c batchs lists t timer c' batchs' lists' := by
  have hvalue := getValue_spec hheld.value
  have hrequeue : ∃ c', (c.deleteLoc timer.id).requeue timer t = .ok c' ∧
      Relinked ((c.deleteLoc timer.id).emit (.refused timer.id)) c' lists (0, c.nextSlot 0) t
        timer :=
    (hheld.deleteLoc.emit (.refused timer.id)).putTimer_spec (inWheel_mask 0 (c.slot 0 + 1))
  obtain ⟨crequeued, hcrequeued, hrequeued⟩ := hrequeue
  by_cases hdue : timer.when ≤ nowMs
  · cases hbatch : timer.batch with
    | some ch => exact ⟨_, _, _, by simp [fire, hvalue, hdue, hbatch], .gathered ch hdue hbatch⟩
    | none =>
      cases hreceiver : timer.receiver with
      | none =>
        exact ⟨crequeued, batchs, _,
          by simp [fire, hvalue, hdue, hbatch, hreceiver, hcrequeued],
          .requeued crequeued hdue hrequeued⟩
      | some ch =>
        cases hroom : env.room (c.deleteLoc timer.id).log ch with
        | true =>
          exact ⟨_, _, _, by simp [fire, hvalue, hdue, hbatch, hreceiver, hroom],
            .sent ch hdue hbatch hreceiver⟩
        | false =>
          exact ⟨crequeued, batchs, _,
            by simp [fire, hvalue, hdue, hbatch, hreceiver, hroom, hcrequeued],
            .requeued crequeued hdue hrequeued⟩
  · obtain ⟨c', hadd, hrelinked⟩ := hheld.deleteLoc.addTimer_spec
    exact ⟨c', batchs, _, by simp [fire, hvalue, hdue, hadd], .readded c' hdue hrelinked⟩

/-- The callback of the cascade links the timer again. -/
theorem Held.demote_spec (hheld : Held c lists t timer) (tkTime : Int64) :
    ∃ c', demote tkTime (c, ()) t = .ok (c', ()) ∧
      Relinked c c' lists (place c.slot timer.when tkTime) t timer := by
  obtain ⟨c', hput, hrelinked⟩ := hheld.putTimer_spec (inWheel_place c.slot timer.when tkTime)
  exact ⟨c', by simp [demote, getValue_spec hheld.value, hput], hrelinked⟩

end Callbacks

/-! ## The walks of a tick -/

section Walks

variable [Inhabited D] {c : Clock D} {lists : Lists} {root : Ptr}

/-- A slot without a list is passed over. -/
theorem Rep.trigger_of_none (hrep : Rep c lists) (hroot : c.tw (0, c.slot 0) = none)
    (env : Env D) (fuel : Nat) (nowMs : Int64) : c.trigger env fuel nowMs = .ok c := by
  have hlistAt : c.listAt (0, c.slot 0) = .ok (c.tw (0, c.slot 0)) := if_pos (hrep.slots 0)
  simp [trigger, hlistAt, hroot]

theorem Rep.trigger_of_some (hrep : Rep c lists) (hroot : c.tw (0, c.slot 0) = some root)
    (env : Env D) (fuel : Nat) (nowMs : Int64) :
    c.trigger env fuel nowMs = (popRange (fire env nowMs) root fuel (c, []) >>= fun r =>
      .ok (r.1.sendBatches (env.order r.2))) := by
  have hlistAt : c.listAt (0, c.slot 0) = .ok (c.tw (0, c.slot 0)) := if_pos (hrep.slots 0)
  simp only [trigger, hlistAt, hroot, Exec.ok_bind]

omit [Inhabited D] in
theorem Rep.listAt_nextSlot (hrep : Rep c lists) (level : Level) :
    ({ c with slot := Function.update c.slot level (c.nextSlot level) } : Clock D).listAt
      (level, c.nextSlot level) = .ok (c.tw (level, c.nextSlot level)) := by
  have hslot := (hrep.advance level).slots level
  simp only [Function.update_self] at hslot
  exact if_pos hslot

theorem Rep.moveLevel_of_none (hrep : Rep c lists) {level : Level}
    (hroot : c.tw (level, c.nextSlot level) = none) (fuel : Nat) (tkTime : Int64) :
    c.moveLevel fuel tkTime level =
      .ok { c with slot := Function.update c.slot level (c.nextSlot level) } := by
  simp only [moveLevel, Function.update_self]
  rw [hrep.listAt_nextSlot, hroot]
  rfl

theorem Rep.moveLevel_of_some (hrep : Rep c lists) {level : Level}
    (hroot : c.tw (level, c.nextSlot level) = some root) (fuel : Nat) (tkTime : Int64) :
    c.moveLevel fuel tkTime level = (popRange (demote tkTime) root fuel
      ({ c with slot := Function.update c.slot level (c.nextSlot level) }, ()) >>= fun r =>
        .ok r.1) := by
  simp only [moveLevel, Function.update_self]
  rw [hrep.listAt_nextSlot, hroot]
  rfl

end Walks

end Gokit.Clock
