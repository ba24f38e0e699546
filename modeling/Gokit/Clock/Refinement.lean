/-
# The clock refines the table of pending timers

`Inv` ties the two levels together: the wheel is well formed, the log is valid,
and the table computed from the log is the one read off `locs`.  In the middle of
a tick the promises gathered for batch channels are owed: their timers have left
the wheel, but the log does not know it yet.  The invariant also carries a
property of the places at which timers are linked, so that a statement about
where timers are can be proved along with it.

Tasks and ticks keep the invariant, so it holds after every run.  What a user can
observe of it is collected in `HoldsOnce` and, through the log, in `Truthful`.
-/

import Gokit.Clock.Steps
import Gokit.Clock.Pending

namespace Gokit.Clock

open Gokit.Math

variable {D : Type}

/-! ## The invariant -/

/-- A property of linked timers and the places they are linked at. It may depend
on what has happened so far and is not lost by later events. -/
structure Placement (D : Type) where
  ok : List (Event D) → Level × Int64 → Timer D → Prop
  mono : ∀ log event i timer, ok log i timer → ok (log ++ [event]) i timer

/-- Any place will do. -/
def Placement.any : Placement D where
  ok _ _ _ := True
  mono _ _ _ _ := id

/-- The promises gathered for batch channels, with their channels. -/
def owed (batchs : Batches D) : List (Chan × Promise D) :=
  batchs.flatMap fun batch => batch.2.map fun promise => (batch.1, promise)

def owedIds (batchs : Batches D) : List Int := (owed batchs).map fun entry => entry.2.timerId

/-- The log is valid and justifies the promises that are owed; `pending` is its
table without them. -/
structure Accounts (c : Clock D) (batchs : Batches D) (pending : Int → Option (Timer D)) :
    Prop where
  valid : ValidLog c.log
  lastId : (afterLog c.log).lastId = c.genId
  table : ((afterLog c.log).remove (owedIds batchs)).table = pending
  nodup : (owedIds batchs).Nodup
  due : ∀ entry ∈ owed batchs,
    ∃ timer, (afterLog c.log).Due timer entry.2 ∧ timer.batch = some entry.1

/-- Every linked timer is where `G` allows it. -/
def Placed (G : Placement D) (c : Clock D) (lists : Lists) : Prop :=
  ∀ i, ∀ t ∈ lists i, ∀ timer, valueOf c.heap t = some timer → G.ok c.log i timer

/-- The wheel consists of `lists`, and the log agrees with the clock's table. -/
structure Inv (G : Placement D) (c : Clock D) (batchs : Batches D) (lists : Lists) : Prop where
  rep : Rep c lists
  accounts : Accounts c batchs c.table
  placed : Placed G c lists

/-- The same while the timer `t` is held: it is still pending. -/
structure InvHeld (G : Placement D) (c : Clock D) (batchs : Batches D) (lists : Lists) (t : Ptr)
    (timer : Timer D) : Prop where
  held : Held c lists t timer
  accounts : Accounts c batchs (Function.update c.table timer.id (some timer))
  placed : Placed G c lists

theorem inv_newClock (G : Placement D) : Inv G (newClock : Clock D) [] fun _ => [] where
  rep := rep_newClock
  accounts :=
    { valid := validLog_nil
      lastId := rfl
      table := rfl
      nodup := by simp [owedIds, owed]
      due := by simp [owed] }
  placed := by simp [Placed]

theorem owed_appendBatch (batchs : Batches D) (ch : Chan) (promise : Promise D) :
    (owed (appendBatch batchs ch promise)).Perm ((ch, promise) :: owed batchs) := by
  induction batchs with
  | nil => rfl
  | cons first rest ih =>
    obtain ⟨other, promises⟩ := first
    by_cases heq : other = ch
    · subst heq
      simp only [appendBatch, if_true, owed, List.flatMap_cons, List.map_append, List.map_cons,
        List.map_nil, List.append_assoc, List.cons_append, List.nil_append]
      exact List.perm_middle
    · simp only [appendBatch, if_neg heq, owed, List.flatMap_cons]
      exact (ih.append_left _).trans List.perm_middle

variable {event : Event D}

section Accounts

variable {c c' : Clock D} {batchs batchs' : Batches D} {pending : Int → Option (Timer D)}
  {timer : Timer D}

theorem Accounts.congr (hacc : Accounts c batchs pending) (hlog : c'.log = c.log)
    (hgenId : c'.genId = c.genId) : Accounts c' batchs pending where
  valid := by rw [hlog]; exact hacc.valid
  lastId := by rw [hlog, hgenId]; exact hacc.lastId
  table := by rw [hlog]; exact hacc.table
  nodup := hacc.nodup
  due := by rw [hlog]; exact hacc.due

/-- A pending timer is pending in the table of the log and is not owed. -/
theorem Accounts.of_pending (hacc : Accounts c batchs pending) {id : Int}
    (hpending : pending id = some timer) :
    timer.id = id ∧ id ∉ owedIds batchs ∧ (afterLog c.log).table id = some timer := by
  have hlog := congrFun hacc.table id
  rw [hpending] at hlog
  simp only [Pending.remove] at hlog
  split_ifs at hlog with howed
  exact ⟨((afterLog c.log).own id timer hlog).1, howed, hlog⟩

/-- The order of what is owed does not matter. -/
theorem Accounts.perm (hacc : Accounts c batchs pending)
    (hperm : (owed batchs').Perm (owed batchs)) : Accounts c batchs' pending where
  valid := hacc.valid
  lastId := hacc.lastId
  table := by
    rw [← hacc.table]
    funext id
    have hmem : id ∈ owedIds batchs' ↔ id ∈ owedIds batchs := (hperm.map _).mem_iff
    simp [Pending.remove, hmem]
  nodup := (hperm.map _).nodup_iff.mpr hacc.nodup
  due entry hentry := hacc.due entry (hperm.mem_iff.mp hentry)

/-- A pending timer becomes owed. -/
theorem Accounts.gather {ch : Chan} (hacc : Accounts c batchs pending) (promise : Promise D)
    (hpending : pending promise.timerId = some timer) (hdue : timer.when ≤ promise.nowTs)
    (hdata : promise.data = timer.data) (hbatch : timer.batch = some ch)
    (howed : (owed batchs').Perm ((ch, promise) :: owed batchs)) :
    Accounts c batchs' (Function.update pending promise.timerId none) where
  valid := hacc.valid
  lastId := hacc.lastId
  table := by
    rw [← hacc.table]
    funext id
    have hmem : id ∈ owedIds batchs' ↔ id = promise.timerId ∨ id ∈ owedIds batchs :=
      (howed.map _).mem_iff.trans List.mem_cons
    by_cases heq : id = promise.timerId
    · have hin := hmem.mpr (Or.inl heq)
      rw [heq] at hin ⊢
      simp [Pending.remove, hin]
    · simp [Pending.remove, hmem, heq]
  nodup := by
    refine (howed.map _).nodup_iff.mpr (List.nodup_cons.mpr ⟨?_, hacc.nodup⟩)
    exact (hacc.of_pending hpending).2.1
  due entry hentry := by
    rcases List.mem_cons.mp (howed.mem_iff.mp hentry) with rfl | hold
    · exact ⟨timer, ⟨(hacc.of_pending hpending).2.2, hdue, hdata⟩, hbatch⟩
    · exact hacc.due entry hold

/-- An event that removes the timers `ids`, none of which is owed. -/
theorem Accounts.deliver (hacc : Accounts c batchs pending) (ids : List Int)
    (hvalid : event.Valid (afterLog c.log))
    (heffect : event.effect (afterLog c.log) = (afterLog c.log).remove ids)
    (hids : ∀ id ∈ ids, id ∉ owedIds batchs) :
    Accounts (c.emit event) batchs fun id => if id ∈ ids then none else pending id where
  valid := validLog_concat.mpr ⟨hacc.valid, hvalid⟩
  lastId := by
    rw [emit, afterLog_concat, heffect]
    exact hacc.lastId
  table := by
    rw [emit, afterLog_concat, heffect, ← hacc.table]
    funext id
    simp only [Pending.remove]
    split_ifs <;> rfl
  nodup := hacc.nodup
  due entry hentry := by
    obtain ⟨timer, ⟨htable, hwhen, hdata⟩, hbatch⟩ := hacc.due entry hentry
    refine ⟨timer, ⟨?_, hwhen, hdata⟩, hbatch⟩
    have hnot : entry.2.timerId ∉ ids := fun hmem =>
      hids _ hmem (List.mem_map_of_mem (f := fun entry => entry.2.timerId) hentry)
    rw [emit, afterLog_concat, heffect]
    simp only [Pending.remove, if_neg hnot]
    exact htable

theorem Accounts.sendBatch {ch : Chan} {promises : List (Promise D)}
    (hacc : Accounts c ((ch, promises) :: batchs) pending) :
    Accounts (c.emit (.sentBatch ch promises)) batchs pending := by
  have howed : owed ((ch, promises) :: batchs) =
      promises.map (fun promise => (ch, promise)) ++ owed batchs := by
    simp [owed]
  have hids : owedIds ((ch, promises) :: batchs) =
      promises.map Promise.timerId ++ owedIds batchs := by
    simp [owedIds, howed, List.map_map, Function.comp_def]
  have hnodup := hacc.nodup
  rw [hids, List.nodup_append] at hnodup
  have hvalid : (Event.sentBatch ch promises).Valid (afterLog c.log) := by
    refine ⟨hnodup.1, fun promise hpromise => ?_⟩
    exact hacc.due (ch, promise) (by rw [howed]; simp [hpromise])
  -- the rest is still owed, by the same log
  have hrest : Accounts c batchs
      ((afterLog c.log).remove (owedIds batchs)).table :=
    { valid := hacc.valid
      lastId := hacc.lastId
      table := rfl
      nodup := hnodup.2.1
      due := fun entry hentry => hacc.due entry (by rw [howed]; simp [hentry]) }
  have hsent := hrest.deliver (promises.map Promise.timerId) hvalid rfl
    (fun id hid howedId => hnodup.2.2 id hid id howedId rfl)
  have hpending : (fun id => if id ∈ promises.map Promise.timerId then none
      else ((afterLog c.log).remove (owedIds batchs)).table id) = pending := by
    rw [← hacc.table, hids]
    funext id
    simp only [Pending.remove, List.mem_append]
    split_ifs <;> first | rfl | tauto
  rwa [hpending] at hsent

end Accounts

/-! ## Holding and linking -/

variable {i : Level × Int64}

section Held

variable {G : Placement D} {c c' : Clock D} {batchs batchs' : Batches D} {lists lists' : Lists}
  {t : Ptr} {timer : Timer D}

theorem Placed.emit (hplaced : Placed G c lists) (event : Event D) :
    Placed G (c.emit event) lists :=
  fun i t ht timer hvalue => G.mono c.log event i timer (hplaced i t ht timer hvalue)

/-- Taking a timer out of a list. -/
theorem Inv.hold (hinv : Inv G c batchs lists) {front back : List Ptr}
    (hlist : lists i = front ++ t :: back) {heap : Store (TimerCell D)}
    (hvalues : valueOf heap = valueOf c.heap) (hloc : c.locs timer.id = some t)
    (hheld : Held { c with heap } (Function.update lists i (front ++ back)) t timer) :
    InvHeld G { c with heap } batchs (Function.update lists i (front ++ back)) t timer ∧
      G.ok c.log i timer := by
  have hvalue : valueOf c.heap t = some timer := by
    have hvalue := hheld.value
    rwa [hvalues] at hvalue
  have hsame : ({ c with heap } : Clock D).table = c.table := by
    funext id
    simp [Clock.table, hvalues]
  have hpending : c.table timer.id = some timer := by simp [Clock.table, hloc, hvalue]
  refine ⟨⟨hheld, ?_, ?_⟩, hinv.placed i t (by simp [hlist]) timer hvalue⟩
  · rw [hsame, Function.update_eq_self_iff.mpr hpending.symm]
    exact hinv.accounts.congr rfl rfl
  · intro j u hu other hother
    have hu' : u ∈ lists j := by
      by_cases heq : j = i
      · subst heq
        rw [Function.update_self, List.mem_append] at hu
        rw [hlist]
        simp only [List.mem_append, List.mem_cons]
        tauto
      · rwa [Function.update_of_ne heq] at hu
    refine hinv.placed j u hu' other ?_
    have hother' : valueOf heap u = some other := hother
    rwa [hvalues] at hother'

/-- A held timer is pending in the table of the log and is not owed. -/
theorem InvHeld.pending (hinv : InvHeld G c batchs lists t timer) :
    timer.id ∉ owedIds batchs ∧ (afterLog c.log).table timer.id = some timer :=
  (hinv.accounts.of_pending (Function.update_self _ _ _)).2

theorem InvHeld.deleteLoc (hinv : InvHeld G c batchs lists t timer) :
    InvHeld G (c.deleteLoc timer.id) batchs lists t timer where
  held := hinv.held.deleteLoc
  accounts := by
    rw [table_deleteLoc, Function.update_idem]
    exact hinv.accounts.congr rfl rfl
  placed := hinv.placed

/-- An attempt to send that is refused. -/
theorem InvHeld.refuse (hinv : InvHeld G c batchs lists t timer) :
    InvHeld G (c.emit (.refused timer.id)) batchs lists t timer where
  held := hinv.held.emit _
  accounts := by
    have hvalid : (Event.refused timer.id : Event D).Valid (afterLog c.log) := by
      rw [Event.Valid, hinv.pending.2]
      rfl
    have hacc := hinv.accounts.deliver [] hvalid (Pending.remove_nil _).symm (by simp)
    simpa using hacc
  placed := hinv.placed.emit _

theorem InvHeld.relink (hinv : InvHeld G c batchs lists t timer)
    (hrelinked : Relinked c c' lists i t timer) (hok : G.ok c.log i timer) :
    Inv G c' batchs (lists.put i t) where
  rep := hrelinked.rep
  accounts := by
    rw [hrelinked.table]
    exact hinv.accounts.congr hrelinked.log hrelinked.genId
  placed := by
    intro j u hu other hother
    rw [hrelinked.log]
    rcases Lists.mem_put.mp hu with hold | ⟨rfl, rfl⟩
    · obtain ⟨value, hvalue⟩ := hinv.held.rep.exists_value hold
      obtain rfl : value = other :=
        Option.some.inj ((hrelinked.keep u value hvalue).symm.trans hother)
      exact hinv.placed j u hold value hvalue
    · obtain rfl : timer = other := Option.some.inj (hrelinked.value.symm.trans hother)
      exact hok

/-- The held timer goes away with an event that delivers or cancels it. -/
theorem InvHeld.drop (hinv : InvHeld G c batchs lists t timer)
    (hvalid : event.Valid (afterLog c.log))
    (heffect : event.effect (afterLog c.log) = (afterLog c.log).remove [timer.id]) :
    Inv G ((c.deleteLoc timer.id).emit event) batchs lists where
  rep := hinv.held.rep.congr rfl rfl rfl hinv.held.rep.slots
  accounts := by
    have hacc := hinv.accounts.deliver [timer.id] hvalid heffect (by simpa using hinv.pending.1)
    have hpending : (fun id => if id ∈ [timer.id] then none
        else Function.update c.table timer.id (some timer) id) =
          Function.update c.table timer.id none := by
      funext id
      by_cases heq : id = timer.id
      · simp [heq]
      · simp [heq]
    rw [hpending] at hacc
    rw [table_emit, table_deleteLoc]
    exact hacc.congr rfl rfl
  placed := Placed.emit (c := c.deleteLoc timer.id) hinv.placed event

/-- One round of `trigger`. -/
theorem InvHeld.fire (hinv : InvHeld G c batchs lists t timer) {nowMs : Int64}
    (heffect : FireEffect nowMs c batchs lists t timer c' batchs' lists')
    (hrequeue : timer.when ≤ nowMs → G.ok (c.log ++ [.refused timer.id]) (0, c.nextSlot 0) timer)
    (hreadd : ¬ timer.when ≤ nowMs → G.ok c.log (place c.slot timer.when c.lastTime) timer) :
    Inv G c' batchs' lists' := by
  cases heffect with
  | sent ch hdue hbatch hreceiver =>
    exact hinv.drop ⟨timer, ⟨hinv.pending.2, hdue, rfl⟩, hbatch, hreceiver⟩ rfl
  | gathered ch hdue hbatch =>
    have hacc := hinv.accounts.gather ⟨timer.id, nowMs, timer.data⟩
      (Function.update_self _ _ _) hdue rfl hbatch (owed_appendBatch batchs ch _)
    rw [Function.update_idem] at hacc
    exact ⟨hinv.held.rep, by rw [table_deleteLoc]; exact hacc.congr rfl rfl, hinv.placed⟩
  | requeued _ hdue hrelinked => exact hinv.deleteLoc.refuse.relink hrelinked (hrequeue hdue)
  | readded _ hlater hrelinked => exact hinv.deleteLoc.relink hrelinked (hreadd hlater)

end Held

/-! ## Tasks -/

section Tasks

variable {G : Placement D} {c c' : Clock D} {lists : Lists} {t : Ptr} {timer : Timer D}

theorem Relinked.emit (hrelinked : Relinked c c' lists i t timer) (event : Event D) :
    Relinked (c.emit event) (c'.emit event) lists i t timer where
  rep := hrelinked.rep.congr rfl rfl rfl hrelinked.rep.slots
  table := hrelinked.table
  value := hrelinked.value
  keep := hrelinked.keep
  roots := hrelinked.roots
  genId := hrelinked.genId
  lastTime := hrelinked.lastTime
  slot := hrelinked.slot
  log := by rw [Clock.emit, Clock.emit, hrelinked.log]

theorem Inv.locs_next (hinv : Inv G c [] lists) : c.locs (c.genId + 1) = none := by
  cases hloc : c.locs (c.genId + 1) with
  | none => rfl
  | some u =>
    have hsome := hinv.rep.table_isSome (c.genId + 1)
    rw [hloc] at hsome
    obtain ⟨timer, htimer⟩ := Option.isSome_iff_exists.mp hsome
    have htable := (hinv.accounts.of_pending htimer).2.2
    have hle := ((afterLog c.log).own _ _ htable).2
    rw [hinv.accounts.lastId] at hle
    omega

/-- An event about a timer that is not pending. -/
theorem Inv.quiet (hinv : Inv G c [] lists) (hvalid : event.Valid (afterLog c.log))
    (heffect : event.effect (afterLog c.log) = afterLog c.log) : Inv G (c.emit event) [] lists where
  rep := hinv.rep.congr rfl rfl rfl hinv.rep.slots
  accounts := by
    have hacc := hinv.accounts.deliver [] hvalid
      (heffect.trans (Pending.remove_nil _).symm) (by simp)
    simpa using hacc
  placed := hinv.placed.emit _

theorem Inv.table_eq (hinv : Inv G c [] lists) : (afterLog c.log).table = c.table := by
  have htable := hinv.accounts.table
  simpa [owedIds, owed] using htable

theorem Inv.cancelTimerTask_spec (hinv : Inv G c [] lists) (id : Int) :
    ∃ c' lists', c.cancelTimerTask id = .ok c' ∧ Inv G c' [] lists' ∧
      c'.slot = c.slot ∧ c'.lastTime = c.lastTime := by
  cases hloc : c.locs id with
  | none =>
    have hnone : (afterLog c.log).table id = none := by
      rw [hinv.table_eq]
      simp [Clock.table, hloc]
    have hvalid : (Event.cancelled id false : Event D).Valid (afterLog c.log) := by
      rw [Event.Valid, hnone]
      rfl
    exact ⟨c.emit (.cancelled id false), lists, by simp [cancelTimerTask, delTimer, hloc],
      hinv.quiet hvalid (Pending.remove_of_none hnone), rfl, rfl⟩
  | some t =>
    obtain ⟨heap, i, front, back, timer, hlist, htimer, hid, hdel, hvalues, hheld⟩ :=
      hinv.rep.delTimer_spec hloc
    subst hid
    obtain ⟨hinv', -⟩ := hinv.hold hlist hvalues hloc hheld
    have hlogged : (afterLog c.log).table timer.id = some timer := hinv'.pending.2
    have hvalid : (Event.cancelled timer.id true : Event D).Valid (afterLog c.log) := by
      rw [Event.Valid, hlogged]
      rfl
    refine ⟨_, _, ?_, hinv'.drop hvalid rfl, rfl, rfl⟩
    simp [cancelTimerTask, hdel]

variable [Inhabited D]

theorem Inv.newTimerTask_spec (hinv : Inv G c [] lists) (when : Int64) (data : D)
    (receiver batch : Option Chan)
    (hok : ∀ log timer, timer.when = when → G.ok log (place c.slot when c.lastTime) timer) :
    ∃ c' lists', c.newTimerTask when data receiver batch = .ok c' ∧ Inv G c' [] lists' ∧
      c'.slot = c.slot ∧ c'.lastTime = c.lastTime := by
  let timer : Timer D := ⟨c.genId + 1, when, data, receiver, batch⟩
  obtain ⟨hheld, htable, hkeep⟩ := hinv.rep.alloc_spec timer (c.genId + 1) hinv.locs_next
  obtain ⟨c', hadd, hrelinked⟩ := hheld.addTimer_spec
  have hlinked := hrelinked.emit (.created timer)
  have hnew : (Event.created timer).Valid (afterLog c.log) := by
    rw [Event.Valid, hinv.accounts.lastId]
  suffices hinvHeld : InvHeld G _ [] lists c.heap.fresh timer by
    refine ⟨c'.emit (.created timer), _, ?_, hinvHeld.relink hlinked (hok _ timer rfl),
      hrelinked.slot, hrelinked.lastTime⟩
    simp only [newTimerTask]
    rw [hadd]
    rfl
  refine ⟨hheld.emit _, ?_, ?_⟩
  · exact
      { valid := validLog_concat.mpr ⟨hinv.accounts.valid, hnew⟩
        lastId := by
          show (afterLog (c.log ++ [.created timer])).lastId = c.genId + 1
          rw [afterLog_concat]
          show max (afterLog c.log).lastId (c.genId + 1) = c.genId + 1
          rw [hinv.accounts.lastId]
          omega
        table := by
          show ((afterLog (c.log ++ [.created timer])).remove _).table = _
          have hold := hinv.accounts.table
          simp only [owedIds, owed, List.flatMap_nil, List.map_nil, Pending.remove_nil] at hold ⊢
          rw [table_emit, htable, ← hold, afterLog_concat]
          rfl
        nodup := by simp [owedIds, owed]
        due := by simp [owed] }
  · refine Placed.emit ?_ _
    intro i u hu other hother
    obtain ⟨value, hvalue⟩ := hinv.rep.exists_value hu
    obtain rfl : value = other := Option.some.inj ((hkeep u value hvalue).symm.trans hother)
    exact hinv.placed i u hu value hvalue

theorem Inv.updateTimerTask_spec (hinv : Inv G c [] lists) (id : Int) (when : Int64)
    (hok : ∀ log timer, timer.when = when → G.ok log (place c.slot when c.lastTime) timer) :
    ∃ c' lists', c.updateTimerTask id when = .ok c' ∧ Inv G c' [] lists' ∧
      c'.slot = c.slot ∧ c'.lastTime = c.lastTime := by
  cases hloc : c.locs id with
  | none =>
    have hnone : (afterLog c.log).table id = none := by
      rw [hinv.table_eq]
      simp [Clock.table, hloc]
    have hvalid : (Event.updated id when false : Event D).Valid (afterLog c.log) := by
      rw [Event.Valid, hnone]
      rfl
    exact ⟨c.emit (.updated id when false), lists,
      by simp [updateTimerTask, updateTimer, delTimer, hloc],
      hinv.quiet hvalid (Pending.retime_of_none hnone when), rfl, rfl⟩
  | some t =>
    obtain ⟨heap, i, front, back, timer, hlist, htimer, hid, hdel, hvalues, hheld⟩ :=
      hinv.rep.delTimer_spec hloc
    subst hid
    obtain ⟨hinv₁, -⟩ := hinv.hold hlist hvalues hloc hheld
    have hinv₂ := hinv₁.deleteLoc
    obtain ⟨heap', hset, hheld', htable', hvalues'⟩ := hinv₂.held.setWhen_spec
      (by simp [Clock.deleteLoc]) when
    obtain ⟨c', hadd, hrelinked⟩ := hheld'.addTimer_spec
    have hlinked := hrelinked.emit (.updated timer.id when true)
    have hlogged : (afterLog c.log).table timer.id = some timer := hinv₁.pending.2
    have hvalid : (Event.updated timer.id when true : Event D).Valid (afterLog c.log) := by
      rw [Event.Valid, hlogged]
      rfl
    suffices hinvHeld : InvHeld G _ [] _ t { timer with when } by
      refine ⟨c'.emit (.updated timer.id when true), _, ?_,
        hinvHeld.relink hlinked (hok _ _ rfl), hrelinked.slot, hrelinked.lastTime⟩
      have hvalue := getValue_spec hinv₂.held.value
      simp [updateTimerTask, updateTimer, hdel, hvalue, hset, hadd]
    refine ⟨hheld'.emit _, ?_, ?_⟩
    · exact
        { valid := validLog_concat.mpr ⟨hinv.accounts.valid, hvalid⟩
          lastId := by
            show (afterLog (c.log ++ [.updated timer.id when true])).lastId = c.genId
            rw [afterLog_concat]
            exact hinv.accounts.lastId
          table := by
            have hsame : ({ c with heap } : Clock D).table = c.table := by
              funext other
              simp [Clock.table, hvalues]
            show ((afterLog (c.log ++ [.updated timer.id when true])).remove []).table = _
            rw [Pending.remove_nil, afterLog_concat, table_emit, htable', table_deleteLoc,
              hsame, Function.update_idem, ← hinv.table_eq]
            simp [Event.effect, Pending.retime, hlogged]
          nodup := by simp [owedIds, owed]
          due := by simp [owed] }
    · refine Placed.emit ?_ _
      intro j u hu other hother
      refine hinv₂.placed j u hu other ?_
      rw [← hvalues' j u hu]
      exact hother

end Tasks

/-! ## Ticks -/

section Ticks

variable {G G' : Placement D} {c : Clock D} {batchs : Batches D} {lists : Lists}

/-- Another placement that holds where timers are linked. -/
theorem Inv.weaken (hinv : Inv G c batchs lists)
    (himp : ∀ i timer, lists i ≠ [] → G.ok c.log i timer → G'.ok c.log i timer) :
    Inv G' c batchs lists where
  rep := hinv.rep
  accounts := hinv.accounts
  placed i t ht timer hvalue :=
    himp i timer (List.ne_nil_of_mem ht) (hinv.placed i t ht timer hvalue)

theorem Inv.advance (hinv : Inv G c batchs lists) (level : Level) :
    Inv G { c with slot := Function.update c.slot level (c.nextSlot level) } batchs lists where
  rep := hinv.rep.advance level
  accounts := hinv.accounts.congr rfl rfl
  placed := hinv.placed

theorem Inv.sendBatches :
    ∀ (batchs : Batches D) {c : Clock D}, Inv G c batchs lists →
      Inv G (c.sendBatches batchs) [] lists ∧ (c.sendBatches batchs).slot = c.slot ∧
        (c.sendBatches batchs).lastTime = c.lastTime := by
  intro batchs
  induction batchs with
  | nil =>
    intro c hinv
    exact ⟨hinv, rfl, rfl⟩
  | cons first rest ih =>
    intro c hinv
    exact ih ⟨hinv.rep.congr rfl rfl rfl hinv.rep.slots, hinv.accounts.sendBatch,
      hinv.placed.emit _⟩

variable [Inhabited D]

/-- `trigger` keeps the invariant and empties the current slot of level 0. -/
theorem Inv.trigger_safe (hinv : Inv G c [] lists) (env : Env D) (fuel : Nat) (nowMs : Int64)
    (hrequeue : ∀ log timer, G.ok log (0, c.slot 0) timer → timer.when ≤ nowMs →
      G.ok (log ++ [.refused timer.id]) (0, c.nextSlot 0) timer)
    (hreadd : ∀ log timer, G.ok log (0, c.slot 0) timer → ¬ timer.when ≤ nowMs →
      G.ok log (place c.slot timer.when c.lastTime) timer) :
    Exec.Safe (c.trigger env fuel nowMs) fun c' => ∃ lists', Inv G c' [] lists' ∧
      c'.slot = c.slot ∧ c'.lastTime = c.lastTime ∧ lists' (0, c.slot 0) = [] := by
  cases hroot : c.tw (0, c.slot 0) with
  | none =>
    rw [hinv.rep.trigger_of_none hroot, Exec.safe_ok]
    exact ⟨lists, hinv, rfl, rfl, hinv.rep.rings.empty _ hroot⟩
  | some root =>
    rw [hinv.rep.trigger_of_some hroot]
    refine Exec.Safe.bind (popRange_safe (i := (0, c.slot 0))
      (fun c' batchs' lists' => Inv G c' batchs' lists' ∧ c'.tw (0, c.slot 0) = some root ∧
        c'.slot = c.slot ∧ c'.lastTime = c.lastTime) ?_ ?_ fuel c [] lists
        ⟨hinv, hroot, rfl, rfl⟩) ?_
    · rintro c' batchs' lists' ⟨hinv', hroot', -, -⟩
      exact ⟨hinv'.rep, hroot'⟩
    · rintro c' batchs' lists' t rest heap timer ⟨hinv', hroot', hslot, htime⟩ hlist hvalues
        hloc hheld
      have hcut : lists' (0, c.slot 0) = [] ++ t :: rest := hlist
      obtain ⟨hinvHeld, hok⟩ := hinv'.hold hcut hvalues hloc hheld
      obtain ⟨c'', batchs'', lists'', hfire, heffect⟩ := hheld.fire_spec env nowMs batchs'
      have hnext : c'.nextSlot 0 = c.nextSlot 0 := by rw [nextSlot, nextSlot, hslot]
      have hinv'' := hinvHeld.fire heffect
        (fun hdue => by
          show G.ok _ (0, c'.nextSlot 0) timer
          rw [hnext]
          exact hrequeue _ timer hok hdue)
        (fun hlater => by
          show G.ok _ (place c'.slot timer.when c'.lastTime) timer
          rw [hslot, htime]
          exact hreadd _ timer hok hlater)
      obtain ⟨hslot'', htime'', -, hroots⟩ := heffect.frame
      rw [hfire, Exec.safe_ok]
      exact ⟨lists'', hinv'', hroots _ _ hroot', hslot''.trans hslot, htime''.trans htime⟩
    · rintro ⟨c', batchs'⟩ ⟨lists', ⟨hinv', -, hslot, htime⟩, hempty⟩
      have hordered : Inv G c' (env.order batchs') lists' :=
        ⟨hinv'.rep, hinv'.accounts.perm ((env.order_perm batchs').flatMap_right _),
          hinv'.placed⟩
      obtain ⟨hsent, hslot', htime'⟩ := Inv.sendBatches _ hordered
      exact ⟨lists', hsent, hslot'.trans hslot, htime'.trans htime, hempty⟩

/-- One round of the cascade keeps the invariant and empties the slot its level
moves to. -/
theorem Inv.moveLevel_safe (hinv : Inv G c [] lists) (fuel : Nat) (tkTime : Int64)
    (level : Level)
    (hdemote : ∀ log timer, G.ok log (level, c.nextSlot level) timer →
      G.ok log (place (Function.update c.slot level (c.nextSlot level)) timer.when tkTime) timer) :
    Exec.Safe (c.moveLevel fuel tkTime level) fun c' => ∃ lists', Inv G c' [] lists' ∧
      c'.slot = Function.update c.slot level (c.nextSlot level) ∧ c'.lastTime = c.lastTime ∧
      c'.log = c.log ∧ lists' (level, c.nextSlot level) = [] := by
  let c₁ : Clock D := { c with slot := Function.update c.slot level (c.nextSlot level) }
  have hinv₁ : Inv G c₁ [] lists := hinv.advance level
  cases hroot : c.tw (level, c.nextSlot level) with
  | none =>
    rw [hinv.rep.moveLevel_of_none hroot, Exec.safe_ok]
    exact ⟨lists, hinv₁, rfl, rfl, rfl, hinv₁.rep.rings.empty _ hroot⟩
  | some root =>
    rw [hinv.rep.moveLevel_of_some hroot]
    refine Exec.Safe.bind (popRange_safe (i := (level, c.nextSlot level))
      (fun c' _ lists' => Inv G c' [] lists' ∧ c'.tw (level, c.nextSlot level) = some root ∧
        c'.slot = c₁.slot ∧ c'.lastTime = c.lastTime ∧ c'.log = c.log) ?_ ?_ fuel c₁ () lists
        ⟨hinv₁, hroot, rfl, rfl, rfl⟩) ?_
    · rintro c' _ lists' ⟨hinv', hroot', -⟩
      exact ⟨hinv'.rep, hroot'⟩
    · rintro c' _ lists' t rest heap timer ⟨hinv', hroot', hslot, htime, hlog⟩ hlist hvalues
        hloc hheld
      have hcut : lists' (level, c.nextSlot level) = [] ++ t :: rest := hlist
      obtain ⟨hinvHeld, hok⟩ := hinv'.hold hcut hvalues hloc hheld
      obtain ⟨c'', hdemoted, hrelinked⟩ := hheld.demote_spec tkTime
      have hplace : G.ok c'.log (place c'.slot timer.when tkTime) timer := by
        rw [hslot]
        exact hdemote _ timer hok
      rw [hdemoted, Exec.safe_ok]
      exact ⟨_, hinvHeld.relink hrelinked hplace, hrelinked.roots _ _ hroot',
        hrelinked.slot.trans hslot, hrelinked.lastTime.trans htime, hrelinked.log.trans hlog⟩
    · rintro ⟨c', _⟩ ⟨lists', ⟨hinv', -, hslot, htime, hlog⟩, hempty⟩
      exact ⟨lists', hinv', hslot, htime, hlog, hempty⟩

/-- The cascade puts every timer back, whatever the times are. -/
theorem Inv.cascade_safe (fuel : Nat) (tkTime : Int64) :
    ∀ (levels : List Level) {c : Clock D} {lists : Lists}, Inv .any c [] lists →
      Exec.Safe (c.cascade fuel tkTime levels) fun c' => ∃ lists', Inv .any c' [] lists' := by
  intro levels
  induction levels with
  | nil =>
    intro c lists hinv
    exact ⟨lists, hinv⟩
  | cons i levels ih =>
    intro c lists hinv
    by_cases hslot : c.slot (i - 1) ≠ 0
    · rw [cascade, if_pos hslot]
      exact ⟨lists, hinv⟩
    · rw [cascade, if_neg hslot]
      refine (hinv.moveLevel_safe fuel tkTime i fun _ _ _ => trivial).bind ?_
      rintro c' ⟨lists', hinv', -⟩
      exact ih hinv'

/-- A tick keeps the invariant, whatever the times are. -/
theorem Inv.tick_safe (hinv : Inv .any c [] lists) (env : Env D) (fuel : Nat)
    (nowMs tkTime : Int64) :
    Exec.Safe (c.tick env fuel nowMs tkTime) fun c' => ∃ lists', Inv .any c' [] lists' := by
  refine ((hinv.advance 0).trigger_safe env fuel nowMs (fun _ _ _ _ => trivial)
    fun _ _ _ _ => trivial).bind ?_
  rintro c' ⟨lists', hinv', -⟩
  exact hinv'.cascade_safe fuel tkTime [1, 2, 3]

end Ticks

/-! ## Runs -/

section Runs

variable [Inhabited D]

/-- The tasks of the package's users. -/
inductive Task (D : Type)
  | newTimer (when : Int64) (data : D) (receiver batch : Option Chan)
  | cancelTimer (id : Int)
  | updateTimer (id : Int) (when : Int64)

def perform (c : Clock D) : Task D → Exec (Clock D)
  | .newTimer when data receiver batch => c.newTimerTask when data receiver batch
  | .cancelTimer id => c.cancelTimerTask id
  | .updateTimer id when => c.updateTimerTask id when

def Task.Sets : Task D → Int64 → Prop
  | .newTimer when _ _ _, time => time = when
  | .cancelTimer _, _ => False
  | .updateTimer _ when, time => time = when

variable {c : Clock D} {lists : Lists}

theorem Inv.perform_spec {G : Placement D} (hinv : Inv G c [] lists) (task : Task D)
    (hok : ∀ log timer, task.Sets timer.when →
      G.ok log (place c.slot timer.when c.lastTime) timer) :
    ∃ c' lists', c.perform task = .ok c' ∧ Inv G c' [] lists' ∧ c'.slot = c.slot ∧
      c'.lastTime = c.lastTime := by
  cases task with
  | newTimer when data receiver batch =>
    refine hinv.newTimerTask_spec when data receiver batch fun log timer hwhen => ?_
    rw [← hwhen]
    exact hok log timer hwhen
  | cancelTimer id => exact hinv.cancelTimerTask_spec id
  | updateTimer id when =>
    refine hinv.updateTimerTask_spec id when fun log timer hwhen => ?_
    rw [← hwhen]
    exact hok log timer hwhen

/-- What the clock's goroutine does: tasks, the assignment of a clock reading to
`lastTime`, and ticks. -/
inductive Op (D : Type)
  | task (task : Task D)
  | setTime (lastTime : Int64)
  | tick (env : Env D) (fuel : Nat) (nowMs tkTime : Int64)

def apply (c : Clock D) : Op D → Exec (Clock D)
  | .task task => c.perform task
  | .setTime lastTime => .ok { c with lastTime }
  | .tick env fuel nowMs tkTime => c.tick env fuel nowMs tkTime

def run (c : Clock D) : List (Op D) → Exec (Clock D)
  | [] => .ok c
  | op :: ops => do
    let c ← c.apply op
    c.run ops

theorem Inv.apply_safe (hinv : Inv .any c [] lists) (op : Op D) :
    Exec.Safe (c.apply op) fun c' => ∃ lists', Inv .any c' [] lists' := by
  cases op with
  | task task =>
    obtain ⟨c', lists', hperform, hinv', -⟩ := hinv.perform_spec task fun _ _ _ => trivial
    rw [apply, hperform, Exec.safe_ok]
    exact ⟨lists', hinv'⟩
  | setTime lastTime =>
    exact ⟨lists, hinv.rep.congr rfl rfl rfl hinv.rep.slots, hinv.accounts.congr rfl rfl,
      hinv.placed⟩
  | tick env fuel nowMs tkTime => exact hinv.tick_safe env fuel nowMs tkTime

theorem Inv.run_safe :
    ∀ (ops : List (Op D)) {c : Clock D} {lists : Lists}, Inv .any c [] lists →
      Exec.Safe (c.run ops) fun c' => ∃ lists', Inv .any c' [] lists' := by
  intro ops
  induction ops with
  | nil =>
    intro c lists hinv
    exact ⟨lists, hinv⟩
  | cons op ops ih =>
    intro c lists hinv
    refine (hinv.apply_safe op).bind ?_
    rintro c' ⟨lists', hinv'⟩
    exact ih hinv'

/-! ## What can be read off the clock -/

omit [Inhabited D] in
/-- `_List.Range`: the timers met from `t` until the sentinel comes round. -/
def rangeFrom (heap : Store (TimerCell D)) (root : Ptr) : (fuel : Nat) → Ptr → Exec (List Ptr)
  | 0, _ => .error .diverges
  | fuel + 1, t =>
    if t = root then
      .ok []
    else do
      let next ← nonNil (← getNext heap t)
      let rest ← rangeFrom heap root fuel next
      .ok (t :: rest)

omit [Inhabited D] in
def timersAt (c : Clock D) (fuel : Nat) (place : Level × Int64) : Exec (List Ptr) := do
  match ← c.listAt place with
  | none => .ok []
  | some root => rangeFrom c.heap root fuel (← nonNil (← getNext c.heap root))

omit [Inhabited D] in
/-- The slots of the wheel hold `lists`; every id in `locs` is linked in exactly
one of them, exactly once; every linked timer is in `locs` under its own id; and
the ids in `locs` are those created and neither delivered nor cancelled. -/
structure HoldsOnce (c : Clock D) (lists : Lists) : Prop where
  slots : ∀ place, InWheel place → ∀ fuel, (lists place).length < fuel →
    c.timersAt fuel place = .ok (lists place)
  once : ∀ id t, c.locs id = some t → ∃ place, InWheel place ∧ (lists place).count t = 1 ∧
    ∀ other ≠ place, t ∉ lists other
  known : ∀ place, ∀ t ∈ lists place, ∃ timer, valueOf c.heap t = some timer ∧
    c.locs timer.id = some t
  own : ∀ id t, c.locs id = some t → ∃ timer, valueOf c.heap t = some timer ∧ timer.id = id
  outstanding : ∀ id, (c.locs id).isSome ↔ Outstanding c.log id

omit [Inhabited D] in
theorem rangeFrom_spec {heap : Store (TimerCell D)} {root : Ptr} :
    ∀ (nodes : List Ptr) (fuel : Nat) (a : Ptr), (linksOf heap).Seg a nodes root →
      root ∉ nodes → nodes.length < fuel →
      ∃ first, getNext heap a = .ok (some first) ∧ rangeFrom heap root fuel first = .ok nodes := by
  intro nodes
  induction nodes with
  | nil =>
    intro fuel a hseg hroot hfuel
    obtain ⟨value, hvalue⟩ := exists_valueOf_of_next hseg.1
    obtain ⟨fuel, rfl⟩ : ∃ smaller, fuel = smaller + 1 := ⟨fuel - 1, by simp at hfuel; omega⟩
    exact ⟨root, by rw [getNext_spec hvalue, hseg.1], by simp [rangeFrom]⟩
  | cons x nodes ih =>
    intro fuel a hseg hroot hfuel
    obtain ⟨value, hvalue⟩ := exists_valueOf_of_next hseg.1.1
    obtain ⟨fuel, rfl⟩ : ∃ smaller, fuel = smaller + 1 := ⟨fuel - 1, by simp at hfuel; omega⟩
    simp only [List.mem_cons, not_or] at hroot
    obtain ⟨first, hfirst, hrest⟩ := ih fuel x hseg.2 hroot.2 (by simpa using hfuel)
    refine ⟨x, by rw [getNext_spec hvalue, hseg.1.1], ?_⟩
    simp [rangeFrom, Ne.symm hroot.1, hfirst, hrest]

omit [Inhabited D] in
/-- The timers of a slot are read in as many rounds as there are timers, and one more. -/
theorem Rep.timersAt_spec (hrep : Rep c lists) {place : Level × Int64} (hwheel : InWheel place)
    {fuel : Nat} (hfuel : (lists place).length < fuel) :
    c.timersAt fuel place = .ok (lists place) := by
  cases hroot : c.tw place with
  | none => simp [timersAt, listAt, hwheel, hroot, hrep.rings.empty place hroot]
  | some root =>
    have hring := hrep.rings.ring place root hroot
    obtain ⟨first, hfirst, hrange⟩ := rangeFrom_spec (lists place) fuel root hring.seg
      (List.nodup_cons.mp hring.nodup).1 hfuel
    simp [timersAt, listAt, hwheel, hroot, hfirst, hrange]

omit [Inhabited D] in
theorem Inv.holdsOnce (hinv : Inv .any c [] lists) : c.HoldsOnce lists where
  slots place hwheel fuel hfuel := hinv.rep.timersAt_spec hwheel hfuel
  once id t hloc := by
    obtain ⟨⟨place, hmem⟩, -⟩ := hinv.rep.linked id t hloc
    refine ⟨place, hinv.rep.inWheel place (List.ne_nil_of_mem hmem),
      List.count_eq_one_of_mem (hinv.rep.rings.nodup place) hmem, ?_⟩
    intro other hne hother
    exact hne (hinv.rep.rings.apart other place t (Links.mem_members_of_mem hother)
      (Links.mem_members_of_mem hmem))
  known := hinv.rep.known
  own id t hloc := (hinv.rep.linked id t hloc).2
  outstanding id := by
    rw [← hinv.rep.table_isSome id, ← hinv.table_eq]
    exact hinv.accounts.valid.facts.outstanding id

/-- **The wheel holds every pending timer exactly once.** It does so after every
run of tasks and completed ticks, for any clock readings and any behaviour of the
receivers, and no operation of the run faults. -/
theorem newClock_run_holdsOnce (ops : List (Op D)) :
    Exec.Safe ((newClock : Clock D).run ops) fun c => ∃ lists, c.HoldsOnce lists := by
  refine (Inv.run_safe ops (inv_newClock .any)).mono ?_
  rintro c ⟨lists, hinv⟩
  exact ⟨lists, hinv.holdsOnce⟩

/-- **Timers are delivered once, never early, and cancelled truthfully**, in every
run of tasks and completed ticks. -/
theorem newClock_run_truthful (ops : List (Op D)) :
    Exec.Safe ((newClock : Clock D).run ops) fun c => Truthful c.log := by
  refine (Inv.run_safe ops (inv_newClock .any)).mono ?_
  rintro c ⟨lists, hinv⟩
  exact hinv.accounts.valid.truthful

/-- A run that returns: one timer is refused at first, one goes to a batch. -/
example :
    let refuseFirst : Env Nat := ⟨fun log _ => decide (.refused 1 ∈ log), id, fun _ => .refl _⟩
    ((newClock : Clock Nat).run
        [.task (.newTimer 15 7 (some 1) none), .task (.newTimer 5 8 none (some 2)),
          .tick refuseFirst 3 20 20, .task (.cancelTimer 2),
          .tick refuseFirst 3 45 40]).map (fun c => c.log.drop 2) =
      .ok [.refused 1, .sentBatch 2 [⟨2, 20, 8⟩], .cancelled 2 false, .sent 1 ⟨1, 45, 7⟩] := by
  decide

end Runs

end Gokit.Clock
