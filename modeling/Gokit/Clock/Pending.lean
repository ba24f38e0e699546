/-
# What a clock is for: a table of pending timers

The abstract model has no wheel.  It is a table of pending timers and the last id
handed out.  Creating a timer adds it, cancelling and delivering remove it, and
re-timing changes when it is due.  An event is `Valid` when the table justifies
it: a new timer gets the next id, a cancellation or an update reports whether the
timer was pending, and a promise is made only for a pending timer that is due.

A log all of whose events are valid has the properties that users of the package
rely on.  They are stated about the log alone: what was created, delivered and
cancelled, and which time was set last.
-/

import Gokit.Clock.Defs

namespace Gokit.Clock

variable {D : Type}

/-! ## The table -/

/-- The pending timers, each under its own id, and the last id handed out. -/
@[ext]
structure Pending (D : Type) where
  lastId : Int
  table : Int → Option (Timer D)
  own : ∀ id timer, table id = some timer → timer.id = id ∧ id ≤ lastId

variable {s : Pending D}

namespace Pending

def empty : Pending D where
  lastId := 0
  table _ := none
  own := by simp

def add (s : Pending D) (timer : Timer D) : Pending D where
  lastId := max s.lastId timer.id
  table := Function.update s.table timer.id (some timer)
  own := by
    intro id other hother
    by_cases heq : id = timer.id
    · subst heq
      obtain rfl : timer = other := by simpa using hother
      exact ⟨rfl, le_max_right _ _⟩
    · obtain ⟨hid, hle⟩ := s.own id other (by simpa [heq] using hother)
      exact ⟨hid, le_max_of_le_left hle⟩

def remove (s : Pending D) (ids : List Int) : Pending D where
  lastId := s.lastId
  table id := if id ∈ ids then none else s.table id
  own := by
    intro id timer htimer
    split_ifs at htimer with hmem
    exact s.own id timer htimer

@[simp]
theorem remove_nil (s : Pending D) : s.remove [] = s := by
  ext <;> simp [remove]

/-- A timer is set to another time. -/
def retime (s : Pending D) (id : Int) (when : Int64) : Pending D where
  lastId := s.lastId
  table := Function.update s.table id ((s.table id).map fun timer => { timer with when })
  own := by
    intro other timer htimer
    by_cases heq : other = id
    · subst heq
      rw [Function.update_self, Option.map_eq_some_iff] at htimer
      obtain ⟨old, hold, rfl⟩ := htimer
      exact s.own other old hold
    · exact s.own other timer (by simpa [heq] using htimer)

theorem remove_of_none {id : Int} (hnone : s.table id = none) : s.remove [id] = s := by
  ext other timer
  · rfl
  · by_cases heq : other = id
    · simp [remove, heq, hnone]
    · simp [remove, heq]

theorem retime_of_none {id : Int} (hnone : s.table id = none) (when : Int64) :
    s.retime id when = s := by
  ext other timer
  · rfl
  · by_cases heq : other = id
    · simp [retime, heq, hnone]
    · simp [retime, heq]

/-- The promise is one for the pending timer `timer`, which is due. -/
def Due (s : Pending D) (timer : Timer D) (promise : Promise D) : Prop :=
  s.table promise.timerId = some timer ∧ timer.when ≤ promise.nowTs ∧ promise.data = timer.data

end Pending

/-! ## Logs -/

def Event.promises : Event D → List (Promise D)
  | .sent _ promise => [promise]
  | .sentBatch _ promises => promises
  | .created _ => []
  | .cancelled _ _ => []
  | .updated _ _ _ => []
  | .refused _ => []

/-- The table justifies the event. -/
def Event.Valid (s : Pending D) : Event D → Prop
  | .created timer => timer.id = s.lastId + 1
  | .cancelled id ok => ok = (s.table id).isSome
  | .updated id _ ok => ok = (s.table id).isSome
  | .sent ch promise => ∃ timer, s.Due timer promise ∧ timer.batch = none ∧ timer.receiver = some ch
  | .refused id => (s.table id).isSome
  | .sentBatch ch promises =>
    (promises.map Promise.timerId).Nodup ∧
      ∀ promise ∈ promises, ∃ timer, s.Due timer promise ∧ timer.batch = some ch

def Event.effect (s : Pending D) : Event D → Pending D
  | .created timer => s.add timer
  | .cancelled id _ => s.remove [id]
  | .updated id when _ => s.retime id when
  | .sent _ promise => s.remove [promise.timerId]
  | .refused _ => s
  | .sentBatch _ promises => s.remove (promises.map Promise.timerId)

def afterLog (log : List (Event D)) : Pending D := log.foldl Event.effect Pending.empty

/-- Every event is justified by the table it meets. -/
def ValidLog (log : List (Event D)) : Prop :=
  ∀ before event after, log = before ++ event :: after → event.Valid (afterLog before)

@[simp]
theorem afterLog_nil : afterLog ([] : List (Event D)) = Pending.empty := rfl

@[simp]
theorem afterLog_concat (log : List (Event D)) (event : Event D) :
    afterLog (log ++ [event]) = event.effect (afterLog log) := by
  simp [afterLog]

theorem validLog_nil : ValidLog ([] : List (Event D)) := by
  intro before event after h
  simp at h

theorem validLog_concat {log : List (Event D)} {event : Event D} :
    ValidLog (log ++ [event]) ↔ ValidLog log ∧ event.Valid (afterLog log) := by
  constructor
  · intro hvalid
    refine ⟨?_, hvalid log event [] rfl⟩
    intro before other after hlog
    exact hvalid before other (after ++ [event]) (by rw [hlog]; simp)
  · rintro ⟨hvalid, hevent⟩ before other after hlog
    rcases List.eq_nil_or_concat' after with rfl | ⟨after, last, rfl⟩
    · obtain ⟨rfl, rfl⟩ : log = before ∧ event = other := by
        simpa using List.append_inj' hlog rfl
      exact hevent
    · refine hvalid before other after ?_
      rw [← List.cons_append, ← List.append_assoc] at hlog
      exact (List.append_inj' hlog rfl).1

/-! ## Reading a log -/

def Created (log : List (Event D)) (id : Int) : Prop :=
  ∃ timer : Timer D, .created timer ∈ log ∧ timer.id = id

/-- The ids of all promises delivered, in order. -/
def deliveries (log : List (Event D)) : List Int :=
  log.flatMap fun event => event.promises.map Promise.timerId

/-- A cancellation of this id reported success. -/
def Cancelled (log : List (Event D)) (id : Int) : Prop := .cancelled id true ∈ log

def Event.sets (id : Int) : Event D → Option Int64
  | .created timer => if timer.id = id then some timer.when else none
  | .updated other when true => if other = id then some when else none
  | _ => none

/-- The time most recently set for an id. -/
def lastSet (log : List (Event D)) (id : Int) : Option Int64 :=
  log.reverse.findSome? (Event.sets id)

/-- Created, and neither delivered nor cancelled. -/
def Outstanding (log : List (Event D)) (id : Int) : Prop :=
  Created log id ∧ id ∉ deliveries log ∧ ¬ Cancelled log id

section Concat

variable {log : List (Event D)} {event : Event D} {id : Int}

theorem created_concat :
    Created (log ++ [event]) id ↔
      Created log id ∨ ∃ timer : Timer D, event = .created timer ∧ timer.id = id := by
  simp only [Created, List.mem_append, List.mem_singleton]
  constructor
  · rintro ⟨timer, htimer | htimer, hid⟩
    · exact Or.inl ⟨timer, htimer, hid⟩
    · exact Or.inr ⟨timer, htimer.symm, hid⟩
  · rintro (⟨timer, htimer, hid⟩ | ⟨timer, rfl, hid⟩)
    · exact ⟨timer, Or.inl htimer, hid⟩
    · exact ⟨timer, Or.inr rfl, hid⟩

theorem deliveries_concat :
    deliveries (log ++ [event]) = deliveries log ++ event.promises.map Promise.timerId := by
  simp [deliveries]

theorem cancelled_concat :
    Cancelled (log ++ [event]) id ↔ Cancelled log id ∨ event = .cancelled id true := by
  simp [Cancelled, eq_comm]

theorem lastSet_concat : lastSet (log ++ [event]) id = (event.sets id).or (lastSet log id) := by
  cases hsets : event.sets id with
  | none => simp [lastSet, hsets]
  | some when => simp [lastSet, hsets]

end Concat

/-- What a valid log and its table agree on. -/
structure LogFacts (log : List (Event D)) (s : Pending D) : Prop where
  created : ∀ id, Created log id → id ≤ s.lastId
  delivered : ∀ id ∈ deliveries log, Created log id
  cancelled : ∀ id, Cancelled log id → Created log id
  outstanding : ∀ id, (s.table id).isSome ↔ Outstanding log id
  lastSet : ∀ id timer, s.table id = some timer → lastSet log id = some timer.when
  nodup : (deliveries log).Nodup

/-- A pending timer that goes away was outstanding and is no longer. -/
theorem LogFacts.deliver {log : List (Event D)} (hfacts : LogFacts log s) (event : Event D)
    (hquiet : ∀ timer, event ≠ .created timer) (hkeep : ∀ id, event ≠ .cancelled id true)
    (hsets : ∀ id, event.sets id = none) (hnodup : (event.promises.map Promise.timerId).Nodup)
    (hpending : ∀ id ∈ event.promises.map Promise.timerId, (s.table id).isSome) :
    LogFacts (log ++ [event]) (s.remove (event.promises.map Promise.timerId)) where
  created id hcreated := by
    rcases created_concat.mp hcreated with hold | ⟨timer, hevent, -⟩
    · exact hfacts.created id hold
    · exact absurd hevent (hquiet timer)
  delivered id hid := by
    rw [deliveries_concat, List.mem_append] at hid
    rcases hid with hid | hid
    · exact created_concat.mpr (Or.inl (hfacts.delivered id hid))
    · exact created_concat.mpr (Or.inl ((hfacts.outstanding id).mp (hpending id hid)).1)
  cancelled id hid := by
    rcases cancelled_concat.mp hid with hold | hevent
    · exact created_concat.mpr (Or.inl (hfacts.cancelled id hold))
    · exact absurd hevent (hkeep id)
  outstanding id := by
    have hcreated : Created (log ++ [event]) id ↔ Created log id := by
      rw [created_concat]
      refine or_iff_left ?_
      rintro ⟨timer, hevent, -⟩
      exact hquiet timer hevent
    have hcancelled : Cancelled (log ++ [event]) id ↔ Cancelled log id := by
      rw [cancelled_concat]
      exact or_iff_left (hkeep id)
    rw [Outstanding, hcreated, hcancelled, deliveries_concat, List.mem_append]
    by_cases hmem : id ∈ event.promises.map Promise.timerId
    · refine iff_of_false (by simp only [Pending.remove, if_pos hmem]; simp) ?_
      rintro ⟨-, hnot, -⟩
      exact hnot (Or.inr hmem)
    · have hold := hfacts.outstanding id
      simp only [Pending.remove, hmem, if_false, or_false]
      exact hold
  lastSet id timer htimer := by
    simp only [Pending.remove] at htimer
    split_ifs at htimer with hmem
    rw [lastSet_concat, hsets id, Option.none_or]
    exact hfacts.lastSet id timer htimer
  nodup := by
    rw [deliveries_concat]
    refine List.nodup_append.mpr ⟨hfacts.nodup, hnodup, ?_⟩
    rintro id hid other hother rfl
    exact ((hfacts.outstanding id).mp (hpending id hother)).2.1 hid

/-- A new timer is outstanding. -/
theorem LogFacts.create {log : List (Event D)} (hfacts : LogFacts log s) {timer : Timer D}
    (hnew : timer.id = s.lastId + 1) : LogFacts (log ++ [.created timer]) (s.add timer) := by
  have hcreated : ∀ id, Created (log ++ [.created timer]) id ↔ Created log id ∨ timer.id = id := by
    intro id
    rw [created_concat]
    refine or_congr_right ⟨?_, fun hid => ⟨timer, rfl, hid⟩⟩
    rintro ⟨other, hother, hid⟩
    injection hother with hother
    rwa [hother]
  have hdeliveries : deliveries (log ++ [.created timer]) = deliveries log := by
    simp [deliveries_concat, Event.promises]
  have hcancelled : ∀ id, Cancelled (log ++ [.created timer]) id ↔ Cancelled log id := by
    intro id
    simp [cancelled_concat]
  -- the id is above every id created so far
  have hfresh : ¬ Created log timer.id := by
    intro hold
    have hle := hfacts.created timer.id hold
    omega
  exact
    { created := by
        intro id hid
        rcases (hcreated id).mp hid with hold | rfl
        · exact le_max_of_le_left (hfacts.created id hold)
        · exact le_max_right _ _
      delivered := by
        intro id hid
        rw [hdeliveries] at hid
        exact (hcreated id).mpr (Or.inl (hfacts.delivered id hid))
      cancelled := by
        intro id hid
        exact (hcreated id).mpr (Or.inl (hfacts.cancelled id ((hcancelled id).mp hid)))
      outstanding := by
        intro id
        rw [Outstanding, hcreated, hdeliveries, hcancelled]
        by_cases heq : timer.id = id
        · subst heq
          refine iff_of_true (by simp [Pending.add]) ⟨Or.inr rfl, ?_, ?_⟩
          · exact fun hid => hfresh (hfacts.delivered _ hid)
          · exact fun hid => hfresh (hfacts.cancelled _ hid)
        · have hold := hfacts.outstanding id
          simpa [Pending.add, Function.update_of_ne (Ne.symm heq), heq, Outstanding] using hold
      lastSet := by
        intro id other hother
        rw [lastSet_concat]
        by_cases heq : timer.id = id
        · subst heq
          obtain rfl : timer = other := by simpa [Pending.add] using hother
          simp [Event.sets]
        · have hold : s.table id = some other := by
            simpa [Pending.add, Function.update_of_ne (Ne.symm heq)] using hother
          simpa [Event.sets, heq] using hfacts.lastSet id other hold
      nodup := by
        rw [hdeliveries]
        exact hfacts.nodup }

/-- A truthful cancellation. -/
theorem LogFacts.cancel {log : List (Event D)} (hfacts : LogFacts log s) {id : Int} {ok : Bool}
    (hok : ok = (s.table id).isSome) : LogFacts (log ++ [.cancelled id ok]) (s.remove [id]) := by
  have hcreated : ∀ other, Created (log ++ [.cancelled id ok]) other ↔ Created log other := by
    intro other
    simp [created_concat]
  have hdeliveries : deliveries (log ++ [.cancelled id ok]) = deliveries log := by
    simp [deliveries_concat, Event.promises]
  have hcancelled : ∀ other, Cancelled (log ++ [.cancelled id ok]) other ↔
      Cancelled log other ∨ (id = other ∧ ok = true) := by
    intro other
    simp [cancelled_concat]
  exact
    { created := by
        intro other hother
        exact hfacts.created other ((hcreated other).mp hother)
      delivered := by
        intro other hother
        rw [hdeliveries] at hother
        exact (hcreated other).mpr (hfacts.delivered other hother)
      cancelled := by
        intro other hother
        apply (hcreated other).mpr
        rcases (hcancelled other).mp hother with hold | ⟨rfl, htrue⟩
        · exact hfacts.cancelled other hold
        · exact ((hfacts.outstanding id).mp (hok.symm.trans htrue)).1
      outstanding := by
        intro other
        rw [Outstanding, hcreated, hdeliveries, hcancelled]
        have hold := hfacts.outstanding other
        by_cases heq : other = id
        · subst heq
          refine iff_of_false (by simp [Pending.remove]) ?_
          rintro ⟨hmade, hnot, hkept⟩
          have hpending : (s.table other).isSome = true :=
            hold.mpr ⟨hmade, hnot, fun h => hkept (Or.inl h)⟩
          exact hkept (Or.inr ⟨rfl, hok.trans hpending⟩)
        · simpa [Pending.remove, heq, Ne.symm heq, Outstanding] using hold
      lastSet := by
        intro other timer htimer
        rw [lastSet_concat]
        simp only [Pending.remove, List.mem_singleton] at htimer
        split_ifs at htimer with heq
        exact hfacts.lastSet other timer htimer
      nodup := by
        rw [hdeliveries]
        exact hfacts.nodup }

theorem LogFacts.retime {log : List (Event D)} (hfacts : LogFacts log s) {id : Int} {when : Int64}
    {ok : Bool} (hok : ok = (s.table id).isSome) :
    LogFacts (log ++ [.updated id when ok]) (s.retime id when) := by
  have hcreated : ∀ other, Created (log ++ [.updated id when ok]) other ↔ Created log other := by
    intro other
    simp [created_concat]
  have hdeliveries : deliveries (log ++ [.updated id when ok]) = deliveries log := by
    simp [deliveries_concat, Event.promises]
  have hcancelled : ∀ other,
      Cancelled (log ++ [.updated id when ok]) other ↔ Cancelled log other := by
    intro other
    simp [cancelled_concat]
  exact
    { created := by
        intro other hother
        exact hfacts.created other ((hcreated other).mp hother)
      delivered := by
        intro other hother
        rw [hdeliveries] at hother
        exact (hcreated other).mpr (hfacts.delivered other hother)
      cancelled := by
        intro other hother
        exact (hcreated other).mpr (hfacts.cancelled other ((hcancelled other).mp hother))
      outstanding := by
        intro other
        rw [Outstanding, hcreated, hdeliveries, hcancelled]
        have hold := hfacts.outstanding other
        by_cases heq : other = id
        · subst heq
          simpa [Pending.retime, Outstanding] using hold
        · simpa [Pending.retime, heq, Outstanding] using hold
      lastSet := by
        intro other timer htimer
        rw [lastSet_concat]
        by_cases heq : other = id
        · subst heq
          simp only [Pending.retime, Function.update_self, Option.map_eq_some_iff] at htimer
          obtain ⟨old, hold, rfl⟩ := htimer
          obtain rfl : ok = true := by rw [hok, hold]; rfl
          simp [Event.sets]
        · have hold : s.table other = some timer := by
            simpa [Pending.retime, heq] using htimer
          have hsets : Event.sets other (.updated id when ok : Event D) = none := by
            cases ok <;> simp [Event.sets, Ne.symm heq]
          rw [hsets, Option.none_or]
          exact hfacts.lastSet other timer hold
      nodup := by
        rw [hdeliveries]
        exact hfacts.nodup }

/-- One valid event keeps the log and the table in agreement. -/
theorem LogFacts.step {log : List (Event D)} (hfacts : LogFacts log s) {event : Event D}
    (hvalid : event.Valid s) : LogFacts (log ++ [event]) (event.effect s) := by
  cases event with
  | created timer => exact hfacts.create hvalid
  | cancelled id ok => exact hfacts.cancel hvalid
  | updated id when ok => exact hfacts.retime hvalid
  | sent ch promise =>
    obtain ⟨timer, hdue, -, -⟩ := hvalid
    refine hfacts.deliver _ (by simp) (by simp) (fun _ => rfl) (by simp [Event.promises]) ?_
    simp [Event.promises, hdue.1]
  | refused id =>
    have hnone := hfacts.deliver (.refused id) (by simp) (by simp) (fun _ => rfl)
      (by simp [Event.promises]) (by simp [Event.promises])
    rwa [Event.promises, List.map_nil, Pending.remove_nil] at hnone
  | sentBatch ch promises =>
    obtain ⟨hnodup, hpromises⟩ := hvalid
    refine hfacts.deliver _ (by simp) (by simp) (fun _ => rfl) hnodup ?_
    intro id hid
    obtain ⟨promise, hpromise, rfl⟩ := List.mem_map.mp hid
    obtain ⟨timer, hdue, -⟩ := hpromises promise hpromise
    rw [hdue.1]
    rfl

theorem ValidLog.facts {log : List (Event D)} (hvalid : ValidLog log) :
    LogFacts log (afterLog log) := by
  induction log using List.reverseRecOn with
  | nil => constructor <;> simp [Created, Cancelled, deliveries, Outstanding, Pending.empty]
  | append_singleton log event ih =>
    obtain ⟨hlog, hevent⟩ := validLog_concat.mp hvalid
    rw [afterLog_concat]
    exact (ih hlog).step hevent

/-! ## What users rely on -/

/-- Every timer is delivered at most once and never before the time most recently
set for it; cancellations and updates report truthfully whether the timer was
outstanding; and a cancelled timer is never delivered afterwards. -/
structure Truthful (log : List (Event D)) : Prop where
  once : (deliveries log).Nodup
  neverEarly : ∀ before event after, log = before ++ event :: after →
    ∀ promise ∈ event.promises,
      ∃ when, lastSet before promise.timerId = some when ∧ when ≤ promise.nowTs
  cancel : ∀ before id ok after, log = before ++ .cancelled id ok :: after →
    (ok = true ↔ Outstanding before id)
  update : ∀ before id when ok after, log = before ++ .updated id when ok :: after →
    (ok = true ↔ Outstanding before id)
  final : ∀ before id after, log = before ++ .cancelled id true :: after →
    id ∉ deliveries after

theorem ValidLog.of_append {before after : List (Event D)} (hvalid : ValidLog (before ++ after)) :
    ValidLog before := by
  intro first event rest hbefore
  exact hvalid first event (rest ++ after) (by rw [hbefore]; simp)

/-- Whatever is delivered by a valid log was pending when its event occurred. -/
theorem Event.Valid.exists_due {event : Event D} (hvalid : event.Valid s) {promise : Promise D}
    (hpromise : promise ∈ event.promises) : ∃ timer, s.Due timer promise := by
  cases event with
  | sent ch sent =>
    obtain rfl : promise = sent := by simpa [Event.promises] using hpromise
    exact hvalid.imp fun _ h => h.1
  | sentBatch ch promises => exact (hvalid.2 promise hpromise).imp fun _ h => h.1
  | created timer => simp [Event.promises] at hpromise
  | cancelled id ok => simp [Event.promises] at hpromise
  | updated id when ok => simp [Event.promises] at hpromise
  | refused id => simp [Event.promises] at hpromise

theorem ValidLog.truthful {log : List (Event D)} (hvalid : ValidLog log) : Truthful log where
  once := hvalid.facts.nodup
  neverEarly := by
    intro before event after hlog promise hpromise
    have hbefore : ValidLog before := (hlog ▸ hvalid).of_append
    obtain ⟨timer, htable, hwhen, -⟩ := (hvalid before event after hlog).exists_due hpromise
    exact ⟨timer.when, hbefore.facts.lastSet _ timer htable, hwhen⟩
  cancel := by
    intro before id ok after hlog
    have hbefore : ValidLog before := (hlog ▸ hvalid).of_append
    have hok : ok = _ := hvalid before _ after hlog
    rw [hok]
    exact hbefore.facts.outstanding id
  update := by
    intro before id when ok after hlog
    have hbefore : ValidLog before := (hlog ▸ hvalid).of_append
    have hok : ok = _ := hvalid before _ after hlog
    rw [hok]
    exact hbefore.facts.outstanding id
  final := by
    intro before id after hlog hmem
    -- cut the log at the delivery: the timer was outstanding there, yet cancelled
    obtain ⟨event, hevent, hid⟩ := List.mem_flatMap.mp hmem
    obtain ⟨promise, hpromise, rfl⟩ := List.mem_map.mp hid
    obtain ⟨mid, rest, rfl⟩ := List.append_of_mem hevent
    have hcut : log = (before ++ .cancelled promise.timerId true :: mid) ++ event :: rest := by
      rw [hlog]
      simp
    have hbefore : ValidLog (before ++ .cancelled promise.timerId true :: mid) :=
      (hcut ▸ hvalid).of_append
    obtain ⟨timer, htable, -, -⟩ := (hvalid _ event rest hcut).exists_due hpromise
    have hout := (hbefore.facts.outstanding promise.timerId).mp (by rw [htable]; rfl)
    exact hout.2.2 (by simp [Cancelled])

end Gokit.Clock
