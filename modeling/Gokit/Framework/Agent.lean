/-
# The routine agent

A `RoutineAgent` runs functions one after the other in one goroutine.  Callers put them on
the channel `ChanCb`, under a read lock and after a look at `isClosed`; `Close` sets
`isClosed` under the write lock and closes `closeSig`.  The goroutine then leaves its loop,
closes `ChanCb` and drains it: what is left on the channel is not run any more, but the
calls that wait for a result get an error.

We follow any number of calls, each of them a number.  A task on the channel is the call it
is from.  Which calls hold the lock can be read off from where they are; the lock agrees
with it, and this is what keeps a caller from sending on the channel after it was closed.
-/

import Gokit.Math.RWMutex
import Gokit.Math.Transition

namespace Gokit.Framework

open Gokit.Math

/-! ## Calls -/

/-- The calls of the methods of an agent, in some enumeration. -/
abbrev CallId : Type := Nat

inductive Kind
  | syncRunFunc
  | ctxRunFunc
  | tryRunFunc
  | mustRunFunc
  | close
  deriving DecidableEq

inductive Err
  /-- `ErrGoChanFull` -/
  | chanFull
  /-- `ErrRoutineClosed` -/
  | routineClosed
  /-- `ErrGoChanClosed` -/
  | chanClosed
  /-- `ctx.Err()` -/
  | context
  deriving DecidableEq

/-- What is put on the result channel of `SubmitWithResult`: it is closed after the function,
or an error is sent on it. -/
inductive Outcome
  | done
  | chanFull
  | chanClosed
  deriving DecidableEq

def Outcome.err : Outcome → Option Err
  | .done => none
  | .chanFull => some .chanFull
  | .chanClosed => some .chanClosed

inductive Pc
  | idle
  /-- has the read lock -/
  | entered
  /-- has found `isClosed` unset -/
  | opened
  /-- is about to give the read lock back and return -/
  | leaving (err : Option Err)
  /-- is about to give the read lock back and wait -/
  | releasing
  /-- receives from the result channel -/
  | waiting
  /-- of `Close`: waits for the readers to leave -/
  | announced
  /-- of `Close`: has the write lock -/
  | locked
  /-- of `Close`: is about to give the write lock back -/
  | unlocking
  | returned (err : Option Err)
  /-- has sent on a closed channel -/
  | panicked
  deriving DecidableEq

/-- Where a call goes on when its task has been accepted. `CtxRunFunc` waits without giving the
lock back. -/
def Kind.sent : Kind → Pc
  | .syncRunFunc => .releasing
  | .ctxRunFunc => .waiting
  | .tryRunFunc | .mustRunFunc | .close => .leaving none

/-- The task has a result channel. -/
def Kind.Answers : Kind → Prop
  | .syncRunFunc | .ctxRunFunc => True
  | .tryRunFunc | .mustRunFunc | .close => False

instance : (kind : Kind) → Decidable kind.Answers
  | .syncRunFunc | .ctxRunFunc => inferInstanceAs (Decidable True)
  | .tryRunFunc | .mustRunFunc | .close => inferInstanceAs (Decidable False)

/-! ## The agent -/

/-- Where the goroutine is in `Run`. A task may be executed in the loop, or while the channel is
drained. -/
inductive Loop
  | created
  | selecting
  /-- in `Exec`, before the task looks at `closed` -/
  | executing (c : CallId) (drain : Bool)
  /-- in the function of the call -/
  | running (c : CallId) (drain : Bool)
  /-- in `panicHandler` -/
  | handling (drain : Bool)
  /-- in `timerCb` -/
  | timing
  /-- in `beforeClose` -/
  | closing
  /-- before `Go.Close` -/
  | closingChan
  | draining
  | returned
  deriving DecidableEq

/-- Where the goroutine goes on after a task. -/
def Loop.resume : Bool → Loop
  | false => .selecting
  | true => .draining

/-- The channel is closed at this point. -/
def Loop.Drains : Loop → Prop
  | .draining | .returned => True
  | .executing _ drain | .running _ drain | .handling drain => drain = true
  | .created | .selecting | .timing | .closing | .closingChan => False

/-- The goroutine has left its loop. -/
def Loop.Ends (loop : Loop) : Prop := loop = .closing ∨ loop = .closingChan ∨ loop.Drains

theorem Loop.drains_resume (drain : Bool) : (Loop.resume drain).Drains ↔ drain = true := by
  cases drain <;> simp [Loop.resume, Loop.Drains]

theorem Loop.ends_resume (drain : Bool) : (Loop.resume drain).Ends ↔ drain = true := by
  cases drain <;> simp [Loop.resume, Loop.Ends, Loop.Drains]

/-- An agent with its goroutine and its callers.  `taken` are the tasks the goroutine has
received, `started` those whose function it has called, and `active` those whose function has
not returned. -/
structure Agent where
  mutex : RWMutex CallId := {}
  isClosed : Bool := false
  closeSig : Bool := false
  chanCb : List CallId := []
  chanClosed : Bool := false
  closed : Bool := false
  loop : Loop := .created
  pc : CallId → Pc := fun _ => .idle
  errCh : CallId → List Outcome := fun _ => []
  taken : List CallId := []
  started : List CallId := []
  active : List CallId := []

/-- The size of `ChanCb`, from `NewGoChan`. -/
def chanSize (size : Int) : Nat :=
  if size < 1024 then 1024 else if size > 102400 then 102400 else size.toNat

namespace Agent

/-- The tasks that were sent on the channel. -/
def accepted (s : Agent) : List CallId := s.taken ++ s.chanCb

def setPc (s : Agent) (c : CallId) (pc : Pc) : Agent := { s with pc := Function.update s.pc c pc }

/-- Something is put on the result channel of a call, if it has one. -/
def answer (kind : CallId → Kind) (s : Agent) (c : CallId) (outcome : Outcome) :
    CallId → List Outcome :=
  if (kind c).Answers then Function.update s.errCh c (s.errCh c ++ [outcome]) else s.errCh

/-- `if a.isClosed`. -/
def check (s : Agent) (c : CallId) : Agent :=
  s.setPc c (if s.isClosed then .leaving (some .routineClosed) else .opened)

/-- `SubmitWithResult`, `TrySubmit` and `MustSubmit`. -/
def submit (size : Nat) (kind : CallId → Kind) (s : Agent) (c : CallId) : Agent :=
  if s.chanClosed then s.setPc c .panicked
  else if s.chanCb.length < size then
    { s with chanCb := s.chanCb ++ [c], pc := Function.update s.pc c (kind c).sent }
  else if (kind c).Answers then
    { s with
      errCh := Function.update s.errCh c [.chanFull]
      pc := Function.update s.pc c (kind c).sent }
  else s.setPc c (.leaving (some .chanFull))

def rUnlock (s : Agent) (c : CallId) : Agent :=
  match s.pc c with
  | .leaving err =>
    { s with mutex := s.mutex.rUnlock c, pc := Function.update s.pc c (.returned err) }
  | .releasing => { s with mutex := s.mutex.rUnlock c, pc := Function.update s.pc c .waiting }
  | _ => s

/-- `err = <-errCh`. -/
def receive (s : Agent) (c : CallId) : Agent :=
  match s.errCh c with
  | outcome :: _ => s.setPc c (.returned outcome.err)
  | [] => s

def close (s : Agent) (c : CallId) : Agent :=
  if s.isClosed then s.setPc c .unlocking
  else
    { s with isClosed := true, closeSig := true, pc := Function.update s.pc c .unlocking }

def recvTask (s : Agent) (drain : Bool) : Agent :=
  match s.chanCb with
  | c :: rest => { s with chanCb := rest, taken := s.taken ++ [c], loop := .executing c drain }
  | [] => s

/-- A task looks at `closed`, and calls its function or answers. -/
def execute (kind : CallId → Kind) (s : Agent) : Agent :=
  match s.loop with
  | .executing c drain =>
    if s.closed then
      { s with errCh := s.answer kind c .chanClosed, loop := .resume drain }
    else
      { s with
        started := s.started ++ [c]
        active := c :: s.active
        loop := .running c drain }
  | _ => s

/-- The function of a task returns or panics; the result channel is closed in both cases. -/
def finish (kind : CallId → Kind) (s : Agent) (panics : Bool) : Agent :=
  match s.loop with
  | .running c drain =>
    { s with
      errCh := s.answer kind c .done
      active := s.active.erase c
      loop := if panics then .handling drain else .resume drain }
  | _ => s

/-- `panicHandler` returns. -/
def handled (s : Agent) : Agent :=
  match s.loop with
  | .handling drain => { s with loop := .resume drain }
  | _ => s

/-- The atomic steps of the callers, of `Close` and of the goroutine. -/
inductive Action
  | rLock (c : CallId)
  | check (c : CallId)
  | submit (c : CallId)
  | rUnlock (c : CallId)
  | receive (c : CallId)
  | ctxDone (c : CallId)
  | announce (c : CallId)
  | lock (c : CallId)
  | close (c : CallId)
  | unlock (c : CallId)
  | start
  | recvClose
  | recvTask
  | recvTimer
  | timerDone
  | execute
  | finish (panics : Bool)
  | handled
  | beforeClose
  | closeChan
  | drainTask
  | drainEnd
  deriving DecidableEq

/-- An agent whose channel was made with `size`. Call `c` is one of the method `kind c`. -/
def system (size : Int) (kind : CallId → Kind) : System Agent Action where
  init := {}
  Enabled s
    | .rLock c => s.pc c = .idle ∧ kind c ≠ .close ∧ s.mutex.CanRLock
    | .check c => s.pc c = .entered
    | .submit c => s.pc c = .opened ∧
        (kind c = .mustRunFunc → s.chanClosed = true ∨ s.chanCb.length < chanSize size)
    | .rUnlock c => s.pc c = .releasing ∨ ∃ err, s.pc c = .leaving err
    | .receive c => s.pc c = .waiting ∧ s.errCh c ≠ []
    | .ctxDone c => s.pc c = .waiting ∧ kind c = .ctxRunFunc
    | .announce c => s.pc c = .idle ∧ kind c = .close ∧ s.mutex.CanAnnounce
    | .lock c => s.pc c = .announced ∧ s.mutex.CanLock c
    | .close c => s.pc c = .locked
    | .unlock c => s.pc c = .unlocking
    | .start => s.loop = .created
    | .recvClose => s.loop = .selecting ∧ s.closeSig = true
    | .recvTask => s.loop = .selecting ∧ s.chanCb ≠ []
    | .recvTimer => s.loop = .selecting
    | .timerDone => s.loop = .timing
    | .execute => ∃ c drain, s.loop = .executing c drain
    | .finish _ => ∃ c drain, s.loop = .running c drain
    | .handled => ∃ drain, s.loop = .handling drain
    | .beforeClose => s.loop = .closing
    | .closeChan => s.loop = .closingChan
    | .drainTask => s.loop = .draining ∧ s.chanCb ≠ []
    | .drainEnd => s.loop = .draining ∧ s.chanCb = [] ∧ s.chanClosed = true
  next s
    | .rLock c => { s with mutex := s.mutex.rLock c, pc := Function.update s.pc c .entered }
    | .check c => s.check c
    | .submit c => s.submit (chanSize size) kind c
    | .rUnlock c => s.rUnlock c
    | .receive c => s.receive c
    | .ctxDone c => s.setPc c (.returned (some .context))
    | .announce c => { s with mutex := s.mutex.announce c, pc := Function.update s.pc c .announced }
    | .lock c => { s with mutex := s.mutex.lock, pc := Function.update s.pc c .locked }
    | .close c => s.close c
    | .unlock c => { s with mutex := s.mutex.unlock, pc := Function.update s.pc c (.returned none) }
    | .start => { s with loop := .selecting }
    | .recvClose => { s with loop := .closing }
    | .recvTask => s.recvTask false
    | .recvTimer => { s with loop := .timing }
    | .timerDone => { s with loop := .selecting }
    | .execute => s.execute kind
    | .finish panics => s.finish kind panics
    | .handled => s.handled
    | .beforeClose => { s with loop := .closingChan }
    | .closeChan => { s with closed := true, chanClosed := true, loop := .draining }
    | .drainTask => s.recvTask true
    | .drainEnd => { s with loop := .returned }

/-! ## Who holds the lock -/

/-- The role of a call, from where it is. A `CtxRunFunc` that has found the agent open never
gives its read lock back. -/
def role (kind : Kind) : Pc → RWMutex.Role
  | .entered | .opened | .leaving _ | .releasing | .panicked => .reading
  | .waiting => if kind = .ctxRunFunc then .reading else .outside
  | .returned err => if kind = .ctxRunFunc ∧ err ≠ some .routineClosed then .reading else .outside
  | .announced => .announced
  | .locked | .unlocking => .writing
  | .idle => .outside

/-- What is known of a call at each point. -/
def Fits (kind : Kind) (isClosed : Bool) : Pc → Prop
  | .entered => kind ≠ .close
  | .opened => kind ≠ .close ∧ isClosed = false
  | .leaving err => kind ≠ .close ∧ (kind = .ctxRunFunc → err = some .routineClosed)
  | .releasing => kind = .syncRunFunc
  | .waiting => kind.Answers
  | .announced | .locked | .unlocking => kind = .close
  | .panicked => False
  | .idle | .returned _ => True

/-- The lock agrees with where the calls are, and the goroutine closes the channel only when
`isClosed` is set. -/
structure Inv (kind : CallId → Kind) (s : Agent) : Prop where
  guards : s.mutex.Guards fun c => role (kind c) (s.pc c)
  fits : ∀ c, Fits (kind c) s.isClosed (s.pc c)
  sig : s.closeSig = true → s.isClosed = true
  ends : s.loop.Ends → s.isClosed = true
  chan : s.chanClosed = true ↔ s.loop.Drains
  closed : s.closed = s.chanClosed

section Inv

variable {size : Int} {kind : CallId → Kind} {s : Agent} {c : CallId} {pc : Pc}

theorem inv_init : Inv kind {} where
  guards := RWMutex.guards_init
  fits _ := trivial
  sig h := Bool.noConfusion h
  ends h := by
    rcases h with h | h | h <;> cases h
  chan := iff_of_false (by decide) id
  closed := rfl

theorem role_update (kind : CallId → Kind) (pcs : CallId → Pc) (c : CallId) (pc : Pc) :
    (fun c' => role (kind c') (Function.update pcs c pc c')) =
      Function.update (fun c' => role (kind c') (pcs c')) c (role (kind c) pc) := by
  funext c'
  by_cases heq : c' = c
  · subst heq
    simp
  · simp [heq]

theorem fits_update {isClosed : Bool} {pcs : CallId → Pc}
    (hfits : ∀ c', Fits (kind c') isClosed (pcs c')) (hpc : Fits (kind c) isClosed pc)
    (c' : CallId) : Fits (kind c') isClosed (Function.update pcs c pc c') := by
  by_cases heq : c' = c
  · subst heq
    rw [Function.update_self]
    exact hpc
  · rw [Function.update_of_ne heq]
    exact hfits c'

/-- A call moves, and the lock with it. -/
theorem Inv.move (hinv : Inv kind s) {mutex : RWMutex CallId}
    (hguards : mutex.Guards
      (Function.update (fun c' => role (kind c') (s.pc c')) c (role (kind c) pc)))
    (hpc : Fits (kind c) s.isClosed pc) :
    Inv kind { s with mutex, pc := Function.update s.pc c pc } :=
  { hinv with
    guards := by
      show mutex.Guards fun c' => role (kind c') (Function.update s.pc c pc c')
      rw [role_update]
      exact hguards
    fits := fits_update hinv.fits hpc }

theorem Inv.setPc (hinv : Inv kind s) (hrole : role (kind c) pc = role (kind c) (s.pc c))
    (hpc : Fits (kind c) s.isClosed pc) : Inv kind (s.setPc c pc) := by
  refine hinv.move ?_ hpc
  rw [hrole, Function.update_eq_self]
  exact hinv.guards

variable {errCh : CallId → List Outcome} {chanCb taken started active : List CallId}

/-- The goroutine moves, and works on the tasks. -/
theorem Inv.setLoop (hinv : Inv kind s) {loop : Loop} (hends : loop.Ends → s.isClosed = true)
    (hdrains : loop.Drains ↔ s.loop.Drains) :
    Inv kind { s with loop, chanCb, taken, started, active, errCh } :=
  { hinv with
    ends := hends
    chan := hinv.chan.trans hdrains.symm }

theorem Inv.resume (hinv : Inv kind s) {drain : Bool} (hdrains : s.loop.Drains ↔ drain = true) :
    Inv kind { s with loop := .resume drain, chanCb, taken, started, active, errCh } :=
  hinv.setLoop
    (fun h => hinv.ends (Or.inr (Or.inr (hdrains.mpr ((Loop.ends_resume drain).mp h)))))
    ((Loop.drains_resume drain).trans hdrains.symm)

/-- The goroutine goes on with a task. -/
theorem Inv.task (hinv : Inv kind s) {loop : Loop} {drain : Bool}
    (hdrains : s.loop.Drains ↔ drain = true)
    (hloop : (∃ c, loop = .executing c drain) ∨ (∃ c, loop = .running c drain) ∨
      loop = .handling drain) :
    Inv kind { s with loop, chanCb, taken, started, active, errCh } := by
  have hloop' : (loop.Ends ↔ drain = true) ∧ (loop.Drains ↔ drain = true) := by
    rcases hloop with ⟨c, rfl⟩ | ⟨c, rfl⟩ | rfl <;> simp [Loop.Ends, Loop.Drains]
  exact hinv.setLoop (fun h => hinv.ends (Or.inr (Or.inr (hdrains.mpr (hloop'.1.mp h)))))
    (hloop'.2.trans hdrains.symm)

/-- A call that has found `isClosed` unset can send. -/
theorem Inv.chan_open (hinv : Inv kind s) (hpc : s.pc c = .opened) : s.chanClosed = false := by
  have hopen := hinv.fits c
  rw [hpc] at hopen
  rw [← Bool.not_eq_true]
  intro hchan
  have hclosed := hinv.ends (Or.inr (Or.inr (hinv.chan.mp hchan)))
  rw [hopen.2] at hclosed
  cases hclosed

/-- The task of a call is sent, or there is no room for it. -/
theorem Inv.submit (hinv : Inv kind s) {size : Nat} (hpc : s.pc c = .opened) :
    Inv kind (s.submit size kind c) := by
  have hrole : ∀ pc, role (kind c) pc = .reading → role (kind c) pc = role (kind c) (s.pc c) := by
    intro pc h
    rw [h, hpc]
    rfl
  have hfits := hinv.fits c
  rw [hpc] at hfits
  have hsent : role (kind c) (kind c).sent = .reading ∧
      Fits (kind c) s.isClosed (kind c).sent := by
    have hkind := hfits.1
    cases hcase : kind c <;> simp [Kind.sent, role, Fits, Kind.Answers, hcase] at hkind ⊢
  have hmoved := hinv.setPc (hrole _ hsent.1) hsent.2
  have hchan : ¬ s.chanClosed = true := by simp [hinv.chan_open hpc]
  unfold Agent.submit
  rw [if_neg hchan]
  split_ifs with hroom hanswers
  · exact { hmoved with }
  · exact { hmoved with }
  · refine hinv.setPc (hrole _ rfl) ⟨hfits.1, fun hkind => ?_⟩
    rw [hkind] at hanswers
    exact absurd trivial hanswers

theorem Inv.rUnlock (hinv : Inv kind s)
    (hpc : s.pc c = .releasing ∨ ∃ err, s.pc c = .leaving err) : Inv kind (s.rUnlock c) := by
  have hfits := hinv.fits c
  rcases hpc with hpc | ⟨err, hpc⟩
  · rw [hpc] at hfits
    have houtside : role (kind c) .waiting = .outside := by rw [hfits]; rfl
    have hguards := hinv.guards.rUnlock (t := c) (by rw [hpc]; rfl)
    rw [← houtside] at hguards
    simp only [Agent.rUnlock, hpc]
    exact hinv.move hguards (by rw [hfits]; trivial)
  · rw [hpc] at hfits
    have houtside : role (kind c) (.returned err) = .outside := if_neg fun h => h.2 (hfits.2 h.1)
    have hguards := hinv.guards.rUnlock (t := c) (by rw [hpc]; rfl)
    rw [← houtside] at hguards
    simp only [Agent.rUnlock, hpc]
    exact hinv.move hguards trivial

/-- A call gets its result. -/
theorem Inv.receive (hinv : Inv kind s) (hpc : s.pc c = .waiting) : Inv kind (s.receive c) := by
  unfold Agent.receive
  split
  · next outcome _ _ =>
      have hrole : role (kind c) (.returned outcome.err) = role (kind c) (s.pc c) := by
        rw [hpc]
        cases outcome <;> simp [role, Outcome.err]
      exact hinv.setPc hrole trivial
  · exact hinv

/-- `Close` sets `isClosed` when no call is inside. -/
theorem Inv.close (hinv : Inv kind s) (hpc : s.pc c = .locked) : Inv kind (s.close c) := by
  have hkind := hinv.fits c
  rw [hpc] at hkind
  have hrole : role (kind c) .unlocking = role (kind c) (s.pc c) := by
    rw [hpc]
    rfl
  have hmoved := hinv.setPc hrole hkind
  unfold Agent.close
  split_ifs
  · exact hmoved
  · refine { hmoved with fits := ?_, sig := fun _ => rfl, ends := fun _ => rfl }
    intro c'
    have hfits := hmoved.fits c'
    show Fits (kind c') true ((s.setPc c .unlocking).pc c')
    cases hpc' : (s.setPc c .unlocking).pc c' with
    | opened =>
      refine absurd ?_ (hmoved.guards.not_reading (t := c) ?_ c')
      · show role (kind c') ((s.setPc c .unlocking).pc c') = .reading
        rw [hpc']
        rfl
      · show role (kind c) ((s.setPc c .unlocking).pc c) = .writing
        simp [Agent.setPc, role]
    | _ =>
      rw [hpc'] at hfits
      exact hfits

theorem Inv.recvTask (hinv : Inv kind s) {drain : Bool} (hdrains : s.loop.Drains ↔ drain = true) :
    Inv kind (s.recvTask drain) := by
  unfold Agent.recvTask
  split
  · exact hinv.task hdrains (Or.inl ⟨_, rfl⟩)
  · exact hinv

theorem Inv.execute (hinv : Inv kind s) : Inv kind (s.execute kind) := by
  unfold Agent.execute
  split
  · next c drain hloop =>
      have hdrains : s.loop.Drains ↔ drain = true := by rw [hloop]; rfl
      split_ifs
      · exact hinv.resume hdrains
      · exact hinv.task hdrains (Or.inr (Or.inl ⟨c, rfl⟩))
  · exact hinv

theorem Inv.finish (hinv : Inv kind s) (panics : Bool) : Inv kind (s.finish kind panics) := by
  unfold Agent.finish
  split
  · next c drain hloop =>
      have hdrains : s.loop.Drains ↔ drain = true := by rw [hloop]; rfl
      cases panics with
      | true => exact hinv.task hdrains (Or.inr (Or.inr rfl))
      | false => exact hinv.resume hdrains
  · exact hinv

theorem Inv.handled (hinv : Inv kind s) : Inv kind s.handled := by
  unfold Agent.handled
  split
  · next drain hloop => exact hinv.resume (by rw [hloop]; rfl)
  · exact hinv

/-- **Every step keeps the lock and the channel in order.** -/
theorem Inv.step (hinv : Inv kind s) {a : Action} (henabled : (system size kind).Enabled s a) :
    Inv kind ((system size kind).next s a) := by
  cases a with
  | rLock c =>
    obtain ⟨hpc, hkind, hcan⟩ := henabled
    exact hinv.move (hinv.guards.rLock hcan (by rw [hpc]; rfl)) hkind
  | check c =>
    have hpc : s.pc c = .entered := henabled
    have hkind := hinv.fits c
    rw [hpc] at hkind
    show Inv kind (s.check c)
    unfold check
    split
    · exact hinv.setPc (by rw [hpc]; rfl) ⟨hkind, fun _ => rfl⟩
    · next hopen => exact hinv.setPc (by rw [hpc]; rfl) ⟨hkind, by simpa using hopen⟩
  | submit c => exact hinv.submit henabled.1
  | rUnlock c => exact hinv.rUnlock henabled
  | receive c => exact hinv.receive henabled.1
  | ctxDone c =>
    obtain ⟨hpc, hkind⟩ := henabled
    exact hinv.setPc (by rw [hpc, hkind]; rfl) trivial
  | announce c =>
    obtain ⟨hpc, hkind, hcan⟩ := henabled
    exact hinv.move (hinv.guards.announce hcan (by rw [hpc]; rfl)) hkind
  | lock c =>
    obtain ⟨hpc, hcan⟩ := henabled
    have hkind := hinv.fits c
    rw [hpc] at hkind
    exact hinv.move (hinv.guards.lock hcan (by rw [hpc]; rfl)) hkind
  | close c => exact hinv.close henabled
  | unlock c =>
    have hpc : s.pc c = .unlocking := henabled
    have hkind := hinv.fits c
    rw [hpc] at hkind
    have houtside : role (kind c) (.returned none) = .outside := by rw [hkind]; rfl
    have hguards := hinv.guards.unlock (t := c) (by rw [hpc]; rfl)
    rw [← houtside] at hguards
    exact hinv.move hguards trivial
  | start =>
    have hloop : s.loop = .created := henabled
    have hdrains : s.loop.Drains ↔ false = true := by simp [hloop, Loop.Drains]
    exact hinv.resume hdrains
  | recvClose =>
    obtain ⟨hloop, hsig⟩ := henabled
    exact hinv.setLoop (fun _ => hinv.sig hsig) (by rw [hloop]; rfl)
  | recvTask => exact hinv.recvTask (by rw [henabled.1]; simp [Loop.Drains])
  | recvTimer =>
    have hloop : s.loop = .selecting := henabled
    exact hinv.setLoop (by simp [Loop.Ends, Loop.Drains]) (by rw [hloop]; rfl)
  | timerDone =>
    have hloop : s.loop = .timing := henabled
    have hdrains : s.loop.Drains ↔ false = true := by simp [hloop, Loop.Drains]
    exact hinv.resume hdrains
  | execute => exact hinv.execute
  | finish panics => exact hinv.finish panics
  | handled => exact hinv.handled
  | beforeClose =>
    have hloop : s.loop = .closing := henabled
    exact hinv.setLoop (fun _ => hinv.ends (Or.inl hloop)) (by rw [hloop]; rfl)
  | closeChan =>
    have hloop : s.loop = .closingChan := henabled
    exact
      { hinv with
        ends := fun _ => hinv.ends (Or.inr (Or.inl hloop))
        chan := iff_of_true rfl trivial
        closed := rfl }
  | drainTask => exact hinv.recvTask (by rw [henabled.1]; simp [Loop.Drains])
  | drainEnd =>
    obtain ⟨hloop, -, -⟩ := henabled
    refine hinv.setLoop (fun _ => hinv.ends (Or.inr (Or.inr ?_))) ?_
    · rw [hloop]
      trivial
    · rw [hloop]
      rfl

theorem inv_of_run {ok : Agent → Action → Prop} (hrun : (system size kind).Run ok s) : Inv kind s :=
  hrun.invariant inv_init fun _ _ hinv henabled _ => hinv.step henabled

/-! ## How calls move -/

/-- The moves of a call in the steps of the system: from where, and to where. -/
inductive Moves (kind : CallId → Kind) (s : Agent) : Action → CallId → Pc → Pc → Prop
  | rLock (c : CallId) : Moves kind s (.rLock c) c .idle .entered
  | shut (c : CallId) (hclosed : s.isClosed = true) :
      Moves kind s (.check c) c .entered (.leaving (some .routineClosed))
  | opened (c : CallId) (hopen : s.isClosed = false) : Moves kind s (.check c) c .entered .opened
  | sent (c : CallId) : Moves kind s (.submit c) c .opened (kind c).sent
  | full (c : CallId) (hkind : ¬ (kind c).Answers) :
      Moves kind s (.submit c) c .opened (.leaving (some .chanFull))
  | left (c : CallId) (err : Option Err) :
      Moves kind s (.rUnlock c) c (.leaving err) (.returned err)
  | released (c : CallId) : Moves kind s (.rUnlock c) c .releasing .waiting
  | received (c : CallId) (outcome : Outcome) :
      Moves kind s (.receive c) c .waiting (.returned outcome.err)
  | ctxDone (c : CallId) : Moves kind s (.ctxDone c) c .waiting (.returned (some .context))
  | announced (c : CallId) (hkind : kind c = .close) : Moves kind s (.announce c) c .idle .announced
  | locked (c : CallId) : Moves kind s (.lock c) c .announced .locked
  | closed (c : CallId) : Moves kind s (.close c) c .locked .unlocking
  | unlocked (c : CallId) : Moves kind s (.unlock c) c .unlocking (.returned none)

theorem Inv.moves_submit (hinv : Inv kind s) {size : Nat} (hpc : s.pc c = .opened) :
    ∃ pc, Moves kind s (.submit c) c .opened pc ∧
      (s.submit size kind c).pc = Function.update s.pc c pc := by
  have hchan : ¬ s.chanClosed = true := by simp [hinv.chan_open hpc]
  unfold Agent.submit
  rw [if_neg hchan]
  split_ifs with hroom hanswers
  · exact ⟨_, .sent c, rfl⟩
  · exact ⟨_, .sent c, rfl⟩
  · exact ⟨_, .full c hanswers, rfl⟩

/-- **A step moves at most one call.** -/
theorem Inv.next_pc (hinv : Inv kind s) {a : Action} (henabled : (system size kind).Enabled s a) :
    ((system size kind).next s a).pc = s.pc ∨
      ∃ c pc, Moves kind s a c (s.pc c) pc ∧
        ((system size kind).next s a).pc = Function.update s.pc c pc := by
  cases a with
  | rLock c => exact Or.inr ⟨c, _, henabled.1 ▸ .rLock c, rfl⟩
  | check c =>
    have hpc : s.pc c = .entered := henabled
    refine Or.inr ⟨c, _, ?_, rfl⟩
    rw [hpc]
    split_ifs with hclosed
    · exact .shut c hclosed
    · exact .opened c (by simpa using hclosed)
  | submit c =>
    obtain ⟨hpc, -⟩ := henabled
    obtain ⟨pc, hmoves, hnext⟩ := hinv.moves_submit hpc
    exact Or.inr ⟨c, pc, hpc ▸ hmoves, hnext⟩
  | rUnlock c =>
    right
    rcases henabled with hpc | ⟨err, hpc⟩
    · exact ⟨c, .waiting, hpc ▸ .released c, by simp [system, Agent.rUnlock, hpc]⟩
    · exact ⟨c, .returned err, hpc ▸ .left c err, by simp [system, Agent.rUnlock, hpc]⟩
  | receive c =>
    obtain ⟨hpc, hne⟩ := henabled
    obtain ⟨outcome, rest, herrCh⟩ := List.exists_cons_of_ne_nil hne
    refine Or.inr ⟨c, .returned outcome.err, hpc ▸ .received c outcome, ?_⟩
    simp [system, Agent.receive, herrCh, Agent.setPc]
  | ctxDone c => exact Or.inr ⟨c, _, henabled.1 ▸ .ctxDone c, rfl⟩
  | announce c => exact Or.inr ⟨c, _, henabled.1 ▸ .announced c henabled.2.1, rfl⟩
  | lock c => exact Or.inr ⟨c, _, henabled.1 ▸ .locked c, rfl⟩
  | close c =>
    have hpc : s.pc c = .locked := henabled
    refine Or.inr ⟨c, .unlocking, hpc ▸ .closed c, ?_⟩
    show (s.close c).pc = _
    unfold Agent.close
    split_ifs <;> rfl
  | unlock c =>
    have hpc : s.pc c = .unlocking := henabled
    exact Or.inr ⟨c, _, hpc ▸ .unlocked c, rfl⟩
  | recvTask | drainTask =>
    left
    show (s.recvTask _).pc = _
    unfold Agent.recvTask
    split <;> rfl
  | execute =>
    left
    show (s.execute kind).pc = _
    unfold Agent.execute
    split
    · split_ifs <;> rfl
    · rfl
  | finish panics =>
    left
    show (s.finish kind panics).pc = _
    unfold Agent.finish
    split <;> rfl
  | handled =>
    left
    show s.handled.pc = _
    unfold Agent.handled
    split <;> rfl
  | start | recvClose | recvTimer | timerDone | beforeClose | closeChan | drainEnd =>
    exact Or.inl rfl

/-- A call that has returned does not move any more. -/
theorem Inv.next_pc_of_returned (hinv : Inv kind s) {a : Action}
    (henabled : (system size kind).Enabled s a) {err : Option Err} (hpc : s.pc c = .returned err) :
    ((system size kind).next s a).pc c = .returned err := by
  rcases hinv.next_pc henabled with hnext | ⟨c', pc, hmoves, hnext⟩
  · rw [hnext, hpc]
  · have hne : c ≠ c' := by
      rintro rfl
      rw [hpc] at hmoves
      cases hmoves
    rw [hnext, Function.update_of_ne hne, hpc]

end Inv

end Agent

end Gokit.Framework
