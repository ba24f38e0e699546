/-
# The writer of a server connection

Responses are written to a connection by one goroutine, `writeLoop`.  Handlers hand
it their buffers through the bounded channel `writeChan`; they hold the read lock of
the writer while they do.  The loop appends the buffers to the connection and flushes
when the channel is empty or a batch is full.  It leaves when its context is done or a
flush fails, and `beforeClose` then takes the write lock, closes the channel and writes
what is left in it.

The model is a system of atomic actions, for any number of handlers and of calls of
`stop`.  Handlers differ by their buffers only, so it is enough to know which buffers
are at which place.  As in the code, a goroutine that waits for the write lock keeps
new readers out.  A buffer that a blocked handler passes to the loop directly counts as
one that was in the channel for a moment.

In every run the buffers are written in the order in which the channel took them, each
once; and as long as no flush fails, a loop that has nothing to do has flushed all of
them.
-/

import Gokit.Math.Transition
import Mathlib.Data.List.Infix

namespace Gokit.Rpc

open Gokit.Math

namespace SvrWriter

/-- Where the goroutine of `writeLoop` is; `batch` counts the buffers appended since the
last flush. -/
inductive Loop (B : Type)
  /-- created, `cancel` not yet stored -/
  | starting
  /-- in its `select` -/
  | selecting (batch : Nat)
  /-- has received a buffer -/
  | appending (buffer : B) (batch : Nat)
  /-- has appended it, about to look at the length of the channel -/
  | looking (batch : Nat)
  | flushing (batch : Nat)
  /-- a flush has failed, about to close the connection -/
  | giveUp
  /-- has returned, about to run `beforeClose` -/
  | leaving
  /-- `beforeClose`: waits for the write lock -/
  | locking
  /-- `beforeClose`: has the write lock -/
  | closing
  /-- `beforeClose`: the channel is closed, its rest is being appended -/
  | draining
  /-- `beforeClose`: about to flush the rest -/
  | lastFlushing
  | exited
  deriving DecidableEq, Repr

namespace Loop

variable {B : Type}

/-- The loop waits for the write lock or holds it. -/
def locksOut : Loop B → Bool
  | locking | closing | draining | lastFlushing => true
  | _ => false

def holdsLock : Loop B → Bool
  | closing | draining | lastFlushing => true
  | _ => false

def pastClose : Loop B → Bool
  | draining | lastFlushing | exited => true
  | _ => false

/-- The buffer that has been received and not yet appended. -/
def inHand : Loop B → List B
  | appending buffer _ => [buffer]
  | _ => []

/-- The buffers appended since the last flush, as long as `writeLoop` counts them. -/
def batch : Loop B → Option Nat
  | starting => some 0
  | selecting batch | appending _ batch | looking batch | flushing batch => some batch
  | _ => none

def isSelecting : Loop B → Bool
  | selecting _ => true
  | _ => false

def isAppending : Loop B → Bool
  | appending .. => true
  | _ => false

def isLooking : Loop B → Bool
  | looking _ => true
  | _ => false

def isFlushing : Loop B → Bool
  | flushing _ => true
  | _ => false

variable {loop : Loop B}

theorem of_isSelecting (h : loop.isSelecting = true) : ∃ batch, loop = selecting batch := by
  cases loop with
  | selecting batch => exact ⟨batch, rfl⟩
  | _ => cases h

theorem of_isAppending (h : loop.isAppending = true) :
    ∃ buffer batch, loop = appending buffer batch := by
  cases loop with
  | appending buffer batch => exact ⟨buffer, batch, rfl⟩
  | _ => cases h

theorem of_isLooking (h : loop.isLooking = true) : ∃ batch, loop = looking batch := by
  cases loop with
  | looking batch => exact ⟨batch, rfl⟩
  | _ => cases h

theorem of_isFlushing (h : loop.isFlushing = true) : ∃ batch, loop = flushing batch := by
  cases loop with
  | flushing batch => exact ⟨batch, rfl⟩
  | _ => cases h

theorem pastClose_of_batch {n : Nat} (h : loop.batch = some n) : loop.pastClose = false := by
  cases loop <;> first | rfl | cases h

theorem holdsLock_of_batch {n : Nat} (h : loop.batch = some n) : loop.holdsLock = false := by
  cases loop <;> first | rfl | cases h

/-- The goroutine has its context, and `beforeClose` has not been reached. -/
def running : Loop B → Bool
  | selecting _ | appending .. | looking _ | flushing _ => true
  | _ => false

end Loop

end SvrWriter

/-- `SvrWriter`, its goroutine, and the goroutines inside `writeBuffer` and `stop`. -/
structure SvrWriter (B : Type) where
  /-- `c.IsActive()` -/
  active : Bool := true
  /-- the oldest buffer first -/
  writeChan : List B := []
  chanClosed : Bool := false
  closed : Bool := false
  /-- `cancel` holds the function that cancels the context of the loop -/
  stored : Bool := false
  /-- that function has been called -/
  cancelled : Bool := false
  /-- the context of the server is done -/
  serverDone : Bool := false
  loop : SvrWriter.Loop B := .starting
  /-- `writeBuffer`: with the read lock, about to look at `closed` -/
  entered : List B := []
  /-- `writeBuffer`: in the send on `writeChan` -/
  sending : List B := []
  /-- `writeBuffer`: about to give the read lock back -/
  unlocking : Nat := 0
  /-- calls of `stop` that have found the cancel function -/
  stopping : Nat := 0
  /-- calls of `stop` that have returned -/
  stopped : Nat := 0
  /-- a send on the closed channel -/
  panicked : Bool := false
  /-- the buffers that have gone into `writeChan` -/
  accepted : List B := []
  /-- the buffers appended to the writer of the connection -/
  appended : List B := []
  /-- how many of them have been flushed -/
  flushed : Nat := 0
  deriving DecidableEq, Repr

namespace SvrWriter

variable {B : Type}

def maxBatchSize : Nat := 32

/-- The context of the loop is done. -/
def ctxDone (w : SvrWriter B) : Bool := w.serverDone || w.cancelled

inductive Action (B : Type)
  /-- `writeLoop` makes its context and stores the cancel function -/
  | start
  /-- `writeBuffer` takes the read lock -/
  | rlock (buffer : B)
  | checkClosed (buffer : B)
  | send (buffer : B)
  | runlock
  /-- `writeLoop` takes the branch of `ctx.Done()` -/
  | leave
  | receive
  | append
  | look
  | flush (ok : Bool)
  /-- after a failed flush -/
  | closeConn
  /-- `beforeClose` calls `Lock` -/
  | lock
  /-- the call of `Lock` returns -/
  | locked
  | close
  | drain
  | lastFlush (ok : Bool)
  /-- `stop` loads `cancel` -/
  | stop
  /-- `stop` calls it -/
  | cancel
  | serverCancel
  /-- the peer or the server closes the connection -/
  | connClosed
  deriving DecidableEq, Repr

/-- The actions of the goroutine of `writeLoop`. -/
def Action.ofLoop : Action B → Bool
  | start | leave | receive | append | look | flush _ | closeConn | lock | locked | close | drain
  | lastFlush _ => true
  | _ => false

def Action.ofHandler : Action B → Bool
  | rlock _ | checkClosed _ | send _ | runlock => true
  | _ => false

/-- `buffer, ok := <-w.writeChan`. -/
def receive (w : SvrWriter B) : SvrWriter B :=
  match w.loop, w.writeChan with
  | .selecting batch, buffer :: rest =>
    { w with loop := .appending buffer batch, writeChan := rest }
  | .selecting _, [] => { w with loop := .leaving }
  | _, _ => w

def append (w : SvrWriter B) : SvrWriter B :=
  match w.loop with
  | .appending buffer batch =>
    { w with loop := .looking (batch + 1), appended := w.appended ++ [buffer] }
  | _ => w

/-- The loop flushes if the channel is empty or the batch is full. -/
def look (w : SvrWriter B) : SvrWriter B :=
  match w.loop with
  | .looking batch =>
    if w.writeChan.length = 0 ∨ maxBatchSize ≤ batch then { w with loop := .flushing batch }
    else { w with loop := .selecting batch }
  | _ => w

/-- The function `flush` of `writeLoop`. -/
def flush (w : SvrWriter B) (ok : Bool) : SvrWriter B :=
  if ok then { w with loop := .selecting 0, flushed := w.appended.length }
  else { w with loop := .giveUp }

/-- `beforeClose` with the write lock: the channel is closed, once, and its rest is
written if the connection is active. -/
def close (w : SvrWriter B) : SvrWriter B :=
  if w.closed then { w with loop := .exited }
  else
    { w with
      closed := true
      chanClosed := true
      loop := if w.active then .draining else .exited }

/-- One round of the loop over the closed channel. -/
def drain (w : SvrWriter B) : SvrWriter B :=
  match w.writeChan with
  | buffer :: rest => { w with writeChan := rest, appended := w.appended ++ [buffer] }
  | [] => { w with loop := .lastFlushing }

def lastFlush (w : SvrWriter B) (ok : Bool) : SvrWriter B :=
  { w with loop := .exited, flushed := if ok then w.appended.length else w.flushed }

/-- `stop` loads `cancel`; it returns at once if nothing has been stored. -/
def stop (w : SvrWriter B) : SvrWriter B :=
  if w.stored then { w with stopping := w.stopping + 1 } else { w with stopped := w.stopped + 1 }

/-- `stop` calls the function it has loaded, and returns. -/
def cancel (w : SvrWriter B) : SvrWriter B :=
  { w with cancelled := true, stopping := w.stopping - 1, stopped := w.stopped + 1 }

/-! Each step, at the place from which it is made. -/

section Steps

variable {w : SvrWriter B} {buffer : B} {rest : List B} {batch : Nat}

theorem receive_of_nil (hloop : w.loop = .selecting batch) (hchan : w.writeChan = []) :
    w.receive = { w with loop := .leaving } := by
  simp only [receive, hloop, hchan]

theorem receive_of_cons (hloop : w.loop = .selecting batch) (hchan : w.writeChan = buffer :: rest) :
    w.receive = { w with loop := .appending buffer batch, writeChan := rest } := by
  simp only [receive, hloop, hchan]

theorem append_of_appending (hloop : w.loop = .appending buffer batch) :
    w.append = { w with loop := .looking (batch + 1), appended := w.appended ++ [buffer] } := by
  simp only [append, hloop]

theorem drain_of_nil (hchan : w.writeChan = []) : w.drain = { w with loop := .lastFlushing } := by
  simp only [drain, hchan]

theorem drain_of_cons (hchan : w.writeChan = buffer :: rest) :
    w.drain = { w with writeChan := rest, appended := w.appended ++ [buffer] } := by
  simp only [drain, hchan]

theorem close_of_active (hopen : w.closed = false) (hactive : w.active = true) :
    w.close = { w with closed := true, chanClosed := true, loop := .draining } := by
  simp only [close, hopen, hactive, if_true, Bool.false_eq_true, if_false]

theorem close_of_inactive (hopen : w.closed = false) (hactive : w.active = false) :
    w.close = { w with closed := true, chanClosed := true, loop := .exited } := by
  simp only [close, hopen, hactive, Bool.false_eq_true, if_false]

end Steps

section System

variable [DecidableEq B]

/-- `writeBuffer` looks at `closed`. -/
def checkClosed (w : SvrWriter B) (buffer : B) : SvrWriter B :=
  if w.closed then
    { w with entered := w.entered.erase buffer, unlocking := w.unlocking + 1 }
  else
    { w with entered := w.entered.erase buffer, sending := buffer :: w.sending }

def send (w : SvrWriter B) (buffer : B) : SvrWriter B :=
  if w.chanClosed then { w with panicked := true }
  else
    { w with
      sending := w.sending.erase buffer
      unlocking := w.unlocking + 1
      writeChan := w.writeChan ++ [buffer]
      accepted := w.accepted ++ [buffer] }

theorem checkClosed_of_open {w : SvrWriter B} (hopen : w.closed = false) (buffer : B) :
    w.checkClosed buffer =
      { w with entered := w.entered.erase buffer, sending := buffer :: w.sending } := by
  rw [checkClosed, hopen]
  rfl

theorem send_of_open {w : SvrWriter B} (hchan : w.chanClosed = false) (buffer : B) :
    w.send buffer =
      { w with
        sending := w.sending.erase buffer
        unlocking := w.unlocking + 1
        writeChan := w.writeChan ++ [buffer]
        accepted := w.accepted ++ [buffer] } := by
  rw [send, hchan]
  rfl

/-- The writer of a connection whose channel has room for `cap` buffers. -/
def system (cap : Nat) : System (SvrWriter B) (Action B) where
  init := {}
  Enabled w
    | .start => w.loop = .starting
    | .rlock _ => w.loop.locksOut = false
    | .checkClosed buffer => buffer ∈ w.entered
    | .send buffer => buffer ∈ w.sending ∧ (w.writeChan.length < cap ∨ w.chanClosed = true)
    | .runlock => 0 < w.unlocking
    | .leave => w.loop.isSelecting = true ∧ w.ctxDone = true
    | .receive => w.loop.isSelecting = true ∧ (0 < w.writeChan.length ∨ w.chanClosed = true)
    | .append => w.loop.isAppending = true
    | .look => w.loop.isLooking = true
    | .flush _ => w.loop.isFlushing = true
    | .closeConn => w.loop = .giveUp
    | .lock => w.loop = .leaving
    | .locked => w.loop = .locking ∧ w.entered = [] ∧ w.sending = [] ∧ w.unlocking = 0
    | .close => w.loop = .closing
    | .drain => w.loop = .draining
    | .lastFlush _ => w.loop = .lastFlushing
    | .stop => True
    | .cancel => 0 < w.stopping
    | .serverCancel => True
    | .connClosed => True
  next w
    | .start => { w with stored := true, loop := .selecting 0 }
    | .rlock buffer => { w with entered := buffer :: w.entered }
    | .checkClosed buffer => w.checkClosed buffer
    | .send buffer => w.send buffer
    | .runlock => { w with unlocking := w.unlocking - 1 }
    | .leave => { w with loop := .leaving }
    | .receive => w.receive
    | .append => w.append
    | .look => w.look
    | .flush ok => w.flush ok
    | .closeConn => { w with active := false, loop := .leaving }
    | .lock => { w with loop := .locking }
    | .locked => { w with loop := .closing }
    | .close => w.close
    | .drain => w.drain
    | .lastFlush ok => w.lastFlush ok
    | .stop => w.stop
    | .cancel => w.cancel
    | .serverCancel => { w with serverDone := true }
    | .connClosed => { w with active := false }

instance (cap : Nat) (w : SvrWriter B) : (a : Action B) → Decidable ((system cap).Enabled w a)
  | .start => inferInstanceAs (Decidable (_ = _))
  | .rlock _ => inferInstanceAs (Decidable (_ = _))
  | .checkClosed _ => inferInstanceAs (Decidable (_ ∈ _))
  | .send _ => inferInstanceAs (Decidable (_ ∈ _ ∧ (_ < _ ∨ _ = _)))
  | .runlock => inferInstanceAs (Decidable (_ < _))
  | .leave => inferInstanceAs (Decidable (_ = _ ∧ _ = _))
  | .receive => inferInstanceAs (Decidable (_ = _ ∧ (_ < _ ∨ _ = _)))
  | .append => inferInstanceAs (Decidable (_ = _))
  | .look => inferInstanceAs (Decidable (_ = _))
  | .flush _ => inferInstanceAs (Decidable (_ = _))
  | .closeConn => inferInstanceAs (Decidable (_ = _))
  | .lock => inferInstanceAs (Decidable (_ = _))
  | .locked => inferInstanceAs (Decidable (_ = _ ∧ _ = _ ∧ _ = _ ∧ _ = _))
  | .close => inferInstanceAs (Decidable (_ = _))
  | .drain => inferInstanceAs (Decidable (_ = _))
  | .lastFlush _ => inferInstanceAs (Decidable (_ = _))
  | .stop => inferInstanceAs (Decidable True)
  | .cancel => inferInstanceAs (Decidable (_ < _))
  | .serverCancel => inferInstanceAs (Decidable True)
  | .connClosed => inferInstanceAs (Decidable True)

end System

/-! ## What holds in every state -/

/-- What holds of a writer at any time, whether its flushes succeed or not. -/
structure Inv (cap : Nat) (w : SvrWriter B) : Prop where
  bounded : w.writeChan.length ≤ cap
  order : w.accepted = w.appended ++ (w.loop.inHand ++ w.writeChan)
  counted : ∀ batch, w.loop.batch = some batch → w.flushed + batch = w.appended.length
  waiting : ∀ batch, w.loop = .selecting batch → batch = 0 ∨ w.writeChan ≠ []
  chan : w.chanClosed = w.closed
  past : w.loop.pastClose = w.closed
  exclusive : w.loop.holdsLock = true → w.entered = [] ∧ w.sending = []
  quiet : w.closed = true → w.sending = []
  drained : w.loop = .lastFlushing → w.writeChan = []
  emptied : w.loop = .exited → w.active = true → w.writeChan = []
  safe : w.panicked = false

namespace Inv

variable {cap : Nat} {w : SvrWriter B}

theorem init : Inv cap ({} : SvrWriter B) where
  bounded := Nat.zero_le _
  order := rfl
  counted := by
    rintro _ ⟨⟩
    rfl
  waiting := fun _ h => nomatch h
  chan := rfl
  past := rfl
  exclusive := fun h => nomatch h
  quiet := fun _ => rfl
  drained := fun h => nomatch h
  emptied := fun h => nomatch h
  safe := rfl

/-- While the loop is before `beforeClose` the writer is open. -/
theorem isOpen (hinv : Inv cap w) (hpast : w.loop.pastClose = false) : w.closed = false :=
  hinv.past.symm.trans hpast

variable {loop : Loop B}

/-- The loop moves between two places at which it has no buffer and no count. -/
theorem move (hinv : Inv cap w) (hhand : w.loop.inHand = []) (hhand' : loop.inHand = [])
    (hbatch : loop.batch = none) (hpast : loop.pastClose = w.loop.pastClose)
    (hlock : loop.holdsLock = true → w.entered = [] ∧ w.sending = [])
    (hlast : loop = .lastFlushing ∨ loop = .exited → w.writeChan = []) :
    Inv cap { w with loop } where
  bounded := hinv.bounded
  order := by
    rw [hinv.order, hhand]
    simp only [hhand']
  counted := fun batch h => by simp [hbatch] at h
  waiting := fun batch h => by
    have : loop = .selecting batch := h
    simp [this, Loop.batch] at hbatch
  chan := hinv.chan
  past := hpast.trans hinv.past
  exclusive := hlock
  quiet := hinv.quiet
  drained := fun h => hlast (.inl h)
  emptied := fun h _ => hlast (.inr h)
  safe := hinv.safe

/-- The loop goes on towards `beforeClose`, without a buffer in its hand. -/
theorem toward (hinv : Inv cap w) (hhand : w.loop.inHand = []) (hpast : w.loop.pastClose = false)
    (hloop : loop = .giveUp ∨ loop = .leaving ∨ loop = .locking) : Inv cap { w with loop } := by
  rcases hloop with rfl | rfl | rfl
  all_goals exact hinv.move hhand rfl rfl hpast.symm (fun h => nomatch h) (fun h => by simp at h)

variable {batch : Nat}

/-- The loop goes on to a place at which it counts the buffers of its batch. -/
theorem count (hinv : Inv cap w) (hpast : w.loop.pastClose = false) {writeChan appended : List B}
    {flushed : Nat} {stored : Bool} (hbatch : loop.batch = some batch)
    (hbounded : writeChan.length ≤ w.writeChan.length)
    (horder : w.accepted = appended ++ (loop.inHand ++ writeChan))
    (hcount : flushed + batch = appended.length)
    (hwaiting : loop = .selecting batch → batch = 0 ∨ writeChan ≠ []) :
    Inv cap { w with loop, writeChan, appended, flushed, stored } :=
  { hinv with
    bounded := hbounded.trans hinv.bounded
    order := horder
    counted := fun batch' h => by
      obtain rfl : batch = batch' := Option.some.inj (hbatch.symm.trans h)
      exact hcount
    waiting := fun batch' h => by
      have hloop : loop = .selecting batch' := h
      obtain rfl : batch' = batch := Option.some.inj ((congrArg Loop.batch hloop).symm.trans hbatch)
      exact hwaiting hloop
    past := (Loop.pastClose_of_batch hbatch).trans (hinv.isOpen hpast).symm
    exclusive := fun h => absurd h (by simp [Loop.holdsLock_of_batch hbatch])
    drained := fun h => by
      have hloop : loop = .lastFlushing := h
      simp [hloop, Loop.batch] at hbatch
    emptied := fun h => by
      have hloop : loop = .exited := h
      simp [hloop, Loop.batch] at hbatch }

theorem start (hinv : Inv cap w) (hloop : w.loop = .starting) :
    Inv cap { w with stored := true, loop := .selecting 0 } := by
  have horder : w.accepted = w.appended ++ w.writeChan := by
    rw [hinv.order, hloop]
    rfl
  exact hinv.count (congrArg Loop.pastClose hloop) rfl (Nat.le_refl _) horder
    (hinv.counted 0 (congrArg Loop.batch hloop)) fun _ => .inl rfl

theorem rlock (hinv : Inv cap w) (buffer : B) (hfree : w.loop.locksOut = false) :
    Inv cap { w with entered := buffer :: w.entered } :=
  { hinv with
    exclusive := fun hlock => by
      have : w.loop.locksOut = true := by
        revert hlock
        show w.loop.holdsLock = true → _
        cases w.loop <;> simp [Loop.holdsLock, Loop.locksOut]
      rw [hfree] at this
      cases this }

section Handlers

variable [DecidableEq B]

/-- A handler that has looked at `closed` sends only if the writer is open. -/
theorem checkClosed (hinv : Inv cap w) {buffer : B} (hmem : buffer ∈ w.entered) :
    Inv cap (w.checkClosed buffer) := by
  have hunlocked (hlock : w.loop.holdsLock = true) : False :=
    List.ne_nil_of_mem hmem (hinv.exclusive hlock).1
  cases hclosed : w.closed with
  | true =>
    rw [SvrWriter.checkClosed, if_pos hclosed]
    exact { hinv with exclusive := fun hlock => (hunlocked hlock).elim }
  | false =>
    rw [checkClosed_of_open hclosed]
    exact { hinv with
      exclusive := fun hlock => (hunlocked hlock).elim
      quiet := fun hclosed' => by
        rw [hclosed] at hclosed'
        cases hclosed' }

/-- A handler that sends holds the read lock of an open writer. -/
theorem send (hinv : Inv cap w) {buffer : B} (hmem : buffer ∈ w.sending)
    (hroom : w.writeChan.length < cap ∨ w.chanClosed = true) : Inv cap (w.send buffer) := by
  have hopen : w.closed = false := by
    cases hclosed : w.closed with
    | false => rfl
    | true => exact absurd (hinv.quiet hclosed) (List.ne_nil_of_mem hmem)
  have hunlocked (hlock : w.loop.holdsLock = true) : False :=
    List.ne_nil_of_mem hmem (hinv.exclusive hlock).2
  have hpast : w.loop.pastClose = false := hinv.past.trans hopen
  have hchan : w.chanClosed = false := hinv.chan.trans hopen
  rw [send_of_open hchan]
  exact { hinv with
    bounded := by
      have := hroom.resolve_right (by simp [hchan])
      rw [List.length_append]
      exact this
    order := by
      show w.accepted ++ [buffer] = _
      rw [hinv.order]
      simp only [List.append_assoc]
    waiting := fun _ _ => .inr (List.append_ne_nil_of_right_ne_nil _ (List.cons_ne_nil _ _))
    exclusive := fun hlock => (hunlocked hlock).elim
    quiet := fun hclosed => by
      rw [hopen] at hclosed
      cases hclosed
    drained := fun hloop => by
      have : w.loop = .lastFlushing := hloop
      rw [this] at hpast
      cases hpast
    emptied := fun hloop => by
      have : w.loop = .exited := hloop
      rw [this] at hpast
      cases hpast }

end Handlers

theorem receive (hinv : Inv cap w) (hloop : w.loop = .selecting batch) : Inv cap w.receive := by
  have hpast : w.loop.pastClose = false := congrArg Loop.pastClose hloop
  cases hchan : w.writeChan with
  | nil =>
    rw [receive_of_nil hloop hchan]
    exact hinv.toward (congrArg Loop.inHand hloop) hpast (.inr (.inl rfl))
  | cons buffer rest =>
    rw [receive_of_cons hloop hchan]
    apply hinv.count hpast (rfl : Loop.batch (.appending buffer batch) = some batch)
    · rw [hchan]
      exact Nat.le_succ _
    · rw [hinv.order, hloop, hchan]
      rfl
    · exact hinv.counted batch (congrArg Loop.batch hloop)
    · exact fun h => nomatch h

theorem append (hinv : Inv cap w) {buffer : B} (hloop : w.loop = .appending buffer batch) :
    Inv cap w.append := by
  have hcount : w.flushed + batch = w.appended.length :=
    hinv.counted batch (congrArg Loop.batch hloop)
  rw [append_of_appending hloop]
  apply hinv.count (congrArg Loop.pastClose hloop)
    (rfl : Loop.batch (.looking (batch + 1) : Loop B) = some (batch + 1)) (Nat.le_refl _)
  · rw [hinv.order, hloop, List.append_assoc]
    rfl
  · rw [List.length_append, ← hcount]
    rfl
  · exact fun h => nomatch h

theorem look (hinv : Inv cap w) (hloop : w.loop = .looking batch) : Inv cap w.look := by
  have hpast : w.loop.pastClose = false := congrArg Loop.pastClose hloop
  have horder : w.accepted = w.appended ++ w.writeChan := by
    rw [hinv.order, hloop]
    rfl
  have hcount : w.flushed + batch = w.appended.length :=
    hinv.counted batch (congrArg Loop.batch hloop)
  simp only [SvrWriter.look, hloop]
  split
  case isTrue hdue => exact hinv.count hpast rfl (Nat.le_refl _) horder hcount fun h => nomatch h
  case isFalse hdue =>
    exact hinv.count hpast rfl (Nat.le_refl _) horder hcount fun _ =>
      .inr fun hempty => hdue (.inl (congrArg List.length hempty))

theorem flush (hinv : Inv cap w) (ok : Bool) (hloop : w.loop = .flushing batch) :
    Inv cap (w.flush ok) := by
  have hpast : w.loop.pastClose = false := congrArg Loop.pastClose hloop
  cases ok with
  | false => exact hinv.toward (congrArg Loop.inHand hloop) hpast (.inl rfl)
  | true =>
    have horder : w.accepted = w.appended ++ w.writeChan := by
      rw [hinv.order, hloop]
      rfl
    exact hinv.count hpast rfl (Nat.le_refl _) horder rfl fun _ => .inl rfl

/-- A connection that is no longer active leaves nothing to be done. -/
theorem inactive (hinv : Inv cap w) : Inv cap { w with active := false } :=
  { hinv with emptied := fun _ h => nomatch h }

theorem close (hinv : Inv cap w) (hloop : w.loop = .closing) : Inv cap w.close := by
  have hopen : w.closed = false := hinv.isOpen (congrArg Loop.pastClose hloop)
  have halone := hinv.exclusive (congrArg Loop.holdsLock hloop)
  have horder : w.accepted = w.appended ++ w.writeChan := by
    rw [hinv.order, hloop]
    rfl
  cases hactive : w.active with
  | true =>
    rw [close_of_active hopen hactive]
    exact { hinv with
      order := horder
      counted := fun _ h => nomatch h
      waiting := fun _ h => nomatch h
      chan := rfl
      past := rfl
      exclusive := fun _ => halone
      quiet := fun _ => halone.2
      drained := fun h => nomatch h
      emptied := fun h => nomatch h }
  | false =>
    rw [close_of_inactive hopen hactive]
    exact { hinv with
      order := horder
      counted := fun _ h => nomatch h
      waiting := fun _ h => nomatch h
      chan := rfl
      past := rfl
      exclusive := fun h => nomatch h
      quiet := fun _ => halone.2
      drained := fun h => nomatch h
      emptied := fun _ h => absurd (hactive.symm.trans h) Bool.false_ne_true }

theorem drain (hinv : Inv cap w) (hloop : w.loop = .draining) : Inv cap w.drain := by
  cases hchan : w.writeChan with
  | nil =>
    rw [drain_of_nil hchan]
    exact hinv.move (congrArg Loop.inHand hloop) rfl rfl (congrArg Loop.pastClose hloop).symm
      (fun _ => hinv.exclusive (congrArg Loop.holdsLock hloop)) (fun _ => hchan)
  | cons buffer rest =>
    rw [drain_of_cons hchan]
    exact { hinv with
      bounded := Nat.le_of_succ_le ((congrArg List.length hchan).symm.trans_le hinv.bounded)
      order := by
        show w.accepted = (w.appended ++ [buffer]) ++ (w.loop.inHand ++ rest)
        rw [hinv.order, hloop, hchan, List.append_assoc]
        rfl
      counted := fun _ h => by simp [hloop, Loop.batch] at h
      waiting := fun _ h => by simp [hloop] at h
      drained := fun h => by simp [hloop] at h
      emptied := fun h => by simp [hloop] at h }

theorem lastFlush (hinv : Inv cap w) (ok : Bool) (hloop : w.loop = .lastFlushing) :
    Inv cap (w.lastFlush ok) :=
  { hinv with
    order := by
      show w.accepted = w.appended ++ w.writeChan
      rw [hinv.order, hloop]
      rfl
    counted := fun _ h => nomatch h
    waiting := fun _ h => nomatch h
    past := hinv.past.symm.trans (congrArg Loop.pastClose hloop) |>.symm
    exclusive := fun h => nomatch h
    drained := fun h => nomatch h
    emptied := fun _ _ => hinv.drained hloop }

end Inv

section Runs

variable [DecidableEq B] {cap : Nat} {w : SvrWriter B}

/-- Every action keeps the invariant. -/
theorem Inv.next (hinv : Inv cap w) (a : Action B) (henabled : (system cap).Enabled w a) :
    Inv cap ((system cap).next w a) := by
  cases a with
  | start => exact hinv.start henabled
  | rlock buffer => exact hinv.rlock buffer henabled
  | checkClosed buffer => exact hinv.checkClosed henabled
  | send buffer => exact hinv.send henabled.1 henabled.2
  | runlock => exact { hinv with }
  | leave =>
    obtain ⟨batch, hloop⟩ := Loop.of_isSelecting henabled.1
    exact hinv.toward (congrArg Loop.inHand hloop) (congrArg Loop.pastClose hloop)
      (.inr (.inl rfl))
  | receive =>
    obtain ⟨batch, hloop⟩ := Loop.of_isSelecting henabled.1
    exact hinv.receive hloop
  | append =>
    obtain ⟨buffer, batch, hloop⟩ := Loop.of_isAppending henabled
    exact hinv.append hloop
  | look =>
    obtain ⟨batch, hloop⟩ := Loop.of_isLooking henabled
    exact hinv.look hloop
  | flush ok =>
    obtain ⟨batch, hloop⟩ := Loop.of_isFlushing henabled
    exact hinv.flush ok hloop
  | closeConn =>
    have hloop : w.loop = .giveUp := henabled
    exact hinv.inactive.toward (congrArg Loop.inHand hloop) (congrArg Loop.pastClose hloop)
      (.inr (.inl rfl))
  | lock =>
    have hloop : w.loop = .leaving := henabled
    exact hinv.toward (congrArg Loop.inHand hloop) (congrArg Loop.pastClose hloop)
      (.inr (.inr rfl))
  | locked =>
    obtain ⟨hloop, hentered, hsending, -⟩ := henabled
    exact hinv.move (congrArg Loop.inHand hloop) rfl rfl (congrArg Loop.pastClose hloop).symm
      (fun _ => ⟨hentered, hsending⟩) (fun h => by simp at h)
  | close => exact hinv.close henabled
  | drain => exact hinv.drain henabled
  | lastFlush ok => exact hinv.lastFlush ok henabled
  | stop =>
    show Inv cap w.stop
    unfold SvrWriter.stop
    split
    all_goals exact { hinv with }
  | cancel => exact { hinv with }
  | serverCancel => exact { hinv with }
  | connClosed => exact hinv.inactive

/-- The loop is where it was and has written what it had; the connection may have been
closed. -/
structure LeavesLoop (w w' : SvrWriter B) : Prop where
  loop : w'.loop = w.loop
  appended : w'.appended = w.appended
  flushed : w'.flushed = w.flushed
  active : w'.active = true → w.active = true

/-- What a step leaves to the goroutines that do not make it. -/
structure Frame (a : Action B) (w w' : SvrWriter B) : Prop where
  handlers : a.ofHandler = false → w'.entered = w.entered ∧ w'.sending = w.sending ∧
    w'.unlocking = w.unlocking ∧ w'.accepted = w.accepted
  stops : a ≠ .stop → a ≠ .cancel → w'.stopped = w.stopped ∧ w'.cancelled = w.cancelled
  loop : a.ofLoop = false → LeavesLoop w w'

theorem next_frame (cap : Nat) (w : SvrWriter B) (a : Action B) :
    Frame a w ((system cap).next w a) := by
  cases a with
  | checkClosed buffer =>
    show Frame _ w (w.checkClosed buffer)
    unfold SvrWriter.checkClosed
    split <;> exact ⟨nofun, fun _ _ => ⟨rfl, rfl⟩, fun _ => ⟨rfl, rfl, rfl, id⟩⟩
  | send buffer =>
    show Frame _ w (w.send buffer)
    unfold SvrWriter.send
    split <;> exact ⟨nofun, fun _ _ => ⟨rfl, rfl⟩, fun _ => ⟨rfl, rfl, rfl, id⟩⟩
  | rlock buffer => exact ⟨nofun, fun _ _ => ⟨rfl, rfl⟩, fun _ => ⟨rfl, rfl, rfl, id⟩⟩
  | runlock => exact ⟨nofun, fun _ _ => ⟨rfl, rfl⟩, fun _ => ⟨rfl, rfl, rfl, id⟩⟩
  | stop =>
    show Frame _ w w.stop
    unfold SvrWriter.stop
    split
    all_goals
      exact ⟨fun _ => ⟨rfl, rfl, rfl, rfl⟩, fun h => absurd rfl h, fun _ => ⟨rfl, rfl, rfl, id⟩⟩
  | cancel =>
    exact ⟨fun _ => ⟨rfl, rfl, rfl, rfl⟩, fun _ h => absurd rfl h, fun _ => ⟨rfl, rfl, rfl, id⟩⟩
  | serverCancel =>
    exact ⟨fun _ => ⟨rfl, rfl, rfl, rfl⟩, fun _ _ => ⟨rfl, rfl⟩, fun _ => ⟨rfl, rfl, rfl, id⟩⟩
  | connClosed =>
    exact ⟨fun _ => ⟨rfl, rfl, rfl, rfl⟩, fun _ _ => ⟨rfl, rfl⟩, fun _ => ⟨rfl, rfl, rfl, nofun⟩⟩
  | receive =>
    show Frame _ w w.receive
    unfold SvrWriter.receive
    split <;> exact ⟨fun _ => ⟨rfl, rfl, rfl, rfl⟩, fun _ _ => ⟨rfl, rfl⟩, nofun⟩
  | append =>
    show Frame _ w w.append
    unfold SvrWriter.append
    split <;> exact ⟨fun _ => ⟨rfl, rfl, rfl, rfl⟩, fun _ _ => ⟨rfl, rfl⟩, nofun⟩
  | look =>
    show Frame _ w w.look
    unfold SvrWriter.look
    split
    · split <;> exact ⟨fun _ => ⟨rfl, rfl, rfl, rfl⟩, fun _ _ => ⟨rfl, rfl⟩, nofun⟩
    · exact ⟨fun _ => ⟨rfl, rfl, rfl, rfl⟩, fun _ _ => ⟨rfl, rfl⟩, nofun⟩
  | flush ok =>
    show Frame _ w (w.flush ok)
    unfold SvrWriter.flush
    split <;> exact ⟨fun _ => ⟨rfl, rfl, rfl, rfl⟩, fun _ _ => ⟨rfl, rfl⟩, nofun⟩
  | close =>
    show Frame _ w w.close
    unfold SvrWriter.close
    split <;> exact ⟨fun _ => ⟨rfl, rfl, rfl, rfl⟩, fun _ _ => ⟨rfl, rfl⟩, nofun⟩
  | drain =>
    show Frame _ w w.drain
    unfold SvrWriter.drain
    split <;> exact ⟨fun _ => ⟨rfl, rfl, rfl, rfl⟩, fun _ _ => ⟨rfl, rfl⟩, nofun⟩
  | _ => exact ⟨fun _ => ⟨rfl, rfl, rfl, rfl⟩, fun _ _ => ⟨rfl, rfl⟩, nofun⟩

/-- The loop waits for the write lock only by asking for it, and exits only from
`beforeClose`. -/
theorem next_of_ofLoop {a : Action B} (ha : a.ofLoop = true) (henabled : (system cap).Enabled w a) :
    a = .lock ∨ a = .close ∨ (∃ ok, a = .lastFlush ok) ∨
      (((system cap).next w a).loop ≠ .locking ∧ ((system cap).next w a).loop ≠ .exited) := by
  have hother {w' : SvrWriter B} (hloop : w'.loop ≠ .locking ∧ w'.loop ≠ .exited) :
      a = .lock ∨ a = .close ∨ (∃ ok, a = .lastFlush ok) ∨
        (w'.loop ≠ .locking ∧ w'.loop ≠ .exited) := .inr (.inr (.inr hloop))
  cases a with
  | lock => exact .inl rfl
  | close => exact .inr (.inl rfl)
  | lastFlush ok => exact .inr (.inr (.inl ⟨ok, rfl⟩))
  | start => exact hother (by simp [system])
  | leave => exact hother (by simp [system])
  | closeConn => exact hother (by simp [system])
  | locked => exact hother (by simp [system])
  | receive =>
    obtain ⟨batch, hloop⟩ := Loop.of_isSelecting henabled.1
    apply hother
    show w.receive.loop ≠ _ ∧ w.receive.loop ≠ _
    cases hchan : w.writeChan with
    | nil => simp [receive_of_nil hloop hchan]
    | cons buffer rest => simp [receive_of_cons hloop hchan]
  | append =>
    obtain ⟨buffer, batch, hloop⟩ := Loop.of_isAppending henabled
    apply hother
    show w.append.loop ≠ _ ∧ w.append.loop ≠ _
    simp [append_of_appending hloop]
  | look =>
    obtain ⟨batch, hloop⟩ := Loop.of_isLooking henabled
    apply hother
    show w.look.loop ≠ _ ∧ w.look.loop ≠ _
    simp only [SvrWriter.look, hloop]
    split
    all_goals simp
  | flush ok =>
    apply hother
    show (w.flush ok).loop ≠ _ ∧ (w.flush ok).loop ≠ _
    cases ok with
    | false => simp [SvrWriter.flush]
    | true => simp [SvrWriter.flush]
  | drain =>
    have hloop : w.loop = .draining := henabled
    apply hother
    show w.drain.loop ≠ _ ∧ w.drain.loop ≠ _
    cases hchan : w.writeChan with
    | nil => simp [drain_of_nil hchan]
    | cons buffer rest => simp [drain_of_cons hchan, hloop]
  | _ => cases ha

/-- The invariant holds in every reachable state; in particular no handler ever sends
on the closed channel. -/
theorem run_inv {ok : SvrWriter B → Action B → Prop} (hrun : (system cap).Run ok w) : Inv cap w :=
  hrun.invariant Inv.init fun _ a hinv henabled _ => hinv.next a henabled

/-! ## Buffers are written once, in order, and flushed -/

def FlushSucceeds (_ : SvrWriter B) (a : Action B) : Prop := a ≠ .flush false ∧ a ≠ .lastFlush false

instance (w : SvrWriter B) (a : Action B) : Decidable (FlushSucceeds w a) :=
  inferInstanceAs (Decidable (_ ∧ _))

/-- A loop that has left an active connection has flushed all it has appended. -/
def Settled (w : SvrWriter B) : Prop :=
  w.loop = .exited → w.active = true → w.flushed = w.appended.length

/-- If no flush fails the last one settles the writer, and nothing is appended later. -/
theorem Settled.next (hsettled : Settled w) (hinv : Inv cap w) (a : Action B)
    (henabled : (system cap).Enabled w a) (hok : FlushSucceeds w a) :
    Settled ((system cap).next w a) := by
  cases hloop : a.ofLoop with
  | false =>
    have hsame := (next_frame cap w a).loop hloop
    intro hexited hactive
    rw [hsame.flushed, hsame.appended]
    exact hsettled (hsame.loop.symm.trans hexited) (hsame.active hactive)
  | true =>
    rcases next_of_ofLoop hloop henabled with rfl | rfl | ⟨ok, rfl⟩ | ⟨-, hexited⟩
    · exact fun h => nomatch h
    · have hopen : w.closed = false := hinv.isOpen (congrArg Loop.pastClose henabled)
      show Settled w.close
      cases hactive : w.active with
      | true =>
        rw [close_of_active hopen hactive]
        exact fun h => nomatch h
      | false =>
        rw [close_of_inactive hopen hactive]
        exact fun _ h => absurd (hactive.symm.trans h) Bool.false_ne_true
    · cases ok with
      | false => exact absurd rfl hok.2
      | true => exact fun _ _ => rfl
    · exact fun h => absurd h hexited

/-- **Responses are written once, in order, and never left unflushed.**  What has been
appended is a prefix of what was accepted; a loop that waits for an empty channel has
flushed everything; and when it has exited with the connection active, everything that
was accepted has been appended and flushed. -/
theorem writeLoop_flushes (hrun : (system cap).Run FlushSucceeds w) :
    w.appended <+: w.accepted ∧
      (∀ batch, w.loop = .selecting batch → w.writeChan = [] →
        batch = 0 ∧ w.flushed = w.appended.length) ∧
      (w.loop = .exited → w.active = true →
        w.appended = w.accepted ∧ w.flushed = w.accepted.length) := by
  have hinv : Inv cap w := run_inv hrun
  have hsettled : Settled w :=
    hrun.invariant_of (fun _ => run_inv) (fun h => nomatch h)
      fun _ a hinv hsettled henabled hok => hsettled.next hinv a henabled hok
  refine ⟨⟨_, hinv.order.symm⟩, fun batch hloop hempty => ?_, fun hloop hactive => ?_⟩
  · have hzero : batch = 0 := (hinv.waiting batch hloop).resolve_right (not_not_intro hempty)
    have hcount := hinv.counted batch (congrArg Loop.batch hloop)
    exact ⟨hzero, by rw [← hcount, hzero]; rfl⟩
  · have hall : w.accepted = w.appended := by
      rw [hinv.order, hloop, hinv.emptied hloop hactive]
      exact List.append_nil _
    exact ⟨hall.symm, by rw [hall]; exact hsettled hloop hactive⟩

end Runs

/-- A response that is still in the channel when the loop leaves is written by
`beforeClose`. -/
theorem writeLoop_flushes_rest :
    ∃ w, (system (B := Nat) 2).Run FlushSucceeds w ∧ w.loop = .exited ∧ w.active = true ∧
      w.accepted = [7, 8] ∧ w.appended = [7, 8] ∧ w.flushed = 2 := by
  let actions : List (Action Nat) :=
    [.start, .rlock 7, .checkClosed 7, .send 7, .receive, .append, .look, .flush true, .rlock 8,
      .checkClosed 8, .send 8, .stop, .cancel, .leave, .lock, .runlock, .runlock, .locked, .close,
      .drain, .drain, .lastFlush true]
  have hrun : (system (B := Nat) 2).Run FlushSucceeds ((system 2).after actions (system 2).init) :=
    System.Run.start.of_admits (by decide +kernel)
  have hloop : ((system 2).after actions (system 2).init).loop = .exited := by decide +kernel
  have hactive : ((system 2).after actions (system 2).init).active = true := by decide +kernel
  obtain ⟨happended, hflushed⟩ := (writeLoop_flushes hrun).2.2 hloop hactive
  have haccepted : ((system 2).after actions (system 2).init).accepted = [7, 8] := by
    decide +kernel
  exact ⟨_, hrun, hloop, hactive, haccepted, happended.trans haccepted,
    hflushed.trans (congrArg List.length haccepted)⟩

end SvrWriter

end Gokit.Rpc
