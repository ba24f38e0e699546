/-
# The client side of the RPC connection

One connection serves many callers.  `Invoke` numbers the request, writes it and
then waits for the response of that number, or arranges for it to be sent to a
channel.  Responses are handled by `onRecvMsg`, and deadlines of asynchronous
calls by one goroutine, `processTimeout`.  They share two tables: `waitRsps`
maps a number to the call that waits for it, under `mtx`; `timeouts` maps a
deadline to the numbers of the calls it ends, under `tmoutMtx`.

The model is a system of atomic actions.  An action is one critical section or
one channel operation of one goroutine, so every interleaving of the code is a
sequence of actions.  Both tables are changed under their mutex only, and no
goroutine waits for anything while it holds `mtx`, except for room in the
channel of a synchronous call: a receiver that would have to wait there has not
made its step yet.  The sweep of `processTimeout` holds `tmoutMtx` over several
steps, and the other users of `timeouts` are disabled meanwhile.

The clock may show any time after 1970 when it is read, and the timer may fire at
any time; this only adds runs.  Encoding and decoding of messages are left out, and so is
reconnecting, which replaces the socket and touches neither table.
-/

import Gokit.Math.Transition
import Mathlib.Logic.Function.Basic

namespace Gokit.Rpc

open Gokit.Math

/-! ## Calls -/

/-- The calls made on a connection, by the order of some enumeration. -/
abbrev CallId : Type := Nat

/-- A call waits for its response, has it sent to `AsyncRetChan`, or wants none. -/
inductive CallKind
  | sync
  | async
  | asyncNoResp
  deriving DecidableEq, Repr

/-- `CallOption`; `timeout` is in milliseconds, and absent when `Timeout` is not
positive. -/
structure CallOption where
  kind : CallKind
  timeout : Option Nat
  passThrough : Nat
  deriving DecidableEq, Repr

/-- A response as it arrives. Its `origin`, the call whose request the server
answered with it, is not part of the message. -/
structure Response where
  seq : UInt32
  origin : CallId
  deriving DecidableEq, Repr

inductive Verdict
  | response (msg : Response)
  | errRpcCallTimeout
  deriving DecidableEq, Repr

structure AsyncCallResult where
  verdict : Verdict
  passThrough : Nat
  deriving DecidableEq, Repr

/-- `callInfo`; the channel in it is that of its owner, `syncRet` if `sync` is
set and `asyncRet` otherwise. -/
structure CallInfo where
  owner : CallId
  sync : Bool
  expireAt : Int
  passThrough : Nat
  deriving DecidableEq, Repr

/-- Where the goroutine that runs `Invoke` for a call is. A synchronous call
that is about to return carries what it returns: a response, or nothing if it
gave up. -/
inductive Pc
  | idle
  /-- has its number -/
  | begun
  /-- the request is on the wire -/
  | written
  /-- returned without waiting: the request was not written -/
  | failed
  /-- returned without waiting: no response is wanted -/
  | skipped
  /-- `asyncCallWait`: in `waitRsps`, about to enter its deadline -/
  | registered
  /-- `asyncCallWait`: deadline entered, about to look at `runTimeout` -/
  | inserted
  /-- `asyncCallWait`: about to signal `processTimeout` -/
  | posting
  /-- `asyncCallWait` has returned -/
  | returned
  /-- `syncCallWait`: in its `select` -/
  | waiting
  /-- `syncCallWait`: the context is done, in the inner `select` -/
  | givingUp
  /-- `syncCallWait`: about to run its deferred function -/
  | leaving (ret : Option Response)
  /-- `syncCallWait`: out of `waitRsps`, about to close `syncRet` -/
  | closing (ret : Option Response)
  /-- `syncCallWait` has returned -/
  | done (ret : Option Response)
  deriving DecidableEq, Repr

/-- A receiver that has taken an asynchronous call out of `waitRsps`. -/
structure Held where
  info : CallInfo
  msg : Response
  deriving DecidableEq, Repr

/-! ## The deadlines -/

/-- `timeouts`: the set of numbers for each deadline, in a balanced tree. -/
abbrev Timeouts : Type := Std.TreeMap Int (List UInt32)

namespace Timeouts

/-- Add a number to the set of a deadline, which is created if need be. -/
def add (tree : Timeouts) (expireAt : Int) (seq : UInt32) : Timeouts :=
  tree.insert expireAt ((tree[expireAt]?.getD []).insert seq)

/-- Delete a number from the set of a deadline; the deadline itself stays. -/
def drop (tree : Timeouts) (expireAt : Int) (seq : UInt32) : Timeouts :=
  match tree[expireAt]? with
  | some set => tree.insert expireAt (set.filter (· ≠ seq))
  | none => tree

/-- `Left()`: the earliest deadline, or nothing for an empty tree. -/
def left (tree : Timeouts) : Option Int := tree.keys.head?

/-- The deadlines the iterator of a sweep goes through before it stops. -/
def expired (tree : Timeouts) (nowMs : Int) : List Int := tree.keys.takeWhile (· ≤ nowMs)

def removeAll (tree : Timeouts) (keys : List Int) : Timeouts :=
  keys.foldl (fun tree key => tree.erase key) tree

end Timeouts

/-- `processTimeout`. Its variable `expireAt` is what the timer is armed for. -/
inductive Proc
  /-- not started -/
  | off
  /-- about to read the first deadline -/
  | starting
  /-- in its `select` -/
  | waiting (expireAt : Int)
  /-- has taken a signal and is about to read the first deadline -/
  | reading (expireAt : Int)
  /-- sweeping, with `tmoutMtx` held: the deadlines to come, those gone through,
  the calls taken out of `waitRsps` -/
  | sweeping (left swept : List Int) (callInfos : List CallInfo)
  /-- sending the calls taken their result -/
  | sending (expireAt : Int) (callInfos : List CallInfo)
  /-- returned, after `Close` -/
  | stopped
  /-- a nil node was dereferenced -/
  | crashed
  deriving DecidableEq, Repr

namespace Proc

def isSweeping : Proc → Bool
  | .sweeping .. => true
  | _ => false

/-- The deadlines of the current sweep that have been gone through. -/
def swept : Proc → List Int
  | .sweeping _ swept _ => swept
  | _ => []

theorem swept_of_isSweeping_eq_false {proc : Proc} (h : proc.isSweeping = false) :
    proc.swept = [] := by
  cases proc with
  | sweeping left swept callInfos => cases h
  | _ => rfl

/-- The calls `processTimeout` has taken and not sent a result yet. -/
def callInfos : Proc → List CallInfo
  | .sweeping _ _ callInfos => callInfos
  | .sending _ callInfos => callInfos
  | _ => []

end Proc

/-! ## The connection -/

structure Client where
  genMsgId : UInt32 := 0
  pc : CallId → Pc := fun _ => .idle
  seq : CallId → UInt32 := fun _ => 0
  expireAt : CallId → Int := fun _ => 0
  /-- the one-slot channel of a synchronous call -/
  syncRet : CallId → Option Response := fun _ => none
  /-- what has been sent to the `AsyncRetChan` for an asynchronous call -/
  results : CallId → List AsyncCallResult := fun _ => []
  waitRsps : UInt32 → Option CallInfo := fun _ => none
  timeouts : Timeouts := ∅
  runTimeout : Bool := false
  /-- whether the one slot of `updateTimerTrig` is taken -/
  trig : Bool := false
  /-- receivers about to delete their number from `timeouts`, if it has a deadline -/
  tidying : List Held := []
  /-- receivers about to send their result -/
  delivering : List Held := []
  proc : Proc := .off
  closed : Bool := false
  /-- history: the calls whose response arrived before they had timed out or been
  cancelled -/
  inTime : CallId → Bool := fun _ => false

inductive Action
  | begin (c : CallId)
  | write (c : CallId)
  | writeFails (c : CallId)
  | register (c : CallId) (nowMs : Int)
  | insert (c : CallId)
  | swap (c : CallId)
  | post (c : CallId)
  | takeRet (c : CallId)
  | ctxDone (c : CallId)
  | lastLook (c : CallId)
  | deregister (c : CallId)
  | closeRet (c : CallId)
  | recv (msg : Response)
  | tidy (held : Held)
  | deliver (held : Held)
  | startRead
  | takeSignal
  | readLeft
  | fire (nowMs : Int)
  | sweepKey (order : List UInt32)
  | sweepEnd (nowMs : Int)
  | sendTimeout
  | rearm
  | close
  | quit
  deriving DecidableEq, Repr

namespace Client

variable (opts : CallId → CallOption)

/-! ### Invoke -/

def setPc (st : Client) (c : CallId) (pc : Pc) : Client :=
  { st with pc := Function.update st.pc c pc }

/-- `seq := c.genMsgId.Add(1)`. -/
def begin (st : Client) (c : CallId) : Client :=
  { st with
    genMsgId := st.genMsgId + 1
    pc := Function.update st.pc c .begun
    seq := Function.update st.seq c (st.genMsgId + 1) }

/-- The deadline of an asynchronous call, zero if it has none. -/
def deadline (opt : CallOption) (nowMs : Int) : Int :=
  match opt.timeout with
  | some timeout => nowMs + timeout
  | none => 0

/-- The first critical section behind the write: `waitRsps[seq] = callInfo`. A
call that wants no response has none. -/
def register (st : Client) (c : CallId) (nowMs : Int) : Client :=
  match (opts c).kind with
  | .sync =>
    { st with
      pc := Function.update st.pc c .waiting
      waitRsps := Function.update st.waitRsps (st.seq c)
        (some { owner := c, sync := true, expireAt := 0, passThrough := 0 }) }
  | .async =>
    let expireAt := deadline (opts c) nowMs
    { st with
      pc := Function.update st.pc c (if expireAt > 0 then .registered else .returned)
      expireAt := Function.update st.expireAt c expireAt
      waitRsps := Function.update st.waitRsps (st.seq c)
        (some { owner := c, sync := false, expireAt := expireAt
                passThrough := (opts c).passThrough }) }
  | .asyncNoResp => st.setPc c .skipped

/-! ### asyncCallWait -/

def insert (st : Client) (c : CallId) : Client :=
  { st with
    pc := Function.update st.pc c .inserted
    timeouts := st.timeouts.add (st.expireAt c) (st.seq c) }

/-- `runTimeout.Swap(true)`: the first caller starts `processTimeout`. -/
def swap (st : Client) (c : CallId) : Client :=
  if st.runTimeout then st.setPc c .posting
  else
    { st with
      pc := Function.update st.pc c .returned
      runTimeout := true
      proc := .starting }

/-- The signal is dropped if there is one already. -/
def post (st : Client) (c : CallId) : Client :=
  { st with pc := Function.update st.pc c .returned, trig := true }

/-! ### syncCallWait -/

/-- `case ret := <-syncRet` of either `select`. -/
def takeRet (st : Client) (c : CallId) : Client :=
  { st with
    pc := Function.update st.pc c (.leaving (st.syncRet c))
    syncRet := Function.update st.syncRet c none }

/-- `delete(c.waitRsps, seq)` of the deferred function. -/
def deregister (st : Client) (c : CallId) : Client :=
  match st.pc c with
  | .leaving ret =>
    { st with
      pc := Function.update st.pc c (.closing ret)
      waitRsps := Function.update st.waitRsps (st.seq c) none }
  | _ => st

def closeRet (st : Client) (c : CallId) : Client :=
  match st.pc c with
  | .closing ret => st.setPc c (.done ret)
  | _ => st

/-! ### onRecvMsg -/

/-- A call that has timed out or been cancelled. -/
def TimedOut (st : Client) (c : CallId) : Prop :=
  (∃ info ∈ st.proc.callInfos, info.owner = c) ∨
    (∃ result ∈ st.results c, result.verdict = .errRpcCallTimeout) ∨
    st.pc c ∈ [.leaving none, .closing none, .done none]

instance (st : Client) (c : CallId) : Decidable (st.TimedOut c) :=
  inferInstanceAs (Decidable (_ ∨ _ ∨ _))

/-- The history of arrivals. -/
def noteArrival (st : Client) (msg : Response) : Client :=
  { st with
    inTime := if st.TimedOut msg.origin then st.inTime
      else Function.update st.inTime msg.origin true }

/-- The critical section under `mtx`: an unknown number is dropped, a
synchronous call is sent its result at once, an asynchronous call is taken out. -/
def recv (st : Client) (msg : Response) : Client :=
  match st.waitRsps msg.seq with
  | none => st.noteArrival msg
  | some info =>
    if info.sync then
      { st.noteArrival msg with
        syncRet := Function.update st.syncRet info.owner (some msg) }
    else
      { st.noteArrival msg with
        waitRsps := Function.update st.waitRsps msg.seq none
        tidying := ⟨info, msg⟩ :: st.tidying }

/-- The critical section under `tmoutMtx`, for a call that has a deadline. -/
def tidy (st : Client) (held : Held) : Client :=
  { st with
    timeouts := if held.info.expireAt > 0 then
        st.timeouts.drop held.info.expireAt held.msg.seq
      else st.timeouts
    tidying := st.tidying.erase held
    delivering := held :: st.delivering }

/-- Send one result to the channel of a call. -/
def sendResult (st : Client) (info : CallInfo) (verdict : Verdict) :
    CallId → List AsyncCallResult :=
  Function.update st.results info.owner
    (st.results info.owner ++ [{ verdict := verdict, passThrough := info.passThrough }])

def deliver (st : Client) (held : Held) : Client :=
  { st with
    delivering := st.delivering.erase held
    results := st.sendResult held.info (.response held.msg) }

/-! ### processTimeout -/

/-- `c.timeouts.Left().Key` at start-up. -/
def startRead (st : Client) : Client :=
  match st.timeouts.left with
  | some expireAt => { st with proc := .waiting expireAt }
  | none => { st with proc := .crashed }

def takeSignal (st : Client) : Client :=
  match st.proc with
  | .waiting expireAt => { st with trig := false, proc := .reading expireAt }
  | _ => st

/-- `c.timeouts.Left().Key` on a signal; an earlier deadline is armed. -/
def readLeft (st : Client) : Client :=
  match st.proc with
  | .reading expireAt =>
    match st.timeouts.left with
    | some expireFirst =>
      { st with proc := .waiting (if expireFirst < expireAt then expireFirst else expireAt) }
    | none => { st with proc := .crashed }
  | _ => st

/-- `case <-timer.C`: the sweep begins. -/
def fire (st : Client) (nowMs : Int) : Client :=
  { st with proc := .sweeping (st.timeouts.expired nowMs) [] [] }

/-- Take the calls of some numbers out of `waitRsps`. -/
def takeAll (waitRsps : UInt32 → Option CallInfo) :
    List UInt32 → (UInt32 → Option CallInfo) × List CallInfo
  | [] => (waitRsps, [])
  | seq :: rest =>
    match waitRsps seq with
    | some info =>
      ((takeAll (Function.update waitRsps seq none) rest).1,
        info :: (takeAll (Function.update waitRsps seq none) rest).2)
    | none => takeAll waitRsps rest

/-- The critical section under `mtx` for one deadline, its numbers in any order. -/
def sweepKey (st : Client) (order : List UInt32) : Client :=
  match st.proc with
  | .sweeping (key :: left) swept callInfos =>
    { st with
      waitRsps := (takeAll st.waitRsps order).1
      proc := .sweeping left (key :: swept) (callInfos ++ (takeAll st.waitRsps order).2) }
  | _ => st

/-- The end of the sweep: the deadlines gone through are removed and the timer
is armed for the first of the others, or for two minutes from now. -/
def sweepEnd (st : Client) (nowMs : Int) : Client :=
  match st.proc with
  | .sweeping [] swept callInfos =>
    let timeouts := st.timeouts.removeAll swept
    { st with
      timeouts := timeouts
      proc := .sending (timeouts.left.getD (nowMs + 120000)) callInfos }
  | _ => st

/-- Send the next call taken its result. -/
def sendTimeout (st : Client) : Client :=
  match st.proc with
  | .sending expireAt (info :: rest) =>
    if info.sync then { st with proc := .sending expireAt rest }
    else
      { st with
        proc := .sending expireAt rest
        results := st.sendResult info .errRpcCallTimeout }
  | _ => st

def rearm (st : Client) : Client :=
  match st.proc with
  | .sending expireAt _ => { st with proc := .waiting expireAt }
  | _ => st

/-! ### Steps where they are enabled -/

section Enabled

variable {st : Client} {c : CallId} {ret : Option Response} {expireAt : Int}
  {swept : List Int} {callInfos : List CallInfo}

theorem deregister_of_leaving (hpc : st.pc c = .leaving ret) :
    st.deregister c = { st with
      pc := Function.update st.pc c (.closing ret)
      waitRsps := Function.update st.waitRsps (st.seq c) none } := by
  simp only [deregister, hpc]

theorem closeRet_of_closing (hpc : st.pc c = .closing ret) :
    st.closeRet c = st.setPc c (.done ret) := by
  simp only [closeRet, hpc]

theorem startRead_of_left (hleft : st.timeouts.left = some expireAt) :
    st.startRead = { st with proc := .waiting expireAt } := by
  simp only [startRead, hleft]

theorem takeSignal_of_waiting (hproc : st.proc = .waiting expireAt) :
    st.takeSignal = { st with trig := false, proc := .reading expireAt } := by
  simp only [takeSignal, hproc]

theorem readLeft_of_left {expireFirst : Int} (hproc : st.proc = .reading expireAt)
    (hleft : st.timeouts.left = some expireFirst) :
    st.readLeft = { st with
      proc := .waiting (if expireFirst < expireAt then expireFirst else expireAt) } := by
  simp only [readLeft, hproc, hleft]

theorem sweepKey_of_sweeping {key : Int} {left : List Int}
    (hproc : st.proc = .sweeping (key :: left) swept callInfos) (order : List UInt32) :
    st.sweepKey order = { st with
      waitRsps := (takeAll st.waitRsps order).1
      proc := .sweeping left (key :: swept) (callInfos ++ (takeAll st.waitRsps order).2) } := by
  simp only [sweepKey, hproc]

theorem sweepEnd_of_sweeping (hproc : st.proc = .sweeping [] swept callInfos) (nowMs : Int) :
    st.sweepEnd nowMs = { st with
      timeouts := st.timeouts.removeAll swept
      proc := .sending ((st.timeouts.removeAll swept).left.getD (nowMs + 120000))
        callInfos } := by
  simp only [sweepEnd, hproc]

theorem sendTimeout_of_sending {info : CallInfo} {rest : List CallInfo}
    (hproc : st.proc = .sending expireAt (info :: rest)) :
    st.sendTimeout =
      if info.sync then { st with proc := .sending expireAt rest }
      else
        { st with
          proc := .sending expireAt rest
          results := st.sendResult info .errRpcCallTimeout } := by
  simp only [sendTimeout, hproc]

theorem rearm_of_sending (hproc : st.proc = .sending expireAt callInfos) :
    st.rearm = { st with proc := .waiting expireAt } := by
  simp only [rearm, hproc]

end Enabled

/-! ### The system -/

def Enabled (st : Client) : Action → Prop
  | .begin c => st.pc c = .idle
  | .write c => st.pc c = .begun ∧ st.closed = false
  | .writeFails c => st.pc c = .begun
  | .register c nowMs => st.pc c = .written ∧ 0 < nowMs
  | .insert c => st.pc c = .registered ∧ st.proc.isSweeping = false
  | .swap c => st.pc c = .inserted
  | .post c => st.pc c = .posting
  | .takeRet c => (st.pc c = .waiting ∨ st.pc c = .givingUp) ∧ st.syncRet c ≠ none
  | .ctxDone c => st.pc c = .waiting
  | .lastLook c => st.pc c = .givingUp ∧ st.syncRet c = none
  | .deregister c => ∃ ret, st.pc c = .leaving ret
  | .closeRet c => ∃ ret, st.pc c = .closing ret
  | .recv msg =>
    ∀ info, st.waitRsps msg.seq = some info → info.sync = true → st.syncRet info.owner = none
  | .tidy held => held ∈ st.tidying ∧ (held.info.expireAt > 0 → st.proc.isSweeping = false)
  | .deliver held => held ∈ st.delivering
  | .startRead => st.proc = .starting
  | .takeSignal => (∃ expireAt, st.proc = .waiting expireAt) ∧ st.trig = true
  | .readLeft => ∃ expireAt, st.proc = .reading expireAt
  | .fire _ => ∃ expireAt, st.proc = .waiting expireAt
  | .sweepKey order => ∃ key left swept callInfos,
      st.proc = .sweeping (key :: left) swept callInfos ∧
      order.Perm (st.timeouts[key]?.getD [])
  | .sweepEnd _ => ∃ swept callInfos, st.proc = .sweeping [] swept callInfos
  | .sendTimeout => ∃ expireAt info rest, st.proc = .sending expireAt (info :: rest)
  | .rearm => ∃ expireAt, st.proc = .sending expireAt []
  | .close => st.closed = false
  | .quit => (∃ expireAt, st.proc = .waiting expireAt) ∧ st.closed = true

def next (st : Client) : Action → Client
  | .begin c => st.begin c
  | .write c => st.setPc c .written
  | .writeFails c => st.setPc c .failed
  | .register c nowMs => st.register opts c nowMs
  | .insert c => st.insert c
  | .swap c => st.swap c
  | .post c => st.post c
  | .takeRet c => st.takeRet c
  | .ctxDone c => st.setPc c .givingUp
  | .lastLook c => st.setPc c (.leaving none)
  | .deregister c => st.deregister c
  | .closeRet c => st.closeRet c
  | .recv msg => st.recv msg
  | .tidy held => st.tidy held
  | .deliver held => st.deliver held
  | .startRead => st.startRead
  | .takeSignal => st.takeSignal
  | .readLeft => st.readLeft
  | .fire nowMs => st.fire nowMs
  | .sweepKey order => st.sweepKey order
  | .sweepEnd nowMs => st.sweepEnd nowMs
  | .sendTimeout => st.sendTimeout
  | .rearm => st.rearm
  | .close => { st with closed := true }
  | .quit => { st with proc := .stopped }

end Client

/-- A connection on which the calls are made with the given options. -/
def client (opts : CallId → CallOption) : System Client Action where
  init := {}
  Enabled := Client.Enabled
  next := Client.next opts

end Gokit.Rpc
