/-
# The sessions of a KCP server

The goroutine `readLoop` of a `Server` gives each datagram to the session of its conversation,
or to `acceptLoop` if the table `sessions` has none.  `acceptLoop` makes a session for each
datagram that `OnHandshake` accepts, and only then puts it into the table.  The `kcpLoop` of a
session works on its two channels until the link is dead or the context is done.  Whoever
finds the link dead first, this loop or a caller of `Send`, closes the session and deletes its
conversation from the table.

Sessions are numbered in the order in which they are made.  What the callbacks of the user
return is left open, and so is when a link dies.  Of the protocol itself only `state` matters
here: `flush` sets it when a segment that was sent before has been sent too often.
-/

import Gokit.Math.Transition
import Mathlib.Logic.Function.Basic

namespace Gokit.Kcp

open Gokit.Math

/-! ## Sessions -/

/-- What waits on a channel: a datagram, and the address it is from. -/
structure Packet (Addr : Type) where
  data : List UInt8
  raddr : Addr

/-- The sessions in the order of `newSession`. -/
abbrev SessId : Type := Nat

/-- The capacity of `acceptCh`, `inputCh` and `outputCh`. -/
def chanSize : Nat := 1024

/-- What is left to do in `checkDeadLink` for the one that has set `closed`. -/
inductive Closing
  | onClose
  | cancel
  | closeSession
  deriving DecidableEq

/-- Where a `kcpLoop` is. -/
inductive Loop
  | selecting
  /-- before `checkDeadLink` -/
  | checking
  /-- in `checkDeadLink`, after it has set `closed` -/
  | closing
  | returned
  deriving DecidableEq

/-- A session with its `kcpLoop`. -/
structure Session (Addr : Type) where
  convId : UInt32
  remoteAddr : Addr
  inputCh : List (Packet Addr) := []
  outputCh : List (List UInt8) := []
  /-- something was given to `kcp.Send` -/
  sent : Bool := false
  /-- `kcp.state > 0` -/
  dead : Bool := false
  /-- of its context -/
  cancelled : Bool := false
  closed : Bool := false
  closer : Option Closing := none
  /-- `OnConnect` was called with it -/
  connected : Bool := false
  loop : Loop := .selecting

namespace Session

variable {Addr : Type}

def newSession (convId : UInt32) (raddr : Addr) : Session Addr where
  convId := convId
  remoteAddr := raddr

/-- `kcp.flush`. A segment has to be sent before it can be sent too often. -/
def flush (x : Session Addr) (dies : Bool) : Session Addr :=
  { x with dead := x.dead || (x.sent && dies) }

/-- `inputCh <- packet`, or the packet is dropped. -/
def pushInput (x : Session Addr) (packet : Packet Addr) : Session Addr :=
  if x.inputCh.length < chanSize then { x with inputCh := x.inputCh ++ [packet] } else x

/-- `outputCh <- data`, or `Send` returns an error. -/
def pushOutput (x : Session Addr) (data : List UInt8) : Session Addr :=
  if x.outputCh.length < chanSize then { x with outputCh := x.outputCh ++ [data] } else x

def recvInput (x : Session Addr) (dies : Bool) : Session Addr :=
  match x.inputCh with
  | packet :: rest => { x with inputCh := rest, remoteAddr := packet.raddr }.flush dies
  | [] => x

def recvOutput (x : Session Addr) (dies : Bool) : Session Addr :=
  match x.outputCh with
  | _ :: rest => { x with outputCh := rest, sent := true, loop := .checking }.flush dies
  | [] => x

/-- `kcpLoop` receives from its timer. -/
def update (x : Session Addr) (dies : Bool) : Session Addr :=
  { x.flush dies with loop := .checking }

/-- `kcpLoop` finds its context done. -/
def ctxDone (x : Session Addr) (dies : Bool) : Session Addr :=
  { x.flush dies with loop := .returned }

/-- `checkDeadLink`, up to the swap of `closed`. -/
def checkDeadLink (x : Session Addr) : Session Addr :=
  if x.dead = true ∧ x.closed = false then { x with closed := true, closer := some .onClose }
  else x

/-- `checkDeadLink` in `kcpLoop`. -/
def check (x : Session Addr) : Session Addr :=
  { x.checkDeadLink with
    loop := if x.dead then (if x.closed then .returned else .closing) else .selecting }

/-- `checkDeadLink` has reached its end. -/
def finishClose (x : Session Addr) : Session Addr :=
  { x with closer := none, loop := if x.loop = .closing then .returned else x.loop }

/-- The session has been closed: `closed` is set, and `closeSession` has been executed. -/
def Gone (x : Session Addr) : Prop := x.closed = true ∧ x.closer = none

/-- The session has been closed, and its `kcpLoop` has returned. -/
def Over (x : Session Addr) : Prop := x.Gone ∧ x.loop = .returned

end Session

/-! ## The server -/

inductive Reader (Addr : Type)
  | reading
  /-- in `onRead`, after it has looked up the conversation -/
  | routing (packet : Packet Addr) (target : Option SessId)
  | returned

inductive Acceptor (Addr : Type)
  | selecting
  /-- in `OnHandshake` -/
  | handshaking (task : Packet Addr)
  /-- after `newSession` -/
  | storing (n : SessId)
  /-- before `OnConnect` -/
  | connecting (n : SessId)
  | returned

/-- A server with the sessions it has made. -/
structure Server (Addr : Type) where
  sessions : UInt32 → Option SessId := fun _ => none
  made : Nat := 0
  sess : SessId → Session Addr
  acceptCh : List (Packet Addr) := []
  reader : Reader Addr := .reading
  acceptor : Acceptor Addr := .selecting
  /-- of its context -/
  cancelled : Bool := false

namespace Server

variable {Addr : Type}

def setSess (s : Server Addr) (n : SessId) (x : Session Addr) : Server Addr :=
  { s with sess := Function.update s.sess n x }

/-- `onRead`, up to the lookup in the table. -/
def onRead (parseConvId : List UInt8 → UInt32 × List UInt8) (s : Server Addr)
    (packet : Packet Addr) : Server Addr :=
  if packet.data = [] then s
  else
    let (cid, buf) := parseConvId packet.data
    if buf = [] then s
    else
      { s with
        reader := .routing { packet with data := buf } (if cid ≠ 0 then s.sessions cid else none) }

/-- The rest of `onRead`: the packet is sent on a channel, or dropped if that is full. -/
def deliver (s : Server Addr) : Server Addr :=
  match s.reader with
  | .routing packet (some n) =>
    { s.setSess n ((s.sess n).pushInput packet) with reader := .reading }
  | .routing packet none =>
    if s.acceptCh.length < chanSize then
      { s with acceptCh := s.acceptCh ++ [packet], reader := .reading }
    else { s with reader := .reading }
  | _ => s

/-- `acceptLoop` receives a task. -/
def recvTask (s : Server Addr) : Server Addr :=
  match s.acceptCh with
  | task :: rest => { s with acceptCh := rest, acceptor := .handshaking task }
  | [] => s

/-- `OnHandshake` returns, and a session is made if it has accepted. -/
def handshake (s : Server Addr) (convId : UInt32) (ok : Bool) : Server Addr :=
  match s.acceptor with
  | .handshaking task =>
    if ok = true ∧ convId ≠ 0 then
      { s.setSess s.made (.newSession convId task.raddr) with
        made := s.made + 1
        acceptor := .storing s.made }
    else { s with acceptor := .selecting }
  | _ => s

def store (s : Server Addr) : Server Addr :=
  match s.acceptor with
  | .storing n =>
    { s with
      sessions := Function.update s.sessions (s.sess n).convId (some n)
      acceptor := .connecting n }
  | _ => s

/-- `OnConnect`: from now on the user can call `Send`. -/
def onConnect (s : Server Addr) : Server Addr :=
  match s.acceptor with
  | .connecting n => { s.setSess n { s.sess n with connected := true } with acceptor := .selecting }
  | _ => s

def closeSession (s : Server Addr) (n : SessId) : Server Addr :=
  { s.setSess n (s.sess n).finishClose with
    sessions := Function.update s.sessions (s.sess n).convId none }

section closeSession

variable (s : Server Addr) {m n : SessId}

theorem closeSession_sess_self : (s.closeSession n).sess n = (s.sess n).finishClose :=
  Function.update_self ..

theorem closeSession_sess_of_ne (hne : m ≠ n) : (s.closeSession n).sess m = s.sess m :=
  Function.update_of_ne hne ..

theorem closeSession_convId (m n : SessId) :
    ((s.closeSession n).sess m).convId = (s.sess m).convId := by
  by_cases heq : m = n
  · rw [heq, closeSession_sess_self]
    rfl
  · rw [closeSession_sess_of_ne s heq]

theorem closeSession_connected (m n : SessId) :
    ((s.closeSession n).sess m).connected = (s.sess m).connected := by
  by_cases heq : m = n
  · rw [heq, closeSession_sess_self]
    rfl
  · rw [closeSession_sess_of_ne s heq]

theorem closeSession_sessions_self : (s.closeSession n).sessions (s.sess n).convId = none :=
  Function.update_self ..

theorem closeSession_sessions_of_ne {convId : UInt32} (hne : convId ≠ (s.sess n).convId) :
    (s.closeSession n).sessions convId = s.sessions convId :=
  Function.update_of_ne hne ..

end closeSession

def Running (s : Server Addr) (n : SessId) : Prop := n < s.made ∧ (s.sess n).loop ≠ .returned

def Selecting (s : Server Addr) (n : SessId) : Prop := n < s.made ∧ (s.sess n).loop = .selecting

/-- The atomic steps of the goroutines of a server and of the callers of `Send`.  The two parts
of `Send` are steps of their own, as a link may die after it was checked. -/
inductive Action (Addr : Type)
  | read (packet : Packet Addr)
  | deliver
  | readClosed
  | recvTask
  | handshake (convId : UInt32) (ok : Bool)
  | store
  | onConnect
  | acceptDone
  | checkDeadLink (n : SessId)
  | send (n : SessId) (data : List UInt8)
  | recvInput (n : SessId) (dies : Bool)
  | recvOutput (n : SessId) (dies : Bool)
  | update (n : SessId) (dies : Bool)
  | check (n : SessId)
  | ctxDone (n : SessId) (dies : Bool)
  | onClose (n : SessId)
  | cancel (n : SessId)
  | closeSession (n : SessId)
  | close

/-- A server with the callback `ParseConvId`. -/
def system [Inhabited Addr] (parseConvId : List UInt8 → UInt32 × List UInt8) :
    System (Server Addr) (Action Addr) where
  init := { sess := fun _ => .newSession 0 default }
  Enabled s
    | .read _ | .readClosed => s.reader = .reading
    | .deliver => ∃ packet target, s.reader = .routing packet target
    | .recvTask => s.acceptor = .selecting ∧ s.acceptCh ≠ []
    | .handshake _ _ => ∃ task, s.acceptor = .handshaking task
    | .store => ∃ n, s.acceptor = .storing n
    | .onConnect => ∃ n, s.acceptor = .connecting n
    | .acceptDone => s.acceptor = .selecting ∧ s.cancelled = true
    | .checkDeadLink n => (s.sess n).connected = true
    | .send n data => (s.sess n).connected = true ∧ data ≠ []
    | .recvInput n _ => s.Selecting n ∧ (s.sess n).inputCh ≠ []
    | .recvOutput n _ => s.Selecting n ∧ (s.sess n).outputCh ≠ []
    | .update n _ => s.Selecting n
    | .check n => n < s.made ∧ (s.sess n).loop = .checking
    | .ctxDone n _ => s.Selecting n ∧ ((s.sess n).cancelled = true ∨ s.cancelled = true)
    | .onClose n => (s.sess n).closer = some .onClose
    | .cancel n => (s.sess n).closer = some .cancel
    | .closeSession n => (s.sess n).closer = some .closeSession
    | .close => True
  next s
    | .read packet => s.onRead parseConvId packet
    | .deliver => s.deliver
    | .readClosed => { s with reader := .returned, cancelled := true }
    | .recvTask => s.recvTask
    | .handshake convId ok => s.handshake convId ok
    | .store => s.store
    | .onConnect => s.onConnect
    | .acceptDone => { s with acceptor := .returned }
    | .checkDeadLink n => s.setSess n (s.sess n).checkDeadLink
    | .send n data => s.setSess n ((s.sess n).pushOutput data)
    | .recvInput n dies => s.setSess n ((s.sess n).recvInput dies)
    | .recvOutput n dies => s.setSess n ((s.sess n).recvOutput dies)
    | .update n dies => s.setSess n ((s.sess n).update dies)
    | .check n => s.setSess n (s.sess n).check
    | .ctxDone n dies => s.setSess n ((s.sess n).ctxDone dies)
    | .onClose n => s.setSess n { s.sess n with closer := some .cancel }
    | .cancel n => s.setSess n { s.sess n with cancelled := true, closer := some .closeSession }
    | .closeSession n => s.closeSession n
    | .close => { s with cancelled := true }

end Server

end Gokit.Kcp
