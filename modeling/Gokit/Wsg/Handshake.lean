/-
# The handshake timeout of the WebSocket server

A connection that has been opened must complete its handshake in time.  `OnOpen`
posts it to `handshakingWait`; the goroutine of `runTicker` puts it into
`handshakingQueue` and closes it when its deadline has passed.  When a handshake
succeeds or fails, the io goroutine posts the connection to `handshakingOver` if
it finds a queue node in it, so that the node can be removed early; if that
channel is full, the ticker removes the node later.

The model is a system of atomic actions of the io goroutines and of the ticker.
An io goroutine handles the events of a connection one after the other.  Within a
case of its `select` the ticker takes one step for each access to a connection and
for each operation on the queue.  The queue is the one over the static list, slot
by slot.  The clock may show anything.
-/

import Gokit.Ds.StaticList.Queue
import Gokit.Math.Transition

namespace Gokit.Wsg.Handshake

open Gokit.Math Gokit.Ds.Static

/-! ## The state -/

/-- The connections, by the order of some enumeration. -/
abbrev ConnId : Type := Nat

structure HandshakingConn where
  deadline : Int
  conn : ConnId
  deriving DecidableEq, Repr

/-- The two places `tryPromptlyRemoveHandshakingQnode` is called from: `handshake`
after an upgrade, and `OnTraffic` after a failed handshake. -/
inductive Caller
  | handshake
  | onTraffic
  deriving DecidableEq, Repr

inductive Io
  /-- not opened yet -/
  | fresh
  /-- between two events, the handshake is not complete -/
  | handshaking
  /-- about to load `qnode` -/
  | prompting (caller : Caller)
  /-- has found a node, about to post to `handshakingOver` -/
  | posting (caller : Caller)
  /-- about to call `OnHandshake` -/
  | callback
  | serving
  /-- the event handler has returned `gnet.Close` -/
  | closed
  deriving DecidableEq, Repr

inductive Ticker
  | select
  /-- has received from `handshakingWait` -/
  | gotWait (c : HandshakingConn)
  | pushing (c : HandshakingConn)
  /-- about to store the node in the connection -/
  | storing (c : HandshakingConn) (node : Ptr)
  /-- the queue was full, about to close the connection -/
  | refusing (c : HandshakingConn)
  /-- has received from `handshakingOver` -/
  | gotOver (conn : ConnId)
  /-- has found a node, about to swap it for nil -/
  | swapping (conn : ConnId)
  | removing (conn : ConnId) (node : Ptr)
  /-- `updateHandshakingQueue`: at the head of the loop of `PopRange` -/
  | sweeping (nowMs : Int)
  /-- the deadline of the first node has passed -/
  | expired (nowMs : Int) (c : HandshakingConn) (node : Ptr)
  | closing (nowMs : Int) (c : HandshakingConn) (node : Ptr)
  /-- about to store nil in the connection -/
  | clearing (nowMs : Int) (c : HandshakingConn) (node : Ptr)
  /-- the callback has returned, `PopRange` is about to remove the node -/
  | popping (nowMs : Int) (c : HandshakingConn) (node : Ptr)
  | stopped
  /-- the queue or a pointer has faulted -/
  | crashed
  deriving DecidableEq, Repr

namespace Ticker

/-- The connection that is in the hands of the ticker, out of `handshakingWait` and
not in the queue. -/
def hands : Ticker → List ConnId
  | gotWait c | pushing c | refusing c => [c.conn]
  | _ => []

/-- The node the next step will remove, and the connection it is removed for. -/
def removal : Ticker → Option (Ptr × ConnId)
  | removing conn node => some (node, conn)
  | popping _ c node => some (node, c.conn)
  | _ => none

/-- Between two cases of the `select`. -/
def Between (t : Ticker) : Prop := t = .select ∨ t = .stopped

end Ticker

structure Server where
  /-- a value of the queue is a pointer, so its zero value is nil -/
  handshakingQueue : Queue (Option HandshakingConn)
  handshakingWait : List HandshakingConn := []
  handshakingOver : List ConnId := []
  qnode : ConnId → Option Ptr := fun _ => none
  upgraded : ConnId → Bool := fun _ => false
  io : ConnId → Io := fun _ => .fresh
  ticker : Ticker := .select
  /-- history: `Close` has been called, or `gnet.Close` returned -/
  asked : ConnId → Bool := fun _ => false

def chanSize : Nat := 1024

inductive Action
  /-- `OnOpen` posts the connection -/
  | open (c : ConnId) (deadline : Int)
  /-- `OnOpen` finds `handshakingWait` full -/
  | busy (c : ConnId)
  /-- `OnClientConnect` returns an error -/
  | reject (c : ConnId)
  /-- `handshake` returns an error before the upgrade -/
  | fail (c : ConnId)
  | upgrade (c : ConnId)
  | load (c : ConnId)
  | post (c : ConnId)
  /-- `OnHandshake` returns -/
  | accept (c : ConnId)
  /-- `OnHandshake` returns an error -/
  | refuse (c : ConnId)
  /-- the connection ends between two events, or `readFrame` returns an error -/
  | hangup (c : ConnId)
  | recvWait
  | recvOver
  | fire (nowMs : Int)
  | quit
  /-- the next step of the case the ticker is in -/
  | advance
  deriving DecidableEq, Repr

namespace Server

/-! ## The io goroutines -/

def setIo (st : Server) (c : ConnId) (io : Io) : Server :=
  { st with io := Function.update st.io c io }

/-- The event handler returns `gnet.Close`. -/
def close (st : Server) (c : ConnId) : Server :=
  { st with io := Function.update st.io c .closed, asked := Function.update st.asked c true }

/-- Return from `tryPromptlyRemoveHandshakingQnode`. -/
def return' (st : Server) (c : ConnId) : Caller → Server
  | .handshake => st.setIo c .callback
  | .onTraffic => st.close c

def open' (st : Server) (c : ConnId) (deadline : Int) : Server :=
  { st.setIo c .handshaking with handshakingWait := st.handshakingWait ++ [⟨deadline, c⟩] }

def upgrade (st : Server) (c : ConnId) : Server :=
  { st.setIo c (.prompting .handshake) with upgraded := Function.update st.upgraded c true }

def load (st : Server) (c : ConnId) : Server :=
  match st.io c with
  | .prompting caller =>
    if st.qnode c ≠ none then st.setIo c (.posting caller) else st.return' c caller
  | _ => st

/-- The `select` that posts if there is room. -/
def post (st : Server) (c : ConnId) : Server :=
  match st.io c with
  | .posting caller =>
    if st.handshakingOver.length < chanSize then
      { st with handshakingOver := st.handshakingOver ++ [c] }.return' c caller
    else st.return' c caller
  | _ => st

/-! ## The ticker -/

/-- The head of the loop of `PopRange`: the first node and its value. -/
def front (q : Queue (Option HandshakingConn)) : Exec (Option (Ptr × Option HandshakingConn)) := do
  if ← q.isEmpty then .ok none
  else
    let node ← nonNil (← getNext q.pool.datas q.root)
    let slot ← q.pool.datas.deref node
    .ok (some (node, slot.data.value))

def recvWait (st : Server) : Server :=
  match st.handshakingWait with
  | c :: rest => { st with handshakingWait := rest, ticker := .gotWait c }
  | [] => st

def recvOver (st : Server) : Server :=
  match st.handshakingOver with
  | conn :: rest => { st with handshakingOver := rest, ticker := .gotOver conn }
  | [] => st

/-- The next step of the case the ticker is in. -/
def advance (st : Server) : Server :=
  match st.ticker with
  | .gotWait c => { st with ticker := if st.upgraded c.conn then .select else .pushing c }
  | .pushing c =>
    match st.handshakingQueue.push (some c) with
    | .ok (some node, q) => { st with handshakingQueue := q, ticker := .storing c node }
    | .ok (none, q) => { st with handshakingQueue := q, ticker := .refusing c }
    | .error _ => { st with ticker := .crashed }
  | .storing c node =>
    { st with qnode := Function.update st.qnode c.conn (some node), ticker := .select }
  | .refusing c => { st with asked := Function.update st.asked c.conn true, ticker := .select }
  | .gotOver conn => { st with ticker := if st.qnode conn ≠ none then .swapping conn else .select }
  | .swapping conn =>
    match st.qnode conn with
    | some node =>
      { st with qnode := Function.update st.qnode conn none, ticker := .removing conn node }
    | none => { st with ticker := .select }
  | .removing _ node =>
    match st.handshakingQueue.remove node with
    | .ok q => { st with handshakingQueue := q, ticker := .select }
    | .error _ => { st with ticker := .crashed }
  | .sweeping nowMs =>
    match front st.handshakingQueue with
    | .ok none => { st with ticker := .select }
    | .ok (some (node, some c)) =>
      { st with ticker := if c.deadline > nowMs then .select else .expired nowMs c node }
    | _ => { st with ticker := .crashed }
  | .expired nowMs c node =>
    { st with
      ticker := if st.upgraded c.conn then .clearing nowMs c node else .closing nowMs c node }
  | .closing nowMs c node =>
    { st with
      asked := Function.update st.asked c.conn true, ticker := .clearing nowMs c node }
  | .clearing nowMs c node =>
    { st with
      qnode := Function.update st.qnode c.conn none, ticker := .popping nowMs c node }
  | .popping nowMs _ node =>
    match st.handshakingQueue.remove node with
    | .ok q => { st with handshakingQueue := q, ticker := .sweeping nowMs }
    | .error _ => { st with ticker := .crashed }
  | _ => st

/-! ## The system -/

def Enabled (st : Server) : Action → Prop
  | .open c _ => st.io c = .fresh ∧ st.handshakingWait.length < chanSize
  | .busy c => st.io c = .fresh ∧ st.handshakingWait.length = chanSize
  | .reject c => st.io c = .fresh
  | .fail c | .upgrade c => st.io c = .handshaking
  | .load c => ∃ caller, st.io c = .prompting caller
  | .post c => ∃ caller, st.io c = .posting caller
  | .accept c | .refuse c => st.io c = .callback
  | .hangup c => st.io c = .handshaking ∨ st.io c = .serving
  | .recvWait => st.ticker = .select ∧ st.handshakingWait ≠ []
  | .recvOver => st.ticker = .select ∧ st.handshakingOver ≠ []
  | .fire _ | .quit => st.ticker = .select
  | .advance => st.ticker ≠ .select ∧ st.ticker ≠ .stopped ∧ st.ticker ≠ .crashed

def next (st : Server) : Action → Server
  | .open c deadline => st.open' c deadline
  | .busy c | .reject c => st.close c
  | .fail c => st.setIo c (.prompting .onTraffic)
  | .upgrade c => st.upgrade c
  | .load c => st.load c
  | .post c => st.post c
  | .accept c => st.setIo c .serving
  | .refuse c => st.setIo c (.prompting .onTraffic)
  | .hangup c => st.setIo c .closed
  | .recvWait => st.recvWait
  | .recvOver => st.recvOver
  | .fire nowMs => { st with ticker := .sweeping nowMs }
  | .quit => { st with ticker := .stopped }
  | .advance => st.advance

end Server

/-- A server with the given queue. -/
def server (queue : Queue (Option HandshakingConn)) : System Server Action where
  init := { handshakingQueue := queue }
  Enabled := Server.Enabled
  next := Server.next

end Gokit.Wsg.Handshake
