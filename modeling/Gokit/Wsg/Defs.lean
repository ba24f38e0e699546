/-
# The frame layer of the WebSocket gateway

After the handshake a connection is a stream of frames.  The event loop hands
the bytes over as they arrive and calls `readFrame` each time; what a call could
not use stays in the inbound buffer, and the connection remembers how far it got
with the frame it was reading: whether the header is complete (`wsHeadOk`), how
long it will be (`wsHeadLen`), the header itself and the fragments of the
message received so far (`buff`).

The network library is represented by its inbound buffer.  `Peek` and `Next`
return the next bytes of it, or find it too short and consume nothing.  Whether
a write succeeds is up to the peer, so the server's environment decides it from
what was written before.  The messages handed to the router, the frames written
back and the bytes consumed are kept in the connection, in the order in which
they were produced.

A `WsHead` is owned by one connection between its `Get` and its `Put`, so the
model holds it by value.  Objects come out of the pool as whoever returned them
last left them, and the pool itself is arbitrary.
-/

import Gokit.Math.Bytes
import Gokit.Math.Incremental

namespace Gokit.Wsg

open Gokit.Math

/-! ## Frame headers -/

def opContinuation : UInt8 := 0x0
def opText : UInt8 := 0x1
def opBinary : UInt8 := 0x2
def opClose : UInt8 := 0x8
def opPing : UInt8 := 0x9
def opPong : UInt8 := 0xa

def isControlOp (op : UInt8) : Bool := op &&& 0x8 != 0

structure WsHead where
  fin : Bool := false
  rsv : UInt8 := 0
  opCode : UInt8 := 0
  masked : Bool := false
  length : Int64 := 0
  mask : Vector UInt8 4 := Vector.replicate 4 0
  deriving DecidableEq, Repr

/-- The errors a frame can be refused with, and the ones that end a connection. -/
inductive WsError
  | errInvalidControlFrame
  | errHeaderLengthUnexpected
  | errHeaderLengthMSB
  | errNotSupportTextData
  | errPayloadTooLarge
  | errClientClosed
  | mustMasked
  | writeFailed
  deriving DecidableEq, Repr

/-- The text of an error. A failed write carries the network library's own text,
which no reply quotes. -/
def WsError.text : WsError → String
  | .errInvalidControlFrame => "websocket: invalid control frame"
  | .errHeaderLengthUnexpected => "ErrHeaderLengthUnexpected"
  | .errHeaderLengthMSB => "ErrHeaderLengthMSB"
  | .errNotSupportTextData => "not support text data"
  | .errPayloadTooLarge => "payload too large"
  | .errClientClosed => "client ws closed"
  | .mustMasked => "must masked"
  | .writeFailed => ""

/-- What `WsHeadPool.Put` makes of a head before it goes back into the pool. -/
def WsHead.put (h : WsHead) : WsHead :=
  { h with
    fin := false, rsv := 0, opCode := 0, masked := false, length := 0,
    mask := Vector.replicate 4 0 }

/-- The heads a connection is handed, by the position in the stream at which it
asks: a new one, or one that was returned with the given contents. -/
abbrev WsHeadPool : Type := Nat → Option WsHead

def WsHeadPool.get (pool : WsHeadPool) (position : Nat) : WsHead :=
  match pool position with
  | none => {}
  | some h => h.put

/-- `copy(h.Mask[:], bts)`. -/
def WsHead.copyMask (h : WsHead) (bts : Bytes) : WsHead :=
  { h with mask := Vector.ofFn fun i => bts.getD i h.mask[i] }

def maskWsPayload (mask : Vector UInt8 4) (payload : Bytes) : Bytes :=
  payload.mapIdx fun i b => b ^^^ mask[i % 4]

def WsHead.firstByte (h : WsHead) : UInt8 :=
  (if h.fin then 0x80 else 0 : UInt8) ||| (h.rsv <<< 4) ||| h.opCode

/-- The second byte, from its seven length bits. -/
def WsHead.secondByte (h : WsHead) (size : UInt8) : UInt8 :=
  size ||| (if h.masked then 0x80 else 0 : UInt8)

/-- The mask key as it is written, behind the length. -/
def WsHead.key (h : WsHead) : Bytes := if h.masked then h.mask.toList else []

/-- The header as it goes on the wire. Every byte of the pooled buffer that is
returned has been assigned before, so nothing of its former contents is left. -/
def makeWsHeadBuff (h : WsHead) : Except WsError Bytes :=
  let n := h.length.toUInt64.toNat
  if h.length ≤ 125 then
    .ok (h.firstByte :: h.secondByte (UInt8.ofNat n) :: h.key)
  else if h.length ≤ 65535 then
    .ok (h.firstByte :: h.secondByte 126 :: (putBigEndian 2 n ++ h.key))
  else if h.length ≤ 9223372036854775807 then
    .ok (h.firstByte :: h.secondByte 127 :: (putBigEndian 8 n ++ h.key))
  else
    .error .errHeaderLengthUnexpected

/-- The buffer to write for a header; `hbuff, _ :=` drops the error. -/
def headBuff (h : WsHead) : Bytes :=
  match makeWsHeadBuff h with
  | .ok buff => buff
  | .error _ => []

/-- `append(make([]byte, 2+len(reason)), reason...)` with the status code in
front: the buffer is extended, not filled. -/
def makeWsClosePayload (statusCode : UInt16) (reason : Bytes) : Option Bytes :=
  if reason.length > 123 then none
  else some (putBigEndian 2 statusCode.toNat ++ List.replicate reason.length 0 ++ reason)

/-! ## The connection -/

/-- What a connection reads of its surroundings: the size limit of the options,
and whether a write fails, given what has been written before. -/
structure Server where
  maxPayloadSize : Int64
  writeFails : List Bytes → Bool

structure Conn where
  wsHeadOk : Bool := false
  wsHeadLen : Nat := 0
  wsHead : Option WsHead := none
  buff : Option Bytes := none
  /-- Bytes that have arrived and not been consumed. -/
  inbound : Bytes := []
  /-- The bytes consumed so far. -/
  consumed : Bytes := []
  /-- The arguments of the calls of `router.PushData`. -/
  pushed : List Bytes := []
  /-- What has been written to the peer, one entry a write. -/
  written : List Bytes := []
  deriving DecidableEq, Repr

namespace Conn

def receive (conn : Conn) (bts : Bytes) : Conn := { conn with inbound := conn.inbound ++ bts }

/-- `Peek(n)`; `none` is `io.ErrShortBuffer`. -/
def peek (conn : Conn) (n : Nat) : Option Bytes :=
  if n ≤ conn.inbound.length then some (conn.inbound.take n) else none

def discard (conn : Conn) (n : Nat) : Conn :=
  { conn with
    inbound := conn.inbound.drop n
    consumed := conn.consumed ++ conn.inbound.take n }

/-- `Next(n)`; `none` is `io.ErrShortBuffer`. -/
def next (conn : Conn) (n : Nat) : Option (Bytes × Conn) :=
  if n ≤ conn.inbound.length then some (conn.inbound.take n, conn.discard n) else none

/-- One write to the peer, and whether it failed. -/
def write (srv : Server) (conn : Conn) (bts : Bytes) : Conn × Bool :=
  ({ conn with written := conn.written ++ [bts] }, srv.writeFails conn.written)

/-- `ReplyWsError`; no caller looks at the error it returns. -/
def replyWsError (srv : Server) (conn : Conn) (statusCode : UInt16) (reason : WsError) : Conn :=
  let reasonDesc := reason.text.toUTF8.toList
  let head : WsHead :=
    { fin := true, opCode := opClose, length := Int64.ofNat (2 + reasonDesc.length) }
  let (conn, failed) := conn.write srv (headBuff head)
  if failed then conn
  else (conn.write srv ((makeWsClosePayload statusCode reasonDesc).getD [])).1

def innerSendWsOpFrame (srv : Server) (conn : Conn) (op : UInt8) (payload : Bytes) :
    Conn × Option WsError :=
  let head : WsHead := { fin := true, opCode := op, length := Int64.ofNat payload.length }
  let hbuff := headBuff head
  -- `Writev` hands both buffers to the peer in one write
  let (conn, failed) :=
    if payload.length = 0 then conn.write srv hbuff else conn.write srv (hbuff ++ payload)
  (conn, if failed then some .writeFailed else none)

def processOpFrame (srv : Server) (conn : Conn) (wsh : WsHead) (payload : Bytes) :
    Conn × Option WsError :=
  if !wsh.fin then
    (conn.replyWsError srv 1002 .errInvalidControlFrame, some .errInvalidControlFrame)
  else if wsh.opCode = opClose then
    if payload.length = 1 ∨ payload.length > 125 then
      (conn.replyWsError srv 1002 .errInvalidControlFrame, some .errInvalidControlFrame)
    else
      ((conn.innerSendWsOpFrame srv opClose payload).1, some .errClientClosed)
  else if wsh.opCode = opPing then
    if payload.length > 125 then
      (conn.replyWsError srv 1002 .errInvalidControlFrame, some .errInvalidControlFrame)
    else
      conn.innerSendWsOpFrame srv opPong payload
  else
    (conn, none)

/-! ## Reading a header -/

/-- What the first two bytes say: the head without its extended length and its
mask, and how many bytes of those are still to come. -/
def beginHead (h : WsHead) (b0 b1 : UInt8) : Except WsError (WsHead × Nat) :=
  let h := { h with
    fin := b0 &&& 0x80 != 0, rsv := (b0 &&& 0x70) >>> 4, opCode := b0 &&& 0x0f }
  let (h, extra) := if b1 &&& 0x80 != 0 then ({ h with masked := true }, 4) else (h, 0)
  let payloadLen := b1 &&& 0x7f
  if payloadLen < 126 then .ok ({ h with length := Int64.ofNat payloadLen.toNat }, extra)
  else if payloadLen = 126 then .ok (h, extra + 2)
  else if payloadLen = 127 then .ok (h, extra + 8)
  else .error .errHeaderLengthUnexpected

/-- The extended length and the mask key, from the bytes behind the first two. -/
def finishHead (h : WsHead) (payloadLen : UInt8) (bts : Bytes) : Exec (Except WsError WsHead) :=
  let keyed (h : WsHead) (bts : Bytes) : WsHead := if h.masked then h.copyMask bts else h
  if payloadLen = 126 then do
    let size ← sliceTo bts 2
    .ok (.ok (keyed { h with length := Int64.ofNat (bigEndian size) } (bts.drop 2)))
  else if payloadLen = 127 then do
    let top ← byteAt bts 0
    if top &&& 0x80 != 0 then .ok (.error .errHeaderLengthMSB)
    else do
      let size ← sliceTo bts 8
      .ok (.ok (keyed { h with length := Int64.ofNat (bigEndian size) } (bts.drop 8)))
  else
    .ok (.ok (keyed h bts))

/-- The second half of `ReadWsHeader`: all `wsHeadLen` bytes at once, or none. -/
def readRest (conn : Conn) (h : WsHead) : Exec (Conn × Except WsError Bool) :=
  match conn.next conn.wsHeadLen with
  | none => .ok (conn, .ok false)
  | some (bts, conn) => do
    let b1 ← byteAt bts 1
    match ← finishHead h (b1 &&& 0x7f) (bts.drop 2) with
    | .error err => .ok (conn, .error err)
    | .ok h => .ok ({ conn with wsHead := some h }, .ok true)

def readWsHeader (pool : WsHeadPool) (conn : Conn) : Exec (Conn × Except WsError Bool) :=
  if conn.wsHeadLen = 0 then
    match conn.peek 2 with
    | none => .ok (conn, .ok false)
    | some bts => do
      let b0 ← byteAt bts 0
      let b1 ← byteAt bts 1
      match beginHead (pool.get conn.consumed.length) b0 b1 with
      | .error err => .ok (conn, .error err)
      | .ok (h, extra) =>
        let conn := { conn with wsHead := some h, wsHeadLen := 2 + extra }
        if extra = 0 then .ok (conn.discard 2, .ok true) else conn.readRest h
  else
    match conn.wsHead with
    | none => .error .nilDeref
    | some h => conn.readRest h

/-! ## Reading frames -/

/-- The end of a loop round: on to the next frame. -/
def reset (conn : Conn) : Conn := { conn with wsHeadOk := false, wsHeadLen := 0, wsHead := none }

/-- A data frame: its payload joins the fragments received before, and the last
fragment of a message sends them to the router. An empty frame does neither. -/
def collect (conn : Conn) (wsh : WsHead) (payload : Bytes) : Conn :=
  if payload.length > 0 then
    let buff := conn.buff.getD [] ++ payload
    if wsh.fin then { conn with buff := none, pushed := conn.pushed ++ [buff] }
    else { conn with buff := some buff }
  else conn

/-- A frame whose payload has been read and unmasked. -/
def dispatch (srv : Server) (conn : Conn) (wsh : WsHead) (payload : Bytes) : Conn × Flow WsError :=
  if isControlOp wsh.opCode then
    match conn.processOpFrame srv wsh payload with
    | (conn, some err) => (conn, .fail err)
    | (conn, none) => (conn.reset, .next)
  else ((conn.collect wsh payload).reset, .next)

/-- `int(wsh.Length)+len(conn.buff) > int(s.opt.MaxPayloadSize)`, in 64 bits. -/
def tooLarge (srv : Server) (conn : Conn) (wsh : WsHead) : Bool :=
  decide (wsh.length + Int64.ofNat (conn.buff.getD []).length > srv.maxPayloadSize)

/-- The part of a loop round behind a complete header. -/
def readPayload (srv : Server) (conn : Conn) (wsh : WsHead) : Conn × Flow WsError :=
  if 0 < wsh.length then
    if conn.tooLarge srv wsh then
      (conn.replyWsError srv 1009 .errPayloadTooLarge, .fail .errPayloadTooLarge)
    else
      match conn.next wsh.length.toInt.toNat with
      | none => (conn, .wait)
      | some (payload, conn) => conn.dispatch srv wsh (maskWsPayload wsh.mask payload)
  else conn.dispatch srv wsh []

/-- The checks made once, when a header has just been completed. -/
def acceptHead (srv : Server) (conn : Conn) (wsh : WsHead) : Conn × Flow WsError :=
  let conn := { conn with wsHeadOk := true }
  if !wsh.masked then (conn.replyWsError srv 1002 .mustMasked, .fail .mustMasked)
  else if wsh.opCode = opText then
    (conn.replyWsError srv 1002 .errNotSupportTextData, .fail .errNotSupportTextData)
  else conn.readPayload srv wsh

/-- One round of the loop of `readFrame`. -/
def frame (srv : Server) (pool : WsHeadPool) (conn : Conn) : Exec (Conn × Flow WsError) :=
  if !conn.wsHeadOk then do
    match ← conn.readWsHeader pool with
    | (conn, .error err) => .ok (conn, .fail err)
    | (conn, .ok false) => .ok (conn, .wait)
    | (conn, .ok true) =>
      match conn.wsHead with
      | none => .error .nilDeref
      | some wsh => .ok (conn.acceptHead srv wsh)
  else
    match conn.wsHead with
    | none => .error .nilDeref
    | some wsh => .ok (conn.readPayload srv wsh)

/-- A connection as an incremental reader of its byte stream. -/
def frameReader (srv : Server) (pool : WsHeadPool) : Reader Conn UInt8 WsError where
  push := receive
  step := frame srv pool

/-- The deferred function of `readFrame`: a call that fails gives its head back. -/
def release (conn : Conn) (err : Option WsError) : Conn :=
  if err.isSome then { conn with wsHead := none } else conn

/-- All frames that are complete in the inbound buffer. Every round but the last
consumes a byte, which bounds their number. -/
def readFrame (srv : Server) (pool : WsHeadPool) (conn : Conn) : Exec (Conn × Option WsError) := do
  let (conn, err) ← (frameReader srv pool).loop (conn.inbound.length + 1) conn
  .ok (conn.release err, err)

/-- The deliveries of `OnTraffic` on an upgraded connection, one call of
`readFrame` each. An error closes the connection, and what arrives afterwards is
never read. -/
def serve (srv : Server) (pool : WsHeadPool) : List Bytes → Conn → Exec (Conn × Option WsError)
  | [], conn => .ok (conn, none)
  | piece :: rest, conn => do
    let (conn, err) ← (conn.receive piece).readFrame srv pool
    match err with
    | none => serve srv pool rest conn
    | some err => .ok (conn, some err)

end Conn

end Gokit.Wsg
