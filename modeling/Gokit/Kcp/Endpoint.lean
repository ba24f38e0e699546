/-
# The whole KCP state machine

One end of a KCP connection, with both directions.  `Send` queues segments, `flush` numbers as
many of them as the window admits, writes those that are new or overdue to datagrams, and adds
the acknowledgements that are owed.  `Input` takes a datagram of the peer: `una` and the
acknowledgements remove or mark what was sent, the pushed segments go the way that
`Gokit.Kcp.Protocol` describes, and the estimates of the round trip time and of the congestion
window follow.

The receiving functions, `Send`, `SetMtu` and `WndSize` are those of `KCP`, applied to the part of
the state they work on.  Times are inputs: every call of `currentMs` gets a reading of its own.
What `flush` writes is computed first, as a list of writes, and then carried out on the buffer; the
output callback does not look at the state.  Statistics and logs are left out.
-/

import Gokit.Kcp.Transfer

namespace Gokit.Kcp

open Gokit.Math

/-! ## The state -/

/-- `segment` in `snd_buf`. The conversation and the command are the same for all of them. -/
structure Flight where
  frg : UInt8
  wnd : UInt16 := 0
  ts : UInt32 := 0
  sn : UInt32
  una : UInt32 := 0
  rto : UInt32 := 0
  xmit : UInt32 := 0
  resendts : UInt32 := 0
  fastack : UInt32 := 0
  acked : Bool := false
  data : Buffer
  deriving DecidableEq

namespace Flight

/-- What a flight still says about the segment it came from. -/
def segment (flight : Flight) : Segment where
  frg := flight.frg
  sn := flight.sn
  data := flight.data

/-- A segment that is numbered. -/
def new (seg : Segment) (sn : UInt32) : Flight where
  frg := seg.frg
  sn := sn
  data := seg.data

/-- A segment that is acknowledged gives its buffer back. -/
def ack (flight : Flight) : Flight := { flight with acked := true, data := ⟨[], Nat.zero_le _⟩ }

end Flight

structure AckItem where
  sn : UInt32
  ts : UInt32
  deriving DecidableEq, Repr

/-- `KCP`, with all fields. The two bits of `probe` are fields of their own. -/
structure Endpoint where
  conv : UInt32
  mtu : UInt32
  mss : UInt32
  state : UInt32 := 0
  sndUna : UInt32 := 0
  sndNxt : UInt32 := 0
  rcvNxt : UInt32 := 0
  ssthresh : UInt32
  rxRttvar : Int32 := 0
  rxSrtt : Int32 := 0
  rxRto : UInt32
  rxMinrto : UInt32
  sndWnd : UInt32
  rcvWnd : UInt32
  rmtWnd : UInt32
  cwnd : UInt32 := 0
  askSend : Bool := false
  askTell : Bool := false
  interval : UInt32
  tsFlush : UInt32
  nodelay : UInt32 := 0
  updated : UInt32 := 0
  tsProbe : UInt32 := 0
  probeWait : UInt32 := 0
  deadLink : UInt32
  incr : UInt32 := 0
  fastresend : Int32 := 0
  nocwnd : Int32 := 0
  stream : Bool := false
  sndQueue : List Segment := []
  rcvQueue : List Segment := []
  sndBuf : List Flight := []
  rcvBuf : List Segment := []
  acklist : List AckItem := []
  /-- `len(kcp.buffer)` -/
  bufferLen : Nat
  deriving DecidableEq

namespace Endpoint

/-- The part of the state that `Send` and `Recv` work on. -/
def base (e : Endpoint) : KCP where
  conv := e.conv
  mtu := e.mtu
  mss := e.mss
  dead := 0 < e.state
  rcvNxt := e.rcvNxt
  sndWnd := e.sndWnd
  rcvWnd := e.rcvWnd
  stream := e.stream
  sndQueue := e.sndQueue
  rcvQueue := e.rcvQueue
  sndBuf := e.sndBuf.map Flight.segment
  rcvBuf := e.rcvBuf

/-- What these functions change. -/
def withBase (e : Endpoint) (kcp : KCP) : Endpoint :=
  { e with
    rcvNxt := kcp.rcvNxt
    sndQueue := kcp.sndQueue
    rcvQueue := kcp.rcvQueue
    rcvBuf := kcp.rcvBuf }

/-! ## Options -/

def newKCP (conv : UInt32) : Endpoint where
  conv := conv
  sndWnd := 32
  rcvWnd := 32
  rmtWnd := 32
  mtu := 1400
  mss := 1400 - 24
  bufferLen := (1400 + 24) * 3
  rxRto := 200
  rxMinrto := 100
  interval := 100
  tsFlush := 100
  ssthresh := 2
  deadLink := 20

/-- `SetMtu`; `alloc` says for which lengths `make` finds the memory. -/
def setMtu (alloc : Int64 → Bool) (e : Endpoint) (mtu : Int64) : Except Panic (Int × Endpoint) := do
  let (code, kcp) ← e.base.setMtu alloc mtu
  .ok (code, { e with
    mtu := kcp.mtu
    mss := kcp.mss
    bufferLen := if code = 0 then ((mtu + 24) * 3).toInt.toNat else e.bufferLen })

def wndSize (e : Endpoint) (sndwnd rcvwnd : Int64) : Endpoint :=
  let kcp := e.base.wndSize sndwnd rcvwnd
  { e with sndWnd := kcp.sndWnd, rcvWnd := kcp.rcvWnd }

def int32 (n : Int64) : Int32 := n.toInt32

def noDelay (e : Endpoint) (nodelay interval resend nc : Int64) : Endpoint :=
  { e with
    nodelay := if 0 ≤ nodelay then uint32 nodelay else e.nodelay
    rxMinrto := if 0 ≤ nodelay then (if nodelay ≠ 0 then 30 else 100) else e.rxMinrto
    interval :=
      if 0 ≤ interval then uint32 (if 5000 < interval then 5000 else if interval < 10 then 10
        else interval)
      else e.interval
    fastresend := if 0 ≤ resend then int32 resend else e.fastresend
    nocwnd := if 0 ≤ nc then int32 nc else e.nocwnd }

def boolTo (b : Bool) : Int64 := if b then 1 else 0

/-- `KcpOptions`, with those that `flush` and `Update` use. -/
structure Options extends KcpOptions where
  kcpNoDelay : Bool
  kcpNoCwnd : Bool
  kcpUpdateInterval : Int64
  kcpFastResend : Int64
  kcpMinRto : Int64
  deriving DecidableEq

/-- The `KCP` that `newSession` makes. -/
def newSession (alloc : Int64 → Bool) (convId : UInt32) (opt : Options) :
    Except Panic Endpoint := do
  let (_, e) ← (newKCP convId).setMtu alloc opt.kcpMtu
  let e := (e.wndSize opt.kcpSendWnd opt.kcpRecvWnd).noDelay (boolTo opt.kcpNoDelay)
    opt.kcpUpdateInterval opt.kcpFastResend (boolTo opt.kcpNoCwnd)
  .ok { e with
    rxMinrto := if 0 < opt.kcpMinRto then uint32 opt.kcpMinRto else e.rxMinrto
    stream := opt.kcpStreamMode }

/-! ## Acknowledgements -/

def imin (a b : UInt32) : UInt32 := if a ≤ b then a else b

def imax (a b : UInt32) : UInt32 := if a ≥ b then a else b

def ibound (lower middle upper : UInt32) : UInt32 := imin (imax lower middle) upper

/-- The estimates after one more sample. -/
def smooth (srtt rttvar rtt : Int32) : Int32 × Int32 :=
  if srtt = 0 then (rtt, rtt >>> 1)
  else
    let delta := rtt - srtt
    let srtt := srtt + (delta >>> 3)
    let delta := if delta < 0 then -delta else delta
    if rtt < srtt - rttvar then (srtt, rttvar + ((delta - rttvar) >>> 5))
    else (srtt, rttvar + ((delta - rttvar) >>> 2))

def updateAck (e : Endpoint) (rtt : Int32) : Endpoint :=
  let (srtt, rttvar) := smooth e.rxSrtt e.rxRttvar rtt
  let rto := srtt.toUInt32 + imax e.interval (rttvar.toUInt32 <<< 2)
  { e with rxSrtt := srtt, rxRttvar := rttvar, rxRto := ibound e.rxMinrto rto 60000 }

def shrinkBuf (e : Endpoint) : Endpoint :=
  { e with
    sndUna := match e.sndBuf with
      | [] => e.sndNxt
      | seg :: _ => seg.sn }

/-- The loop of `parse_ack`. -/
def markAcked (sn : UInt32) : List Flight → List Flight
  | [] => []
  | seg :: rest =>
    if sn = seg.sn then seg.ack :: rest
    else if itimediff sn seg.sn < 0 then seg :: rest
    else seg :: markAcked sn rest

def parseAck (e : Endpoint) (sn : UInt32) : Endpoint :=
  if itimediff sn e.sndUna < 0 ∨ itimediff sn e.sndNxt ≥ 0 then e
  else { e with sndBuf := markAcked sn e.sndBuf }

/-- The loop of `parse_fastack`: the segments, and whether one was skipped often enough. -/
def countSkipped (sn ts fastresend : UInt32) : List Flight → List Flight × Bool
  | [] => ([], false)
  | seg :: rest =>
    if itimediff sn seg.sn < 0 then (seg :: rest, false)
    else
      let (rest', should) := countSkipped sn ts fastresend rest
      if sn ≠ seg.sn ∧ itimediff seg.ts ts ≤ 0 ∧ seg.fastack ≠ 0xFFFFFFFF then
        ({ seg with fastack := seg.fastack + 1 } :: rest',
          decide (seg.fastack + 1 ≥ fastresend) || should)
      else (seg :: rest', should)

def parseFastack (e : Endpoint) (sn ts : UInt32) : Endpoint × Bool :=
  if itimediff sn e.sndUna < 0 ∨ itimediff sn e.sndNxt ≥ 0 then (e, false)
  else
    let (sndBuf, should) := countSkipped sn ts e.fastresend.toUInt32 e.sndBuf
    ({ e with sndBuf := sndBuf }, should)

/-- `parse_una`: the state, and how many segments were removed. -/
def parseUna (e : Endpoint) (una : UInt32) : Endpoint × Nat :=
  let rest := e.sndBuf.dropWhile fun seg => itimediff una seg.sn > 0
  ({ e with sndBuf := rest }, e.sndBuf.length - rest.length)

def ackPush (e : Endpoint) (sn ts : UInt32) : Endpoint :=
  { e with acklist := e.acklist ++ [⟨sn, ts⟩] }

/-! ## Sending and receiving, for the user -/

def peekSize (e : Endpoint) : Int := e.base.peekSize

/-- `Recv` into a slice of a given length: its result, and the bytes that were copied. -/
def recv (e : Endpoint) (len : Nat) : Int × Bytes × Endpoint :=
  let (n, message, kcp) := e.base.recv len
  let fastRecover := decide (0 ≤ n ∧ e.rcvQueue.length ≥ e.rcvWnd.toNat)
  (n, message,
    { e.withBase kcp with
      askTell := e.askTell ||
        (decide (kcp.rcvQueue.length < e.rcvWnd.toNat) && fastRecover) })

def send (e : Endpoint) (buffer : Bytes) : Except Panic (Int × Endpoint) := do
  let (n, kcp) ← e.base.send buffer
  .ok (n, e.withBase kcp)

def waitSnd (e : Endpoint) : Nat := e.sndBuf.length + e.sndQueue.length

/-! ## `flush` -/

/-- What `flush` does to its buffer. -/
inductive Write
  /-- `makeSpace` -/
  | makeSpace (space : Nat)
  /-- bytes behind those that were written before -/
  | bytes (bts : Bytes)
  deriving DecidableEq

/-- The writes on a buffer of `cap` bytes: the datagrams that were put out, and what the buffer
holds. -/
def runWrites (mtu cap : Nat) : List Write → List Bytes → Bytes → Except Panic (List Bytes × Bytes)
  | [], out, cur => .ok (out, cur)
  | .makeSpace space :: rest, out, cur =>
    if cur.length + space > mtu then runWrites mtu cap rest (out ++ [cur]) []
    else runWrites mtu cap rest out cur
  | .bytes bts :: rest, out, cur =>
    if cur.length + bts.length > cap then .error .sliceBounds
    else runWrites mtu cap rest out (cur ++ bts)

def flushBuffer (out : List Bytes) (cur : Bytes) : List Bytes :=
  if cur.length > 0 then out ++ [cur] else out

def wndUnused (e : Endpoint) : UInt16 :=
  if e.rcvQueue.length < e.rcvWnd.toNat then
    UInt16.ofNat (e.rcvWnd.toNat - e.rcvQueue.length)
  else 0

/-- The head of what `flush` sends on its own account. -/
def ackHead (e : Endpoint) : Head where
  conv := e.conv
  cmd := 82
  wnd := e.wndUnused
  una := e.rcvNxt

/-- The acknowledgements. One for a segment that was taken to the queue long ago is left out,
unless it is the last of the list. -/
def ackWrites (head : Head) (rcvNxt : UInt32) : List AckItem → List Write
  | [] => []
  | ack :: rest =>
    .makeSpace overhead ::
      ((if itimediff ack.sn rcvNxt ≥ 0 ∨ rest = [] then
        [.bytes (encode { head with sn := ack.sn, ts := ack.ts } 0)] else []) ++
      ackWrites head rcvNxt rest)

/-- The head as the acknowledgements leave it: with the number and the time of the last one. -/
def lastHead (head : Head) (acks : List AckItem) : Head :=
  match acks.getLast? with
  | none => head
  | some ack => { head with sn := ack.sn, ts := ack.ts }

/-- The probing of a window that is closed. -/
def probeWindow (e : Endpoint) (now : UInt32) : Endpoint :=
  if e.rmtWnd = 0 then
    if e.probeWait = 0 then { e with probeWait := 500, tsProbe := now + 500 }
    else if itimediff now e.tsProbe ≥ 0 then
      let wait := if e.probeWait < 500 then 500 else e.probeWait
      let wait := wait + wait / 2
      let wait := if wait > 120000 then 120000 else wait
      { e with probeWait := wait, tsProbe := now + wait, askSend := true }
    else e
  else { e with tsProbe := 0, probeWait := 0 }

/-- The window probes that are to be sent. -/
def probeWrites (e : Endpoint) (head : Head) : List Write :=
  (if e.askSend then [.makeSpace overhead, .bytes (encode { head with cmd := 83 } 0)] else []) ++
  (if e.askTell then [.makeSpace overhead, .bytes (encode { head with cmd := 84 } 0)] else [])

/-- The window of `flush`. -/
def sendWindow (e : Endpoint) : UInt32 :=
  if e.nocwnd = 0 then imin e.cwnd (imin e.sndWnd e.rmtWnd) else imin e.sndWnd e.rmtWnd

/-- The loop that numbers segments as long as the window admits it: the new flights, the next
number and what is left of the queue. -/
def slide (limit : UInt32) : UInt32 → List Segment → List Flight × UInt32 × List Segment
  | nxt, [] => ([], nxt, [])
  | nxt, seg :: queue =>
    if itimediff nxt limit ≥ 0 then ([], nxt, seg :: queue)
    else
      let (flights, nxt', rest) := slide limit (nxt + 1) queue
      (Flight.new seg nxt :: flights, nxt', rest)

/-- What the loop over `snd_buf` carries along. -/
structure Pass where
  current : UInt32
  nextUpdate : UInt32
  change : Nat := 0
  lostSegs : Nat := 0
  state : UInt32
  deriving DecidableEq

/-- The segment as it is prepared for being sent, or none, and what is counted. -/
def prepare (e : Endpoint) (resent : UInt32) (newSegs : Bool) (pass : Pass) (seg : Flight) :
    Option Flight × Pass :=
  if seg.xmit = 0 then
    (some { seg with rto := e.rxRto, resendts := pass.current + e.rxRto }, pass)
  else if seg.fastack ≥ resent ∧ seg.fastack ≠ 0xFFFFFFFF then
    (some { seg with fastack := 0xFFFFFFFF, rto := e.rxRto, resendts := pass.current + e.rxRto },
      { pass with change := pass.change + 1 })
  else if seg.fastack > 0 ∧ seg.fastack ≠ 0xFFFFFFFF ∧ newSegs = false then
    (some { seg with fastack := 0xFFFFFFFF, rto := e.rxRto, resendts := pass.current + e.rxRto },
      { pass with change := pass.change + 1 })
  else if itimediff pass.current seg.resendts ≥ 0 then
    let rto := seg.rto + (if e.nodelay = 0 then e.rxRto else e.rxRto / 2)
    (some { seg with rto := rto, fastack := 0, resendts := pass.current + rto },
      { pass with lostSegs := pass.lostSegs + 1 })
  else (none, pass)

def pushHead (head : Head) (seg : Flight) : Head :=
  { head with cmd := 81, frg := seg.frg, ts := seg.ts, sn := seg.sn }

/-- The nearest time at which a segment is due. -/
def Pass.due (pass : Pass) (seg : Flight) : Pass :=
  let rto := itimediff seg.resendts pass.current
  if rto > 0 ∧ rto.toUInt32 < pass.nextUpdate then { pass with nextUpdate := rto.toUInt32 }
  else pass

/-- One round of the loop over `snd_buf`; `now` is the reading if the segment is sent. -/
def resendSeg (e : Endpoint) (head : Head) (resent : UInt32) (newSegs : Bool) (now : UInt32)
    (pass : Pass) (seg : Flight) : Flight × List Write × Pass :=
  if seg.acked then (seg, [], pass)
  else
    match prepare e resent newSegs pass seg with
    | (none, pass) => (seg, [], pass.due seg)
    | (some seg, pass) =>
      let seg := { seg with
        xmit := seg.xmit + 1, ts := now, wnd := head.wnd, una := head.una }
      let pass := { pass with
        current := now
        state := if seg.xmit ≥ e.deadLink then 0xFFFFFFFF else pass.state }
      (seg,
        [.makeSpace (overhead + seg.data.bts.length),
          .bytes (encode (pushHead head seg) seg.data.bts.length ++ seg.data.bts)],
        pass.due seg)

/-- The loop over `snd_buf`. -/
def resendAll (e : Endpoint) (head : Head) (resent : UInt32) (newSegs : Bool)
    (clock : Nat → UInt32) : Nat → Pass → List Flight → List Flight × List Write × Pass
  | _, pass, [] => ([], [], pass)
  | i, pass, seg :: rest =>
    let (seg, writes, pass) := resendSeg e head resent newSegs (clock i) pass seg
    let (rest, writes', pass) := resendAll e head resent newSegs clock (i + 1) pass rest
    (seg :: rest, writes ++ writes', pass)

/-- The congestion window after a pass; `window` is the one this pass has used. -/
def shrinkCwnd (e : Endpoint) (window resent : UInt32) (pass : Pass) : Endpoint :=
  if e.nocwnd = 0 then
    let e := if pass.change > 0 then
        let ssthresh := imax ((e.sndNxt - e.sndUna) / 2) 2
        { e with
          ssthresh := ssthresh
          cwnd := ssthresh + resent
          incr := (ssthresh + resent) * e.mss }
      else e
    let e := if pass.lostSegs > 0 then
        { e with ssthresh := imax (window / 2) 2, cwnd := 1, incr := e.mss }
      else e
    if e.cwnd < 1 then { e with cwnd := 1, incr := e.mss } else e
  else e

/-- The number of skips that makes a segment sent again. -/
def resent (e : Endpoint) : UInt32 := if e.fastresend ≤ 0 then 0xFFFFFFFF else e.fastresend.toUInt32

/-- The state with the probes that are to be sent. -/
def asking (e : Endpoint) (now : UInt32) : Endpoint := { e with acklist := [] }.probeWindow now

/-- The state after the acknowledgements and the probes were taken from it. -/
def probed (e : Endpoint) (now : UInt32) : Endpoint :=
  { e.asking now with askSend := false, askTell := false }

/-- The state after new segments were numbered. -/
def slid (e : Endpoint) : Endpoint :=
  let (flights, nxt, queue) := slide (e.sndUna + e.sendWindow) e.sndNxt e.sndQueue
  { e with sndBuf := e.sndBuf ++ flights, sndNxt := nxt, sndQueue := queue }

/-- The loop over `snd_buf`, if it is made; `before` is the state `flush` was called in. -/
def passed (e before : Endpoint) (full : Bool) (clock : Nat → UInt32) :
    List Flight × List Write × Pass :=
  let pass : Pass := { current := clock 1, nextUpdate := before.interval, state := before.state }
  if full then
    resendAll e (lastHead before.ackHead before.acklist) e.resent
      (decide (e.sndBuf.length ≠ before.sndBuf.length)) clock 2 pass e.sndBuf
  else (e.sndBuf, [], pass)

/-- What `flush` writes and what it does to the state, with the value it returns.  Of the
clock, reading 0 is for the probe, reading 1 is taken before the loop over `snd_buf`, and
reading `i + 2` when the segment at position `i` is sent. -/
def flushPlan (e : Endpoint) (full : Bool) (clock : Nat → UInt32) :
    UInt32 × List Write × Endpoint :=
  let numbered := (e.probed (clock 0)).slid
  let (sndBuf, writes, pass) := numbered.passed e full clock
  (pass.nextUpdate,
    ackWrites e.ackHead e.rcvNxt e.acklist ++
      ((e.asking (clock 0)).probeWrites (lastHead e.ackHead e.acklist) ++ writes),
    { numbered with sndBuf := sndBuf, state := pass.state }.shrinkCwnd
      (e.probed (clock 0)).sendWindow numbered.resent pass)

/-- `flush`: its result, the datagrams it puts out and the state it leaves behind. -/
def flush (e : Endpoint) (full : Bool) (clock : Nat → UInt32) :
    Except Panic (UInt32 × List Bytes × Endpoint) := do
  let (nextUpdate, writes, e') := e.flushPlan full clock
  let (out, cur) ← runWrites e.mtu.toNat e.bufferLen writes [] []
  .ok (nextUpdate, flushBuffer out cur, e')

/-- `Update`; `now` is its own reading of the clock. -/
def update (e : Endpoint) (now : UInt32) (clock : Nat → UInt32) :
    Except Panic (List Bytes × Endpoint) :=
  let e := if e.updated = 0 then { e with updated := 1, tsFlush := now } else e
  let slap := itimediff now e.tsFlush
  let (e, slap) :=
    if slap ≥ 10000 ∨ slap < -10000 then ({ e with tsFlush := now }, 0) else (e, slap)
  if slap ≥ 0 then do
    let tsFlush := e.tsFlush + e.interval
    let e := { e with
      tsFlush := if itimediff now tsFlush ≥ 0 then now + e.interval else tsFlush }
    let (_, out, e) ← e.flush true clock
    .ok (out, e)
  else .ok ([], e)

/-! ## `Input` -/

/-- What the loop of `Input` carries along. -/
structure Arrival where
  latest : UInt32 := 0
  updateRTT : Bool := false
  flushSegments : Bool := false
  deriving DecidableEq

/-- What every segment of a datagram says: the window of the peer, and what it has received in
sequence. The number is that of the segments removed. -/
def hear (regular : Bool) (e : Endpoint) (head : Head) : Endpoint × Nat :=
  let (e, count) := (if regular then { e with rmtWnd := head.wnd.toUInt32 } else e).parseUna
    head.una
  (e.shrinkBuf, count)

/-- What a segment says by its command. -/
def obey (e : Endpoint) (acc : Arrival) (head : Head) (data : Bytes) :
    Except Panic (Endpoint × Arrival) :=
  if head.cmd = 82 then
    let (e, should) := (e.parseAck head.sn).parseFastack head.sn head.ts
    .ok (e, { latest := head.ts, updateRTT := true, flushSegments := acc.flushSegments || should })
  else if head.cmd = 81 then
    if itimediff head.sn (e.rcvNxt + e.rcvWnd) < 0 then
      if itimediff head.sn e.rcvNxt ≥ 0 then do
        let kcp ← e.base.parseData head.frg head.sn data
        .ok ((e.ackPush head.sn head.ts).withBase kcp, acc)
      else .ok (e.ackPush head.sn head.ts, acc)
    else .ok (e, acc)
  else if head.cmd = 83 then .ok ({ e with askTell := true }, acc)
  else .ok (e, acc)

def receive (regular : Bool) (e : Endpoint) (acc : Arrival) (head : Head) (data : Bytes) :
    Except Panic (Endpoint × Arrival) :=
  let (e, count) := hear regular e head
  obey e (if count > 0 then { acc with flushSegments := true } else acc) head data

/-- The congestion window after a datagram; `before` is the old `snd_una`. -/
def growCwnd (e : Endpoint) (before : UInt32) : Except Panic Endpoint :=
  if e.nocwnd = 0 ∧ itimediff e.sndUna before > 0 ∧ e.cwnd < e.rmtWnd then do
    let mss := e.mss
    let e ← if e.cwnd < e.ssthresh then
        .ok { e with cwnd := e.cwnd + 1, incr := e.incr + mss }
      else
        let incr := if e.incr < mss then mss else e.incr
        if incr = 0 then .error .divideByZero
        else
          let incr := incr + ((mss * mss) / incr + mss / 16)
          let cwnd := if (e.cwnd + 1) * mss ≤ incr then
              (if mss > 0 then (incr + mss - 1) / mss else incr + mss - 1)
            else e.cwnd
          .ok { e with cwnd := cwnd, incr := incr }
    .ok (if e.cwnd > e.rmtWnd then { e with cwnd := e.rmtWnd, incr := e.rmtWnd * mss } else e)
  else .ok e

/-- The end of `Input`: what is flushed. -/
def respond (e : Endpoint) (flushSegments ackNoDelay : Bool) (clock : Nat → UInt32) :
    Except Panic (List Bytes × Endpoint) :=
  if flushSegments then do
    let (_, out, e) ← e.flush true clock
    .ok (out, e)
  else if e.acklist.length ≥ (e.mtu / 24).toNat ∨ (ackNoDelay ∧ 0 < e.acklist.length) then do
    let (_, out, e) ← e.flush false clock
    .ok (out, e)
  else .ok ([], e)

/-- `Input`: its result, the datagrams that are put out in return and the state; `now` is its
own reading of the clock. -/
def input (e : Endpoint) (data : Bytes) (regular ackNoDelay : Bool) (now : UInt32)
    (clock : Nat → UInt32) : Except Panic (Int × List Bytes × Endpoint) :=
  if data.length < overhead then .ok (-1, [], e)
  else do
    let (code, e', acc) ← inputLoop e.conv (fun head bts s => receive regular s.1 s.2 head bts)
      data.length (e, {}) data
    if code < 0 then .ok (code, [], e')
    else do
      let e' := if acc.updateRTT ∧ regular ∧ itimediff now acc.latest ≥ 0 then
          e'.updateAck (itimediff now acc.latest)
        else e'
      let e' ← e'.growCwnd e.sndUna
      let (out, e') ← e'.respond acc.flushSegments ackNoDelay clock
      .ok (0, out, e')

end Endpoint

end Gokit.Kcp
