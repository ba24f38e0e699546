/-
# The KCP state machine, as a session uses it

A `KCP` cuts what is sent into segments of at most `mss` bytes, and puts what is received in
order again.  Segments that came in too early wait in the heap `rcv_buf`; those in sequence go
to `rcv_queue`, from which `Recv` takes a message, that is, all segments up to the one with
`frg` zero.  All segments keep their bytes in buffers of one pool, which have a fixed
capacity.

Modelled are the functions that a session calls in its own right, with the queues, the windows
and the sizes they read.  Of `Input` it is the part that receives: acknowledgements, round
trip times and the congestion window concern the sending side only, and so does `flush`.  The
heap is the list of its segments in the order in which `heap.Pop` returns them.
-/

import Gokit.Math.Bytes

namespace Gokit.Kcp

open Gokit.Math

/-! ## Buffers -/

/-- What brings a goroutine down. -/
inductive Panic
  /-- a slice is extended beyond its capacity -/
  | sliceBounds
  | divideByZero
  /-- `make` with a length that is negative or too large -/
  | makeSlice
  deriving DecidableEq, Repr

/-- `mtuLimit`, the capacity of the buffers of `defaultBufferPool`. -/
def mtuLimit : Nat := 1500

/-- A buffer of the pool, sliced to the bytes that were written to it. -/
structure Buffer where
  bts : Bytes
  fits : bts.length ≤ mtuLimit
  deriving DecidableEq

namespace Buffer

/-- `defaultBufferPool.Get()[:len(bts)]`, to which `bts` is copied. -/
def get (bts : Bytes) : Except Panic Buffer :=
  if hfits : bts.length ≤ mtuLimit then .ok ⟨bts, hfits⟩ else .error .sliceBounds

/-- `data = data[:len(data)+len(bts)]`, with `bts` copied behind the old bytes. -/
def grow (buffer : Buffer) (bts : Bytes) : Except Panic Buffer := get (buffer.bts ++ bts)

theorem get_of_le {bts : Bytes} (hfits : bts.length ≤ mtuLimit) :
    ∃ buffer, get bts = .ok buffer ∧ buffer.bts = bts :=
  ⟨⟨bts, hfits⟩, dif_pos hfits, rfl⟩

theorem get_bts (buffer : Buffer) : get buffer.bts = .ok buffer := dif_pos buffer.fits

theorem get_of_lt {bts : Bytes} (hlong : mtuLimit < bts.length) : get bts = .error .sliceBounds :=
  dif_neg (Nat.not_le_of_lt hlong)

end Buffer

/-- `segment`, with what `PeekSize`, `Recv` and `Send` look at. -/
structure Segment where
  frg : UInt8 := 0
  sn : UInt32 := 0
  data : Buffer
  deriving DecidableEq

/-! ## Heads -/

/-- `IKCP_OVERHEAD`, the size of the head of a segment. -/
def overhead : Nat := 24

/-- The fields of a segment that `encode` writes, without the length. -/
structure Head where
  conv : UInt32
  cmd : UInt8
  frg : UInt8 := 0
  wnd : UInt16
  ts : UInt32 := 0
  sn : UInt32 := 0
  una : UInt32
  deriving DecidableEq, Repr

/-- `encode`, for data of a given length. -/
def encode (head : Head) (length : Nat) : Bytes :=
  putLittleEndian 4 head.conv.toNat ++ (head.cmd :: head.frg ::
    (putLittleEndian 2 head.wnd.toNat ++ (putLittleEndian 4 head.ts.toNat ++
    (putLittleEndian 4 head.sn.toNat ++ (putLittleEndian 4 head.una.toNat ++
    putLittleEndian 4 length)))))

def field (data : Bytes) (offset size : Nat) : Nat := littleEndian ((data.drop offset).take size)

/-- The head that `Input` reads, and the length of the data behind it. -/
def decode (data : Bytes) : Head × Nat :=
  ({ conv := UInt32.ofNat (field data 0 4)
     cmd := UInt8.ofNat (field data 4 1)
     frg := UInt8.ofNat (field data 5 1)
     wnd := UInt16.ofNat (field data 6 2)
     ts := UInt32.ofNat (field data 8 4)
     sn := UInt32.ofNat (field data 12 4)
     una := UInt32.ofNat (field data 16 4) }, field data 20 4)

/-- The loop of `Input`, for as many rounds as are granted; `receive` is what is done with a
segment. -/
def inputLoop {σ : Type} (conv : UInt32) (receive : Head → Bytes → σ → Except Panic σ) :
    Nat → σ → Bytes → Except Panic (Int × σ)
  | 0, s, _ => .ok (0, s)
  | rounds + 1, s, data =>
    if data.length < overhead then .ok (0, s)
    else
      let (head, length) := decode data
      let rest := data.drop overhead
      if head.conv ≠ conv then .ok (-1, s)
      else if rest.length < length then .ok (-2, s)
      else if head.cmd ≠ 81 ∧ head.cmd ≠ 82 ∧ head.cmd ≠ 83 ∧ head.cmd ≠ 84 then .ok (-3, s)
      else do
        let s ← receive head (rest.take length) s
        inputLoop conv receive rounds s (rest.drop length)

section Fields

variable {data : Bytes}

theorem field_append {offset size n : Nat} (front back : Bytes)
    (hdata : data = front ++ (putLittleEndian size n ++ back)) (hfront : front.length = offset)
    (hfits : n < 256 ^ size) : field data offset size = n := by
  rw [field, hdata, List.drop_left' hfront, List.take_left' (length_putLittleEndian size n),
    littleEndian_putLittleEndian hfits]

theorem field_byte {offset : Nat} {b : UInt8} (front back : Bytes)
    (hdata : data = front ++ b :: back) (hfront : front.length = offset) :
    field data offset 1 = b.toNat := by
  rw [field, hdata, List.drop_left' hfront]
  simp [littleEndian, bigEndian]

end Fields

/-! ## The state machine -/

/-- `KCP`, with the fields of its queues, windows and sizes. -/
structure KCP where
  conv : UInt32
  mtu : UInt32
  mss : UInt32
  /-- `state > 0` -/
  dead : Bool := false
  rcvNxt : UInt32 := 0
  sndWnd : UInt32
  rcvWnd : UInt32
  stream : Bool := false
  sndQueue : List Segment := []
  rcvQueue : List Segment := []
  sndBuf : List Segment := []
  rcvBuf : List Segment := []
  deriving DecidableEq

def uint32 (n : Int64) : UInt32 := n.toUInt64.toUInt32

def itimediff (later earlier : UInt32) : Int32 := (later - earlier).toInt32

namespace KCP

def newKCP (conv : UInt32) : KCP where
  conv := conv
  sndWnd := 32
  rcvWnd := 32
  mtu := 1400
  mss := 1400 - 24

/-- `SetMtu`; `alloc` says for which lengths `make` finds the memory. -/
def setMtu (alloc : Int64 → Bool) (kcp : KCP) (mtu : Int64) : Except Panic (Int × KCP) :=
  if mtu < 50 ∨ mtu < 24 then .ok (-1, kcp)
  else if alloc ((mtu + 24) * 3) then
    .ok (0, { kcp with mtu := uint32 mtu, mss := uint32 mtu - 24 })
  else .error .makeSlice

def wndSize (kcp : KCP) (sndwnd rcvwnd : Int64) : KCP :=
  { kcp with
    sndWnd := if 0 < sndwnd then uint32 sndwnd else kcp.sndWnd
    rcvWnd := if 0 < rcvwnd then uint32 rcvwnd else kcp.rcvWnd }

def waitSnd (kcp : KCP) : Nat := kcp.sndBuf.length + kcp.sndQueue.length

/-! ## Receiving -/

/-- What `Recv` pops: the segments up to the first one with `frg` zero, and the rest. -/
def popMessage : List Segment → List Segment × List Segment
  | [] => ([], [])
  | seg :: rest =>
    if seg.frg = 0 then ([seg], rest)
    else (seg :: (popMessage rest).1, (popMessage rest).2)

def content (segs : List Segment) : Bytes := segs.flatMap fun seg => seg.data.bts

/-- `PeekSize`. The sum `frg + 1` is one of 8 bits. -/
def peekSize (kcp : KCP) : Int :=
  match kcp.rcvQueue with
  | [] => -1
  | seg :: _ =>
    if seg.frg = 0 then seg.data.bts.length
    else if kcp.rcvQueue.length < (seg.frg + 1).toNat then -1
    else (content (popMessage kcp.rcvQueue).1).length

/-- The loop that moves segments in sequence from `rcv_buf` to `rcv_queue`, as long as this has
room. The segment that does not fit is pushed back, and is the next one to be popped again. -/
def moveAvailable (wnd : Nat) :
    List Segment → UInt32 → List Segment → List Segment × UInt32 × List Segment
  | queue, nxt, [] => (queue, nxt, [])
  | queue, nxt, seg :: buf =>
    if seg.sn = nxt ∧ queue.length < wnd then moveAvailable wnd (queue ++ [seg]) (nxt + 1) buf
    else (queue, nxt, seg :: buf)

/-- This loop, on the queues of a `KCP`. -/
def moveAll (kcp : KCP) : KCP :=
  let moved := moveAvailable kcp.rcvWnd.toNat kcp.rcvQueue kcp.rcvNxt kcp.rcvBuf
  { kcp with rcvQueue := moved.1, rcvNxt := moved.2.1, rcvBuf := moved.2.2 }

/-- `Recv` into a slice of a given length: its result, and the bytes that were copied. -/
def recv (kcp : KCP) (len : Nat) : Int × Bytes × KCP :=
  if kcp.peekSize < 0 then (-1, [], kcp)
  else if kcp.peekSize > len then (-2, [], kcp)
  else
    let message := content (popMessage kcp.rcvQueue).1
    (message.length, message, { kcp with rcvQueue := (popMessage kcp.rcvQueue).2 }.moveAll)

/-- `heap.Push`: behind the segments that are `Less`. -/
def heapPush (seg : Segment) : List Segment → List Segment
  | [] => [seg]
  | other :: rest =>
    if itimediff other.sn seg.sn > 0 then seg :: other :: rest
    else other :: heapPush seg rest

def parseData (kcp : KCP) (frg : UInt8) (sn : UInt32) (bts : Bytes) : Except Panic KCP :=
  if itimediff sn (kcp.rcvNxt + kcp.rcvWnd) ≥ 0 ∨ itimediff sn kcp.rcvNxt < 0 then .ok kcp
  else if kcp.rcvBuf.any (fun seg => seg.sn = sn) then .ok kcp.moveAll
  else do
    let data ← Buffer.get bts
    .ok { kcp with rcvBuf := heapPush { frg := frg, sn := sn, data := data } kcp.rcvBuf }.moveAll

/-- A segment on the wire, as `flush` writes it. -/
def wire (conv : UInt32) (wnd : UInt16) (ts una : UInt32) (seg : Segment) : Bytes :=
  encode { conv, cmd := 81, frg := seg.frg, wnd, ts, sn := seg.sn, una } seg.data.bts.length ++
    seg.data.bts

def datagram (conv : UInt32) (wnd : UInt16) (ts una : UInt32) (segs : List Segment) : Bytes :=
  segs.flatMap (wire conv wnd ts una)

/-- What is received of a segment. -/
def receive (head : Head) (data : Bytes) (kcp : KCP) : Except Panic KCP :=
  if head.cmd = 81 ∧ itimediff head.sn (kcp.rcvNxt + kcp.rcvWnd) < 0 ∧
      itimediff head.sn kcp.rcvNxt ≥ 0 then
    kcp.parseData head.frg head.sn data
  else .ok kcp

/-- `Input`. A round takes at least a head off the data. -/
def input (kcp : KCP) (data : Bytes) : Except Panic (Int × KCP) :=
  if data.length < overhead then .ok (-1, kcp)
  else inputLoop kcp.conv receive data.length kcp data

/-! ## Sending -/

/-- The first part of `Send`, in stream mode: the last segment that is queued is filled up. -/
def fillLast (kcp : KCP) (buffer : Bytes) : Except Panic (Bytes × KCP) :=
  match kcp.sndQueue.reverse with
  | [] => .ok (buffer, kcp)
  | seg :: before =>
    if seg.data.bts.length < kcp.mss.toNat then do
      let extend := min buffer.length (kcp.mss.toNat - seg.data.bts.length)
      let data ← seg.data.grow (buffer.take extend)
      .ok (buffer.drop extend,
        { kcp with sndQueue := ({ seg with data := data } :: before).reverse })
    else .ok (buffer, kcp)

/-- The loop of `Send`: `count` segments are cut off the buffer. -/
def cut (mss : Nat) (stream : Bool) : Nat → Bytes → Except Panic (List Segment)
  | 0, _ => .ok []
  | count + 1, buffer => do
    let data ← Buffer.get (buffer.take (min buffer.length mss))
    let rest ← cut mss stream count (buffer.drop (min buffer.length mss))
    .ok ({ frg := if stream then 0 else UInt8.ofNat count, data := data } :: rest)

/-- How many segments of `mss` bytes a buffer makes. -/
def fragments (mss length : Nat) : Nat := (length + mss - 1) / mss

/-- `snd_queue.Push`, for some segments. -/
def enqueue (kcp : KCP) (segs : List Segment) : KCP := { kcp with sndQueue := kcp.sndQueue ++ segs }

/-- The second part of `Send`. -/
def push (kcp : KCP) (buffer : Bytes) : Except Panic (Int × KCP) :=
  if kcp.mss.toNat < buffer.length ∧ kcp.mss = 0 then .error .divideByZero
  else
    let count := if buffer.length ≤ kcp.mss.toNat then 1
      else fragments kcp.mss.toNat buffer.length
    if count > 255 then .ok (-2, kcp)
    else do
      let segs ← cut kcp.mss.toNat kcp.stream (if count = 0 then 1 else count) buffer
      .ok (0, kcp.enqueue segs)

def send (kcp : KCP) (buffer : Bytes) : Except Panic (Int × KCP) :=
  if buffer.length = 0 then .ok (-1, kcp)
  else if kcp.stream then do
    let filled ← kcp.fillLast buffer
    if filled.1.length = 0 then .ok (0, filled.2) else filled.2.push filled.1
  else kcp.push buffer

end KCP

end Gokit.Kcp
