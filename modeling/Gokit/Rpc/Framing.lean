/-
# The byte streams between client and server

Requests and responses are written to the connection with their length in front, and read
in two steps.  Both readers are instances of the receiver of a byte stream.  They differ in
what they do when a read times out: `onMsg` closes the connection, `onRecvMsg` returns and
is invoked again.  So the server never takes a byte of a body for one of a length; the
client does, when the read of a body times out.

Requests are written by many callers.  Each holds `wmtx` while it appends its buffer and
flushes it, so the requests arrive in the order of these critical sections.  That writes
succeed is assumed here: a call whose write fails, or that finds the connection closed,
takes no part.
-/

import Gokit.Math.Framing
import Gokit.Rpc.Request

namespace Gokit.Rpc

open Gokit.Math

/-- A protobuf codec, as a stream uses it. -/
def wireFormat {M : Type} (marshalAppend : M → Except GoError Bytes)
    (unmarshal : Bytes → Except GoError M) : Format M where
  encode msg := (marshalAppend msg).toOption.getD []
  decode data := (unmarshal data).toOption

section Codec

variable {M : Type} {marshalAppend : M → Except GoError Bytes}
  {unmarshal : Bytes → Except GoError M} {msg : M} {data : Bytes}

theorem encode_wireFormat (hmarshal : marshalAppend msg = .ok data) :
    (wireFormat marshalAppend unmarshal).encode msg = data := by
  show (marshalAppend msg).toOption.getD [] = data
  rw [hmarshal]
  rfl

theorem fits_wireFormat (hmarshal : marshalAppend msg = .ok data) (hshort : data.length < 2 ^ 32)
    (hunmarshal : unmarshal data = .ok msg) :
    (wireFormat marshalAppend unmarshal).Fits msgLenSize msg := by
  have hencode : (wireFormat marshalAppend unmarshal).encode msg = data :=
    encode_wireFormat hmarshal
  constructor
  · show (unmarshal ((wireFormat marshalAppend unmarshal).encode msg)).toOption = some msg
    rw [hencode, hunmarshal]
    rfl
  · rw [hencode]
    exact hshort

end Codec

/-! ## Responses -/

def WireFormat.format (pb : WireFormat) : Format RpcResponseMessage :=
  wireFormat pb.marshalAppend pb.unmarshal

theorem WireFormat.RoundTrips.fits {pb : WireFormat} {rsp : RpcResponseMessage}
    (h : pb.RoundTrips rsp) : pb.format.Fits msgLenSize rsp := by
  obtain ⟨data, hmarshal, -, hshort, hunmarshal⟩ := h
  exact fits_wireFormat hmarshal hshort hunmarshal

/-- What `SerializeResponse` hands to the writer is the response with its length. -/
theorem serializeResponse_eq_framed {M : Type} {pb : WireFormat} {codec : PayloadCodec M}
    {rc : RpcContext M} {buffer : Bytes} (h : rc.serializeResponse pb codec = some buffer) :
    buffer = framed msgLenSize (pb.format.encode (rc.response codec)) := by
  unfold RpcContext.serializeResponse at h
  split at h
  · cases h
  split at h
  · cases h
  cases hmarshal : pb.marshalAppend (rc.response codec) with
  | error err =>
    rw [hmarshal] at h
    cases h
  | ok data =>
    rw [hmarshal] at h
    simp only [Option.ite_none_right_eq_some, Option.some.injEq] at h
    rw [← h.2, WireFormat.format, encode_wireFormat hmarshal]
    rfl

/-- The responses on their way to `onRecvMsg`, which leaves the connection open. -/
def clientStream (pb : WireFormat) :
    System (Stream RpcResponseMessage) (Stream.Action RpcResponseMessage) :=
  Stream.system pb.format msgLenSize false

instance (pb : WireFormat) (s : Stream RpcResponseMessage)
    (a : Stream.Action RpcResponseMessage) : Decidable ((clientStream pb).Enabled s a) :=
  inferInstanceAs (Decidable ((Stream.system pb.format msgLenSize false).Enabled s a))

/-- The responses can be encoded and decoded, and no read times out between the length and
the body of a response. -/
def BodyArrives (pb : WireFormat) (s : Stream RpcResponseMessage) :
    Stream.Action RpcResponseMessage → Prop
  | .send rsp => pb.RoundTrips rsp
  | .timeout => ∀ size, s.phase ≠ .body size
  | _ => True

theorem BodyArrives.careful {pb : WireFormat} {s : Stream RpcResponseMessage}
    {a : Stream.Action RpcResponseMessage} (h : BodyArrives pb s a) :
    Stream.Careful pb.format msgLenSize false s a := by
  cases a with
  | send rsp => exact WireFormat.RoundTrips.fits h
  | timeout => exact .inr h
  | _ => trivial

/-- **`onRecvMsg` starts at the length of a response**, as long as no read of a body times
out; and the responses it decodes are the first of those sent, in order. -/
theorem onRecvMsg_aligned (pb : WireFormat) {s : Stream RpcResponseMessage}
    (hrun : (clientStream pb).Run (BodyArrives pb) s) :
    (s.isOpen = true → (∀ size, s.phase ≠ .body size) → s.AtBoundary pb.format msgLenSize) ∧
      s.received <+: s.sent := by
  have haligned : s.Aligned pb.format msgLenSize :=
    Stream.run_aligned (by decide) (hrun.mono fun _ _ => BodyArrives.careful)
  exact ⟨haligned.atBoundary, haligned.received_le_sent⟩

/-- A response whose payload looks like a response with the payload `[9]`. -/
def nestedResponse : RpcResponseMessage := { payload := [0, 0, 3, 0, 0, 0, 42, 1, 9] }

theorem roundTrips_nestedResponse : WireFormat.proto.RoundTrips nestedResponse :=
  ⟨_, rfl, rfl, by decide +kernel, rfl⟩

/-- The read of a length times out, and the next invocation still starts at the length. -/
theorem onRecvMsg_aligned_retry :
    ∃ s, (clientStream .proto).Run (BodyArrives .proto) s ∧ s.isOpen = true ∧
      s.phase = .header ∧ s.AtBoundary WireFormat.proto.format msgLenSize := by
  let actions : List (Stream.Action RpcResponseMessage) :=
    [.send nestedResponse, .arrive 3, .invoke, .timeout, .arrive 1, .invoke]
  have hrun : (clientStream .proto).Run (BodyArrives .proto)
      ((clientStream .proto).after actions {}) := by
    apply System.Run.of_admits .start
    exact ⟨trivial, roundTrips_nestedResponse, by decide +kernel, trivial, by decide +kernel,
      trivial, by decide +kernel, nofun, by decide +kernel, trivial, by decide +kernel, trivial,
      trivial⟩
  exact ⟨_, hrun, rfl, rfl, (onRecvMsg_aligned .proto hrun).1 rfl nofun⟩

/-- The read of a body times out, and the next invocation takes its first bytes for a length.
So does the one after it, and it decodes a response that was never sent. -/
theorem onRecvMsg_misaligned :
    ∃ s t, (clientStream .proto).Run (fun _ _ => True) s ∧ s.isOpen = true ∧
      s.phase = .header ∧ ¬ s.AtBoundary WireFormat.proto.format msgLenSize ∧
      (clientStream .proto).Run (fun _ _ => True) t ∧
      t.sent = [nestedResponse] ∧ t.received.map (·.payload) = [[9]] := by
  let actions : List (Stream.Action RpcResponseMessage) :=
    [.send nestedResponse, .arrive 4, .invoke, .readHeader, .timeout, .arrive 11, .invoke,
      .readHeader, .timeout, .invoke]
  have hs : (clientStream .proto).Run (fun _ _ => True)
      ((clientStream .proto).after actions {}) :=
    System.Run.start.of_admits (by decide +kernel)
  have ht : (clientStream .proto).Run (fun _ _ => True)
      ((clientStream .proto).after [.readHeader, .readBody]
        ((clientStream .proto).after actions {})) :=
    hs.of_admits (by decide +kernel)
  have hboundary : ¬ ((clientStream .proto).after actions {}).AtBoundary
      WireFormat.proto.format msgLenSize := by
    rintro ⟨rest, hsent, -, hbytes⟩
    -- nothing has been received, and all but the length of the response is unread
    have hrest : [nestedResponse] = rest := hsent
    subst hrest
    exact absurd (congrArg List.length hbytes) (by decide +kernel)
  exact ⟨_, _, hs, rfl, rfl, hboundary, ht, rfl, by decide +kernel⟩

/-! ## Requests -/

/-- The protobuf codec of the request messages. -/
structure RequestFormat where
  size : RpcRequestMessage → Nat
  marshalAppend : RpcRequestMessage → Except GoError Bytes
  unmarshal : Bytes → Except GoError RpcRequestMessage

namespace RequestFormat

variable (pb : RequestFormat)

/-- The codec returns the request it was given, and its length fits in the header. -/
def RoundTrips (req : RpcRequestMessage) : Prop :=
  ∃ data, pb.marshalAppend req = .ok data ∧ data.length = pb.size req ∧
    data.length < 2 ^ 32 ∧ pb.unmarshal data = .ok req

def format : Format RpcRequestMessage := wireFormat pb.marshalAppend pb.unmarshal

def encodeRpcReq (req : RpcRequestMessage) : Except GoError Bytes :=
  match pb.marshalAppend req with
  | .error err => .error err
  | .ok data =>
    if data.length ≠ pb.size req then .error (.new "proto.MarshalAppend size is wrong")
    else .ok (frame data)

variable {pb}

theorem RoundTrips.fits {req : RpcRequestMessage} (h : pb.RoundTrips req) :
    pb.format.Fits msgLenSize req := by
  obtain ⟨data, hmarshal, -, hshort, hunmarshal⟩ := h
  exact fits_wireFormat hmarshal hshort hunmarshal

/-- What `encodeRpcReq` returns is the request with its length. -/
theorem eq_framed_of_encodeRpcReq {req : RpcRequestMessage} {buffer : Bytes}
    (h : pb.encodeRpcReq req = .ok buffer) : buffer = framed msgLenSize (pb.format.encode req) := by
  unfold encodeRpcReq at h
  cases hmarshal : pb.marshalAppend req with
  | error err =>
    rw [hmarshal] at h
    cases h
  | ok data =>
    rw [hmarshal] at h
    simp only [ne_eq, ite_not] at h
    split at h
    · cases h
      rw [format, encode_wireFormat hmarshal]
      rfl
    · cases h

end RequestFormat

/-- A request and its buffer, on the way to `syncWrite`. -/
structure Encoded (pb : RequestFormat) where
  req : RpcRequestMessage
  buffer : Bytes
  encoded : pb.encodeRpcReq req = .ok buffer

/-- `wmtx`, and what its holder has done in `syncWrite`. -/
inductive Wmtx (pb : RequestFormat)
  | free
  | held (call : Encoded pb)
  /-- has appended its buffer and is flushing it -/
  | flushing (call : Encoded pb)

/-- The callers of `Invoke` on one connection, and the connection. -/
structure Link (pb : RequestFormat) where
  /-- callers that wait for `wmtx` -/
  ready : List (Encoded pb) := []
  wmtx : Wmtx pb := .free
  /-- appended and not flushed -/
  outBuffer : Bytes := []
  /-- the requests whose critical section is over, in order -/
  completed : List RpcRequestMessage := []
  conn : Stream RpcRequestMessage := {}

namespace Link

variable {pb : RequestFormat}

inductive Action (pb : RequestFormat)
  | encode (call : Encoded pb)
  | lock (i : Nat)
  | append
  /-- some bytes of the buffer are written to the socket -/
  | flush (n : Nat)
  | unlock
  /-- a step of the network or of the server -/
  | conn (a : Stream.Action RpcRequestMessage)

/-- The request of the critical section in progress, once it has been appended. -/
def current (link : Link pb) : List RpcRequestMessage :=
  match link.wmtx with
  | .flushing call => [call.req]
  | _ => []

def lock (link : Link pb) (i : Nat) : Link pb :=
  match link.ready[i]? with
  | some call => { link with wmtx := .held call, ready := link.ready.eraseIdx i }
  | none => link

def append (link : Link pb) : Link pb :=
  match link.wmtx with
  | .held call =>
    { link with
      wmtx := .flushing call
      outBuffer := link.outBuffer ++ call.buffer
      conn := { link.conn with sent := link.conn.sent ++ [call.req] } }
  | _ => link

def flush (link : Link pb) (n : Nat) : Link pb :=
  { link with
    outBuffer := link.outBuffer.drop n
    conn := { link.conn with wire := link.conn.wire ++ link.outBuffer.take n } }

def unlock (link : Link pb) : Link pb :=
  match link.wmtx with
  | .flushing call => { link with wmtx := .free, completed := link.completed ++ [call.req] }
  | _ => link

/-- The steps of the receiving side and of the network between. -/
def Receives : Stream.Action RpcRequestMessage → Prop
  | .send _ => False
  | _ => True

/-- All callers, the network and the server; `onMsg` closes the connection when a read times
out. -/
def system (pb : RequestFormat) : System (Link pb) (Action pb) where
  init := {}
  Enabled link
    | .encode _ => True
    | .lock i => link.wmtx = .free ∧ i < link.ready.length
    | .append => ∃ call, link.wmtx = .held call
    | .flush n => (∃ call, link.wmtx = .flushing call) ∧ n ≤ link.outBuffer.length
    | .unlock => (∃ call, link.wmtx = .flushing call) ∧ link.outBuffer = []
    | .conn a => Receives a ∧ (Stream.system pb.format msgLenSize true).Enabled link.conn a
  next link
    | .encode call => { link with ready := call :: link.ready }
    | .lock i => link.lock i
    | .append => link.append
    | .flush n => link.flush n
    | .unlock => link.unlock
    | .conn a => { link with conn := (Stream.system pb.format msgLenSize true).next link.conn a }

/-- The requests that are written can be encoded and decoded. -/
def Appends (pb : RequestFormat) (link : Link pb) (a : Action pb) : Prop :=
  a = .append → ∀ call, link.wmtx = .held call → pb.RoundTrips call.req

variable {link : Link pb} {call : Encoded pb}

theorem append_of_held (hwmtx : link.wmtx = .held call) :
    link.append = { link with
      wmtx := .flushing call
      outBuffer := link.outBuffer ++ call.buffer
      conn := { link.conn with sent := link.conn.sent ++ [call.req] } } := by
  simp only [append, hwmtx]

theorem unlock_of_flushing (hwmtx : link.wmtx = .flushing call) :
    link.unlock = { link with wmtx := .free, completed := link.completed ++ [call.req] } := by
  simp only [unlock, hwmtx]

/-- A caller that takes the lock changes nothing else. -/
theorem lock_eq (link : Link pb) (i : Nat) :
    (link.lock i).conn = link.conn ∧ (link.lock i).outBuffer = link.outBuffer ∧
      (link.lock i).completed = link.completed := by
  unfold lock
  split
  all_goals exact ⟨rfl, rfl, rfl⟩

/-! ### One stream -/

/-- The connection as one stream: what has not been flushed comes behind the bytes under
way. -/
def stream (link : Link pb) : Stream RpcRequestMessage :=
  { link.conn with wire := link.conn.wire ++ link.outBuffer }

theorem stream_append (hwmtx : link.wmtx = .held call) :
    (Stream.system pb.format msgLenSize true).next link.stream (.send call.req) =
      link.append.stream := by
  have hbuffer := RequestFormat.eq_framed_of_encodeRpcReq call.encoded
  rw [append_of_held hwmtx]
  show ({ link.conn with
      sent := link.conn.sent ++ [call.req]
      wire := link.conn.wire ++ link.outBuffer ++ framed msgLenSize (pb.format.encode call.req) }
    : Stream RpcRequestMessage) = { link.conn with
      sent := link.conn.sent ++ [call.req]
      wire := link.conn.wire ++ (link.outBuffer ++ call.buffer) }
  rw [hbuffer, List.append_assoc]

theorem stream_flush (link : Link pb) (n : Nat) : (link.flush n).stream = link.stream := by
  show ({ link.conn with
      wire := link.conn.wire ++ link.outBuffer.take n ++ link.outBuffer.drop n }
    : Stream RpcRequestMessage) = _
  rw [List.append_assoc, List.take_append_drop]
  rfl

/-- The network and the server do not see what has not been flushed. -/
theorem stream_conn {a : Stream.Action RpcRequestMessage} (ha : Receives a)
    (henabled : (Stream.system pb.format msgLenSize true).Enabled link.conn a) :
    (Stream.system pb.format msgLenSize true).Enabled link.stream a ∧
      (Stream.system pb.format msgLenSize true).next link.stream a =
        ({ link with conn := (Stream.system pb.format msgLenSize true).next link.conn a } :
          Link pb).stream := by
  cases a with
  | send req => exact ha.elim
  | arrive n =>
    obtain ⟨hpos, hn⟩ := henabled
    constructor
    · refine ⟨hpos, Nat.le_trans hn ?_⟩
      show _ ≤ (link.conn.wire ++ link.outBuffer).length
      rw [List.length_append]
      exact Nat.le_add_right ..
    · show ({ link.conn with
          unread := link.conn.unread ++ (link.conn.wire ++ link.outBuffer).take n
          wire := (link.conn.wire ++ link.outBuffer).drop n } : Stream RpcRequestMessage) =
        { link.conn with
          unread := link.conn.unread ++ link.conn.wire.take n
          wire := link.conn.wire.drop n ++ link.outBuffer }
      rw [List.take_append_of_le_length hn, List.drop_append_of_le_length hn]
  | readBody =>
    obtain ⟨size, hphase, henough⟩ := Stream.bodyReady_iff.mp henabled
    have hphase' : link.stream.phase = .body size := hphase
    constructor
    · exact Stream.bodyReady_iff.mpr ⟨size, hphase', henough⟩
    · show link.stream.readBody pb.format =
        ({ link with conn := link.conn.readBody pb.format } : Link pb).stream
      rw [Stream.readBody_of_body _ hphase, Stream.readBody_of_body _ hphase']
      rfl
  | invoke => exact ⟨henabled, rfl⟩
  | readHeader => exact ⟨henabled, rfl⟩
  | timeout => exact ⟨henabled, rfl⟩
  | close => exact ⟨henabled, rfl⟩

/-- The callers write to the stream as one careful sender does. -/
theorem run_stream (hrun : (system pb).Run (Appends pb) link) :
    (Stream.system pb.format msgLenSize true).Run (Stream.Careful pb.format msgLenSize true)
      link.stream := by
  apply hrun.simulation stream rfl
  intro link a henabled happends
  cases a with
  | encode call => exact .inl rfl
  | lock i =>
    obtain ⟨hconn, hbuffer, -⟩ := lock_eq link i
    left
    show (link.lock i).stream = _
    rw [stream, hconn, hbuffer]
    rfl
  | append =>
    obtain ⟨call, hwmtx⟩ := henabled
    exact .inr ⟨.send call.req, trivial, (happends rfl call hwmtx).fits, stream_append hwmtx⟩
  | flush n => exact .inl (stream_flush link n)
  | unlock =>
    obtain ⟨⟨call, hwmtx⟩, -⟩ := henabled
    left
    show link.unlock.stream = _
    rw [unlock_of_flushing hwmtx]
    rfl
  | conn a =>
    obtain ⟨hsees, hnext⟩ := stream_conn henabled.1 henabled.2
    refine .inr ⟨a, hsees, ?_, hnext⟩
    cases a with
    | send req => exact henabled.1.elim
    | timeout => exact .inl rfl
    | _ => trivial

/-! ### The order of the critical sections -/

/-- The stream has the requests in the order of the critical sections, and the buffer of the
connection is empty outside of them. -/
structure Ordered (link : Link pb) : Prop where
  sent : link.conn.sent = link.completed ++ link.current
  flushed : (∀ call, link.wmtx ≠ .flushing call) → link.outBuffer = []

theorem current_of_free (hwmtx : link.wmtx = .free) : link.current = [] := by
  simp only [current, hwmtx]

theorem Ordered.next (h : Ordered link) (a : Action pb) (henabled : (system pb).Enabled link a) :
    Ordered ((system pb).next link a) := by
  cases a with
  | encode call => exact ⟨h.sent, h.flushed⟩
  | lock i =>
    obtain ⟨hwmtx, hi⟩ := henabled
    have hempty : link.outBuffer = [] := h.flushed fun call hcall => nomatch hwmtx.symm.trans hcall
    have hsent := h.sent
    rw [current_of_free hwmtx] at hsent
    show Ordered (link.lock i)
    simp only [lock, List.getElem?_eq_getElem hi]
    exact ⟨hsent, fun _ => hempty⟩
  | append =>
    obtain ⟨call, hwmtx⟩ := henabled
    have hsent := h.sent
    simp only [current, hwmtx, List.append_nil] at hsent
    show Ordered link.append
    rw [append_of_held hwmtx]
    constructor
    · show link.conn.sent ++ [call.req] = link.completed ++ [call.req]
      rw [hsent]
    · exact fun hnone => absurd rfl (hnone call)
  | flush n =>
    obtain ⟨⟨call, hwmtx⟩, -⟩ := henabled
    exact ⟨h.sent, fun hnone => absurd hwmtx (hnone call)⟩
  | unlock =>
    obtain ⟨⟨call, hwmtx⟩, hempty⟩ := henabled
    have hsent := h.sent
    simp only [current, hwmtx] at hsent
    show Ordered link.unlock
    rw [unlock_of_flushing hwmtx]
    constructor
    · show link.conn.sent = link.completed ++ [call.req] ++ []
      rw [List.append_nil, hsent]
    · exact fun _ => hempty
  | conn a =>
    refine ⟨?_, h.flushed⟩
    show ((Stream.system pb.format msgLenSize true).next link.conn a).sent =
      link.completed ++ link.current
    rw [← h.sent]
    cases a with
    | send req => exact henabled.1.elim
    | readBody =>
      obtain ⟨size, hphase, -⟩ := Stream.bodyReady_iff.mp henabled.2
      show (link.conn.readBody pb.format).sent = _
      rw [Stream.readBody_of_body _ hphase]
    | _ => rfl

/-- No caller is in `syncWrite`, no byte is under way, and `onMsg` cannot go on. -/
def AtRest (link : Link pb) : Prop :=
  link.wmtx = .free ∧ Stream.AtRest pb.format msgLenSize true link.conn

/-- **The server handles the requests in the order in which they were written**, for any
interleaving of the callers and any pieces in which the bytes arrive.  What it has handled
is a prefix of the requests in the order of their critical sections, the last of which may
be in progress; and if no read has timed out and nothing is left to be done, it has
handled all of them. -/
theorem onMsg_receives (hrun : (system pb).Run (Appends pb) link) :
    link.conn.received <+: link.completed ++ link.current ∧
      (link.wmtx = .free → link.conn.received <+: link.completed) ∧
      (link.conn.isOpen = true → link.AtRest → link.conn.received = link.completed) := by
  have haligned : link.stream.Aligned pb.format msgLenSize :=
    Stream.run_aligned (by decide) (run_stream hrun)
  have hordered : Ordered link :=
    hrun.invariant ⟨rfl, fun _ => rfl⟩ fun _ a h henabled _ => h.next a henabled
  have hreceived : link.conn.received <+: link.completed ++ link.current :=
    hordered.sent ▸ haligned.received_le_sent
  have hfree (hwmtx : link.wmtx = .free) : link.completed ++ link.current = link.completed := by
    rw [current_of_free hwmtx, List.append_nil]
  refine ⟨hreceived, fun hwmtx => hfree hwmtx ▸ hreceived, fun hopen ⟨hwmtx, hrest⟩ => ?_⟩
  have hempty : link.outBuffer = [] :=
    hordered.flushed fun call hcall => nomatch hwmtx.symm.trans hcall
  have hstream : link.stream = link.conn := by
    rw [stream, hempty, List.append_nil]
  rw [hstream] at haligned
  rw [haligned.received_eq (by decide) hopen hrest, hordered.sent, hfree hwmtx]

/-- The requests of `rpc_message.proto`, without meta data. -/
def protoRequests : RequestFormat where
  size req := (Proto.request.marshal req).length
  marshalAppend req := .ok (Proto.request.marshal req)
  unmarshal := Proto.request.unmarshal {}

/-- A request with one byte of payload. -/
def oneByte (b : UInt8) : Encoded protoRequests where
  req := { payload := [b] }
  buffer := frame [42, 1, b]
  encoded := rfl

theorem roundTrips_oneByte (b : UInt8) : protoRequests.RoundTrips (oneByte b).req :=
  ⟨[42, 1, b], rfl, rfl, by simp, rfl⟩

/-- Two callers write in the order opposite to that in which they began, and the bytes
arrive in pieces that do not match the requests. -/
theorem onMsg_receives_two :
    ∃ link, (system protoRequests).Run (Appends protoRequests) link ∧
      link.completed.map (·.payload) = [[8], [7]] ∧ link.conn.received = link.completed := by
  let actions : List (Action protoRequests) :=
    [.encode (oneByte 7), .encode (oneByte 8), .lock 0, .append, .flush 2, .conn (.arrive 2),
      .conn .invoke, .flush 5, .unlock, .lock 0, .append, .flush 7, .conn (.arrive 6),
      .conn .readHeader, .conn .readBody, .unlock, .conn .invoke, .conn (.arrive 6),
      .conn .readHeader, .conn .readBody]
  have hrun : (system protoRequests).Run (Appends protoRequests)
      ((system protoRequests).after actions {}) := by
    apply System.Run.of_admits .start
    refine ⟨trivial, nofun, trivial, nofun, ⟨rfl, by decide⟩, nofun, ⟨_, rfl⟩, ?first,
      ⟨⟨_, rfl⟩, by decide⟩, nofun, ⟨trivial, by decide +kernel⟩, nofun,
      ⟨trivial, by decide +kernel⟩, nofun, ⟨⟨_, rfl⟩, by decide⟩, nofun, ⟨⟨_, rfl⟩, rfl⟩, nofun,
      ⟨rfl, by decide⟩, nofun, ⟨_, rfl⟩, ?second, ⟨⟨_, rfl⟩, by decide⟩, nofun,
      ⟨trivial, by decide +kernel⟩, nofun, ⟨trivial, by decide +kernel⟩, nofun,
      ⟨trivial, by decide +kernel⟩, nofun, ⟨⟨_, rfl⟩, rfl⟩, nofun,
      ⟨trivial, by decide +kernel⟩, nofun, ⟨trivial, by decide +kernel⟩, nofun,
      ⟨trivial, by decide +kernel⟩, nofun, ⟨trivial, by decide +kernel⟩, nofun, trivial⟩
    case first =>
      rintro _ _ ⟨⟩
      exact roundTrips_oneByte 8
    case second =>
      rintro _ _ ⟨⟩
      exact roundTrips_oneByte 7
  have hrest : ((system protoRequests).after actions {}).AtRest :=
    ⟨rfl, by decide +kernel, by decide +kernel, by decide +kernel, by decide +kernel⟩
  exact ⟨_, hrun, by decide +kernel, (onMsg_receives hrun).2.2 rfl hrest⟩

end Link

end Gokit.Rpc
