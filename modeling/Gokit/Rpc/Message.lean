/-
# Errors and responses of the RPC layer

The server puts the outcome of a handler into a response message and writes it with
its length in front; the client reads the message and decides from it whether the
call has failed.  The codec of the messages and the codec of their payloads are not
part of the program and stand as parameters.
-/

import Gokit.Math.Bytes

namespace Gokit.Rpc

open Gokit.Math

/-! ## Errors -/

/-- An error value.  A type assertion tells the `CodeError`s from all others; of the
others only the text matters. -/
inductive GoError
  | code (errno : Int32) (desc : String)
  | text (desc : String)
  deriving DecidableEq, Repr

namespace GoError

def error : GoError → String
  | code _ desc | text desc => desc

def createCodeError (errno : Int32) (desc : String) : GoError := .code errno desc

def new (desc : String) : GoError := .text desc

end GoError

def errCodeUnknown : Int32 := 1

def errCodeMarshal : Int32 := 3

/-! ## Messages -/

structure MetaValues where
  ints : List Int
  strs : List String

/-- `Meta`; a nil map is the empty one. -/
structure Meta where
  kvs : String → Option MetaValues

/-- `GetInt`, also on a nil receiver. -/
def Meta.getInt (md : Option Meta) (key : String) : Int :=
  match md with
  | none => 0
  | some md =>
    match md.kvs key with
    | some v => v.ints.headD 0
    | none => 0

def rpcMsgTagKey : String := "RpcMsgTag"

def rpcMsgTagAsyncNoResp : Int := 3

structure RpcResponseMessage where
  seq : UInt32 := 0
  ecode : Int32 := 0
  error : String := ""
  md : Option Meta := none
  payload : Bytes := []

/-- The protobuf codec of the response messages. -/
structure WireFormat where
  size : RpcResponseMessage → Nat
  marshalAppend : RpcResponseMessage → Except GoError Bytes
  unmarshal : Bytes → Except GoError RpcResponseMessage

/-- The codec returns the message it was given.  The length of its bytes is the size it
has announced, and fits in the header. -/
def WireFormat.RoundTrips (pb : WireFormat) (rsp : RpcResponseMessage) : Prop :=
  ∃ data, pb.marshalAppend rsp = .ok data ∧ data.length = pb.size rsp ∧
    data.length < 2 ^ 32 ∧ pb.unmarshal data = .ok rsp

/-! ### The bytes of a message

The encoding of `rpc_message.proto`, for messages without meta data. -/

/-- The value of a field, by its wire type. -/
inductive Wire
  | varint (n : Nat)
  | bytes (data : Bytes)
  | fixed32 (n : Nat)

namespace Wire

def putVarint : Nat → Nat → Bytes
  | 0, _ => []
  | rounds + 1, n =>
    if n < 128 then [UInt8.ofNat n]
    else UInt8.ofNat (n % 128 + 128) :: putVarint rounds (n / 128)

/-- A field with its number; one that has the default value is left out. -/
def put : Nat × Wire → Bytes
  | (field, varint n) => if n = 0 then [] else putVarint 10 (8 * field) ++ putVarint 10 n
  | (field, bytes data) =>
    if data = [] then []
    else putVarint 10 (8 * field + 2) ++ (putVarint 10 data.length ++ data)
  | (field, fixed32 n) => if n = 0 then [] else putVarint 10 (8 * field + 5) ++ putLittleEndian 4 n

def getVarint : Bytes → Option (Nat × Bytes)
  | [] => none
  | b :: rest =>
    if b < 128 then some (b.toNat, rest)
    else (getVarint rest).map fun (n, later) => (b.toNat % 128 + 128 * n, later)

def get (data : Bytes) : Option ((Nat × Wire) × Bytes) := do
  let (key, rest) ← getVarint data
  match key % 8 with
  | 0 =>
    let (n, rest) ← getVarint rest
    some ((key / 8, .varint n), rest)
  | 2 =>
    let (size, rest) ← getVarint rest
    if rest.length < size then none
    else some ((key / 8, .bytes (rest.take size)), rest.drop size)
  | 5 =>
    if rest.length < 4 then none
    else some ((key / 8, .fixed32 (littleEndian (rest.take 4))), rest.drop 4)
  | _ => none

/-- All fields; each takes a byte at least. -/
def getAll : Nat → Bytes → Option (List (Nat × Wire))
  | _, [] => some []
  | 0, _ => none
  | rounds + 1, data => do
    let (field, rest) ← get data
    let fields ← getAll rounds rest
    some (field :: fields)

def ofString (s : String) : Wire := .bytes s.toUTF8.data.toList

def toString (data : Bytes) : String := (String.fromUTF8? ⟨data.toArray⟩).getD ""

end Wire

/-- The fields of a message, and what a field that is read sets. -/
structure Proto (M : Type) where
  fields : M → List (Nat × Wire)
  set : M → Nat × Wire → M

namespace Proto

variable {M : Type}

def marshal (proto : Proto M) (msg : M) : Bytes := (proto.fields msg).flatMap Wire.put

def unmarshal (proto : Proto M) (empty : M) (data : Bytes) : Except GoError M :=
  match Wire.getAll data.length data with
  | some fields => .ok (fields.foldl proto.set empty)
  | none => .error (.new "proto: cannot parse invalid wire-format data")

def response : Proto RpcResponseMessage where
  fields rsp :=
    [(1, .fixed32 rsp.seq.toNat), (2, .varint rsp.ecode.toInt64.toUInt64.toNat),
      (3, .ofString rsp.error), (5, .bytes rsp.payload)]
  set
    | rsp, (1, .fixed32 n) => { rsp with seq := .ofNat n }
    | rsp, (2, .varint n) => { rsp with ecode := .ofInt n }
    | rsp, (3, .bytes data) => { rsp with error := Wire.toString data }
    | rsp, (5, .bytes data) => { rsp with payload := data }
    | rsp, _ => rsp

end Proto

def WireFormat.proto : WireFormat where
  size rsp := (Proto.response.marshal rsp).length
  marshalAppend rsp := .ok (Proto.response.marshal rsp)
  unmarshal := Proto.response.unmarshal {}

/-- The codec the application has chosen for the payloads.  Its errors are texts, not
`CodeError`s. -/
structure PayloadCodec (M : Type) where
  marshal : M → Except String Bytes
  unmarshal : Bytes → Except String M

/-- Payloads that are bytes already. -/
def rawCodec : PayloadCodec Bytes where
  marshal := .ok
  unmarshal := .ok

/-! ## The server -/

/-- The part of an `RpcContext` that `SerializeResponse` reads. -/
structure RpcContext (M : Type) where
  seq : UInt32
  reqMd : Option Meta
  /-- `rc.Conn.c.IsActive()` -/
  active : Bool
  reply : M
  replyErr : Option GoError
  replyMd : Option Meta

def msgLenSize : Nat := 4

/-- The message with its length in front. -/
def frame (data : Bytes) : Bytes := putLittleEndian msgLenSize data.length ++ data

namespace RpcContext

variable {M : Type}

def response (codec : PayloadCodec M) (rc : RpcContext M) : RpcResponseMessage :=
  match rc.replyErr with
  | none =>
    match codec.marshal rc.reply with
    | .ok rspData => { seq := rc.seq, md := rc.replyMd, payload := rspData }
    | .error err => { seq := rc.seq, md := rc.replyMd, ecode := errCodeMarshal, error := err }
  | some (.code errno desc) =>
    { seq := rc.seq, md := rc.replyMd, ecode := errno, error := (GoError.code errno desc).error }
  | some rerr => { seq := rc.seq, md := rc.replyMd, ecode := errCodeUnknown, error := rerr.error }

/-- `SerializeResponse`: the bytes handed to the writer, if any. -/
def serializeResponse (pb : WireFormat) (codec : PayloadCodec M) (rc : RpcContext M) :
    Option Bytes :=
  if Meta.getInt rc.reqMd rpcMsgTagKey = rpcMsgTagAsyncNoResp then none
  else if rc.active = false then none
  else
    match pb.marshalAppend (rc.response codec) with
    | .error _ => none
    | .ok data => if data.length = pb.size (rc.response codec) then some (frame data) else none

end RpcContext

/-! ## The client -/

def RpcResponseMessage.parserError (msg : RpcResponseMessage) : Option GoError :=
  if msg.error ≠ "" then
    if msg.ecode ≠ 0 then some (.createCodeError msg.ecode msg.error)
    else some (.new msg.error)
  else none

/-- What `decodeRpcRsp` returns, and what it has stored in `out`. -/
structure Decoded (M : Type) where
  rspMd : Option Meta
  rspData : Bytes := []
  out : Option M := none
  err : Option GoError := none

/-- `decodeRpcRsp`; `wanted` says that `out` is not nil. -/
def decodeRpcRsp {M : Type} (codec : PayloadCodec M) (wanted : Bool) (rpcRsp : RpcResponseMessage) :
    Decoded M :=
  match rpcRsp.parserError with
  | some err => { rspMd := rpcRsp.md, err := some err }
  | none =>
    if wanted then
      match codec.unmarshal rpcRsp.payload with
      | .error err => { rspMd := rpcRsp.md, err := some (.text err) }
      | .ok out => { rspMd := rpcRsp.md, rspData := rpcRsp.payload, out := some out }
    else { rspMd := rpcRsp.md, rspData := rpcRsp.payload }

/-- The head of `onRecvMsg`: the length, then the message. -/
def readMsg (pb : WireFormat) (stream : Bytes) : Option RpcResponseMessage :=
  if stream.length < msgLenSize then none
  else
    let dataLen := littleEndian (stream.take msgLenSize)
    let rest := stream.drop msgLenSize
    if rest.length < dataLen then none else (pb.unmarshal (rest.take dataLen)).toOption

/-- The client reads the message the server has framed, whatever follows it. -/
theorem readMsg_frame (pb : WireFormat) {data : Bytes} (hfits : data.length < 2 ^ 32)
    (later : Bytes) : readMsg pb (frame data ++ later) = (pb.unmarshal data).toOption := by
  have hlen : (putLittleEndian msgLenSize data.length).length = msgLenSize :=
    length_putLittleEndian ..
  have htake : (frame data ++ later).take msgLenSize =
      putLittleEndian msgLenSize data.length := by
    rw [frame, List.append_assoc]
    exact List.take_left' hlen
  have hdrop : (frame data ++ later).drop msgLenSize = data ++ later := by
    rw [frame, List.append_assoc]
    exact List.drop_left' hlen
  have hdataLen : littleEndian (putLittleEndian msgLenSize data.length) = data.length :=
    littleEndian_putLittleEndian hfits
  have hlong : ¬ (frame data ++ later).length < msgLenSize := by
    simp only [frame, List.length_append, hlen]
    omega
  have hall : ¬ (data ++ later).length < data.length := by
    rw [List.length_append]
    omega
  simp only [readMsg, if_neg hlong, htake, hdrop, hdataLen, if_neg hall]
  rw [List.take_left' rfl]

end Gokit.Rpc
