/-
# Which outcomes of a handler survive the wire

The server decides between success and failure by the error of the handler.  The
client decides by the text of the error alone, and takes it for a `CodeError` only
if its code is not zero.  So an error without a text arrives as a success, and a
`CodeError` with the code zero as an error without a code.  These are the only ways
to lose an error: for every outcome we say exactly when the client sees what the
handler returned.
-/

import Gokit.Rpc.Message

namespace Gokit.Rpc

open Gokit.Math

variable {M : Type}

/-- The error the client sees stands for the one the handler returned: one is nil iff
the other is, and a `CodeError` keeps its code and its description. -/
def Survives (sent got : Option GoError) : Prop :=
  (got.isSome ↔ sent.isSome) ∧
    ∀ errno desc, sent = some (.code errno desc) → got = some (.code errno desc)

/-- The client can use the payload: it asks for none, or can decode it. -/
def Readable (codec : PayloadCodec M) (wanted : Bool) (payload : Bytes) : Prop :=
  wanted = true → ∃ out, codec.unmarshal payload = .ok out

/-- The outcomes that survive.  A `CodeError` must have a description and a code, another
error a text; without a text it is noticed only if the missing payload is.  A
reply must have a payload that the client can use. -/
def Transparent (codec : PayloadCodec M) (wanted : Bool) (rc : RpcContext M) : Prop :=
  match rc.replyErr with
  | some (.code errno desc) => desc ≠ "" ∧ errno ≠ 0
  | some (.text desc) => desc ≠ "" ∨ ¬ Readable codec wanted []
  | none =>
    match codec.marshal rc.reply with
    | .ok payload => Readable codec wanted payload
    | .error err => err = "" ∧ Readable codec wanted []

/-! ## What the client sees -/

section Client

variable (codec : PayloadCodec M) (wanted : Bool) {rsp : RpcResponseMessage}

/-- A response with an error text is an error. -/
theorem err_of_error (herror : rsp.error ≠ "") :
    (decodeRpcRsp codec wanted rsp).err =
      some (if rsp.ecode ≠ 0 then .code rsp.ecode rsp.error else .text rsp.error) := by
  have hparse : rsp.parserError =
      some (if rsp.ecode ≠ 0 then .code rsp.ecode rsp.error else .text rsp.error) := by
    rw [RpcResponseMessage.parserError, if_pos herror]
    split <;> rfl
  simp only [decodeRpcRsp, hparse]

/-- A response without one is an error only if the payload cannot be used, and then the
error is not a `CodeError`. -/
theorem err_of_no_error (herror : rsp.error = "") :
    ((decodeRpcRsp codec wanted rsp).err = none ↔ Readable codec wanted rsp.payload) ∧
      ∀ errno desc, (decodeRpcRsp codec wanted rsp).err ≠ some (.code errno desc) := by
  have hparse : rsp.parserError = none := by
    rw [RpcResponseMessage.parserError, if_neg (not_not_intro herror)]
  cases wanted with
  | false => simp [decodeRpcRsp, hparse, Readable]
  | true =>
    cases hpayload : codec.unmarshal rsp.payload with
    | error err => simp [decodeRpcRsp, hparse, Readable, hpayload]
    | ok out => simp [decodeRpcRsp, hparse, Readable, hpayload]

end Client

/-- Nothing that has no error text can pass for a `CodeError`, and it passes for an
error iff its payload cannot be used. -/
theorem survives_of_no_error (codec : PayloadCodec M) (wanted : Bool) {rsp : RpcResponseMessage}
    (herror : rsp.error = "") (sent : Option GoError) :
    Survives sent (decodeRpcRsp codec wanted rsp).err ↔
      (Readable codec wanted rsp.payload ↔ sent = none) ∧
        ∀ errno desc, sent ≠ some (.code errno desc) := by
  obtain ⟨hnone, hcode⟩ := err_of_no_error codec wanted herror
  constructor
  · rintro ⟨hsome, hsame⟩
    refine ⟨?_, fun errno desc heq => hcode errno desc (hsame errno desc heq)⟩
    rw [← hnone, ← Option.not_isSome_iff_eq_none, ← Option.not_isSome_iff_eq_none]
    exact not_congr hsome
  · rintro ⟨hiff, hother⟩
    refine ⟨?_, fun errno desc heq => absurd heq (hother errno desc)⟩
    rw [← hnone, ← Option.not_isSome_iff_eq_none, ← Option.not_isSome_iff_eq_none] at hiff
    exact not_iff_not.mp hiff

section Outcomes

variable (codec : PayloadCodec M) (wanted : Bool) (rsp : RpcResponseMessage)

/-- A `CodeError` survives iff it has a description and a code. -/
theorem survives_code_iff :
    Survives (some (.code rsp.ecode rsp.error)) (decodeRpcRsp codec wanted rsp).err ↔
      rsp.error ≠ "" ∧ rsp.ecode ≠ 0 := by
  by_cases herror : rsp.error = ""
  · rw [survives_of_no_error codec wanted herror]
    constructor
    · rintro ⟨_, hother⟩
      exact absurd rfl (hother rsp.ecode rsp.error)
    · rintro ⟨hne, _⟩
      exact absurd herror hne
  · rw [err_of_error codec wanted herror]
    by_cases hcode : rsp.ecode = 0 <;> simp [Survives, hcode, herror]

/-- Any other error survives iff the client sees an error at all. -/
theorem survives_text_iff (desc : String) :
    Survives (some (.text desc)) (decodeRpcRsp codec wanted rsp).err ↔
      rsp.error ≠ "" ∨ ¬ Readable codec wanted rsp.payload := by
  by_cases herror : rsp.error = ""
  · rw [survives_of_no_error codec wanted herror]
    simp [herror]
  · rw [err_of_error codec wanted herror]
    simp [Survives, herror]

/-- A success survives iff the client sees no error. -/
theorem survives_none_iff :
    Survives none (decodeRpcRsp codec wanted rsp).err ↔
      rsp.error = "" ∧ Readable codec wanted rsp.payload := by
  by_cases herror : rsp.error = ""
  · rw [survives_of_no_error codec wanted herror]
    simp [herror]
  · rw [err_of_error codec wanted herror]
    simp [Survives, herror]

end Outcomes

/-- The response of a call survives iff its outcome is transparent. -/
theorem survives_response_iff (codec : PayloadCodec M) (wanted : Bool) (rc : RpcContext M) :
    Survives rc.replyErr (decodeRpcRsp codec wanted (rc.response codec)).err ↔
      Transparent codec wanted rc := by
  unfold Transparent RpcContext.response
  cases rc.replyErr with
  | some err =>
    cases err with
    | code errno desc => exact survives_code_iff ..
    | text desc => exact survives_text_iff ..
  | none =>
    cases codec.marshal rc.reply with
    | ok payload =>
      refine (survives_none_iff ..).trans ?_
      exact and_iff_right rfl
    | error err => exact survives_none_iff ..

/-! ## Over the wire -/

/-- **Errors survive the wire iff the outcome is transparent.**  Whatever the server has to
answer on an active connection, and whatever follows its answer on the stream: the client
reads one message, and what it decodes from it agrees with the outcome of the handler
exactly if the outcome is transparent. -/
theorem serializeResponse_survives_iff (pb : WireFormat) (codec : PayloadCodec M) (wanted : Bool)
    (rc : RpcContext M) (htag : Meta.getInt rc.reqMd rpcMsgTagKey ≠ rpcMsgTagAsyncNoResp)
    (hactive : rc.active = true) (hpb : pb.RoundTrips (rc.response codec)) :
    ∃ sent, rc.serializeResponse pb codec = some sent ∧
      ∀ later, ∃ rpcRsp, readMsg pb (sent ++ later) = some rpcRsp ∧
        (Survives rc.replyErr (decodeRpcRsp codec wanted rpcRsp).err ↔
          Transparent codec wanted rc) := by
  obtain ⟨data, hmarshal, hsize, hfits, hunmarshal⟩ := hpb
  refine ⟨frame data, ?_, fun later => ⟨rc.response codec, ?_, ?_⟩⟩
  · simp [RpcContext.serializeResponse, htag, hactive, hmarshal, hsize]
  · rw [readMsg_frame pb hfits, hunmarshal]
    rfl
  · exact survives_response_iff codec wanted rc

/-- The call number 1 with the given outcome. -/
def outcome (reply : Bytes) (replyErr : Option GoError) : RpcContext Bytes where
  seq := 1
  reqMd := none
  active := true
  reply := reply
  replyErr := replyErr
  replyMd := none

/-- A `CodeError` with a code and a description. -/
theorem serializeResponse_survives_code :
    ∃ sent, (outcome [] (some (.code 7 "FULL"))).serializeResponse .proto rawCodec = some sent ∧
      ∀ later, ∃ rpcRsp, readMsg .proto (sent ++ later) = some rpcRsp ∧
        Survives (some (.code 7 "FULL")) (decodeRpcRsp rawCodec true rpcRsp).err := by
  obtain ⟨sent, hsent, hread⟩ := serializeResponse_survives_iff .proto rawCodec true
    (outcome [] (some (.code 7 "FULL"))) (by decide) rfl ⟨_, rfl, rfl, by decide +kernel, rfl⟩
  refine ⟨sent, hsent, fun later => ?_⟩
  obtain ⟨rpcRsp, hrpcRsp, hiff⟩ := hread later
  exact ⟨rpcRsp, hrpcRsp, hiff.mpr ⟨by decide, by decide⟩⟩

/-- A `CodeError` without a description arrives as a success with an empty reply, and one
with the code zero arrives as an error without a code. -/
theorem codeError_lost :
    (decodeRpcRsp rawCodec true ((outcome [] (some (.code 7 ""))).response rawCodec)).err = none ∧
      (decodeRpcRsp rawCodec true ((outcome [] (some (.code 7 ""))).response rawCodec)).out =
        some [] ∧
      (decodeRpcRsp rawCodec true ((outcome [] (some (.code 0 "FULL"))).response rawCodec)).err =
        some (.text "FULL") := by
  decide

end Gokit.Rpc
