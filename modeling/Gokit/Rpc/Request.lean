/-
# Requests and their meta data

`Invoke` builds a request from the arguments of a call.  The meta data of the request are
those the caller passes by a pointer; callers may pass the same pointer to several calls.
A call that wants no response tells the server so by a tag, which `Invoke` sets in the
meta data themselves.  The tag stays there when the call is over: the next call with the
same meta data is tagged too, and the server does not answer it.

The sequences of calls that keep their tags apart are those in which no call that wants no
response passes meta data.
-/

import Gokit.Rpc.Message
import Mathlib.Logic.Function.Basic

namespace Gokit.Rpc

open Gokit.Math

structure RpcRequestMessage where
  seq : UInt32 := 0
  serviceName : String := ""
  methodName : String := ""
  md : Option Meta := none
  payload : Bytes := []

def Proto.request : Proto RpcRequestMessage where
  fields req :=
    [(1, .fixed32 req.seq.toNat), (2, .ofString req.serviceName), (3, .ofString req.methodName),
      (5, .bytes req.payload)]
  set
    | req, (1, .fixed32 n) => { req with seq := .ofNat n }
    | req, (2, .bytes data) => { req with serviceName := Wire.toString data }
    | req, (3, .bytes data) => { req with methodName := Wire.toString data }
    | req, (5, .bytes data) => { req with payload := data }
    | req, _ => req

/-- `SetInt` on a receiver that is not nil. -/
def Meta.setInt (md : Meta) (key : String) (valInt : Int) : Meta :=
  { kvs := Function.update md.kvs key (some { ints := [valInt], strs := [] }) }

def Meta.empty : Meta := { kvs := fun _ => none }

/-- The server does not answer a request with this tag. -/
def Meta.TaggedNoResp (md : Option Meta) : Prop :=
  Meta.getInt md rpcMsgTagKey = rpcMsgTagAsyncNoResp

instance (md : Option Meta) : Decidable (Meta.TaggedNoResp md) :=
  inferInstanceAs (Decidable (_ = _))

theorem Meta.taggedNoResp_setInt (md : Meta) :
    Meta.TaggedNoResp (some (md.setInt rpcMsgTagKey rpcMsgTagAsyncNoResp)) := by
  simp [TaggedNoResp, getInt, setInt]

/-- Without the key there is no tag. -/
theorem Meta.not_taggedNoResp {md : Meta} (hfree : md.kvs rpcMsgTagKey = none) :
    ¬ Meta.TaggedNoResp (some md) := by
  simp [TaggedNoResp, getInt, hfree, rpcMsgTagAsyncNoResp]

section Response

variable {M : Type} {pb : WireFormat} {codec : PayloadCodec M} {rc : RpcContext M}

/-- The server answers a request without the tag on an active connection. -/
theorem serializeResponse_of_active {data : Bytes} (huntagged : ¬ Meta.TaggedNoResp rc.reqMd)
    (hactive : rc.active = true) (hmarshal : pb.marshalAppend (rc.response codec) = .ok data)
    (hsize : data.length = pb.size (rc.response codec)) :
    rc.serializeResponse pb codec = some (frame data) := by
  unfold Meta.TaggedNoResp at huntagged
  have hactive' : ¬ rc.active = false := by
    rw [hactive]
    exact fun h => nomatch h
  rw [RpcContext.serializeResponse, if_neg huntagged, if_neg hactive', hmarshal]
  exact if_pos hsize

/-- It answers no other. -/
theorem serializeResponse_eq_none (h : Meta.TaggedNoResp rc.reqMd ∨ rc.active = false) :
    rc.serializeResponse pb codec = none := by
  rw [RpcContext.serializeResponse]
  by_cases htagged : Meta.getInt rc.reqMd rpcMsgTagKey = rpcMsgTagAsyncNoResp
  · exact if_pos htagged
  · rw [if_neg htagged]
    exact if_pos (h.resolve_left htagged)

end Response

/-! ## Calls -/

/-- The argument `req` of `Invoke`. -/
inductive ReqArg (M : Type)
  | bytes (payload : Bytes)
  | message (req : M)
  | other

def errInvalidReqData : GoError := .new "invalid request data"

def ReqArg.payload {M : Type} (codec : PayloadCodec M) : ReqArg M → Except GoError Bytes
  | .bytes payload => .ok payload
  | .message req =>
    match codec.marshal req with
    | .ok payload => .ok payload
    | .error err => .error (.text err)
  | .other => .error errInvalidReqData

/-- A `Meta` of the callers. -/
abbrev MetaRef : Type := Nat

/-- The part of `CallOption` that decides about the request. -/
structure InvokeOption where
  async : Bool := false
  /-- `AsyncRetChan` is not nil -/
  hasRetChan : Bool := false
  reqMd : Option MetaRef := none
  deriving DecidableEq, Repr

/-- Asynchronous, with `AsyncRetChan` nil. -/
def InvokeOption.noResp (opt : InvokeOption) : Bool := opt.async && !opt.hasRetChan

def defaultCallOption : InvokeOption := {}

/-- The arguments of one call of `Invoke`. -/
structure Invocation (M : Type) where
  service : String := ""
  method : String := ""
  req : ReqArg M
  opts : List InvokeOption := []
  /-- the request is encoded and written without an error -/
  written : Bool := true

def Invocation.opt {M : Type} (call : Invocation M) : InvokeOption :=
  call.opts.headD defaultCallOption

/-- The meta data of the callers, and what has been written. -/
structure Session (M : Type) where
  metas : MetaRef → Meta
  genMsgId : UInt32 := 0
  sent : List (Invocation M × RpcRequestMessage) := []

namespace Session

variable {M : Type} (codec : PayloadCodec M)

/-- The meta data after `Invoke` has set its tag. -/
def tagged (s : Session M) (opt : InvokeOption) : MetaRef → Meta :=
  match opt.reqMd with
  | some md =>
    if opt.noResp then
      Function.update s.metas md ((s.metas md).setInt rpcMsgTagKey rpcMsgTagAsyncNoResp)
    else s.metas
  | none => s.metas

/-- The meta data of the request; a call without any makes its own if it sets the tag. -/
def reqMd (s : Session M) (opt : InvokeOption) : Option Meta :=
  match opt.reqMd with
  | some md => some (s.tagged opt md)
  | none => if opt.noResp then some (Meta.empty.setInt rpcMsgTagKey rpcMsgTagAsyncNoResp) else none

/-- `Invoke`, up to the point at which the request is on the wire. -/
def invoke (s : Session M) (call : Invocation M) : Session M :=
  match call.req.payload codec with
  | .error _ => s
  | .ok payload =>
    let seq := s.genMsgId + 1
    let rpcReq : RpcRequestMessage :=
      { seq := seq
        serviceName := call.service
        methodName := call.method
        md := s.reqMd call.opt
        payload := payload }
    { metas := s.tagged call.opt
      genMsgId := seq
      sent := if call.written then s.sent ++ [(call, rpcReq)] else s.sent }

def invokeAll (s : Session M) (calls : List (Invocation M)) : Session M :=
  calls.foldl (invoke codec) s

end Session

/-! ## Tags that stay with their call -/

/-- The request is answered over an active connection, whatever its handler did. -/
def Answered (req : RpcRequestMessage) : Prop :=
  ∀ (M : Type) (pb : WireFormat) (codec : PayloadCodec M) (rc : RpcContext M),
    rc.reqMd = req.md → rc.active = true → pb.RoundTrips (rc.response codec) →
      (rc.serializeResponse pb codec).isSome = true

theorem answered_of_not_tagged {req : RpcRequestMessage} (hfree : ¬ Meta.TaggedNoResp req.md) :
    Answered req := by
  intro M pb codec rc hmd hactive ⟨data, hmarshal, hsize, _⟩
  rw [serializeResponse_of_active (hmd ▸ hfree) hactive hmarshal hsize]
  rfl

namespace Session

variable {M : Type}

/-- The request of a call is tagged iff the call wants no response; a synchronous call is
answered; and the meta data of the callers are as they were. -/
structure TagsApart (before after : Session M) : Prop where
  tagged : ∀ call req, (call, req) ∈ after.sent →
    (Meta.TaggedNoResp req.md ↔ call.opt.noResp = true)
  answered : ∀ call req, (call, req) ∈ after.sent → call.opt.async = false → Answered req
  metas : after.metas = before.metas

/-- The call has a payload, wants no response, and passes meta data. -/
def Taints (codec : PayloadCodec M) (call : Invocation M) : Prop :=
  (∃ payload, call.req.payload codec = .ok payload) ∧ call.opt.noResp = true ∧
    call.opt.reqMd ≠ none

variable {codec : PayloadCodec M} {s before : Session M} {call : Invocation M}

theorem invoke_of_payload {payload : Bytes} (hpayload : call.req.payload codec = .ok payload) :
    s.invoke codec call =
      { metas := s.tagged call.opt
        genMsgId := s.genMsgId + 1
        sent := if call.written then
            s.sent ++ [(call, {
              seq := s.genMsgId + 1
              serviceName := call.service
              methodName := call.method
              md := s.reqMd call.opt
              payload := payload })]
          else s.sent } := by
  simp only [invoke, hpayload]

theorem invoke_of_error {err : GoError} (hpayload : call.req.payload codec = .error err) :
    s.invoke codec call = s := by
  simp only [invoke, hpayload]

/-- A call that sets no tag in meta data of its caller leaves all of them alone. -/
theorem tagged_eq_metas {opt : InvokeOption} (hopt : opt.noResp = true → opt.reqMd = none) :
    s.tagged opt = s.metas := by
  unfold tagged
  cases hmd : opt.reqMd with
  | none => rfl
  | some md =>
    have hresp : ¬ opt.noResp = true := fun h => nomatch (hopt h).symm.trans hmd
    exact if_neg hresp

/-- Its request is tagged iff it wants no response. -/
theorem taggedNoResp_reqMd {opt : InvokeOption} (hopt : opt.noResp = true → opt.reqMd = none)
    (hfree : ∀ md, (s.metas md).kvs rpcMsgTagKey = none) :
    Meta.TaggedNoResp (s.reqMd opt) ↔ opt.noResp = true := by
  unfold reqMd
  cases hmd : opt.reqMd with
  | none =>
    cases hresp : opt.noResp with
    | true => simp [Meta.taggedNoResp_setInt]
    | false => simp [Meta.TaggedNoResp, Meta.getInt, rpcMsgTagAsyncNoResp]
  | some md =>
    have hresp : opt.noResp ≠ true := fun h => nomatch (hopt h).symm.trans hmd
    show Meta.TaggedNoResp (some (s.tagged opt md)) ↔ _
    rw [tagged_eq_metas hopt]
    exact iff_of_false (Meta.not_taggedNoResp (hfree md)) hresp

/-- One call that does not taint anything. -/
theorem TagsApart.invoke (h : TagsApart before s)
    (hfree : ∀ md, (before.metas md).kvs rpcMsgTagKey = none) (hcall : ¬ Taints codec call) :
    TagsApart before (s.invoke codec call) := by
  cases hpayload : call.req.payload codec with
  | error err =>
    rw [invoke_of_error hpayload]
    exact h
  | ok payload =>
    have hopt : call.opt.noResp = true → call.opt.reqMd = none := fun hresp =>
      Classical.not_not.mp fun hmd => hcall ⟨⟨payload, hpayload⟩, hresp, hmd⟩
    have htag := taggedNoResp_reqMd (s := s) hopt (h.metas ▸ hfree)
    rw [invoke_of_payload hpayload]
    constructor
    · intro other req hmem
      split at hmem
      · rcases List.mem_append.mp hmem with hold | hnew
        · exact h.tagged other req hold
        · cases List.mem_singleton.mp hnew
          exact htag
      · exact h.tagged other req hmem
    · intro other req hmem hsync
      split at hmem
      · rcases List.mem_append.mp hmem with hold | hnew
        · exact h.answered other req hold hsync
        · cases List.mem_singleton.mp hnew
          apply answered_of_not_tagged
          rw [htag, InvokeOption.noResp, hsync]
          exact Bool.false_ne_true
      · exact h.answered other req hmem hsync
    · exact (tagged_eq_metas hopt).trans h.metas

/-- No tag is removed by setting one. -/
theorem key_tagged {md : MetaRef} (hkey : (s.metas md).kvs rpcMsgTagKey ≠ none)
    (opt : InvokeOption) : (s.tagged opt md).kvs rpcMsgTagKey ≠ none := by
  by_cases hopt : opt.noResp = true → opt.reqMd = none
  · rwa [tagged_eq_metas hopt]
  · obtain ⟨hresp, hmd⟩ := Classical.not_imp.mp hopt
    obtain ⟨target, hmd⟩ := Option.ne_none_iff_exists'.mp hmd
    simp only [tagged, hmd, if_pos hresp]
    by_cases heq : md = target
    · subst heq
      simp [Meta.setInt]
    · rwa [Function.update_of_ne heq]

/-- No call removes the tag. -/
theorem key_stays (codec : PayloadCodec M) {md : MetaRef}
    (hkey : (s.metas md).kvs rpcMsgTagKey ≠ none) (calls : List (Invocation M)) :
    ((s.invokeAll codec calls).metas md).kvs rpcMsgTagKey ≠ none := by
  induction calls generalizing s with
  | nil => exact hkey
  | cons call rest ih =>
    apply ih
    cases hpayload : call.req.payload codec with
    | error err =>
      rw [invoke_of_error hpayload]
      exact hkey
    | ok payload =>
      rw [invoke_of_payload hpayload]
      exact key_tagged hkey call.opt

/-- A call that taints leaves the tag in the meta data of its caller. -/
theorem key_of_taints (htaints : Taints codec call) :
    ∃ md, ((s.invoke codec call).metas md).kvs rpcMsgTagKey ≠ none := by
  obtain ⟨⟨payload, hpayload⟩, hresp, hmd⟩ := htaints
  obtain ⟨md, hmd⟩ := Option.ne_none_iff_exists'.mp hmd
  refine ⟨md, ?_⟩
  rw [invoke_of_payload hpayload]
  simp [tagged, hmd, hresp, Meta.setInt]

/-- **Tags stay apart iff no call taints the meta data of its caller.**  For every sequence
of calls, on meta data without the tag: the requests are tagged as their calls want, the
synchronous calls are answered and the meta data unchanged, iff no call that wants no
response passes meta data. -/
theorem tagsApart_iff (codec : PayloadCodec M) (s : Session M) (hnew : s.sent = [])
    (hfree : ∀ md, (s.metas md).kvs rpcMsgTagKey = none) (calls : List (Invocation M)) :
    TagsApart s (s.invokeAll codec calls) ↔ ∀ call ∈ calls, ¬ Taints codec call := by
  constructor
  · intro h call hmem htaints
    obtain ⟨early, late, rfl⟩ := List.append_of_mem hmem
    obtain ⟨md, hkey⟩ := key_of_taints (s := s.invokeAll codec early) htaints
    have hend := key_stays codec hkey late
    have hsplit : s.invokeAll codec (early ++ call :: late) =
        ((s.invokeAll codec early).invoke codec call).invokeAll codec late :=
      List.foldl_append ..
    rw [← hsplit, h.metas] at hend
    exact hend (hfree md)
  · intro hcalls
    have hstart : TagsApart s s :=
      ⟨fun _ _ h => absurd h (hnew ▸ List.not_mem_nil),
        fun _ _ h => absurd h (hnew ▸ List.not_mem_nil), rfl⟩
    -- the calls are made one after the other from a session with its tags apart
    have hfrom (now : Session M) (hnow : TagsApart s now) :
        TagsApart s (now.invokeAll codec calls) := by
      induction calls generalizing now with
      | nil => exact hnow
      | cons call rest ih =>
        obtain ⟨hcall, hrest⟩ := List.forall_mem_cons.mp hcalls
        exact ih hrest _ (hnow.invoke hfree hcall)
    exact hfrom s hstart

/-- A call that wants no response, then a synchronous call; only the second passes meta
data. -/
theorem tagsApart_own_meta :
    TagsApart { metas := fun _ => .empty }
      (invokeAll rawCodec { metas := fun _ => .empty }
        [{ req := .bytes [1], opts := [{ async := true }] },
          { req := .bytes [2], opts := [{ reqMd := some 0 }] }]) := by
  apply (tagsApart_iff rawCodec _ rfl (fun _ => rfl) _).mpr
  intro call hmem ⟨_, hresp, hmd⟩
  rcases List.mem_cons.mp hmem with rfl | hmem
  · exact hmd rfl
  · cases List.mem_singleton.mp hmem
    cases hresp

/-- The two calls share their meta data: the synchronous one is tagged, the server does not
answer it, and the meta data of the caller have changed. -/
theorem tag_leaks :
    ∃ call req, (call, req) ∈ (invokeAll rawCodec { metas := fun _ => .empty }
        [{ req := .bytes [1], opts := [{ async := true, reqMd := some 0 }] },
          { req := .bytes [2], opts := [{ reqMd := some 0 }] }]).sent ∧
      call.opt.async = false ∧ Meta.TaggedNoResp req.md ∧
      (∀ (pb : WireFormat) (rc : RpcContext Bytes), rc.reqMd = req.md →
        rc.serializeResponse pb rawCodec = none) ∧
      ((invokeAll rawCodec { metas := fun _ => .empty }
        [{ req := .bytes [1], opts := [{ async := true, reqMd := some 0 }] },
          { req := .bytes [2], opts := [{ reqMd := some 0 }] }]).metas 0).kvs rpcMsgTagKey ≠
        none := by
  have htagged : Meta.TaggedNoResp (some (Meta.empty.setInt rpcMsgTagKey rpcMsgTagAsyncNoResp)) :=
    Meta.taggedNoResp_setInt _
  refine ⟨_, _, List.mem_cons_of_mem _ List.mem_cons_self, rfl, htagged, ?_, nofun⟩
  intro pb rc hmd
  exact serializeResponse_eq_none (.inl (hmd ▸ htagged))

end Session

end Gokit.Rpc
