/-
# Every request is answered once

`Server.handler` takes a context from a pool, fills it in from the request and looks the
method up.  Either it knows the answer itself, an error, or it runs the handler of the
method, which returns or panics.  In all cases `SerializeResponse` is called once; it
queues the response on the connection of the request and gives the context back to the
pool.

Contexts are used again and again, and only some of their fields are reset.  We show that
a response depends on nothing but its request and what the handler did with it.

Many handlers run at a time, and each owns its context.  A handler may do anything with
its request and take any time, so what it returns is an input of the model.

The response is handed to the writer of the connection, and `writeBuffer` can wait there:
for the read lock, and for room in the channel.  So the model is made of the requests and of
one `SvrWriter` for each connection, and every step a request makes inside `writeBuffer` is
one of its writer.
-/

import Gokit.Rpc.Framing
import Gokit.Rpc.Writer
import Mathlib.Data.List.Perm.Basic

namespace Gokit.Rpc

open Gokit.Math

/-! ## Errors of the server -/

/-- `Print` of a `CodeError`; other errors have no such method. -/
def GoError.print : GoError → List String → GoError
  | .code errno desc, extras =>
    .code errno (extras.foldl (fun text extra => text ++ "," ++ extra) desc)
  | .text desc, _ => .text desc

def errCodeUnmarshal : Int32 := 2

def errCodeNotFindService : Int32 := 4

def errCodeNotFindMethod : Int32 := 5

def errUnmarshal : GoError := .createCodeError errCodeUnmarshal "UNMARSHAL"

def errNotFindService : GoError := .createCodeError errCodeNotFindService "NOT_FIND_SERVICE"

def errNotFindMethod : GoError := .createCodeError errCodeNotFindMethod "NOT_FIND_METHOD"

/-! ## The server -/

/-- `MethodDesc`: its `Handler` makes an empty request message. -/
structure MethodDesc (R : Type) where
  newReq : R

/-- A connection, by its `SvrWriter`. -/
abbrev ConnId : Type := Nat

/-- `Server`: the services and their methods, and the codecs of the messages.  A reply may
be nil. -/
structure Server (R M : Type) where
  services : String → Option (String → Option (MethodDesc R))
  msgUnmarshaler : Bytes → R → Except String R
  msgMarshaler : PayloadCodec (Option M)

namespace Server

variable {R M : Type}

/-- `RpcContext`, all of it. -/
structure Context (R M : Type) where
  conn : Option ConnId := none
  seq : UInt32 := 0
  methodName : String := ""
  reqMd : Option Meta := none
  reqMsg : Option R := none
  handler : Option (MethodDesc R) := none
  reply : Option M := none
  replyErr : Option GoError := none
  replyMd : Option Meta := none
  marshaler : Option (PayloadCodec (Option M)) := none

/-- `_RpcContextPool.Put` resets all fields but two. -/
def Context.put (rc : Context R M) : Context R M :=
  { rc with
    conn := none
    methodName := ""
    reqMd := none
    reqMsg := none
    handler := none
    reply := none
    replyErr := none
    replyMd := none }

/-- What became of the handler of a method. -/
inductive Outcome (M : Type)
  | returned (reply : Option M) (err : Option GoError)
  | panicked

inductive Stage
  /-- its handler runs -/
  | calling
  /-- about to be answered -/
  | replying
  /-- `writeBuffer`: about to take the read lock -/
  | writing (buffer : Bytes)
  /-- `writeBuffer`: has the read lock -/
  | entered (buffer : Bytes)
  /-- `writeBuffer`: in the send on `writeChan` -/
  | sending (buffer : Bytes)
  /-- `writeBuffer`: about to give the lock back; what it has sent -/
  | unlocking (queued : Option Bytes)
  /-- done.  `SerializeResponse` has found the connection active or not, `writeBuffer` the
  writer closed or not, and this is what has been sent -/
  | answered (active closed : Bool) (queued : Option Bytes)
  deriving DecidableEq, Repr

/-- A request handed to `Server.handler`, with the context it has or had. -/
structure Job (R M : Type) where
  conn : ConnId
  msg : RpcRequestMessage
  rc : Context R M
  stage : Stage
  /-- history: what the handler of the method has done, if it was called -/
  outcome : Option (Outcome M) := none

/-- The fields every request fills in. -/
def Context.fill (srv : Server R M) (rc : Context R M) (w : ConnId) (msg : RpcRequestMessage) :
    Context R M :=
  { rc with
    conn := some w
    seq := msg.seq
    methodName := msg.methodName
    reqMd := msg.md
    marshaler := some srv.msgMarshaler }

/-- `Server.handler` up to the call of `HandlerFunc`, or to that of `SerializeResponse` on
one of its other ways. -/
def handler (srv : Server R M) (rc : Context R M) (w : ConnId) (msg : RpcRequestMessage) :
    Job R M :=
  let rc := rc.fill srv w msg
  match srv.services msg.serviceName with
  | none =>
    { conn := w, msg := msg, stage := .replying
      rc := { rc with replyErr := some (errNotFindService.print [msg.serviceName]) } }
  | some methods =>
    match methods msg.methodName with
    | none =>
      { conn := w, msg := msg, stage := .replying
        rc := { rc with replyErr := some (errNotFindMethod.print [msg.methodName]) } }
    | some md =>
      match srv.msgUnmarshaler msg.payload md.newReq with
      | .error err =>
        { conn := w, msg := msg, stage := .replying
          rc := { rc with
            reqMsg := some md.newReq
            handler := some md
            replyErr := some (errUnmarshal.print [err]) } }
      | .ok req =>
        { conn := w, msg := msg, stage := .calling
          rc := { rc with reqMsg := some req, handler := some md } }

/-- `RpcHandlerFunc` up to its call of `SerializeResponse`. -/
def rpcHandlerFunc (rc : Context R M) : Outcome M → Context R M
  | .returned reply err => { rc with reply := reply, replyErr := err }
  | .panicked => { rc with replyErr := some (.new "rpc handler exception") }

/-- What `SerializeResponse` reads of the context. -/
def Context.view (rc : Context R M) (active : Bool) : RpcContext (Option M) where
  seq := rc.seq
  reqMd := rc.reqMd
  active := active
  reply := rc.reply
  replyErr := rc.replyErr
  replyMd := rc.replyMd

/-- The buffer `SerializeResponse` hands to `writeBuffer`, if it does.  A context without a
marshaler or a writer is never serialized. -/
def serialize (pb : WireFormat) (rc : Context R M) (active : Bool) : Option Bytes :=
  match rc.conn, rc.marshaler with
  | some _, some codec => (rc.view active).serializeResponse pb codec
  | _, _ => none

/-- The pool, the requests and the writers. -/
structure State (R M : Type) where
  pool : List (Context R M) := []
  jobs : List (Job R M) := []
  writers : ConnId → SvrWriter Bytes := fun _ => {}

inductive Action (M : Type)
  /-- `Server.handler` is called; the pool gives one of its contexts, or a new one -/
  | handle (pooled : Option Nat) (conn : ConnId) (msg : RpcRequestMessage)
  /-- the pool forgets a context -/
  | forget (pooled : Nat)
  /-- the handler of a method is done -/
  | ret (job : Nat) (outcome : Outcome M)
  | serialize (job : Nat)
  /-- the next step of `writeBuffer` -/
  | write (job : Nat)
  /-- a step of the loop of a writer, of `stop` or of the environment -/
  | writer (conn : ConnId) (a : SvrWriter.Action Bytes)

def get (st : State R M) : Option Nat → Context R M × List (Context R M)
  | some i => (st.pool[i]?.getD {}, st.pool.eraseIdx i)
  | none => ({}, st.pool)

def handle (srv : Server R M) (st : State R M) (pooled : Option Nat) (conn : ConnId)
    (msg : RpcRequestMessage) : State R M :=
  { st with
    pool := (get st pooled).2
    jobs := srv.handler (get st pooled).1 conn msg :: st.jobs }

namespace State

def setJob (st : State R M) (i : Nat) (job : Job R M) : State R M :=
  { st with jobs := st.jobs.set i job }

/-- `SerializeResponse` returns; its context goes to the pool. -/
def finish (st : State R M) (i : Nat) (job : Job R M) (active closed : Bool)
    (queued : Option Bytes) : State R M :=
  { st with pool := job.rc.put :: st.pool }.setJob i
    { job with stage := .answered active closed queued }

/-- A step of one writer. -/
def atWriter (cap : Nat) (st : State R M) (conn : ConnId) (a : SvrWriter.Action Bytes) :
    State R M :=
  { st with
    writers := Function.update st.writers conn ((SvrWriter.system cap).next (st.writers conn) a) }

end State

def ret (st : State R M) (i : Nat) (outcome : Outcome M) : State R M :=
  match st.jobs[i]? with
  | some job =>
    st.setJob i
      { job with
        rc := rpcHandlerFunc job.rc outcome
        stage := .replying
        outcome := some outcome }
  | none => st

/-- `SerializeResponse` up to its call of `writeBuffer`, or to its end. -/
def serializeJob (pb : WireFormat) (st : State R M) (i : Nat) : State R M :=
  match st.jobs[i]? with
  | some job =>
    match serialize pb job.rc (st.writers job.conn).active with
    | some buffer => st.setJob i { job with stage := .writing buffer }
    | none => st.finish i job (st.writers job.conn).active false none
  | none => st

/-- The next step of a request inside `writeBuffer`, as one of its writer. -/
def Stage.action : Stage → Option (SvrWriter.Action Bytes)
  | .writing buffer => some (.rlock buffer)
  | .entered buffer => some (.checkClosed buffer)
  | .sending buffer => some (.send buffer)
  | .unlocking _ => some .runlock
  | _ => none

/-- One step of `writeBuffer`. -/
def writeBuffer (cap : Nat) (st : State R M) (i : Nat) : State R M :=
  match st.jobs[i]? with
  | some job =>
    match job.stage with
    | .writing buffer =>
      (st.atWriter cap job.conn (.rlock buffer)).setJob i { job with stage := .entered buffer }
    | .entered buffer =>
      (st.atWriter cap job.conn (.checkClosed buffer)).setJob i
        { job with
          stage := if (st.writers job.conn).closed then .unlocking none
            else .sending buffer }
    | .sending buffer =>
      (st.atWriter cap job.conn (.send buffer)).setJob i
        { job with stage := .unlocking (some buffer) }
    | .unlocking queued =>
      (st.atWriter cap job.conn .runlock).finish i job true queued.isNone queued
    | _ => st
  | none => st

/-- All requests of a server, with channels for `cap` buffers. -/
def system (pb : WireFormat) (srv : Server R M) (cap : Nat) : System (State R M) (Action M) where
  init := {}
  Enabled st
    | .handle _ _ _ => True
    | .forget i => i < st.pool.length
    | .ret i _ => ∃ job, st.jobs[i]? = some job ∧ job.stage = .calling
    | .serialize i => ∃ job, st.jobs[i]? = some job ∧ job.stage = .replying
    | .write i => ∃ job a, st.jobs[i]? = some job ∧ job.stage.action = some a ∧
        (SvrWriter.system cap).Enabled (st.writers job.conn) a
    | .writer conn a => a.ofHandler = false ∧ (SvrWriter.system cap).Enabled (st.writers conn) a
  next st
    | .handle pooled conn msg => srv.handle st pooled conn msg
    | .forget i => { st with pool := st.pool.eraseIdx i }
    | .ret i outcome => ret st i outcome
    | .serialize i => serializeJob pb st i
    | .write i => writeBuffer cap st i
    | .writer conn a => st.atWriter cap conn a

/-! ## What a request is answered with -/

/-- The error with which `Server.handler` refuses a request, if it does. -/
def refuses (srv : Server R M) (msg : RpcRequestMessage) : Option GoError :=
  match srv.services msg.serviceName with
  | none => some (errNotFindService.print [msg.serviceName])
  | some methods =>
    match methods msg.methodName with
    | none => some (errNotFindMethod.print [msg.methodName])
    | some md =>
      match srv.msgUnmarshaler msg.payload md.newReq with
      | .error err => some (errUnmarshal.print [err])
      | .ok _ => none

/-- Reply and error of a request that was not refused, by what its handler did. -/
def Outcome.verdict : Option (Outcome M) → Option M × Option GoError
  | some (.returned reply err) => (reply, err)
  | some .panicked => (none, some (.new "rpc handler exception"))
  | none => (none, none)

/-- Reply and error of a request. -/
def verdict (srv : Server R M) (msg : RpcRequestMessage) (outcome : Option (Outcome M)) :
    Option M × Option GoError :=
  match srv.refuses msg with
  | some err => (none, some err)
  | none => Outcome.verdict outcome

/-- The response to a request, as a function of the request and of what its handler did. -/
def expected (srv : Server R M) (msg : RpcRequestMessage) (outcome : Option (Outcome M)) :
    RpcResponseMessage :=
  RpcContext.response srv.msgMarshaler
    { seq := msg.seq
      reqMd := msg.md
      active := true
      reply := (srv.verdict msg outcome).1
      replyErr := (srv.verdict msg outcome).2
      replyMd := none }

/-- A context without a reply, as it comes out of the pool. -/
structure Context.Clean (rc : Context R M) : Prop where
  reply : rc.reply = none
  replyErr : rc.replyErr = none
  replyMd : rc.replyMd = none

theorem Context.clean_put (rc : Context R M) : rc.put.Clean := ⟨rfl, rfl, rfl⟩

theorem Context.clean_new : ({} : Context R M).Clean := ⟨rfl, rfl, rfl⟩

/-- The codec marshals every response; all strings are valid UTF-8 here. -/
def MarshalsAll (pb : WireFormat) : Prop :=
  ∀ rsp, ∃ data, pb.marshalAppend rsp = .ok data ∧ data.length = pb.size rsp

/-- The context holds the request. -/
structure Context.Holds (srv : Server R M) (rc : Context R M) (w : ConnId)
    (msg : RpcRequestMessage) : Prop where
  conn : rc.conn = some w
  seq : rc.seq = msg.seq
  reqMd : rc.reqMd = msg.md
  marshaler : rc.marshaler = some srv.msgMarshaler
  replyMd : rc.replyMd = none

section Answers

variable (pb : WireFormat) (srv : Server R M) (msg : RpcRequestMessage)
  (outcome : Option (Outcome M))

/-- The buffer is the expected response, and a response is wanted. -/
def Ready (buffer : Bytes) : Prop :=
  ¬ Meta.TaggedNoResp msg.md ∧
    ∃ data, pb.marshalAppend (srv.expected msg outcome) = .ok data ∧ buffer = frame data

/-- The expected response has been sent, once, if the request wants one, the connection was
active and its writer open; and nothing otherwise. -/
structure Once (active closed : Bool) (queued : Option Bytes) : Prop where
  one : ¬ Meta.TaggedNoResp msg.md → active = true → closed = false →
    ∃ data, pb.marshalAppend (srv.expected msg outcome) = .ok data ∧ queued = some (frame data)
  none : Meta.TaggedNoResp msg.md ∨ active = false ∨ closed = true → queued = .none

end Answers

/-- What a request has made of its context by the time it is at a place. -/
def Job.Fits (pb : WireFormat) (srv : Server R M) (job : Job R M) : Stage → Prop
  | .calling => srv.refuses job.msg = none ∧ job.rc.reply = none
  | .replying => (job.rc.reply, job.rc.replyErr) = srv.verdict job.msg job.outcome
  | .writing buffer | .entered buffer | .sending buffer => Ready pb srv job.msg job.outcome buffer
  | .unlocking queued => ∀ buffer, queued = some buffer → Ready pb srv job.msg job.outcome buffer
  | .answered active closed queued => Once pb srv job.msg job.outcome active closed queued

/-- A request that is not refused is answered after its handler is done. -/
structure Job.Sound (pb : WireFormat) (srv : Server R M) (job : Job R M) : Prop extends
    Context.Holds srv job.rc job.conn job.msg where
  fits : job.Fits pb srv job.stage
  called : job.stage ≠ .calling → srv.refuses job.msg = none → job.outcome ≠ none

variable {pb : WireFormat} {srv : Server R M} {cap : Nat} {st : State R M} {job : Job R M} {i : Nat}
  {msg : RpcRequestMessage}

theorem verdict_of_refuses {err : GoError} (hrefuses : srv.refuses msg = some err)
    (outcome : Option (Outcome M)) : srv.verdict msg outcome = (none, some err) := by
  simp only [verdict, hrefuses]

theorem verdict_of_accepts (haccepts : srv.refuses msg = none) (outcome : Option (Outcome M)) :
    srv.verdict msg outcome = Outcome.verdict outcome := by
  simp only [verdict, haccepts]

theorem sound_of_refuses {rc : Context R M} {w : ConnId} {err : GoError}
    (hrefuses : srv.refuses msg = some err) (hholds : rc.Holds srv w msg) (hreply : rc.reply = none)
    (herr : rc.replyErr = some err) :
    Job.Sound pb srv { conn := w, msg := msg, rc := rc, stage := .replying } where
  toHolds := hholds
  fits := by
    show (rc.reply, rc.replyErr) = _
    rw [hreply, herr, verdict_of_refuses hrefuses]
  called := fun _ haccepts => nomatch hrefuses.symm.trans haccepts

/-- Whatever context `Server.handler` is given, it is the request that decides. -/
theorem sound_handler {rc : Context R M} (hclean : rc.Clean) (w : ConnId)
    (msg : RpcRequestMessage) : (srv.handler rc w msg).Sound pb srv := by
  cases hservice : srv.services msg.serviceName with
  | none =>
    have hrefuses : srv.refuses msg = some (errNotFindService.print [msg.serviceName]) := by
      simp only [refuses, hservice]
    simp only [handler, hservice]
    exact sound_of_refuses hrefuses ⟨rfl, rfl, rfl, rfl, hclean.replyMd⟩ hclean.reply rfl
  | some methods =>
    cases hmethod : methods msg.methodName with
    | none =>
      have hrefuses : srv.refuses msg = some (errNotFindMethod.print [msg.methodName]) := by
        simp only [refuses, hservice, hmethod]
      simp only [handler, hservice, hmethod]
      exact sound_of_refuses hrefuses ⟨rfl, rfl, rfl, rfl, hclean.replyMd⟩ hclean.reply rfl
    | some md =>
      cases hreq : srv.msgUnmarshaler msg.payload md.newReq with
      | error err =>
        have hrefuses : srv.refuses msg = some (errUnmarshal.print [err]) := by
          simp only [refuses, hservice, hmethod, hreq]
        simp only [handler, hservice, hmethod, hreq]
        exact sound_of_refuses hrefuses ⟨rfl, rfl, rfl, rfl, hclean.replyMd⟩ hclean.reply rfl
      | ok req =>
        have haccepts : srv.refuses msg = none := by
          simp only [refuses, hservice, hmethod, hreq]
        simp only [handler, hservice, hmethod, hreq]
        exact ⟨⟨rfl, rfl, rfl, rfl, hclean.replyMd⟩, ⟨haccepts, hclean.reply⟩,
          fun h => absurd rfl h⟩

theorem handler_stage (srv : Server R M) (rc : Context R M) (w : ConnId) (msg : RpcRequestMessage) :
    (srv.handler rc w msg).stage = .calling ∨ (srv.handler rc w msg).stage = .replying := by
  unfold handler
  repeat' split
  all_goals first | exact .inr rfl | exact .inl rfl

theorem Job.Sound.ret (h : job.Sound pb srv) (hstage : job.stage = .calling) (outcome : Outcome M) :
    Job.Sound pb srv { job with
      rc := rpcHandlerFunc job.rc outcome
      stage := .replying
      outcome := some outcome } := by
  obtain ⟨haccepts, hreply⟩ : job.Fits pb srv .calling := hstage ▸ h.fits
  have hverdict := verdict_of_accepts haccepts (some outcome)
  cases outcome with
  | returned reply err => exact { h with fits := hverdict.symm, called := fun _ _ h => nomatch h }
  | panicked =>
    refine { h with fits := ?_, called := fun _ _ h => nomatch h }
    show (job.rc.reply, _) = _
    rw [hreply, hverdict]
    rfl

/-- The response is built from the verdict alone. -/
theorem Job.Sound.response_eq (h : job.Sound pb srv) (hstage : job.stage = .replying)
    (active : Bool) :
    (job.rc.view active).response srv.msgMarshaler = srv.expected job.msg job.outcome := by
  have hverdict : job.Fits pb srv .replying := hstage ▸ h.fits
  have hreply : job.rc.reply = (srv.verdict job.msg job.outcome).1 := congrArg Prod.fst hverdict
  have hreplyErr : job.rc.replyErr = (srv.verdict job.msg job.outcome).2 :=
    congrArg Prod.snd hverdict
  unfold expected RpcContext.response Context.view
  rw [h.seq, hreply, hreplyErr, h.replyMd]

/-- `SerializeResponse` has a buffer exactly if a response is wanted and the connection is
active. -/
theorem Job.Sound.serialize (hpb : MarshalsAll pb) (h : job.Sound pb srv)
    (hstage : job.stage = .replying) (active : Bool) :
    ((Meta.TaggedNoResp job.msg.md ∨ active = false) ∧ serialize pb job.rc active = none) ∨
      ∃ buffer, Ready pb srv job.msg job.outcome buffer ∧
        serialize pb job.rc active = some buffer := by
  have hserialize : Server.serialize pb job.rc active =
      (job.rc.view active).serializeResponse pb srv.msgMarshaler := by
    simp only [Server.serialize, h.conn, h.marshaler]
  have hmd : (job.rc.view active).reqMd = job.msg.md := h.reqMd
  rw [hserialize]
  by_cases hsilent : Meta.TaggedNoResp job.msg.md ∨ active = false
  · exact .inl ⟨hsilent, serializeResponse_eq_none (hmd ▸ hsilent)⟩
  · obtain ⟨huntagged, hactive⟩ := not_or.mp hsilent
    obtain ⟨data, hmarshal, hsize⟩ := hpb (srv.expected job.msg job.outcome)
    refine .inr ⟨frame data, ⟨huntagged, data, hmarshal, rfl⟩, ?_⟩
    rw [← h.response_eq hstage active] at hmarshal hsize
    exact serializeResponse_of_active (hmd ▸ huntagged) (Bool.eq_true_of_not_eq_false hactive)
      hmarshal hsize

/-! ## What the requests hold of the writers -/

/-- What a goroutine inside `writeBuffer` is to its writer. -/
inductive Place (B : Type)
  | entered (buffer : B)
  | sending (buffer : B)
  | unlocking

section Places

variable {B : Type}

def inside (entered sending : List B) (unlocking : Nat) : List (Place B) :=
  entered.map .entered ++ (sending.map .sending ++ List.replicate unlocking .unlocking)

/-- The goroutines inside `writeBuffer` of a writer. -/
def places (w : SvrWriter B) : List (Place B) := inside w.entered w.sending w.unlocking

variable [DecidableEq B] {entered sending : List B} {unlocking : Nat} {w : SvrWriter B}
  {buffer : B} {others : List (Place B)}

theorem inside_entered (hmem : buffer ∈ entered) :
    (inside entered sending unlocking).Perm
      (.entered buffer :: inside (entered.erase buffer) sending unlocking) :=
  ((List.perm_cons_erase hmem).map _).append_right _

theorem inside_sending (hmem : buffer ∈ sending) :
    (inside entered sending unlocking).Perm
      (.sending buffer :: inside entered (sending.erase buffer) unlocking) :=
  ((((List.perm_cons_erase hmem).map _).append_right _).append_left _).trans List.perm_middle

omit [DecidableEq B] in
theorem inside_unlocking :
    (inside entered sending (unlocking + 1)).Perm
      (.unlocking :: inside entered sending unlocking) :=
  (List.perm_middle.append_left _).trans List.perm_middle

theorem places_checkClosed (hmem : buffer ∈ w.entered)
    (hplaces : (places w).Perm (.entered buffer :: others)) :
    (places (w.checkClosed buffer)).Perm
      ((if w.closed then .unlocking else .sending buffer) :: others) := by
  have hrest := ((inside_entered hmem).symm.trans hplaces).cons_inv
  unfold SvrWriter.checkClosed
  split
  · exact inside_unlocking.trans (hrest.cons _)
  · refine (inside_sending List.mem_cons_self).trans ?_
    rw [List.erase_cons_head]
    exact hrest.cons _

theorem places_send (hchan : w.chanClosed = false) (hmem : buffer ∈ w.sending)
    (hplaces : (places w).Perm (.sending buffer :: others)) :
    (places (w.send buffer)).Perm (.unlocking :: others) := by
  have hrest := ((inside_sending hmem).symm.trans hplaces).cons_inv
  rw [SvrWriter.send_of_open hchan]
  exact inside_unlocking.trans (hrest.cons _)

omit [DecidableEq B] in
theorem places_runlock (hpos : 0 < w.unlocking) (hplaces : (places w).Perm (.unlocking :: others)) :
    (places { w with unlocking := w.unlocking - 1 }).Perm others := by
  unfold places at hplaces
  rw [← Nat.sub_add_cancel hpos] at hplaces
  exact (inside_unlocking.symm.trans hplaces).cons_inv

end Places

/-- What a request has of its writer. -/
def Stage.places : Stage → List (Place Bytes)
  | .entered buffer => [.entered buffer]
  | .sending buffer => [.sending buffer]
  | .unlocking _ => [.unlocking]
  | _ => []

/-- What the channel has taken for a request. -/
def Stage.queued : Stage → List Bytes
  | .unlocking queued | .answered _ _ queued => queued.toList
  | _ => []

/-- A part of the requests of one connection. -/
def State.on {α : Type} (st : State R M) (conn : ConnId) (part : Stage → List α) : List α :=
  st.jobs.flatMap fun job => if job.conn = conn then part job.stage else []

/-- Contexts and answers are in order, and what goes on inside the writers is what the requests
do there. -/
structure Inv (pb : WireFormat) (srv : Server R M) (cap : Nat) (st : State R M) : Prop where
  pool : ∀ rc ∈ st.pool, rc.Clean
  jobs : ∀ job ∈ st.jobs, job.Sound pb srv
  places : ∀ conn, (places (st.writers conn)).Perm (st.on conn Stage.places)
  accepted : ∀ conn, (st.writers conn).accepted.Perm (st.on conn Stage.queued)
  writers : ∀ conn, SvrWriter.Inv cap (st.writers conn)

/-- One request goes on.  What the others have of their writers stays the same. -/
theorem perm_on {α : Type} {part : Stage → List α} {held held' : ConnId → List α}
    {st' : State R M} {job' : Job R M} (h : ∀ conn, (held conn).Perm (st.on conn part))
    (hjob : st.jobs[i]? = some job) (hjobs : st'.jobs = st.jobs.set i job')
    (hconn : job'.conn = job.conn) (hothers : ∀ conn ≠ job.conn, held' conn = held conn)
    (hstep : ∀ others, (held job.conn).Perm (part job.stage ++ others) →
      (held' job.conn).Perm (part job'.stage ++ others)) (conn : ConnId) :
    (held' conn).Perm (st'.on conn part) := by
  obtain ⟨hi, rfl⟩ := List.getElem?_eq_some_iff.mp hjob
  have hbefore := (h conn).trans
    ((List.getElem_cons_eraseIdx_perm hi).symm.flatMap_right _)
  rw [State.on, hjobs]
  refine List.Perm.trans ?_ ((List.set_perm_cons_eraseIdx hi job').flatMap_right _).symm
  rw [List.flatMap_cons] at hbefore ⊢
  by_cases heq : conn = st.jobs[i].conn
  · subst heq
    rw [if_pos rfl] at hbefore
    rw [if_pos hconn]
    exact hstep _ hbefore
  · rw [if_neg (Ne.symm heq)] at hbefore
    rw [hothers conn heq, if_neg (hconn ▸ Ne.symm heq)]
    exact hbefore

/-- What a step of a request makes of the writers. -/
structure Shifts (job : Job R M) (stage : Stage) (writers writers' : ConnId → SvrWriter Bytes) :
    Prop where
  others : ∀ conn ≠ job.conn, writers' conn = writers conn
  places : ∀ others, (Server.places (writers job.conn)).Perm (job.stage.places ++ others) →
    (Server.places (writers' job.conn)).Perm (stage.places ++ others)
  accepted : ∀ others, (writers job.conn).accepted.Perm (job.stage.queued ++ others) →
    (writers' job.conn).accepted.Perm (stage.queued ++ others)

theorem Inv.setJob {st' : State R M} {job' : Job R M} (h : Inv pb srv cap st)
    (hjob : st.jobs[i]? = some job) (hjobs : st'.jobs = st.jobs.set i job')
    (hconn : job'.conn = job.conn) (hsound : job'.Sound pb srv)
    (hshifts : Shifts job job'.stage st.writers st'.writers) (hpool : ∀ rc ∈ st'.pool, rc.Clean)
    (hwriters : ∀ conn, SvrWriter.Inv cap (st'.writers conn)) : Inv pb srv cap st' where
  pool := hpool
  jobs := by
    rw [hjobs]
    intro other hother
    rcases List.mem_or_eq_of_mem_set hother with hold | rfl
    · exact h.jobs other hold
    · exact hsound
  places := perm_on h.places hjob hjobs hconn
    (fun conn hne => congrArg Server.places (hshifts.others conn hne)) hshifts.places
  accepted := perm_on h.accepted hjob hjobs hconn
    (fun conn hne => congrArg SvrWriter.accepted (hshifts.others conn hne)) hshifts.accepted
  writers := hwriters

/-- The pool gives clean contexts only. -/
theorem clean_get (hpool : ∀ rc ∈ st.pool, rc.Clean) (pooled : Option Nat) :
    (get st pooled).1.Clean ∧ ∀ rc ∈ (get st pooled).2, rc.Clean := by
  cases pooled with
  | none => exact ⟨Context.clean_new, hpool⟩
  | some i =>
    constructor
    · show (st.pool[i]?.getD {}).Clean
      cases hget : st.pool[i]? with
      | none => exact Context.clean_new
      | some rc => exact hpool rc (List.mem_of_getElem? hget)
    · exact fun rc hrc => hpool rc (List.mem_of_mem_eraseIdx hrc)

theorem Inv.handle (h : Inv pb srv cap st) (pooled : Option Nat) (conn : ConnId)
    (msg : RpcRequestMessage) : Inv pb srv cap (srv.handle st pooled conn msg) := by
  obtain ⟨hclean, hpool⟩ := clean_get h.pool pooled
  have hnone {α : Type} {part : Stage → List α} (hcalling : part .calling = [])
      (hreplying : part .replying = []) (c : ConnId) :
      (srv.handle st pooled conn msg).on c part = st.on c part := by
    have hpart : part (srv.handler (get st pooled).1 conn msg).stage = [] := by
      rcases handler_stage srv (get st pooled).1 conn msg with hstage | hstage
      all_goals rwa [hstage]
    show (if _ then _ else _) ++ st.on c part = st.on c part
    rw [hpart, ite_self, List.nil_append]
  refine ⟨hpool, ?_, fun c => ?_, fun c => ?_, h.writers⟩
  · exact List.forall_mem_cons.mpr ⟨sound_handler hclean conn msg, h.jobs⟩
  · exact (@hnone _ Stage.places rfl rfl c).symm ▸ h.places c
  · exact (@hnone _ Stage.queued rfl rfl c).symm ▸ h.accepted c

/-- A request that has nothing of its writer goes on without it. -/
theorem Shifts.still {stage : Stage} (hplaces : stage.places = job.stage.places)
    (hqueued : stage.queued = job.stage.queued) : Shifts job stage st.writers st.writers :=
  ⟨fun _ _ => rfl, fun _ h => hplaces ▸ h, fun _ h => hqueued ▸ h⟩

theorem Inv.ret (h : Inv pb srv cap st) (hjob : st.jobs[i]? = some job)
    (hstage : job.stage = .calling) (outcome : Outcome M) :
    Inv pb srv cap (Server.ret st i outcome) := by
  have hsound := h.jobs job (List.mem_of_getElem? hjob)
  simp only [Server.ret, hjob]
  exact h.setJob hjob rfl rfl (hsound.ret hstage outcome) (.still (hstage ▸ rfl) (hstage ▸ rfl))
    h.pool h.writers

theorem Inv.serialize (hpb : MarshalsAll pb) (h : Inv pb srv cap st) (hjob : st.jobs[i]? = some job)
    (hstage : job.stage = .replying) : Inv pb srv cap (serializeJob pb st i) := by
  have hsound := h.jobs job (List.mem_of_getElem? hjob)
  have hcalled := hsound.called (hstage ▸ nofun)
  simp only [serializeJob, hjob]
  rcases hsound.serialize hpb hstage (st.writers job.conn).active with
    ⟨hsilent, hnone⟩ | ⟨buffer, hready, hsome⟩
  · simp only [hnone]
    have honce : Once pb srv job.msg job.outcome (st.writers job.conn).active false none := by
      refine ⟨fun huntagged hactive _ => ?_, fun _ => rfl⟩
      rcases hsilent with htagged | hinactive
      · exact absurd htagged huntagged
      · exact absurd (hinactive.symm.trans hactive) Bool.false_ne_true
    exact h.setJob hjob rfl rfl ⟨hsound.toHolds, honce, fun _ => hcalled⟩
      (.still (hstage ▸ rfl) (hstage ▸ rfl))
      (List.forall_mem_cons.mpr ⟨Context.clean_put _, h.pool⟩) h.writers
  · simp only [hsome]
    exact h.setJob hjob rfl rfl ⟨hsound.toHolds, hready, fun _ => hcalled⟩
      (.still (hstage ▸ rfl) (hstage ▸ rfl)) h.pool h.writers

variable {a : SvrWriter.Action Bytes}

/-- A step of one writer keeps the invariants of all. -/
theorem writers_update (h : ∀ conn, SvrWriter.Inv cap (st.writers conn)) {conn : ConnId}
    (henabled : (SvrWriter.system cap).Enabled (st.writers conn) a) (c : ConnId) :
    SvrWriter.Inv cap ((st.atWriter cap conn a).writers c) := by
  by_cases heq : c = conn
  · subst heq
    show SvrWriter.Inv cap (Function.update st.writers c _ c)
    rw [Function.update_self]
    exact (h c).next a henabled
  · show SvrWriter.Inv cap (Function.update st.writers conn _ c)
    rw [Function.update_of_ne heq]
    exact h c

/-- A step of `writeBuffer` at its own writer. -/
theorem Shifts.update {stage : Stage}
    (hplaces : ∀ others, (Server.places (st.writers job.conn)).Perm (job.stage.places ++ others) →
      (Server.places ((SvrWriter.system cap).next (st.writers job.conn) a)).Perm
        (stage.places ++ others))
    (haccepted : ∀ others, (st.writers job.conn).accepted.Perm (job.stage.queued ++ others) →
      ((SvrWriter.system cap).next (st.writers job.conn) a).accepted.Perm
        (stage.queued ++ others)) :
    Shifts job stage st.writers (st.atWriter cap job.conn a).writers := by
  have hself : (st.atWriter cap job.conn a).writers job.conn =
      (SvrWriter.system cap).next (st.writers job.conn) a := Function.update_self ..
  refine ⟨fun conn hne => Function.update_of_ne hne _ _, ?_, ?_⟩
  all_goals rwa [hself]

theorem Inv.write (h : Inv pb srv cap st) (hjob : st.jobs[i]? = some job)
    (ha : job.stage.action = some a)
    (henabled : (SvrWriter.system cap).Enabled (st.writers job.conn) a) :
    Inv pb srv cap (writeBuffer cap st i) := by
  have hsound := h.jobs job (List.mem_of_getElem? hjob)
  have hwriters := writers_update h.writers henabled
  obtain ⟨conn, msg, rc, stage, outcome⟩ := job
  have hinv := h.writers conn
  simp only [writeBuffer, hjob]
  cases stage with
  | calling => cases ha
  | replying => cases ha
  | writing buffer =>
    cases ha
    exact h.setJob hjob rfl rfl ⟨hsound.toHolds, hsound.fits, fun _ => hsound.called nofun⟩
      (.update (fun _ hbefore => hbefore.cons _) fun _ hbefore => hbefore) h.pool hwriters
  | entered buffer =>
    cases ha
    have hplaces : ∀ others, _ := fun others => @places_checkClosed _ _ _ _ others henabled
    have haccepted : ((st.writers conn).checkClosed buffer).accepted =
        (st.writers conn).accepted := by
      unfold SvrWriter.checkClosed
      split <;> rfl
    cases hclosed : (st.writers conn).closed with
    | true =>
      simp only [hclosed, if_true] at hplaces ⊢
      exact h.setJob hjob rfl rfl ⟨hsound.toHolds, nofun, fun _ => hsound.called nofun⟩
        (.update hplaces fun _ hbefore => haccepted ▸ hbefore) h.pool hwriters
    | false =>
      simp only [hclosed, Bool.false_eq_true, if_false] at hplaces ⊢
      exact h.setJob hjob rfl rfl ⟨hsound.toHolds, hsound.fits, fun _ => hsound.called nofun⟩
        (.update hplaces fun _ hbefore => haccepted ▸ hbefore) h.pool hwriters
  | sending buffer =>
    cases ha
    have hopen : (st.writers conn).closed = false := by
      by_contra hclosed
      exact List.ne_nil_of_mem henabled.1 (hinv.quiet (Bool.eq_true_of_not_eq_false hclosed))
    have hchan := hinv.chan.trans hopen
    have hfits : ∀ sent, some buffer = some sent → Ready pb srv msg outcome sent := by
      rintro _ ⟨⟩
      exact hsound.fits
    refine h.setJob hjob rfl rfl ⟨hsound.toHolds, hfits, fun _ => hsound.called nofun⟩
      (.update (fun _ => places_send hchan henabled.1) fun others hbefore => ?_) h.pool hwriters
    show ((st.writers conn).send buffer).accepted.Perm _
    rw [SvrWriter.send_of_open hchan]
    exact (List.perm_append_singleton _ _).trans (hbefore.cons _)
  | unlocking queued =>
    cases ha
    have honce : Once pb srv msg outcome true queued.isNone queued := by
      cases queued with
      | none => exact ⟨(fun _ _ h => nomatch h), fun _ => rfl⟩
      | some buffer =>
        obtain ⟨huntagged, data, hmarshal, rfl⟩ := hsound.fits buffer rfl
        refine ⟨fun _ _ _ => ⟨data, hmarshal, rfl⟩, ?_⟩
        rintro (htagged | hinactive | hclosed)
        · exact absurd htagged huntagged
        · cases hinactive
        · cases hclosed
    exact h.setJob hjob rfl rfl ⟨hsound.toHolds, honce, fun _ => hsound.called nofun⟩
      (.update (fun _ => places_runlock henabled) fun _ hbefore => hbefore)
      (List.forall_mem_cons.mpr ⟨Context.clean_put _, h.pool⟩) hwriters
  | answered active closed queued => cases ha

theorem Inv.next (hpb : MarshalsAll pb) (h : Inv pb srv cap st) (a : Action M)
    (henabled : (system pb srv cap).Enabled st a) :
    Inv pb srv cap ((system pb srv cap).next st a) := by
  cases a with
  | handle pooled conn msg => exact h.handle pooled conn msg
  | forget i => exact { h with pool := fun rc hrc => h.pool rc (List.mem_of_mem_eraseIdx hrc) }
  | ret i outcome =>
    obtain ⟨job, hjob, hstage⟩ := henabled
    exact h.ret hjob hstage outcome
  | serialize i =>
    obtain ⟨job, hjob, hstage⟩ := henabled
    exact h.serialize hpb hjob hstage
  | write i =>
    obtain ⟨job, a, hjob, ha, henabled⟩ := henabled
    exact h.write hjob ha henabled
  | writer conn a =>
    obtain ⟨ha, henabled⟩ := henabled
    obtain ⟨hentered, hsending, hunlocking, haccepted⟩ :=
      (SvrWriter.next_frame cap (st.writers conn) a).handlers ha
    have hsame {α : Type} (part : SvrWriter Bytes → α)
        (hpart : part ((SvrWriter.system cap).next (st.writers conn) a) =
          part (st.writers conn)) (c : ConnId) :
        part ((st.atWriter cap conn a).writers c) = part (st.writers c) := by
      show part (Function.update st.writers conn _ c) = part (st.writers c)
      by_cases heq : c = conn
      · rw [heq, Function.update_self]
        exact hpart
      · rw [Function.update_of_ne heq]
    refine { h with
      places := fun c => ?_
      accepted := fun c => (hsame SvrWriter.accepted haccepted c).symm ▸ h.accepted c
      writers := writers_update h.writers henabled }
    refine (hsame Server.places ?_ c).symm ▸ h.places c
    rw [Server.places, hentered, hsending, hunlocking]
    rfl

/-! ## Where a request waits -/

end Server

end Gokit.Rpc
