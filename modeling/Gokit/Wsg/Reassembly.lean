/-
# Messages and their fragments

A client cuts a message into frames and may put pings and pongs between them.
This module says what a conversation is in those terms, what the server ought to
make of it, and exactly when it does.

The connection is first reduced to what matters for a conversation, its
`Progress`: the fragments collected, the messages pushed and the frames written.
A frame either adds to the progress or is refused, and whole conversations are
then a matter of lists.

Two things keep a message from being delivered.  A last fragment without payload
is taken like any other empty frame and does not send the message off.  And the
size limit is applied to control frames as well, on top of the fragments that
are waiting.
-/

import Gokit.Wsg.Codec

namespace Gokit.Wsg

open Gokit.Math

/-! ## Conversations -/

/-- A frame as a client sends it. -/
structure ClientFrame where
  fin : Bool
  opCode : UInt8
  key : Vector UInt8 4
  payload : Bytes
  deriving DecidableEq, Repr

namespace ClientFrame

def head (f : ClientFrame) : WsHead :=
  { fin := f.fin, opCode := f.opCode, masked := true,
    length := Int64.ofNat f.payload.length, mask := f.key }

def encode (f : ClientFrame) : Bytes := headBuff f.head ++ maskWsPayload f.key f.payload

end ClientFrame

inductive ControlKind
  | ping
  | pong
  deriving DecidableEq, Repr

def ControlKind.opCode : ControlKind → UInt8
  | .ping => opPing
  | .pong => opPong

/-- A ping or a pong, of the size a control frame may have. -/
structure Control where
  kind : ControlKind
  key : Vector UInt8 4
  payload : Bytes
  short : payload.length ≤ 125

def Control.frame (c : Control) : ClientFrame := ⟨true, c.kind.opCode, c.key, c.payload⟩

/-- A piece of a message, with the control frames sent before it. -/
structure Fragment where
  controls : List Control
  key : Vector UInt8 4
  payload : Bytes

def content (fragments : List Fragment) : Bytes := fragments.flatMap Fragment.payload

/-- A message that is not empty. -/
structure Message where
  fragments : List Fragment
  content_ne_nil : content fragments ≠ []

/-- The frames of a message from some fragment on: the first is binary, the
others continue it, and the last one says so. -/
def fragmentFrames (opCode : UInt8) : List Fragment → List ClientFrame
  | [] => []
  | fragment :: rest =>
    fragment.controls.map Control.frame ++
      ⟨rest.isEmpty, opCode, fragment.key, fragment.payload⟩ ::
        fragmentFrames opContinuation rest

/-- What a client sends: messages, and control frames behind the last of them. -/
structure Conversation where
  messages : List Message
  trailing : List Control

namespace Conversation

def frames (talk : Conversation) : List ClientFrame :=
  talk.messages.flatMap (fun m => fragmentFrames opBinary m.fragments) ++
    talk.trailing.map Control.frame

def bytes (talk : Conversation) : Bytes := talk.frames.flatMap ClientFrame.encode

end Conversation

/-- The frame that answers a ping. -/
def pongFrame (payload : Bytes) : Bytes :=
  headBuff { fin := true, opCode := opPong, length := Int64.ofNat payload.length } ++ payload

/-- The answers to a sequence of control frames: one pong for every ping. -/
def pongs (controls : List Control) : List Bytes :=
  (controls.filter (·.kind = .ping)).map fun c => pongFrame c.payload

def fragmentPongs (fragments : List Fragment) : List Bytes :=
  fragments.flatMap fun fragment => pongs fragment.controls

/-- **What reassembly is for**: every message has been pushed, once, in order and
whole; every ping has been answered by a pong with its payload, and nothing else
has been written; no fragment is left. -/
structure Conversation.Reassembled (talk : Conversation) (conn : Conn) : Prop where
  pushed : conn.pushed = talk.messages.map fun m => content m.fragments
  written : conn.written =
    talk.messages.flatMap (fun m => fragmentPongs m.fragments) ++ pongs talk.trailing
  buff : conn.buff = none

/-- The payload of the last fragment. -/
def lastPayload : List Fragment → Bytes
  | [] => []
  | [fragment] => fragment.payload
  | _ :: rest => lastPayload rest

/-- A payload of `size` bytes passes the size check while `buffered` bytes are
waiting; an empty payload is not checked. -/
def Fits (srv : Server) (buffered size : Nat) : Prop :=
  0 < size → Int64.ofNat size + Int64.ofNat buffered ≤ srv.maxPayloadSize

instance (srv : Server) (buffered size : Nat) : Decidable (Fits srv buffered size) :=
  inferInstanceAs (Decidable (_ → _))

/-- Every control frame passes the size check while `buffered` bytes are waiting. -/
def ControlsFit (srv : Server) (buffered : Nat) (controls : List Control) : Prop :=
  ∀ c ∈ controls, Fits srv buffered c.payload.length

instance (srv : Server) (buffered : Nat) (controls : List Control) :
    Decidable (ControlsFit srv buffered controls) :=
  inferInstanceAs (Decidable (∀ c ∈ controls, Fits srv buffered c.payload.length))

/-- Every control frame of a message passes the size check on top of the
fragments sent before it. -/
def FragmentsFit (srv : Server) : Nat → List Fragment → Prop
  | _, [] => True
  | buffered, fragment :: rest =>
    ControlsFit srv buffered fragment.controls ∧
      FragmentsFit srv (buffered + fragment.payload.length) rest

instance FragmentsFit.decidable (srv : Server) :
    ∀ buffered fragments, Decidable (FragmentsFit srv buffered fragments)
  | _, [] => isTrue trivial
  | buffered, fragment :: rest =>
    have := FragmentsFit.decidable srv (buffered + fragment.payload.length) rest
    inferInstanceAs (Decidable (_ ∧ _))

/-- The conversations that come through: every message ends with a fragment that
carries something, and no control frame exceeds the limit together with the
fragments in front of it. -/
structure Conversation.Sound (srv : Server) (talk : Conversation) : Prop where
  last : ∀ m ∈ talk.messages, lastPayload m.fragments ≠ []
  fits : ∀ m ∈ talk.messages, FragmentsFit srv 0 m.fragments
  trailing : ControlsFit srv 0 talk.trailing

/-! ## Progress -/

/-- What a conversation is about, of a connection. -/
structure Progress where
  buff : Option Bytes := none
  pushed : List Bytes := []
  written : List Bytes := []

def Conn.progress (conn : Conn) : Progress := ⟨conn.buff, conn.pushed, conn.written⟩

namespace Progress

/-- The bytes that wait for the rest of their message. -/
def waiting (p : Progress) : Bytes := p.buff.getD []

/-- A frame that is accepted. -/
def accept (p : Progress) (f : ClientFrame) : Progress :=
  if f.opCode = opPing then { p with written := p.written ++ [pongFrame f.payload] }
  else if f.opCode = opPong then p
  else if f.payload = [] then p
  else if f.fin then { p with buff := none, pushed := p.pushed ++ [p.waiting ++ f.payload] }
  else { p with buff := some (p.waiting ++ f.payload) }

/-- The first of the two writes that refuse a frame for its size. -/
def refusal : Bytes :=
  headBuff { fin := true, opCode := opClose,
             length := Int64.ofNat (2 + WsError.errPayloadTooLarge.text.toUTF8.toList.length) }

/-- A frame that is refused for its size. -/
def refuse (p : Progress) : Progress :=
  { p with
    written := p.written ++ [refusal,
      (makeWsClosePayload 1009 WsError.errPayloadTooLarge.text.toUTF8.toList).getD []] }

/-- A sequence of frames, up to the first that is refused, and whether there was
none. -/
def run (srv : Server) : List ClientFrame → Progress → Progress × Bool
  | [], p => (p, true)
  | f :: rest, p =>
    if Fits srv p.waiting.length f.payload.length then run srv rest (p.accept f)
    else (p.refuse, false)

end Progress

/-! ## One frame -/

/-- The frames a conversation is made of. -/
structure ClientFrame.Proper (f : ClientFrame) : Prop where
  opCode : f.opCode ∈ [opBinary, opContinuation, opPing, opPong]
  control : isControlOp f.opCode = true → f.fin = true ∧ f.payload.length ≤ 125
  size : f.payload.length < 2 ^ 63

variable {f : ClientFrame}

theorem ClientFrame.Proper.head_length (hf : f.Proper) :
    f.head.length.toInt = f.payload.length := Int64.toInt_ofNat_of_lt hf.size

theorem ClientFrame.Proper.opCode_cases (hf : f.Proper) :
    f.opCode = opBinary ∨ f.opCode = opContinuation ∨ f.opCode = opPing ∨ f.opCode = opPong := by
  simpa using hf.opCode

theorem ClientFrame.Proper.encodable (hf : f.Proper) : f.head.Encodable where
  rsv := by
    show (0 : UInt8) < 8
    decide
  opCode := by
    rcases hf.opCode_cases with h | h | h | h
    all_goals
      show f.opCode < 16
      rw [h]
      decide
  length := by
    apply Int64.le_iff_toInt_le.mpr
    rw [hf.head_length]
    exact Int.natCast_nonneg _
  mask := nofun

namespace Conn

variable {srv : Server} (conn : Conn) {f : ClientFrame}

/-- A fragment joins those that are waiting, and a last one takes them along. -/
theorem collect_progress (hping : f.opCode ≠ opPing) (hpong : f.opCode ≠ opPong) :
    (conn.collect f.head f.payload).progress = conn.progress.accept f := by
  unfold collect Progress.accept
  rw [if_neg hping, if_neg hpong]
  by_cases hempty : f.payload = []
  · simp [hempty]
  · have hpositive : f.payload.length > 0 := List.length_pos_iff.mpr hempty
    rw [if_pos hpositive, if_neg hempty]
    cases hfin : f.fin with
    | true => simp [ClientFrame.head, hfin, progress, Progress.waiting]
    | false => simp [ClientFrame.head, hfin, progress, Progress.waiting]

/-- A control frame of a conversation is answered and does not end it. -/
theorem processOpFrame_progress (hwrites : ∀ written, srv.writeFails written = false)
    (hfin : f.fin = true) (hshort : f.payload.length ≤ 125)
    (hop : f.opCode = opPing ∨ f.opCode = opPong) :
    ∃ conn', conn.processOpFrame srv f.head f.payload = (conn', none) ∧
      conn'.inbound = conn.inbound ∧ conn'.progress = conn.progress.accept f := by
  have hlong : ¬ f.payload.length > 125 := Nat.not_lt.mpr hshort
  unfold processOpFrame Progress.accept
  rcases hop with hping | hpong
  · have hclose : f.head.opCode ≠ opClose := by
      show f.opCode ≠ opClose
      rw [hping]
      decide
    have hfinHead : f.head.fin = true := hfin
    have hopHead : f.head.opCode = opPing := hping
    rw [hfinHead, if_neg (by decide), if_neg hclose, if_pos hopHead, if_neg hlong, if_pos hping]
    unfold innerSendWsOpFrame
    by_cases hempty : f.payload = []
    · simp [hempty, write, hwrites, progress, pongFrame]
    · have hne : ¬ f.payload.length = 0 := fun h => hempty (List.eq_nil_of_length_eq_zero h)
      simp [hne, write, hwrites, progress, pongFrame]
  · have hclose : f.head.opCode ≠ opClose ∧ f.head.opCode ≠ opPing := by
      show f.opCode ≠ opClose ∧ f.opCode ≠ opPing
      rw [hpong]
      decide
    have hfinHead : f.head.fin = true := hfin
    have hping : ¬ f.opCode = opPing := hclose.2
    rw [hfinHead, if_neg (by decide), if_neg hclose.1, if_neg hclose.2, if_neg hping, if_pos hpong]
    exact ⟨conn, rfl, rfl, rfl⟩

/-- A payload that was read and unmasked takes the progress on. -/
theorem dispatch_progress (hwrites : ∀ written, srv.writeFails written = false) (hf : f.Proper) :
    ∃ conn', conn.dispatch srv f.head f.payload = (conn', .next) ∧
      conn'.wsHeadOk = false ∧ conn'.wsHeadLen = 0 ∧ conn'.inbound = conn.inbound ∧
      conn'.progress = conn.progress.accept f := by
  have hkind : isControlOp f.opCode = decide (f.opCode = opPing ∨ f.opCode = opPong) := by
    rcases hf.opCode_cases with h | h | h | h
    all_goals
      rw [h]
      decide
  unfold dispatch
  by_cases hcontrol : f.opCode = opPing ∨ f.opCode = opPong
  · rw [decide_eq_true hcontrol] at hkind
    have hlimits := hf.control hkind
    have hkindHead : isControlOp f.head.opCode = true := hkind
    obtain ⟨conn', hprocess, hinbound, hprogress⟩ :=
      processOpFrame_progress conn hwrites hlimits.1 hlimits.2 hcontrol
    rw [if_pos hkindHead, hprocess]
    exact ⟨conn'.reset, rfl, rfl, rfl, hinbound, hprogress⟩
  · rw [decide_eq_false hcontrol] at hkind
    have hdata := not_or.mp hcontrol
    have hnot : ¬ isControlOp f.head.opCode = true := by
      show ¬ isControlOp f.opCode = true
      simp [hkind]
    rw [if_neg hnot]
    exact ⟨_, rfl, rfl, rfl, collect_inbound .., collect_progress conn hdata.1 hdata.2⟩

/-- A frame is too large for the connection exactly if it does not fit behind
the fragments that are waiting. -/
theorem tooLarge_iff :
    conn.tooLarge srv f.head = true ↔
      ¬ Int64.ofNat f.payload.length + Int64.ofNat conn.progress.waiting.length ≤
        srv.maxPayloadSize := by
  unfold tooLarge
  rw [decide_eq_true_iff, gt_iff_lt, ← Int64.not_le]
  rfl

/-- The payload of a frame whose header is complete. -/
theorem readPayload_progress (hwrites : ∀ written, srv.writeFails written = false) (hf : f.Proper)
    {rest : Bytes} (hinbound : conn.inbound = maskWsPayload f.key f.payload ++ rest) :
    (Fits srv conn.progress.waiting.length f.payload.length ∧
      ∃ conn', conn.readPayload srv f.head = (conn', .next) ∧
        conn'.wsHeadOk = false ∧ conn'.wsHeadLen = 0 ∧ conn'.inbound = rest ∧
        conn'.progress = conn.progress.accept f) ∨
    (¬ Fits srv conn.progress.waiting.length f.payload.length ∧
      ∃ conn', conn.readPayload srv f.head = (conn', .fail .errPayloadTooLarge) ∧
        conn'.progress = conn.progress.refuse) := by
  have hlength := hf.head_length
  have hpositive : 0 < f.head.length ↔ 0 < f.payload.length := by
    rw [Int64.lt_iff_toInt_lt, hlength]
    exact Int.natCast_pos
  unfold readPayload
  by_cases hempty : 0 < f.payload.length
  · rw [if_pos (hpositive.mpr hempty)]
    by_cases hlarge : conn.tooLarge srv f.head = true
    · right
      rw [if_pos hlarge]
      refine ⟨fun hfits => (tooLarge_iff conn).mp hlarge (hfits hempty), _, rfl, ?_⟩
      simp [replyWsError, write, hwrites, progress, Progress.refuse, Progress.refusal]
    · left
      rw [if_neg hlarge]
      have hbytes : f.head.length.toInt.toNat = (maskWsPayload f.key f.payload).length := by
        rw [hlength, length_maskWsPayload, Int.toNat_natCast]
      have henough : (maskWsPayload f.key f.payload).length ≤ conn.inbound.length := by
        rw [hinbound, List.length_append]
        exact Nat.le_add_right _ _
      have htake : conn.inbound.take (maskWsPayload f.key f.payload).length =
          maskWsPayload f.key f.payload := by
        rw [hinbound, List.take_left]
      have hunmask : maskWsPayload f.head.mask (maskWsPayload f.key f.payload) = f.payload :=
        maskWsPayload_maskWsPayload f.key f.payload
      have hrest : (conn.discard (maskWsPayload f.key f.payload).length).inbound = rest := by
        simp only [discard, hinbound, List.drop_left]
      rw [hbytes, next_of_le henough, htake]
      simp only [hunmask]
      obtain ⟨conn', hdispatch, hok, hlen, hafter, hprogress⟩ :=
        dispatch_progress (conn.discard (maskWsPayload f.key f.payload).length) hwrites hf
      refine ⟨fun _ => not_not.mp fun h => hlarge ((tooLarge_iff conn).mpr h), conn', hdispatch,
        hok, hlen, hafter.trans hrest, hprogress⟩
  · left
    have hnil : f.payload = [] := List.eq_nil_of_length_eq_zero (by omega)
    rw [if_neg (fun h => hempty (hpositive.mp h))]
    obtain ⟨conn', hdispatch, hok, hlen, hafter, hprogress⟩ := dispatch_progress conn hwrites hf
    rw [hnil] at hdispatch hinbound
    exact ⟨fun h => absurd h hempty, conn', hdispatch, hok, hlen, hafter.trans hinbound, hprogress⟩

/-- **One frame of a conversation**, on a connection that is between two frames:
it is accepted or refused, and nothing else changes the progress. -/
theorem frame_progress (pool : WsHeadPool) (hwrites : ∀ written, srv.writeFails written = false)
    (hf : f.Proper) {rest : Bytes} (hok : conn.wsHeadOk = false) (hlen : conn.wsHeadLen = 0)
    (hinbound : conn.inbound = f.encode ++ rest) :
    (Fits srv conn.progress.waiting.length f.payload.length ∧
      ∃ conn', conn.frame srv pool = .ok (conn', .next) ∧
        conn'.wsHeadOk = false ∧ conn'.wsHeadLen = 0 ∧ conn'.inbound = rest ∧
        conn'.progress = conn.progress.accept f) ∨
    (¬ Fits srv conn.progress.waiting.length f.payload.length ∧
      ∃ conn', conn.frame srv pool = .ok (conn', .fail .errPayloadTooLarge) ∧
        conn'.progress = conn.progress.refuse) := by
  have hfront : conn.inbound = headBuff f.head ++ (maskWsPayload f.key f.payload ++ rest) := by
    rw [hinbound, ClientFrame.encode, List.append_assoc]
  have hread := readWsHeader_headBuff pool hf.encodable hlen hfront
  have htext : ¬ f.head.opCode = opText := by
    show ¬ f.opCode = opText
    rcases hf.opCode_cases with h | h | h | h
    all_goals
      rw [h]
      decide
  have hmasked : f.head.masked = true := rfl
  -- the progress of the connection is not touched by its header
  have hframe : conn.frame srv pool = .ok (({ conn with
      wsHeadOk := true
      wsHead := some f.head
      wsHeadLen := (headBuff f.head).length
      inbound := maskWsPayload f.key f.payload ++ rest
      consumed := conn.consumed ++ headBuff f.head } : Conn).readPayload srv f.head) := by
    simp only [frame, hok, Bool.not_false, if_true, hread, Exec.ok_bind, acceptHead, hmasked,
      Bool.not_true, Bool.false_eq_true, htext, if_false]
  rcases readPayload_progress { conn with
      wsHeadOk := true
      wsHead := some f.head
      wsHeadLen := (headBuff f.head).length
      inbound := maskWsPayload f.key f.payload ++ rest
      consumed := conn.consumed ++ headBuff f.head } hwrites hf rfl with haccept | hrefuse
  · obtain ⟨hfits, conn', hpayload, hafter⟩ := haccept
    exact .inl ⟨hfits, conn', hframe.trans (congrArg Except.ok hpayload), hafter⟩
  · obtain ⟨hfits, conn', hpayload, hafter⟩ := hrefuse
    exact .inr ⟨hfits, conn', hframe.trans (congrArg Except.ok hpayload), hafter⟩

/-- **The frames of a conversation, one after the other.** A call that finds all
of them in the buffer makes the progress of the whole sequence. -/
theorem runs_progress (pool : WsHeadPool) (hwrites : ∀ written, srv.writeFails written = false)
    {frames : List ClientFrame} (hframes : ∀ f ∈ frames, f.Proper) (hok : conn.wsHeadOk = false)
    (hlen : conn.wsHeadLen = 0) (hinbound : conn.inbound = frames.flatMap ClientFrame.encode) :
    ∃ out, (frameReader srv pool).Runs conn out ∧
      out.1.progress = (Progress.run srv frames conn.progress).1 := by
  induction frames generalizing conn with
  | nil =>
    refine ⟨(conn, none), .wait ?_, rfl⟩
    show conn.frame srv pool = .ok (conn, .wait)
    simp [frame, hok, readWsHeader, hlen, peek, hinbound]
  | cons f rest ih =>
    rw [List.flatMap_cons] at hinbound
    unfold Progress.run
    rcases frame_progress conn pool hwrites (hframes f List.mem_cons_self) hok hlen hinbound with
      haccept | hrefuse
    · obtain ⟨hfits, conn', hframe, hok', hlen', hinbound', hprogress⟩ := haccept
      obtain ⟨out, hruns, hout⟩ :=
        ih conn' (fun g hg => hframes g (List.mem_cons_of_mem f hg)) hok' hlen' hinbound'
      rw [if_pos hfits, ← hprogress]
      exact ⟨out, .next hframe hruns, hout⟩
    · obtain ⟨hfits, conn', hframe, hprogress⟩ := hrefuse
      rw [if_neg hfits]
      exact ⟨(conn', some .errPayloadTooLarge), .fail hframe, hprogress⟩

end Conn

/-! ## Sequences of frames -/

namespace Progress

variable {srv : Server}

theorem run_append (frames later : List ClientFrame) (p : Progress) :
    run srv (frames ++ later) p =
      if (run srv frames p).2 then run srv later (run srv frames p).1 else run srv frames p := by
  induction frames generalizing p with
  | nil => rfl
  | cons f rest ih =>
    simp only [List.cons_append, run]
    by_cases hfits : Fits srv p.waiting.length f.payload.length
    · simp only [if_pos hfits, ih]
    · simp only [if_neg hfits, Bool.false_eq_true, if_false]

/-- The frames lead from `p` to `q` if `fits` holds, and are not all accepted
otherwise. -/
structure Leads (srv : Server) (frames : List ClientFrame) (p : Progress) (fits : Prop)
    (q : Progress) : Prop where
  through : fits → run srv frames p = (q, true)
  stuck : ¬ fits → (run srv frames p).2 = false

theorem Leads.nil (p : Progress) : Leads srv [] p True p where
  through _ := rfl
  stuck hfalse := absurd trivial hfalse

theorem Leads.single (f : ClientFrame) (p : Progress) :
    Leads srv [f] p (Fits srv p.waiting.length f.payload.length) (p.accept f) where
  through hfits := if_pos hfits
  stuck hfits := by
    simp only [run, if_neg hfits]

variable {p : Progress}

theorem Leads.append {frames later : List ClientFrame} {q r : Progress} {fits fits' : Prop}
    (hleads : Leads srv frames p fits q) (hleads' : Leads srv later q fits' r) :
    Leads srv (frames ++ later) p (fits ∧ fits') r where
  through hboth := by
    simp only [run_append, hleads.through hboth.1, hleads'.through hboth.2, if_true]
  stuck hnot := by
    rw [run_append]
    by_cases hfits : fits
    · have hlater := hleads'.stuck fun h => hnot ⟨hfits, h⟩
      simp only [hleads.through hfits, hlater, if_true]
    · simp only [hleads.stuck hfits, Bool.false_eq_true, if_false]

theorem Leads.congr {frames : List ClientFrame} {q : Progress} {fits fits' : Prop}
    (hleads : Leads srv frames p fits q) (hiff : fits ↔ fits') : Leads srv frames p fits' q where
  through hfits := hleads.through (hiff.mpr hfits)
  stuck hfits := hleads.stuck fun h => hfits (hiff.mp h)

theorem Leads.controls (controls : List Control) (p : Progress) :
    Leads srv (controls.map Control.frame) p (ControlsFit srv p.waiting.length controls)
      { p with written := p.written ++ pongs controls } := by
  induction controls generalizing p with
  | nil =>
    have hnil : Leads srv [] p True p := Leads.nil p
    simpa [pongs, ControlsFit] using hnil
  | cons c rest ih =>
    have hstep : p.accept c.frame = { p with written := p.written ++ pongs [c] } := by
      cases hkind : c.kind with
      | ping => simp [accept, Control.frame, ControlKind.opCode, hkind, pongs]
      | pong => simp [accept, Control.frame, ControlKind.opCode, hkind, pongs, opPong, opPing]
    have hfirst : Leads srv [c.frame] p _ _ := Leads.single c.frame p
    rw [hstep] at hfirst
    have hpongs : p.written ++ pongs [c] ++ pongs rest = p.written ++ pongs (c :: rest) := by
      rw [List.append_assoc]
      congr 1
      cases hkind : c.kind with
      | ping => simp [pongs, hkind]
      | pong => simp [pongs, hkind]
    rw [← hpongs]
    apply (hfirst.append (ih _)).congr
    simp [ControlsFit, Control.frame, waiting]

/-- A fragment fits if the message it belongs to does. -/
theorem fits_of_le {buffered size : Nat}
    (hle : ((buffered + size : Nat) : Int) ≤ srv.maxPayloadSize.toInt) :
    Fits srv buffered size := by
  intro _
  have hhigh := srv.maxPayloadSize.toInt_lt
  have hsize : (Int64.ofNat size).toInt = size := Int64.toInt_ofNat_of_lt (by omega)
  have hbuffered : (Int64.ofNat buffered).toInt = buffered := Int64.toInt_ofNat_of_lt (by omega)
  rw [Int64.le_iff_toInt_le, toInt_add_of_fits (by omega) (by omega), hsize, hbuffered]
  omega

variable {opCode : UInt8}

/-- A fragment that is not the last one joins those that are waiting. -/
theorem accept_fragment (hping : opCode ≠ opPing) (hpong : opCode ≠ opPong) (key : Vector UInt8 4)
    (payload : Bytes) (p : Progress) :
    (p.accept ⟨false, opCode, key, payload⟩).waiting = p.waiting ++ payload ∧
      (p.accept ⟨false, opCode, key, payload⟩).pushed = p.pushed ∧
      (p.accept ⟨false, opCode, key, payload⟩).written = p.written := by
  unfold accept
  by_cases hempty : payload = []
  · simp [hping, hpong, hempty, waiting]
  · simp [hping, hpong, hempty, waiting]

/-- The last fragment of a message, if it carries something, sends it off. -/
theorem accept_last (hping : opCode ≠ opPing) (hpong : opCode ≠ opPong) (key : Vector UInt8 4)
    {payload : Bytes} (hpayload : payload ≠ []) (p : Progress) :
    p.accept ⟨true, opCode, key, payload⟩ =
      { p with buff := none, pushed := p.pushed ++ [p.waiting ++ payload] } := by
  simp [accept, hping, hpong, hpayload]

/-- **The fragments of one message**, behind some that are waiting already. -/
theorem Leads.fragments (hping : opCode ≠ opPing) (hpong : opCode ≠ opPong)
    {fragments : List Fragment} (hlast : lastPayload fragments ≠ []) (p : Progress)
    (hroom : ((p.waiting.length + (content fragments).length : Nat) : Int) ≤
      srv.maxPayloadSize.toInt) :
    Leads srv (fragmentFrames opCode fragments) p
      (FragmentsFit srv p.waiting.length fragments)
      { buff := none
        pushed := p.pushed ++ [p.waiting ++ content fragments]
        written := p.written ++ fragmentPongs fragments } := by
  induction fragments generalizing opCode p with
  | nil => exact absurd rfl hlast
  | cons fragment rest ih =>
    have hlength : (content (fragment :: rest)).length =
        fragment.payload.length + (content rest).length := by
      simp [content]
    rw [hlength] at hroom
    have hfits : Fits srv p.waiting.length fragment.payload.length := by
      apply fits_of_le
      omega
    have hcontrols : Leads srv (fragment.controls.map Control.frame) p _ _ :=
      Leads.controls fragment.controls p
    have hdata : Leads srv [_] { p with written := p.written ++ pongs fragment.controls } _ _ :=
      Leads.single ⟨rest.isEmpty, opCode, fragment.key, fragment.payload⟩ _
    have hfront := hcontrols.append hdata
    cases rest with
    | nil =>
      have hpayload : fragment.payload ≠ [] := hlast
      rw [List.isEmpty_nil, accept_last hping hpong fragment.key hpayload] at hfront
      have hend : Leads srv (fragmentFrames opCode [fragment]) p _ _ := hfront
      have hiff : FragmentsFit srv p.waiting.length [fragment] ↔
          ControlsFit srv p.waiting.length fragment.controls ∧
            Fits srv p.waiting.length fragment.payload.length := by
        simp [FragmentsFit, hfits]
      have hcontent : content [fragment] = fragment.payload := by simp [content]
      have hpongs : fragmentPongs [fragment] = pongs fragment.controls := by simp [fragmentPongs]
      rw [hcontent, hpongs]
      exact hend.congr hiff.symm
    | cons second others =>
      obtain ⟨hwaiting, hpushed, hwritten⟩ := accept_fragment hping hpong fragment.key
        fragment.payload { p with written := p.written ++ pongs fragment.controls }
      have hkinds : opContinuation ≠ opPing ∧ opContinuation ≠ opPong := by decide
      have hrest := ih hkinds.1 hkinds.2 hlast (accept { p with
        written := p.written ++ pongs fragment.controls }
          ⟨false, opCode, fragment.key, fragment.payload⟩) (by
        rw [hwaiting, List.length_append]
        show ((p.waiting.length + fragment.payload.length + _ : Nat) : Int) ≤ _
        omega)
      have hall := hfront.append hrest
      rw [hwaiting, hpushed, hwritten, List.length_append, List.append_assoc] at hall
      have hcontent : p.waiting ++ content (fragment :: second :: others) =
          p.waiting ++ fragment.payload ++ content (second :: others) := by
        simp [content]
      have hpongs : p.written ++ fragmentPongs (fragment :: second :: others) =
          p.written ++ pongs fragment.controls ++ fragmentPongs (second :: others) := by
        simp [fragmentPongs]
      rw [hcontent, hpongs]
      apply hall.congr
      exact ⟨fun h => ⟨h.1.1, h.2⟩, fun h => ⟨⟨h.1, hfits⟩, h.2⟩⟩

/-- The messages of a conversation, from a connection with nothing waiting. -/
theorem Leads.messages {messages : List Message}
    (hlast : ∀ m ∈ messages, lastPayload m.fragments ≠ []) (hsize : ∀ m ∈ messages,
      ((content m.fragments).length : Int) ≤ srv.maxPayloadSize.toInt) (hbuff : p.buff = none) :
    Leads srv (messages.flatMap fun m => fragmentFrames opBinary m.fragments) p
      (∀ m ∈ messages, FragmentsFit srv 0 m.fragments)
      { buff := none
        pushed := p.pushed ++ messages.map fun m => content m.fragments
        written := p.written ++ messages.flatMap fun m => fragmentPongs m.fragments } := by
  induction messages generalizing p with
  | nil =>
    have hnil : Leads srv [] p True p := Leads.nil p
    simpa [← hbuff] using hnil
  | cons m rest ih =>
    have hwaiting : p.waiting = [] := by simp [waiting, hbuff]
    have hkinds : opBinary ≠ opPing ∧ opBinary ≠ opPong := by decide
    have hroom := hsize m List.mem_cons_self
    have hfirst := Leads.fragments hkinds.1 hkinds.2 (hlast m List.mem_cons_self) p
      (by rw [hwaiting, List.length_nil, Nat.zero_add]; exact hroom)
    rw [hwaiting, List.length_nil, List.nil_append] at hfirst
    have hothers := ih (fun m hm => hlast m (List.mem_cons_of_mem _ hm))
      (fun m hm => hsize m (List.mem_cons_of_mem _ hm))
      (p := { buff := none, pushed := p.pushed ++ [content m.fragments]
              written := p.written ++ fragmentPongs m.fragments }) rfl
    have hall := hfirst.append hothers
    simpa [List.append_assoc] using hall

end Progress

/-! ## Broken conversations -/

/-- A frame that sends a message off. -/
def ClientFrame.flushes (f : ClientFrame) : Bool :=
  decide (f.fin = true ∧ f.opCode ≠ opPing ∧ f.opCode ≠ opPong ∧ f.payload ≠ [])

namespace Progress

variable {srv : Server}

theorem length_accept_pushed (f : ClientFrame) (p : Progress) :
    (p.accept f).pushed.length ≤ p.pushed.length + if f.flushes then 1 else 0 := by
  unfold accept
  by_cases hping : f.opCode = opPing
  · simp [hping]
  · by_cases hpong : f.opCode = opPong
    · simp [hpong, opPong, opPing]
    · by_cases hempty : f.payload = []
      · simp [hping, hpong, hempty]
      · cases hfin : f.fin with
        | true => simp [hping, hpong, hempty, ClientFrame.flushes, hfin]
        | false => simp [hping, hpong, hempty]

/-- At most the frames that can send a message off have done so. -/
theorem length_run_pushed (frames : List ClientFrame) (p : Progress) :
    (run srv frames p).1.pushed.length ≤
      p.pushed.length + frames.countP ClientFrame.flushes := by
  induction frames generalizing p with
  | nil => exact Nat.le_refl _
  | cons f rest ih =>
    unfold run
    by_cases hfits : Fits srv p.waiting.length f.payload.length
    · rw [if_pos hfits, List.countP_cons]
      have hstep := length_accept_pushed f p
      have hrest := ih (p.accept f)
      omega
    · rw [if_neg hfits]
      exact Nat.le_add_right _ _

/-- A sequence of frames that is not accepted to its end is answered by a
refusal. -/
theorem refusal_mem_run {frames : List ClientFrame} {p : Progress}
    (hstuck : (run srv frames p).2 = false) : refusal ∈ (run srv frames p).1.written := by
  induction frames generalizing p with
  | nil => cases hstuck
  | cons f rest ih =>
    unfold run at hstuck ⊢
    by_cases hfits : Fits srv p.waiting.length f.payload.length
    · rw [if_pos hfits] at hstuck ⊢
      exact ih hstuck
    · rw [if_neg hfits]
      simp [refuse]

/-- A refusal is a close frame, not a pong. -/
theorem refusal_ne_pongFrame (payload : Bytes) : refusal ≠ pongFrame payload := by
  intro heq
  obtain ⟨tail, hclose⟩ := headBuff_cons
    { fin := true, opCode := opClose,
      length := Int64.ofNat (2 + WsError.errPayloadTooLarge.text.toUTF8.toList.length) }
  obtain ⟨tail', hpong⟩ := headBuff_cons
    { fin := true, opCode := opPong, length := Int64.ofNat payload.length }
  rw [refusal, pongFrame, hclose, hpong, List.cons_append, List.cons.injEq] at heq
  have hbytes : ((0x80 : UInt8) ||| ((0 : UInt8) <<< (4 : UInt8)) ||| opClose) ≠
      ((0x80 : UInt8) ||| ((0 : UInt8) <<< (4 : UInt8)) ||| opPong) := by
    decide
  exact hbytes heq.1

end Progress

theorem mem_pongs {controls : List Control} {bts : Bytes} (hmem : bts ∈ pongs controls) :
    ∃ payload, bts = pongFrame payload := by
  obtain ⟨c, -, rfl⟩ := List.mem_map.mp hmem
  exact ⟨c.payload, rfl⟩

theorem mem_fragmentPongs {fragments : List Fragment} {bts : Bytes}
    (hmem : bts ∈ fragmentPongs fragments) : ∃ payload, bts = pongFrame payload := by
  obtain ⟨fragment, -, hpong⟩ := List.mem_flatMap.mp hmem
  exact mem_pongs hpong

theorem countP_flushes_controls (controls : List Control) :
    (controls.map Control.frame).countP ClientFrame.flushes = 0 := by
  rw [List.countP_eq_zero]
  intro f hf
  obtain ⟨c, -, rfl⟩ := List.mem_map.mp hf
  cases hkind : c.kind with
  | ping => simp [ClientFrame.flushes, Control.frame, hkind, ControlKind.opCode]
  | pong => simp [ClientFrame.flushes, Control.frame, hkind, ControlKind.opCode]

/-- Only the last fragment of a message can send it off, and only if it carries
something. -/
theorem countP_flushes_fragments (opCode : UInt8) (fragments : List Fragment) :
    (fragmentFrames opCode fragments).countP ClientFrame.flushes ≤
      if lastPayload fragments ≠ [] then 1 else 0 := by
  induction fragments generalizing opCode with
  | nil => simp [fragmentFrames]
  | cons fragment rest ih =>
    simp only [fragmentFrames, List.countP_append, countP_flushes_controls, Nat.zero_add,
      List.countP_cons]
    cases rest with
    | nil => 
      by_cases hpayload : fragment.payload = []
      · simp [fragmentFrames, ClientFrame.flushes, lastPayload, hpayload]
      · simp [fragmentFrames, lastPayload, hpayload]
        split <;> omega
    | cons second others =>
      have hopen : ClientFrame.flushes ⟨(second :: others).isEmpty, opCode, fragment.key,
          fragment.payload⟩ = false := by simp [ClientFrame.flushes]
      simp only [hopen, Bool.false_eq_true, if_false, Nat.add_zero]
      exact ih opContinuation

theorem countP_flushes_messages (messages : List Message) :
    (messages.flatMap fun m => fragmentFrames opBinary m.fragments).countP ClientFrame.flushes ≤
      messages.countP fun m => decide (lastPayload m.fragments ≠ []) := by
  induction messages with
  | nil => simp
  | cons m rest ih =>
    have hfirst := countP_flushes_fragments opBinary m.fragments
    simp only [List.flatMap_cons, List.countP_append, List.countP_cons, decide_eq_true_eq]
    omega

/-! ## Whole conversations -/

theorem Control.frame_proper (c : Control) : c.frame.Proper where
  opCode := by
    cases hkind : c.kind with
    | ping => simp [Control.frame, hkind, ControlKind.opCode]
    | pong => simp [Control.frame, hkind, ControlKind.opCode]
  control _ := ⟨rfl, c.short⟩
  size := Nat.lt_of_le_of_lt c.short (by decide)

theorem fragmentFrames_proper {opCode : UInt8} (hop : opCode = opBinary ∨ opCode = opContinuation)
    {fragments : List Fragment} (hsize : (content fragments).length < 2 ^ 63) :
    ∀ f ∈ fragmentFrames opCode fragments, f.Proper := by
  induction fragments generalizing opCode with
  | nil => simp [fragmentFrames]
  | cons fragment rest ih =>
    have hlength : (content (fragment :: rest)).length =
        fragment.payload.length + (content rest).length := by
      simp [content]
    intro f hf
    rcases List.mem_append.mp hf with hcontrol | hdata
    · obtain ⟨c, -, rfl⟩ := List.mem_map.mp hcontrol
      exact c.frame_proper
    · rcases List.mem_cons.mp hdata with rfl | hlater
      · have hkind : opCode ∈ [opBinary, opContinuation, opPing, opPong] ∧
            isControlOp opCode = false := by
          rcases hop with rfl | rfl
          · decide
          · decide
        refine ⟨hkind.1, fun hcontrol => ?_, ?_⟩
        · exact absurd (hkind.2.symm.trans hcontrol) (by decide)
        · show fragment.payload.length < 2 ^ 63
          omega
      · exact ih (.inr rfl) (by omega) f hlater

namespace Conversation

variable {srv : Server} {talk : Conversation}

theorem frames_proper
    (hsize : ∀ m ∈ talk.messages, ((content m.fragments).length : Int) ≤ srv.maxPayloadSize.toInt) :
    ∀ f ∈ talk.frames, f.Proper := by
  intro f hf
  rcases List.mem_append.mp hf with hmessage | htrailing
  · obtain ⟨m, hm, hframe⟩ := List.mem_flatMap.mp hmessage
    have hhigh := srv.maxPayloadSize.toInt_lt
    have hroom := hsize m hm
    exact fragmentFrames_proper (.inl rfl) (by omega) f hframe
  · obtain ⟨c, -, rfl⟩ := List.mem_map.mp htrailing
    exact c.frame_proper

/-- The progress of a conversation that went well. -/
def goal (talk : Conversation) : Progress where
  buff := none
  pushed := talk.messages.map fun m => content m.fragments
  written := talk.messages.flatMap (fun m => fragmentPongs m.fragments) ++ pongs talk.trailing

theorem reassembled_iff (conn : Conn) : talk.Reassembled conn ↔ conn.progress = talk.goal := by
  constructor
  · intro h
    simp [Conn.progress, goal, h.pushed, h.written, h.buff]
  · intro h
    simp only [Conn.progress, goal, Progress.mk.injEq] at h
    exact ⟨h.2.1, h.2.2, h.1⟩

/-- The frames of a conversation whose messages all end with a payload. -/
theorem leads_frames (hlast : ∀ m ∈ talk.messages, lastPayload m.fragments ≠ [])
    (hsize : ∀ m ∈ talk.messages,
      ((content m.fragments).length : Int) ≤ srv.maxPayloadSize.toInt) :
    Progress.Leads srv talk.frames {}
      ((∀ m ∈ talk.messages, FragmentsFit srv 0 m.fragments) ∧
        ControlsFit srv 0 talk.trailing) talk.goal := by
  have hmessages := Progress.Leads.messages hlast hsize (p := {}) rfl
  have hall := hmessages.append (Progress.Leads.controls talk.trailing _)
  simpa [frames, goal, Progress.waiting] using hall

/-- **A conversation is reassembled exactly if it is sound.** -/
theorem run_eq_goal_iff
    (hsize : ∀ m ∈ talk.messages,
      ((content m.fragments).length : Int) ≤ srv.maxPayloadSize.toInt) :
    (Progress.run srv talk.frames {}).1 = talk.goal ↔ talk.Sound srv := by
  constructor
  · intro hgoal
    -- as many pushes as messages: every message was sent off by its last fragment
    have hlast : ∀ m ∈ talk.messages, lastPayload m.fragments ≠ [] := by
      have hcount : (Progress.run srv talk.frames {}).1.pushed.length ≤ _ :=
        Progress.length_run_pushed talk.frames {}
      have hmessages := countP_flushes_messages talk.messages
      have htrailing := countP_flushes_controls talk.trailing
      have hle := List.countP_le_length (l := talk.messages)
        (p := fun m => decide (lastPayload m.fragments ≠ []))
      rw [hgoal, frames, List.countP_append, htrailing] at hcount
      simp only [goal, List.length_map, List.length_nil] at hcount
      have hall := List.countP_eq_length.mp (Nat.le_antisymm hle (by omega))
      intro m hm
      exact of_decide_eq_true (hall m hm)
    -- no refusal among the pongs: every control frame was accepted
    have hfits := not_not.mp fun hnot => by
      have hrefusal := Progress.refusal_mem_run ((leads_frames hlast hsize).stuck hnot)
      rw [hgoal] at hrefusal
      rcases List.mem_append.mp hrefusal with hmem | hmem
      · obtain ⟨m, -, hpong⟩ := List.mem_flatMap.mp hmem
        obtain ⟨payload, heq⟩ := mem_fragmentPongs hpong
        exact Progress.refusal_ne_pongFrame payload heq
      · obtain ⟨payload, heq⟩ := mem_pongs hmem
        exact Progress.refusal_ne_pongFrame payload heq
    exact ⟨hlast, hfits.1, hfits.2⟩
  · intro hsound
    rw [(leads_frames hsound.last hsize).through ⟨hsound.fits, hsound.trailing⟩]

end Conversation

/-- **When messages are reassembled.** For every conversation whose messages
keep to the size limit, however its bytes are cut into deliveries: the messages
are pushed once each, in order and whole, the pings are answered and nothing is
left, if and only if every message ends with a fragment that is not empty and
every control frame that is not empty fits on top of the fragments of its
message sent before it. -/
theorem Conn.serve_reassembled_iff (srv : Server) (pool : WsHeadPool)
    (hwrites : ∀ written, srv.writeFails written = false) (talk : Conversation)
    (hsize : ∀ m ∈ talk.messages, ((content m.fragments).length : Int) ≤ srv.maxPayloadSize.toInt)
    (pieces : List Bytes) (hpieces : pieces.flatten = talk.bytes) :
    (∃ conn err, ({} : Conn).serve srv pool pieces = .ok (conn, err) ∧ talk.Reassembled conn) ↔
      talk.Sound srv := by
  obtain ⟨conn, unread, err, hserve, hruns⟩ := serve_runs srv pool pieces
  have hstart : (({} : Conn).receive pieces.flatten).inbound =
      talk.frames.flatMap ClientFrame.encode := hpieces
  obtain ⟨out, hruns', hprogress⟩ := runs_progress (({} : Conn).receive pieces.flatten) pool hwrites
    (Conversation.frames_proper hsize) rfl rfl hstart
  have hsame := hruns.unique hruns'
  have hend : (conn.release err).progress = (Progress.run srv talk.frames {}).1 := by
    rw [← hsame] at hprogress
    have hconn : (conn.receive unread).progress = (Progress.run srv talk.frames {}).1 := hprogress
    rw [← hconn]
    cases err with
    | none => rfl
    | some err => rfl
  rw [← Conversation.run_eq_goal_iff hsize, ← hend, ← Conversation.reassembled_iff]
  constructor
  · rintro ⟨conn', err', hserve', hdone⟩
    rw [hserve] at hserve'
    simp only [Except.ok.injEq, Prod.mk.injEq] at hserve'
    rw [hserve'.1]
    exact hdone
  · intro hdone
    exact ⟨_, err, hserve, hdone⟩

/-- A message in two fragments with a ping between them, and a second message. -/
def pingedTalk : Conversation where
  messages :=
    [{ fragments :=
        [{ controls := [], key := #v[1, 2, 3, 4], payload := [7] },
         { controls :=
             [{ kind := .ping, key := #v[5, 6, 7, 8], payload := [9], short := by decide }]
           key := #v[0, 0, 0, 1], payload := [8] }]
       content_ne_nil := by decide },
     { fragments := [{ controls := [], key := #v[4, 3, 2, 1], payload := [1] }]
       content_ne_nil := by decide }]
  trailing := []

theorem Conn.serve_reassembled_pinged :
    ∃ conn err,
      ({} : Conn).serve { maxPayloadSize := 16, writeFails := fun _ => false } (fun _ => none)
        [pingedTalk.bytes.take 3, pingedTalk.bytes.drop 3] = .ok (conn, err) ∧
      pingedTalk.Reassembled conn :=
  (Conn.serve_reassembled_iff _ _ (fun _ => rfl) pingedTalk (by decide) _ (by decide)).mpr
    ⟨by decide, by decide, by decide⟩

/-- A message whose last fragment is empty, and a second message. -/
def emptyTailTalk : Conversation where
  messages :=
    [{ fragments :=
        [{ controls := [], key := #v[1, 2, 3, 4], payload := [7] },
         { controls := [], key := #v[0, 0, 0, 1], payload := [] }]
       content_ne_nil := by decide },
     { fragments := [{ controls := [], key := #v[4, 3, 2, 1], payload := [1] }]
       content_ne_nil := by decide }]
  trailing := []

/-- The empty last fragment does not send its message off, and the two messages
reach the router as one. -/
theorem Conn.serve_merges_messages :
    ∃ conn, ({} : Conn).serve { maxPayloadSize := 16, writeFails := fun _ => false }
        (fun _ => none) [emptyTailTalk.bytes] = .ok (conn, none) ∧
      conn.pushed = [[7, 1]] ∧ ¬ emptyTailTalk.Reassembled conn := by
  refine ⟨_, rfl, rfl, fun hdone => ?_⟩
  exact absurd hdone.pushed (by decide)

end Gokit.Wsg
