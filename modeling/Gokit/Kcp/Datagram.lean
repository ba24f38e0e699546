/-
# Datagrams

A datagram is a row of frames: a head of 24 bytes with some data behind it.  `flush` writes its
frames one after the other, and puts a datagram out whenever the next frame would exceed the
MTU.  `Input` takes a datagram apart again.

The two meet at the list of frames: what `flush` puts out are these frames cut into datagrams of
at most `mtu` bytes, and what `Input` does with a datagram is what `receive` does with its
frames, one after the other.
-/

import Gokit.Kcp.Endpoint
import Gokit.Math.SlidingWindow
import Mathlib.Data.List.ReduceOption

namespace Gokit.Kcp

open Gokit.Math

/-- A sequence of two computations returns exactly if both do. -/
theorem bind_eq_ok_iff {α β : Type} {first : Except Panic α} {next : α → Except Panic β}
    {result : β} :
    (first >>= next) = .ok result ↔ ∃ value, first = .ok value ∧ next value = .ok result := by
  cases first with
  | error panic =>
    constructor
    · intro herror
      cases herror
    · rintro ⟨value, hvalue, -⟩
      cases hvalue
  | ok value =>
    constructor
    · exact fun hnext => ⟨value, rfl, hnext⟩
    · rintro ⟨value', hvalue, hnext⟩
      rw [Except.ok.inj hvalue]
      exact hnext

/-- A segment on the wire. -/
structure Frame where
  head : Head
  data : Bytes := []
  deriving DecidableEq

namespace Frame

def wire (frame : Frame) : Bytes := encode frame.head frame.data.length ++ frame.data

def wires (frames : List Frame) : Bytes := frames.flatMap wire

/-- A frame that an end of the conversation `conv` reads as it was written. -/
structure Readable (conv : UInt32) (frame : Frame) : Prop where
  conv : frame.head.conv = conv
  cmd : frame.head.cmd = 81 ∨ frame.head.cmd = 82 ∨ frame.head.cmd = 83 ∨ frame.head.cmd = 84
  fits : frame.data.length < 2 ^ 32

end Frame

namespace Endpoint

/-! ## Reading -/

theorem length_encode (head : Head) (length : Nat) : (encode head length).length = overhead := by
  simp [encode, overhead]

theorem length_wire (frame : Frame) : frame.wire.length = overhead + frame.data.length := by
  rw [Frame.wire, List.length_append, length_encode]

/-- `Input` reads the head that `encode` has written. -/
theorem decode_encode (head : Head) {length : Nat} (hlength : length < 2 ^ 32) (rest : Bytes) :
    decode (encode head length ++ rest) = (head, length) := by
  generalize hdata : encode head length ++ rest = data
  replace hdata := hdata.symm
  simp only [encode, List.append_assoc, List.cons_append] at hdata
  have hconv : field data 0 4 = head.conv.toNat := field_append [] _ hdata rfl head.conv.toNat_lt
  have hcmd : field data 4 1 = head.cmd.toNat :=
    field_byte (putLittleEndian 4 head.conv.toNat) _ hdata (by simp)
  have hfrg : field data 5 1 = head.frg.toNat :=
    field_byte (putLittleEndian 4 head.conv.toNat ++ [head.cmd]) _ (by simpa using hdata)
      (by simp)
  have hwnd : field data 6 2 = head.wnd.toNat :=
    field_append (putLittleEndian 4 head.conv.toNat ++ [head.cmd, head.frg]) _
      (by simpa using hdata) (by simp) head.wnd.toNat_lt
  have hts : field data 8 4 = head.ts.toNat :=
    field_append (putLittleEndian 4 head.conv.toNat ++ (head.cmd :: head.frg ::
      putLittleEndian 2 head.wnd.toNat)) _ (by simpa using hdata) (by simp) head.ts.toNat_lt
  have hsn : field data 12 4 = head.sn.toNat :=
    field_append (putLittleEndian 4 head.conv.toNat ++ (head.cmd :: head.frg ::
      (putLittleEndian 2 head.wnd.toNat ++ putLittleEndian 4 head.ts.toNat))) _
      (by simpa using hdata) (by simp) head.sn.toNat_lt
  have huna : field data 16 4 = head.una.toNat :=
    field_append (putLittleEndian 4 head.conv.toNat ++ (head.cmd :: head.frg ::
      (putLittleEndian 2 head.wnd.toNat ++ (putLittleEndian 4 head.ts.toNat ++
      putLittleEndian 4 head.sn.toNat)))) _
      (by simpa using hdata) (by simp) head.una.toNat_lt
  have hlen : field data 20 4 = length :=
    field_append (putLittleEndian 4 head.conv.toNat ++ (head.cmd :: head.frg ::
      (putLittleEndian 2 head.wnd.toNat ++ (putLittleEndian 4 head.ts.toNat ++
      (putLittleEndian 4 head.sn.toNat ++ putLittleEndian 4 head.una.toNat))))) _
      (by simpa using hdata) (by simp) hlength
  rw [decode, hconv, hcmd, hfrg, hwnd, hts, hsn, huna, hlen]
  simp

variable {frames : List Frame} {data : Bytes}

section Reading

variable {e e' : Endpoint} {acc acc' : Arrival} {frame : Frame} {regular : Bool}

/-- The frames of a datagram, one after the other. -/
def receiveAll (regular : Bool) (e : Endpoint) (acc : Arrival) :
    List Frame → Except Panic (Endpoint × Arrival)
  | [] => .ok (e, acc)
  | frame :: rest => do
    let (e, acc) ← receive regular e acc frame.head frame.data
    receiveAll regular e acc rest

/-- What neither `Input` nor `flush` changes. -/
structure SameConfig (e e' : Endpoint) : Prop where
  conv : e'.conv = e.conv
  mtu : e'.mtu = e.mtu
  mss : e'.mss = e.mss
  sndWnd : e'.sndWnd = e.sndWnd
  rcvWnd : e'.rcvWnd = e.rcvWnd
  stream : e'.stream = e.stream
  bufferLen : e'.bufferLen = e.bufferLen

theorem SameConfig.refl (e : Endpoint) : SameConfig e e := ⟨rfl, rfl, rfl, rfl, rfl, rfl, rfl⟩

theorem SameConfig.trans {e'' : Endpoint} (h : SameConfig e e') (h' : SameConfig e' e'') :
    SameConfig e e'' :=
  ⟨h'.conv.trans h.conv, h'.mtu.trans h.mtu, h'.mss.trans h.mss, h'.sndWnd.trans h.sndWnd,
    h'.rcvWnd.trans h.rcvWnd, h'.stream.trans h.stream, h'.bufferLen.trans h.bufferLen⟩

/-- What comes in leaves alone what is still to be numbered. -/
structure SameQueue (e e' : Endpoint) : Prop extends SameConfig e e' where
  sndNxt : e'.sndNxt = e.sndNxt
  sndQueue : e'.sndQueue = e.sndQueue

theorem SameQueue.refl (e : Endpoint) : SameQueue e e := ⟨.refl e, rfl, rfl⟩

theorem SameQueue.trans {e'' : Endpoint} (h : SameQueue e e') (h' : SameQueue e' e'') :
    SameQueue e e'' :=
  ⟨h.toSameConfig.trans h'.toSameConfig, h'.sndNxt.trans h.sndNxt,
    h'.sndQueue.trans h.sndQueue⟩

theorem parseAck_sameQueue (e : Endpoint) (sn : UInt32) : SameQueue e (e.parseAck sn) := by
  unfold parseAck
  split_ifs
  · exact .refl e
  · exact ⟨⟨rfl, rfl, rfl, rfl, rfl, rfl, rfl⟩, rfl, rfl⟩

theorem parseFastack_sameQueue (e : Endpoint) (sn ts : UInt32) :
    SameQueue e (e.parseFastack sn ts).1 := by
  unfold parseFastack
  split_ifs
  · exact .refl e
  · exact ⟨⟨rfl, rfl, rfl, rfl, rfl, rfl, rfl⟩, rfl, rfl⟩

theorem hear_sameQueue (regular : Bool) (e : Endpoint) (head : Head) :
    SameQueue e (hear regular e head).1 := by
  cases regular <;> exact ⟨⟨rfl, rfl, rfl, rfl, rfl, rfl, rfl⟩, rfl, rfl⟩

theorem sndQueue_parseData {kcp kcp' : KCP} {frg : UInt8} {sn : UInt32} {bts : Bytes}
    (hparse : kcp.parseData frg sn bts = .ok kcp') : kcp'.sndQueue = kcp.sndQueue := by
  unfold KCP.parseData at hparse
  split_ifs at hparse
  · rw [← Except.ok.inj hparse]
  · rw [← Except.ok.inj hparse]
    rfl
  · obtain ⟨data, -, hpush⟩ := bind_eq_ok_iff.mp hparse
    rw [← Except.ok.inj hpush]
    rfl

theorem obey_sameQueue {head : Head} (hobey : obey e acc head data = .ok (e', acc')) :
    SameQueue e e' := by
  unfold obey at hobey
  split_ifs at hobey
  · rw [← (Prod.mk.inj (Except.ok.inj hobey)).1]
    exact (parseAck_sameQueue e head.sn).trans (parseFastack_sameQueue _ head.sn head.ts)
  · obtain ⟨kcp, hparse, hkcp⟩ := bind_eq_ok_iff.mp hobey
    rw [← (Prod.mk.inj (Except.ok.inj hkcp)).1]
    exact ⟨⟨rfl, rfl, rfl, rfl, rfl, rfl, rfl⟩, rfl, sndQueue_parseData hparse⟩
  all_goals
    rw [← (Prod.mk.inj (Except.ok.inj hobey)).1]
    exact ⟨⟨rfl, rfl, rfl, rfl, rfl, rfl, rfl⟩, rfl, rfl⟩

theorem receive_sameQueue {head : Head}
    (hreceive : receive regular e acc head data = .ok (e', acc')) : SameQueue e e' :=
  (hear_sameQueue regular e head).trans (obey_sameQueue hreceive)

theorem receiveAll_sameQueue (hreceive : receiveAll regular e acc frames = .ok (e', acc')) :
    SameQueue e e' := by
  induction frames generalizing e acc with
  | nil =>
    rw [← (Prod.mk.inj (Except.ok.inj hreceive)).1]
    exact .refl e
  | cons frame rest ih =>
    obtain ⟨⟨received, acc₁⟩, hfirst, hrest⟩ := bind_eq_ok_iff.mp hreceive
    exact (receive_sameQueue hfirst).trans (ih hrest)

/-- A frame at the beginning of a datagram is read as it was written. -/
theorem inputLoop_wire {σ : Type} {conv : UInt32} {read : Head → Bytes → σ → Except Panic σ}
    (hframe : frame.Readable conv) (rounds : Nat) (s : σ) (rest : Bytes) :
    inputLoop conv read (rounds + 1) s (frame.wire ++ rest) =
      read frame.head frame.data s >>= fun s => inputLoop conv read rounds s rest := by
  have hlong : ¬ (frame.wire ++ rest).length < overhead := by
    rw [List.length_append, length_wire]
    omega
  have hsplit : frame.wire ++ rest =
      encode frame.head frame.data.length ++ (frame.data ++ rest) := by
    rw [Frame.wire, List.append_assoc]
  have hdecode : decode (frame.wire ++ rest) = (frame.head, frame.data.length) := by
    rw [hsplit, decode_encode _ hframe.fits]
  have hbody : (frame.wire ++ rest).drop overhead = frame.data ++ rest := by
    rw [hsplit, List.drop_left' (length_encode ..)]
  have hthere : ¬ (frame.data ++ rest).length < frame.data.length := by
    rw [List.length_append]
    omega
  have hcmd : ¬ (frame.head.cmd ≠ 81 ∧ frame.head.cmd ≠ 82 ∧ frame.head.cmd ≠ 83 ∧
      frame.head.cmd ≠ 84) := by
    have hknown := hframe.cmd
    tauto
  rw [inputLoop, if_neg hlong]
  simp only [hdecode, hbody]
  rw [if_neg (not_not.mpr hframe.conv), if_neg hthere, if_neg hcmd, List.take_left, List.drop_left]

/-- **Reading a datagram.**  `Input` takes the frames of a datagram one after the other. -/
theorem inputLoop_wires {conv : UInt32} (hframes : ∀ frame ∈ frames, frame.Readable conv)
    {rounds : Nat} (hrounds : (Frame.wires frames).length ≤ rounds) :
    inputLoop conv (fun head bts s => receive regular s.1 s.2 head bts) rounds (e, acc)
      (Frame.wires frames) = receiveAll regular e acc frames >>= fun r => .ok (0, r) := by
  induction frames generalizing e acc rounds with
  | nil =>
    cases rounds with
    | zero => rfl
    | succ rounds =>
      rw [inputLoop, if_pos (show (Frame.wires []).length < overhead by decide)]
      rfl
  | cons frame rest ih =>
    have hsplit : Frame.wires (frame :: rest) = frame.wire ++ Frame.wires rest := rfl
    -- the head of the first frame pays for the round
    rw [hsplit, List.length_append, length_wire, overhead] at hrounds
    obtain ⟨rounds, rfl⟩ := Nat.exists_eq_succ_of_ne_zero (show rounds ≠ 0 by omega)
    rw [hsplit, inputLoop_wire (hframes frame List.mem_cons_self), receiveAll]
    cases hreceive : receive regular e acc frame.head frame.data with
    | error panic => rfl
    | ok r =>
      exact ih (fun other hother => hframes other (List.mem_cons_of_mem frame hother)) (by omega)

end Reading

/-! ## Writing -/

/-- One turn of `flush`: a frame, or the room for an acknowledgement that is left out. -/
def slotWrites : Option Frame → List Write
  | none => [.makeSpace overhead]
  | some frame => [.makeSpace frame.wire.length, .bytes frame.wire]

def ackSlots (head : Head) (rcvNxt : UInt32) : List AckItem → List (Option Frame)
  | [] => []
  | ack :: rest =>
    (if itimediff ack.sn rcvNxt ≥ 0 ∨ rest = [] then
      some { head := { head with sn := ack.sn, ts := ack.ts } } else none) ::
      ackSlots head rcvNxt rest

def probeSlots (e : Endpoint) (head : Head) : List (Option Frame) :=
  (if e.askSend then [some { head := { head with cmd := 83 } }] else []) ++
  (if e.askTell then [some { head := { head with cmd := 84 } }] else [])

def pushFrame (head : Head) (seg : Flight) : Frame := ⟨pushHead head seg, seg.data.bts⟩

section Writing

theorem slotWrites_head (head : Head) :
    slotWrites (some { head := head }) = [.makeSpace overhead, .bytes (encode head 0)] := by
  rw [slotWrites, length_wire, Frame.wire]
  simp

theorem ackWrites_eq (head : Head) (rcvNxt : UInt32) (acks : List AckItem) :
    ackWrites head rcvNxt acks = (ackSlots head rcvNxt acks).flatMap slotWrites := by
  induction acks with
  | nil => rfl
  | cons ack rest ih =>
    rw [ackWrites, ackSlots, List.flatMap_cons, ih]
    split_ifs
    · rw [slotWrites_head]
      rfl
    · rfl

theorem probeWrites_eq (e : Endpoint) (head : Head) :
    e.probeWrites head = (e.probeSlots head).flatMap slotWrites := by
  rw [probeWrites, probeSlots, List.flatMap_append]
  split_ifs <;> simp [slotWrites_head]

/-- A datagram that can be put out. -/
structure Sendable (mtu : Nat) (frames : List Frame) : Prop where
  ne_nil : frames ≠ []
  fits : (Frame.wires frames).length ≤ mtu

variable {mtu cap : Nat} {cur : List Frame} {slots : List (Option Frame)}

/-- `makeSpace` puts the datagram out if the next frame does not fit behind it. -/
theorem runWrites_makeSpace {space : Nat} (hspace : space ≤ mtu)
    (hcur : (Frame.wires cur).length ≤ mtu) (writes : List Write) (out : List Bytes) :
    ∃ (parts : List (List Frame)) (cur' : List Frame),
      runWrites mtu cap (.makeSpace space :: writes) out (Frame.wires cur) =
        runWrites mtu cap writes (out ++ parts.map Frame.wires) (Frame.wires cur') ∧
      parts.flatten ++ cur' = cur ∧ (∀ part ∈ parts, Sendable mtu part) ∧
      (Frame.wires cur').length + space ≤ mtu := by
  rw [runWrites]
  split_ifs with hfull
  · have hne : cur ≠ [] := by
      rintro rfl
      exact absurd hfull (Nat.not_lt_of_le (Nat.le_trans (Nat.zero_add space).le hspace))
    refine ⟨[cur], [], rfl, by simp, ?_, (Nat.zero_add space).le.trans hspace⟩
    exact List.forall_mem_singleton.mpr ⟨hne, hcur⟩
  · refine ⟨[], cur, ?_, rfl, by simp, Nat.le_of_not_lt hfull⟩
    rw [List.map_nil, List.append_nil]

/-- **The writes of `flush`.**  They put the frames out in datagrams of at most `mtu` bytes, and
do not leave the buffer. -/
theorem runWrites_slots (hmtu : overhead ≤ mtu) (hcap : mtu ≤ cap)
    (hslots : ∀ frame, some frame ∈ slots → frame.wire.length ≤ mtu)
    (hcur : (Frame.wires cur).length ≤ mtu) (out : List Bytes) :
    ∃ (parts : List (List Frame)) (last : List Frame),
      runWrites mtu cap (slots.flatMap slotWrites) out (Frame.wires cur) =
        .ok (out ++ parts.map Frame.wires, Frame.wires last) ∧
      parts.flatten ++ last = cur ++ slots.reduceOption ∧
      (∀ part ∈ parts, Sendable mtu part) ∧ (Frame.wires last).length ≤ mtu := by
  induction slots generalizing cur out with
  | nil => exact ⟨[], cur, by simp [runWrites], (List.append_nil cur).symm, by simp, hcur⟩
  | cons slot rest ih =>
    have hrest : ∀ frame, some frame ∈ rest → frame.wire.length ≤ mtu := fun frame hframe =>
      hslots frame (List.mem_cons_of_mem slot hframe)
    cases slot with
    | none =>
      obtain ⟨before, cur', hspace, hflat, hbefore, hroom⟩ :=
        @runWrites_makeSpace mtu cap cur overhead hmtu hcur (rest.flatMap slotWrites) out
      obtain ⟨parts, last, hrun, hall, hparts, hlast⟩ :=
        ih hrest (Nat.le_of_add_right_le hroom) (out ++ before.map Frame.wires)
      refine ⟨before ++ parts, last, hspace.trans (hrun.trans ?_), ?_,
        List.forall_mem_append.mpr ⟨hbefore, hparts⟩, hlast⟩
      · rw [List.map_append, List.append_assoc]
      · rw [List.flatten_append, List.append_assoc, hall, ← List.append_assoc, hflat]
        rfl
    | some frame =>
      have hframe := hslots frame List.mem_cons_self
      obtain ⟨before, cur', hspace, hflat, hbefore, hroom⟩ :=
        @runWrites_makeSpace mtu cap cur frame.wire.length hframe hcur
          (.bytes frame.wire :: rest.flatMap slotWrites) out
      have hwires : Frame.wires (cur' ++ [frame]) = Frame.wires cur' ++ frame.wire := by
        simp [Frame.wires]
      have hfits : (Frame.wires (cur' ++ [frame])).length ≤ mtu := by
        rw [hwires, List.length_append]
        exact hroom
      obtain ⟨parts, last, hrun, hall, hparts, hlast⟩ :=
        ih hrest hfits (out ++ before.map Frame.wires)
      refine ⟨before ++ parts, last, hspace.trans ?_, ?_,
        List.forall_mem_append.mpr ⟨hbefore, hparts⟩, hlast⟩
      · rw [runWrites, if_neg (Nat.not_lt_of_le (hroom.trans hcap)), ← hwires, hrun,
          List.map_append, List.append_assoc]
      · rw [List.flatten_append, List.append_assoc, hall, ← hflat]
        simp only [List.append_assoc]
        rfl

theorem length_wires_pos (hne : frames ≠ []) : 0 < (Frame.wires frames).length := by
  obtain ⟨frame, rest, rfl⟩ := List.exists_cons_of_ne_nil hne
  show 0 < (frame.wire ++ Frame.wires rest).length
  rw [List.length_append, length_wire, overhead]
  omega

theorem flushBuffer_slots (hmtu : overhead ≤ mtu) (hcap : mtu ≤ cap)
    (hslots : ∀ frame, some frame ∈ slots → frame.wire.length ≤ mtu) :
    ∃ (parts : List (List Frame)) (out : List Bytes) (last : Bytes),
      runWrites mtu cap (slots.flatMap slotWrites) [] [] = .ok (out, last) ∧
      flushBuffer out last = parts.map Frame.wires ∧ parts.flatten = slots.reduceOption ∧
      ∀ part ∈ parts, Sendable mtu part := by
  obtain ⟨parts, last, hrun, hall, hparts, hlast⟩ :=
    @runWrites_slots mtu cap [] slots hmtu hcap hslots (Nat.zero_le _) []
  by_cases hnil : last = []
  · refine ⟨parts, _, _, hrun, ?_, ?_, hparts⟩
    · rw [hnil]
      rfl
    · rw [← List.append_nil parts.flatten, ← hnil]
      exact hall
  · refine ⟨parts ++ [last], _, _, hrun, ?_, ?_, ?_⟩
    · rw [flushBuffer, if_pos (length_wires_pos hnil), List.map_append]
      rfl
    · rw [List.flatten_append, List.flatten_singleton]
      exact hall
    · exact List.forall_mem_append.mpr ⟨hparts, List.forall_mem_singleton.mpr ⟨hnil, hlast⟩⟩

/-! ## The frames of `flush` -/

/-- Being sent changes neither the bytes nor the number of a segment. -/
structure SameFlight (seg seg' : Flight) : Prop where
  frg : seg'.frg = seg.frg
  sn : seg'.sn = seg.sn
  acked : seg'.acked = seg.acked
  data : seg'.data = seg.data

/-- A segment is to be sent whatever the clock says. -/
def Overdue (clock : Nat → UInt32) (seg : Flight) : Prop :=
  seg.xmit = 0 ∨ ∀ i, itimediff (clock i) seg.resendts ≥ 0

section Resend

variable {e : Endpoint} {head : Head} {resent now : UInt32} {newSegs : Bool} {pass : Pass}
  {seg seg' : Flight} {clock : Nat → UInt32}

theorem prepare_sameFlight (hprepare : (prepare e resent newSegs pass seg).1 = some seg') :
    SameFlight seg seg' := by
  unfold prepare at hprepare
  split_ifs at hprepare
  all_goals cases hprepare
  all_goals exact ⟨rfl, rfl, rfl, rfl⟩

/-- Nothing but the counters changes while a segment is prepared. -/
theorem prepare_current (e : Endpoint) (resent : UInt32) (newSegs : Bool) (pass : Pass)
    (seg : Flight) : (prepare e resent newSegs pass seg).2.current = pass.current := by
  unfold prepare
  split_ifs <;> rfl

/-- A segment that has not been sent or is past its time is prepared. -/
theorem prepare_of_overdue (hdue : seg.xmit = 0 ∨ itimediff pass.current seg.resendts ≥ 0) :
    (prepare e resent newSegs pass seg).1 ≠ none := by
  unfold prepare
  split_ifs with hnew hfast hearly hlate
  all_goals first
    | exact Option.some_ne_none _
    | exact absurd (hdue.resolve_left hnew) hlate

@[simp]
theorem due_current (pass : Pass) (seg : Flight) : (pass.due seg).current = pass.current := by
  unfold Pass.due
  dsimp only
  split_ifs <;> rfl

/-- One round of the loop over `snd_buf`: the segment is sent, or it is not. -/
theorem resendSeg_spec (e : Endpoint) (head : Head) (resent : UInt32) (newSegs : Bool)
    (clock : Nat → UInt32) (i : Nat) {pass : Pass} (hpass : ∃ j, pass.current = clock j)
    (seg : Flight) :
    ∃ (seg' : Flight) (slots : List (Option Frame)) (pass' : Pass),
      resendSeg e head resent newSegs (clock i) pass seg =
        (seg', slots.flatMap slotWrites, pass') ∧
      SameFlight seg seg' ∧ (∃ j, pass'.current = clock j) ∧
      (∀ frame, some frame ∈ slots → seg.acked = false ∧ frame = pushFrame head seg') ∧
      (seg.acked = false → Overdue clock seg → some (pushFrame head seg') ∈ slots) := by
  obtain ⟨j, hj⟩ := hpass
  have hcurrent := prepare_current e resent newSegs pass seg
  unfold resendSeg
  by_cases hacked : seg.acked = true
  · rw [if_pos hacked]
    refine ⟨seg, [], pass, rfl, ⟨rfl, rfl, rfl, rfl⟩, ⟨j, hj⟩, by simp, fun hfree => ?_⟩
    exact absurd (hacked.symm.trans hfree) (by decide)
  · rw [if_neg hacked]
    cases hprepare : prepare e resent newSegs pass seg with
    | mk prepared pass' =>
      rw [hprepare] at hcurrent
      cases prepared with
      | none =>
        refine ⟨seg, [], pass'.due seg, rfl, ⟨rfl, rfl, rfl, rfl⟩,
          ⟨j, (due_current ..).trans (hcurrent.trans hj)⟩, by simp, fun _ hdue => ?_⟩
        have hlate := hdue.imp_right fun hlate => (hj ▸ hlate j : itimediff pass.current _ ≥ 0)
        exact absurd (congrArg Prod.fst hprepare) (prepare_of_overdue hlate)
      | some seg' =>
        have hsame := prepare_sameFlight (congrArg Prod.fst hprepare)
        refine ⟨_, [some (pushFrame head _)], _, Prod.ext rfl (Prod.ext ?_ rfl),
          ⟨hsame.frg, hsame.sn, hsame.acked, hsame.data⟩, ⟨i, due_current ..⟩,
          fun frame hframe => ?_, fun _ _ => List.mem_singleton_self _⟩
        · rw [List.flatMap_singleton, slotWrites, length_wire]
          rfl
        · exact ⟨Bool.eq_false_of_not_eq_true hacked,
            Option.some.inj (List.mem_singleton.mp hframe)⟩

/-- **The loop over `snd_buf`.**  It changes no segment but in its times and counters.  What it
sends are segments that are not acknowledged, and it sends all of them that are overdue. -/
theorem resendAll_spec (e : Endpoint) (head : Head) (resent : UInt32) (newSegs : Bool)
    (clock : Nat → UInt32) (i : Nat) {pass : Pass} (hpass : ∃ j, pass.current = clock j)
    (segs : List Flight) :
    ∃ (segs' : List Flight) (slots : List (Option Frame)) (pass' : Pass),
      resendAll e head resent newSegs clock i pass segs =
        (segs', slots.flatMap slotWrites, pass') ∧
      List.Forall₂ SameFlight segs segs' ∧
      (∀ frame, some frame ∈ slots → ∃ seg ∈ segs', seg.acked = false ∧
        frame = pushFrame head seg) ∧
      ((∀ seg ∈ segs, seg.acked = false → Overdue clock seg) →
        ∀ seg ∈ segs', seg.acked = false → some (pushFrame head seg) ∈ slots) := by
  induction segs generalizing i pass with
  | nil => exact ⟨[], [], pass, rfl, .nil, by simp, by simp⟩
  | cons seg rest ih =>
    obtain ⟨seg', slots, passed, hseg, hsame, hpassed, hsound, hall⟩ :=
      resendSeg_spec e head resent newSegs clock i hpass seg
    obtain ⟨rest', slots', final, hrest, hsames, hsound', hall'⟩ := ih (i + 1) hpassed
    refine ⟨seg' :: rest', slots ++ slots', final, ?_, .cons hsame hsames, ?_, ?_⟩
    · simp only [resendAll, hseg, hrest, List.flatMap_append]
    · intro frame hframe
      rcases List.mem_append.mp hframe with hframe | hframe
      · obtain ⟨hfree, heq⟩ := hsound frame hframe
        exact ⟨seg', List.mem_cons_self, hsame.acked.trans hfree, heq⟩
      · obtain ⟨other, hother, hprops⟩ := hsound' frame hframe
        exact ⟨other, List.mem_cons_of_mem _ hother, hprops⟩
    · intro hdue
      obtain ⟨hdue, hdue'⟩ := List.forall_mem_cons.mp hdue
      refine List.forall_mem_cons.mpr ⟨fun hfree => ?_, fun other hother hfree => ?_⟩
      · have hfree' := hsame.acked.symm.trans hfree
        exact List.mem_append_left _ (hall hfree' (hdue hfree'))
      · exact List.mem_append_right _ (hall' hdue' other hother hfree)

end Resend

/-- The flight of a segment that has its number already. -/
def fresh (seg : Segment) : Flight := Flight.new seg seg.sn

/-- The loop that numbers segments takes some of them from the front of the queue. -/
theorem slide_spec (limit nxt : UInt32) (queue : List Segment) :
    ∃ moved rest, queue = moved ++ rest ∧ slide limit nxt queue =
      ((KCP.number nxt moved).map fresh, nxt + UInt32.ofNat moved.length, rest) := by
  induction queue generalizing nxt with
  | nil => exact ⟨[], [], rfl, by simp [slide, KCP.number]⟩
  | cons seg queue ih =>
    rw [slide]
    split_ifs with hfull
    · exact ⟨[], seg :: queue, rfl, by simp [KCP.number]⟩
    · obtain ⟨moved, rest, hqueue, hslide⟩ := ih (nxt + 1)
      have hcount : nxt + 1 + UInt32.ofNat moved.length =
          nxt + UInt32.ofNat (seg :: moved).length := by
        rw [List.length_cons, UInt32.ofNat_add, UInt32.add_assoc, UInt32.add_comm 1]
        rfl
      refine ⟨seg :: moved, rest, congrArg (seg :: ·) hqueue, ?_⟩
      simp only [hslide, hcount]
      rfl

theorem shrinkCwnd_eq (e : Endpoint) (window resent : UInt32) (pass : Pass) :
    ∃ ssthresh cwnd incr, e.shrinkCwnd window resent pass = { e with ssthresh, cwnd, incr } := by
  unfold shrinkCwnd
  dsimp only
  split_ifs <;> exact ⟨_, _, _, rfl⟩

theorem probed_eq (e : Endpoint) (now : UInt32) :
    ∃ tsProbe probeWait, e.probed now =
      { e with acklist := [], tsProbe, probeWait, askSend := false, askTell := false } := by
  unfold probed asking probeWindow
  split_ifs <;> exact ⟨_, _, rfl⟩

/-- What `flush` does to the state, `moved` being the segments it numbers. -/
structure Flushed (moved : List Segment) (e e' : Endpoint) : Prop where
  queue : e.sndQueue = moved ++ e'.sndQueue
  sndNxt : e'.sndNxt = e.sndNxt + UInt32.ofNat moved.length
  sndUna : e'.sndUna = e.sndUna
  flights : List.Forall₂ SameFlight (e.sndBuf ++ (KCP.number e.sndNxt moved).map fresh) e'.sndBuf
  rcvNxt : e'.rcvNxt = e.rcvNxt
  rcvQueue : e'.rcvQueue = e.rcvQueue
  rcvBuf : e'.rcvBuf = e.rcvBuf
  acklist : ∀ ack ∈ e'.acklist, ack ∈ e.acklist
  config : SameConfig e e'

/-- What a frame that `flush` puts out says: what was received in sequence, and one of an
acknowledgement that was owed, a segment that is on its way, and a window probe. -/
structure Emitted (e e' : Endpoint) (frame : Frame) : Prop where
  conv : frame.head.conv = e.conv
  una : frame.head.una = e.rcvNxt
  cmd : (frame.head.cmd = 82 ∧ frame.data = [] ∧ ∃ ack ∈ e.acklist, frame.head.sn = ack.sn) ∨
    (frame.head.cmd = 81 ∧ ∃ seg ∈ e'.sndBuf, seg.acked = false ∧ frame.head.sn = seg.sn ∧
      frame.head.frg = seg.frg ∧ frame.data = seg.data.bts) ∨
    ((frame.head.cmd = 83 ∨ frame.head.cmd = 84) ∧ frame.data = [])

/-- The segments of an end fit into its datagrams. -/
structure Fits (e : Endpoint) : Prop where
  mtu : overhead ≤ e.mtu.toNat
  buffer : e.mtu.toNat ≤ e.bufferLen
  queue : ∀ seg ∈ e.sndQueue, overhead + seg.data.bts.length ≤ e.mtu.toNat
  flights : ∀ seg ∈ e.sndBuf, overhead + seg.data.bts.length ≤ e.mtu.toNat

theorem SameFlight.refl (seg : Flight) : SameFlight seg seg := ⟨rfl, rfl, rfl, rfl⟩

theorem forall₂_sameFlight_refl (segs : List Flight) : List.Forall₂ SameFlight segs segs :=
  List.forall₂_same.mpr fun seg _ => .refl seg

theorem passed_spec (e before : Endpoint) (full : Bool) (clock : Nat → UInt32) :
    ∃ (segs' : List Flight) (slots : List (Option Frame)) (pass' : Pass),
      e.passed before full clock = (segs', slots.flatMap slotWrites, pass') ∧
      List.Forall₂ SameFlight e.sndBuf segs' ∧
      (∀ frame, some frame ∈ slots → ∃ seg ∈ segs', seg.acked = false ∧
        frame = pushFrame (lastHead before.ackHead before.acklist) seg) ∧
      (full = true → (∀ seg ∈ e.sndBuf, seg.acked = false → Overdue clock seg) →
        ∀ seg ∈ segs', seg.acked = false →
          some (pushFrame (lastHead before.ackHead before.acklist) seg) ∈ slots) := by
  unfold passed
  dsimp only
  cases full with
  | true =>
    rw [if_pos rfl]
    have hpass : ∃ j, (Pass.mk (clock 1) before.interval 0 0 before.state).current = clock j :=
      ⟨1, rfl⟩
    obtain ⟨segs', slots, pass', hrun, hsame, hsound, hall⟩ :=
      resendAll_spec e (lastHead before.ackHead before.acklist) e.resent
        (decide (e.sndBuf.length ≠ before.sndBuf.length)) clock 2 hpass e.sndBuf
    exact ⟨segs', slots, pass', hrun, hsame, hsound, fun _ => hall⟩
  | false =>
    exact ⟨e.sndBuf, [], _, rfl, forall₂_sameFlight_refl _, by simp, fun hfull => by cases hfull⟩

theorem lastHead_conv (head : Head) (acks : List AckItem) :
    (lastHead head acks).conv = head.conv := by
  unfold lastHead
  cases acks.getLast? <;> rfl

theorem lastHead_una (head : Head) (acks : List AckItem) : (lastHead head acks).una = head.una := by
  unfold lastHead
  cases acks.getLast? <;> rfl

theorem mem_ackSlots {head : Head} {rcvNxt : UInt32} {acks : List AckItem} {frame : Frame}
    (hframe : some frame ∈ ackSlots head rcvNxt acks) :
    ∃ ack ∈ acks, frame = { head := { head with sn := ack.sn, ts := ack.ts } } := by
  induction acks with
  | nil => cases hframe
  | cons ack rest ih =>
    rcases List.mem_cons.mp hframe with hhead | hrest
    · split_ifs at hhead
      exact ⟨ack, List.mem_cons_self, Option.some.inj hhead⟩
    · obtain ⟨other, hother, heq⟩ := ih hrest
      exact ⟨other, List.mem_cons_of_mem ack hother, heq⟩

variable {e : Endpoint}

theorem mem_probeSlots {head : Head} {frame : Frame} (hframe : some frame ∈ e.probeSlots head) :
    frame = { head := { head with cmd := 83 } } ∨ frame = { head := { head with cmd := 84 } } := by
  rw [probeSlots, List.mem_append] at hframe
  refine hframe.imp (fun hask => ?_) fun htell => ?_
  · split_ifs at hask
    · exact Option.some.inj (List.mem_singleton.mp hask)
    · cases hask
  · split_ifs at htell
    · exact Option.some.inj (List.mem_singleton.mp htell)
    · cases htell

/-- The state after the segments that the window admits were numbered. -/
theorem slid_eq (e : Endpoint) :
    ∃ moved rest, e.sndQueue = moved ++ rest ∧ e.slid =
        { e with
          sndBuf := e.sndBuf ++ (KCP.number e.sndNxt moved).map fresh
          sndNxt := e.sndNxt + UInt32.ofNat moved.length
          sndQueue := rest } := by
  obtain ⟨moved, rest, hqueue, hslide⟩ := slide_spec (e.sndUna + e.sendWindow) e.sndNxt e.sndQueue
  refine ⟨moved, rest, hqueue, ?_⟩
  simp only [slid, hslide]

/-- The turns of `flush`. -/
theorem flushPlan_spec (e : Endpoint) (full : Bool) (clock : Nat → UInt32) :
    ∃ (nextUpdate : UInt32) (slots : List (Option Frame)) (e' : Endpoint)
      (moved : List Segment),
      e.flushPlan full clock = (nextUpdate, slots.flatMap slotWrites, e') ∧
      Flushed moved e e' ∧ e'.acklist = [] ∧ (∀ frame, some frame ∈ slots → Emitted e e' frame) ∧
      (full = true → (∀ seg ∈ e.sndBuf, seg.acked = false → Overdue clock seg) →
        ∀ seg ∈ e'.sndBuf, seg.acked = false →
          ∃ head : Head, some (pushFrame head seg) ∈ slots) := by
  obtain ⟨tsProbe, probeWait, hprobed⟩ := probed_eq e (clock 0)
  obtain ⟨moved, rest, hqueue, hslid⟩ := slid_eq (e.probed (clock 0))
  obtain ⟨segs', slots, pass', hpassed, hsame, hsound, hall⟩ :=
    passed_spec (e.probed (clock 0)).slid e full clock
  set before := { (e.probed (clock 0)).slid with sndBuf := segs', state := pass'.state }
    with hbefore
  obtain ⟨ssthresh, cwnd, incr, hshrink⟩ :=
    shrinkCwnd_eq before (e.probed (clock 0)).sendWindow (e.probed (clock 0)).slid.resent pass'
  set head := lastHead e.ackHead e.acklist with hhead
  refine ⟨pass'.nextUpdate, ackSlots e.ackHead e.rcvNxt e.acklist ++
    ((e.asking (clock 0)).probeSlots head ++ slots), { before with ssthresh, cwnd, incr }, moved,
    ?_, ?_, ?_, ?_, ?_⟩
  · simp only [flushPlan, hpassed, ← hbefore, hshrink, ackWrites_eq, probeWrites_eq,
      List.flatMap_append, ← hhead]
  · rw [hprobed] at hqueue
    rw [hslid, hprobed] at hbefore hsame
    exact ⟨by rw [hbefore]; exact hqueue, by rw [hbefore], by rw [hbefore],
      by rw [hbefore]; exact hsame, by rw [hbefore], by rw [hbefore], by rw [hbefore],
      by rw [hbefore]; simp, by rw [hbefore]; exact ⟨rfl, rfl, rfl, rfl, rfl, rfl, rfl⟩⟩
  · rw [hbefore, hslid, hprobed]
  · intro frame hframe
    have hconv : head.conv = e.conv := lastHead_conv e.ackHead e.acklist
    have huna : head.una = e.rcvNxt := lastHead_una e.ackHead e.acklist
    rcases List.mem_append.mp hframe with hack | hframe
    · obtain ⟨ack, hmem, rfl⟩ := mem_ackSlots hack
      exact ⟨rfl, rfl, .inl ⟨rfl, rfl, ack, hmem, rfl⟩⟩
    rcases List.mem_append.mp hframe with hprobe | hpush
    · rcases mem_probeSlots hprobe with rfl | rfl
      · exact ⟨hconv, huna, .inr (.inr ⟨.inl rfl, rfl⟩)⟩
      · exact ⟨hconv, huna, .inr (.inr ⟨.inr rfl, rfl⟩)⟩
    · obtain ⟨seg, hseg, hfree, rfl⟩ := hsound frame hpush
      exact ⟨hconv, huna, .inr (.inl ⟨rfl, seg, hseg, hfree, rfl, rfl, rfl⟩)⟩
  · intro hfull hdue seg hseg hfree
    refine ⟨head, List.mem_append_right _ (List.mem_append_right _
      (hall hfull (fun other hother hunacked => ?_) seg hseg hfree))⟩
    rw [hslid] at hother
    rcases List.mem_append.mp hother with hold | hnew
    · rw [hprobed] at hold
      exact hdue other hold hunacked
    · obtain ⟨seg, -, rfl⟩ := List.mem_map.mp hnew
      exact .inl rfl

variable {moved : List Segment} {e' : Endpoint}

/-- A segment that is in a place has come there with its bytes. -/
theorem Flushed.mem_flights (h : Flushed moved e e') {seg' : Flight} (hseg' : seg' ∈ e'.sndBuf) :
    (∃ seg ∈ e.sndBuf, SameFlight seg seg') ∨
      ∃ seg ∈ KCP.number e.sndNxt moved, SameFlight (fresh seg) seg' := by
  obtain ⟨seg, hseg, hsame⟩ := exists_left_of_mem h.flights hseg'
  rcases List.mem_append.mp hseg with hold | hnew
  · exact .inl ⟨seg, hold, hsame⟩
  · obtain ⟨found, hfound, rfl⟩ := List.mem_map.mp hnew
    exact .inr ⟨found, hfound, hsame⟩

theorem mem_number {nxt : UInt32} {segs : List Segment} {seg : Segment}
    (hseg : seg ∈ KCP.number nxt segs) :
    ∃ other ∈ segs, seg.frg = other.frg ∧ seg.data = other.data := by
  induction segs generalizing nxt with
  | nil => cases hseg
  | cons first rest ih =>
    rcases List.mem_cons.mp hseg with rfl | hrest
    · exact ⟨first, List.mem_cons_self, rfl, rfl⟩
    · obtain ⟨other, hother, hsame⟩ := ih hrest
      exact ⟨other, List.mem_cons_of_mem first hother, hsame⟩

/-- The bytes of the segments are not touched. -/
theorem Flushed.forall_data (h : Flushed moved e e') {P : Buffer → Prop}
    (hqueue : ∀ seg ∈ e.sndQueue, P seg.data) (hflights : ∀ seg ∈ e.sndBuf, P seg.data) :
    (∀ seg ∈ e'.sndQueue, P seg.data) ∧ ∀ seg ∈ e'.sndBuf, P seg.data := by
  rw [h.queue] at hqueue
  obtain ⟨hmoved, hrest⟩ := List.forall_mem_append.mp hqueue
  refine ⟨hrest, fun seg' hseg' => ?_⟩
  rcases h.mem_flights hseg' with ⟨seg, hseg, hsame⟩ | ⟨seg, hseg, hsame⟩
  · rw [hsame.data]
    exact hflights seg hseg
  · obtain ⟨other, hother, -, hdata⟩ := mem_number hseg
    rw [hsame.data]
    show P seg.data
    rw [hdata]
    exact hmoved other hother

theorem Flushed.fits (h : Flushed moved e e') (hfits : Fits e) : Fits e' := by
  obtain ⟨hqueue, hflights⟩ :=
    h.forall_data (P := fun data => overhead + data.bts.length ≤ e.mtu.toNat)
      hfits.queue hfits.flights
  rw [← h.config.mtu] at hqueue hflights
  exact ⟨h.config.mtu ▸ hfits.mtu, h.config.mtu ▸ h.config.bufferLen ▸ hfits.buffer, hqueue,
    hflights⟩

/-- What is put out, datagram by datagram. -/
structure Output (e e' : Endpoint) (parts : List (List Frame)) : Prop where
  sendable : ∀ part ∈ parts, Sendable e.mtu.toNat part
  emitted : ∀ part ∈ parts, ∀ frame ∈ part, Emitted e e' frame

/-- **What `flush` does.**  It does not panic.  It numbers some segments of the queue, and puts
frames out in datagrams of at most `mtu` bytes.  If it is a full one and every segment that is
not acknowledged is overdue, then all of these are sent. -/
theorem flush_spec (hfits : Fits e) (full : Bool) (clock : Nat → UInt32) :
    ∃ (nextUpdate : UInt32) (parts : List (List Frame)) (e' : Endpoint) (moved : List Segment),
      e.flush full clock = .ok (nextUpdate, parts.map Frame.wires, e') ∧ Flushed moved e e' ∧
      e'.acklist = [] ∧ Output e e' parts ∧
      (full = true → (∀ seg ∈ e.sndBuf, seg.acked = false → Overdue clock seg) →
        ∀ seg ∈ e'.sndBuf, seg.acked = false →
          ∃ part ∈ parts, ∃ head, pushFrame head seg ∈ part) := by
  obtain ⟨nextUpdate, slots, e', moved, hplan, hflushed, hacks, hemitted, hall⟩ :=
    flushPlan_spec e full clock
  have hslots : ∀ frame, some frame ∈ slots → frame.wire.length ≤ e.mtu.toNat := by
    intro frame hframe
    rw [length_wire]
    rcases (hemitted frame hframe).cmd with ⟨-, hdata, -⟩ | ⟨-, seg, hseg, -, -, -, hdata⟩ |
      ⟨-, hdata⟩
    · rw [hdata]
      exact hfits.mtu
    · rw [hdata, ← hflushed.config.mtu]
      exact (hflushed.fits hfits).flights seg hseg
    · rw [hdata]
      exact hfits.mtu
  obtain ⟨parts, out, last, hrun, hflush, hflat, hsendable⟩ :=
    flushBuffer_slots hfits.mtu hfits.buffer hslots
  have hmem : ∀ frame, some frame ∈ slots ↔ ∃ part ∈ parts, frame ∈ part := by
    intro frame
    rw [← List.mem_flatten, hflat, List.reduceOption_mem_iff]
  refine ⟨nextUpdate, parts, e', moved, ?_, hflushed, hacks, ⟨hsendable, ?_⟩, ?_⟩
  · rw [flush, hplan]
    show (runWrites _ _ _ _ _ >>= fun r => _) = _
    rw [hrun]
    show Except.ok (nextUpdate, flushBuffer out last, e') = _
    rw [hflush]
  · intro part hpart frame hframe
    exact hemitted frame ((hmem frame).mpr ⟨part, hpart, hframe⟩)
  · intro hfull hdue seg hseg hfree
    obtain ⟨head, hslot⟩ := hall hfull hdue seg hseg hfree
    obtain ⟨part, hpart, hframe⟩ := (hmem _).mp hslot
    exact ⟨part, hpart, head, hframe⟩

end Writing

/-! ## `Update` and the end of `Input` -/

section Replies

variable {e e' : Endpoint} {out : List Bytes}

/-- The datagrams that are put out on the way from one state to another. -/
def Replies (e e' : Endpoint) (out : List Bytes) : Prop :=
  ∃ (moved : List Segment) (parts : List (List Frame)),
    out = parts.map Frame.wires ∧ Flushed moved e e' ∧ Output e e' parts

theorem Replies.refl (e : Endpoint) : Replies e e [] := by
  refine ⟨[], [], rfl, ⟨rfl, ?_, rfl, ?_, rfl, rfl, rfl, fun _ h => h, .refl e⟩,
    by simp, by simp⟩
  · exact (UInt32.add_zero e.sndNxt).symm
  · rw [KCP.number, List.map_nil, List.append_nil]
    exact forall₂_sameFlight_refl _

theorem replies_flush (hfits : Fits e) (full : Bool) (clock : Nat → UInt32) :
    ∃ out e', (e.flush full clock >>= fun r => .ok (r.2.1, r.2.2)) =
      (.ok (out, e') : Except Panic (List Bytes × Endpoint)) ∧ Replies e e' out := by
  obtain ⟨nextUpdate, parts, e', moved, hflush, hflushed, -, houtput, -⟩ :=
    flush_spec hfits full clock
  refine ⟨_, e', ?_, moved, parts, rfl, hflushed, houtput⟩
  rw [hflush]
  rfl

variable {updated tsFlush : UInt32}

/-- `flush` looks at times, estimates and the congestion window, but they are not what it
promises anything about. -/
theorem Replies.adjust {rxSrtt rxRttvar : Int32} {rxRto cwnd incr : UInt32}
    (h : Replies { e with rxSrtt, rxRttvar, rxRto, cwnd, incr, updated, tsFlush } e' out) :
    Replies e e' out := by
  obtain ⟨moved, parts, hout, hflushed, hsendable, hemitted⟩ := h
  have hconfig := hflushed.config
  refine ⟨moved, parts, hout, ⟨hflushed.queue, hflushed.sndNxt, hflushed.sndUna,
    hflushed.flights, hflushed.rcvNxt, hflushed.rcvQueue, hflushed.rcvBuf, hflushed.acklist,
    ⟨hconfig.conv, hconfig.mtu, hconfig.mss, hconfig.sndWnd, hconfig.rcvWnd, hconfig.stream,
      hconfig.bufferLen⟩⟩, ⟨hsendable, fun part hpart frame hframe => ?_⟩⟩
  have hframe' := hemitted part hpart frame hframe
  exact ⟨hframe'.conv, hframe'.una, hframe'.cmd⟩

theorem Fits.adjust (h : Fits e) {rxSrtt rxRttvar : Int32} {rxRto cwnd incr : UInt32} :
    Fits { e with rxSrtt, rxRttvar, rxRto, cwnd, incr, updated, tsFlush } :=
  ⟨h.mtu, h.buffer, h.queue, h.flights⟩

theorem replies_update (hfits : Fits e) (clock : Nat → UInt32) :
    ∃ out e', ({ e with updated, tsFlush }.flush true clock >>= fun r => .ok (r.2.1, r.2.2)) =
      (.ok (out, e') : Except Panic (List Bytes × Endpoint)) ∧ Replies e e' out := by
  obtain ⟨out, e', hflush, hreplies⟩ :=
    replies_flush (e := { e with updated, tsFlush }) hfits.adjust true clock
  exact ⟨out, e', hflush, hreplies.adjust⟩

theorem update_spec (hfits : Fits e) (now : UInt32) (clock : Nat → UInt32) :
    ∃ out e', e.update now clock = .ok (out, e') ∧ Replies e e' out := by
  have hstart : ∃ updated tsFlush, (if e.updated = 0 then { e with updated := 1, tsFlush := now }
      else e) = { e with updated, tsFlush } := by
    split_ifs <;> exact ⟨_, _, rfl⟩
  obtain ⟨updated, tsFlush, hstart⟩ := hstart
  unfold update
  rw [hstart]
  dsimp only
  -- a clock that jumps restarts the interval
  by_cases hjump : itimediff now tsFlush ≥ 10000 ∨ itimediff now tsFlush < -10000
  · rw [if_pos hjump]
    exact replies_update hfits clock
  · rw [if_neg hjump]
    dsimp only
    split_ifs
    · exact replies_update hfits clock
    · exact replies_update hfits clock
    · exact ⟨[], _, rfl, Replies.adjust (.refl _)⟩

theorem respond_spec (hfits : Fits e) (flushSegments ackNoDelay : Bool) (clock : Nat → UInt32) :
    ∃ out e', e.respond flushSegments ackNoDelay clock = .ok (out, e') ∧ Replies e e' out := by
  unfold respond
  split_ifs
  · exact replies_flush hfits true clock
  · exact replies_flush hfits false clock
  · exact ⟨[], e, rfl, .refl e⟩

theorem updateAck_eq (e : Endpoint) (rtt : Int32) :
    ∃ rxSrtt rxRttvar rxRto, e.updateAck rtt = { e with rxSrtt, rxRttvar, rxRto } :=
  ⟨_, _, _, rfl⟩

/-- The congestion window grows without a division by zero. -/
theorem growCwnd_eq (hmss : e.mss ≠ 0) (before : UInt32) :
    ∃ cwnd incr, e.growCwnd before = .ok { e with cwnd, incr } := by
  have hincr : (if e.incr < e.mss then e.mss else e.incr) ≠ 0 := by
    split_ifs with hlt
    · exact hmss
    · intro hzero
      rw [hzero] at hlt
      exact hmss (UInt32.le_antisymm (UInt32.not_lt.mp hlt) (UInt32.zero_le))
  have hcap : ∀ cwnd incr, ∃ cwnd' incr', (if cwnd > e.rmtWnd then
      { e with cwnd := e.rmtWnd, incr := e.rmtWnd * e.mss } else { e with cwnd, incr }) =
        { e with cwnd := cwnd', incr := incr' } := by
    intro cwnd incr
    split_ifs <;> exact ⟨_, _, rfl⟩
  unfold growCwnd
  by_cases hgrow : e.nocwnd = 0 ∧ itimediff e.sndUna before > 0 ∧ e.cwnd < e.rmtWnd
  · rw [if_pos hgrow]
    dsimp only
    by_cases hslow : e.cwnd < e.ssthresh
    · rw [if_pos hslow]
      obtain ⟨cwnd, incr, hcap⟩ := hcap (e.cwnd + 1) (e.incr + e.mss)
      exact ⟨cwnd, incr, congrArg Except.ok hcap⟩
    · rw [if_neg hslow, if_neg hincr]
      obtain ⟨cwnd, incr, hcap⟩ := hcap _ _
      exact ⟨cwnd, incr, congrArg Except.ok hcap⟩
  · rw [if_neg hgrow]
    exact ⟨e.cwnd, e.incr, rfl⟩

theorem input_of_loop {regular : Bool} {code : Int} {received : Endpoint} {acc : Arrival}
    (hlong : ¬ data.length < overhead)
    (hloop : inputLoop e.conv (fun head bts s => receive regular s.1 s.2 head bts) data.length
      (e, {}) data = .ok (code, received, acc)) (hcode : ¬ code < 0) (hfits : Fits received)
    (hmss : received.mss ≠ 0) (ackNoDelay : Bool) (now : UInt32) (clock : Nat → UInt32) :
    ∃ out e', e.input data regular ackNoDelay now clock = .ok (0, out, e') ∧
      Replies received e' out := by
  have hadjust : ∃ rxSrtt rxRttvar rxRto, (if acc.updateRTT = true ∧ regular = true ∧
      itimediff now acc.latest ≥ 0 then received.updateAck (itimediff now acc.latest)
      else received) = { received with rxSrtt, rxRttvar, rxRto } := by
    split_ifs
    · exact updateAck_eq ..
    · exact ⟨_, _, _, rfl⟩
  obtain ⟨rxSrtt, rxRttvar, rxRto, hadjust⟩ := hadjust
  obtain ⟨cwnd, incr, hgrow⟩ :=
    growCwnd_eq (e := { received with rxSrtt, rxRttvar, rxRto }) hmss e.sndUna
  obtain ⟨out, e', hrespond, hreplies⟩ :=
    respond_spec (e := { received with rxSrtt, rxRttvar, rxRto, cwnd, incr }) hfits.adjust
      acc.flushSegments ackNoDelay clock
  refine ⟨out, e', ?_, hreplies.adjust⟩
  rw [input, if_neg hlong, hloop]
  show (if code < 0 then _ else _) = _
  rw [if_neg hcode]
  show (Endpoint.growCwnd _ _ >>= fun r => _) = _
  rw [hadjust, hgrow]
  show (Endpoint.respond _ _ _ _ >>= fun r => _) = _
  rw [hrespond]
  rfl

/-- **What `Input` does with a datagram.**  It takes the frames one after the other, and then
replies. -/
theorem input_spec (hne : frames ≠ []) (hframes : ∀ frame ∈ frames, frame.Readable e.conv)
    {received : Endpoint} {acc : Arrival}
    (hreceive : receiveAll true e {} frames = .ok (received, acc)) (hfits : Fits received)
    (hmss : received.mss ≠ 0) (ackNoDelay : Bool) (now : UInt32) (clock : Nat → UInt32) :
    ∃ out e', e.input (Frame.wires frames) true ackNoDelay now clock = .ok (0, out, e') ∧
      Replies received e' out := by
  obtain ⟨frame, rest, rfl⟩ := List.exists_cons_of_ne_nil hne
  have hlong : ¬ (Frame.wires (frame :: rest)).length < overhead := by
    show ¬ (frame.wire ++ Frame.wires rest).length < overhead
    rw [List.length_append, length_wire]
    omega
  have hloop := @inputLoop_wires _ e {} true _ hframes _ (Nat.le_refl _)
  rw [hreceive] at hloop
  exact input_of_loop hlong hloop (by decide) hfits hmss ackNoDelay now clock

end Replies

end Endpoint

end Gokit.Kcp
