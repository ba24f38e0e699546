/-
# Recovery

A network may lose everything for a while.  Once a full `flush` is made after all timeouts have
run out, its datagrams hold every segment that the peer may be missing.  As soon as each of them
has come in, in whatever order and with whatever happens in between, the peer has received all
that was numbered.  It has it in sequence, unless its user has left `rcv_queue` full.
-/

import Gokit.Kcp.Link

namespace Gokit.Kcp

open Gokit.Math
open Endpoint (Flushed Emitted Overdue Replies receive receiveAll pushFrame)

/-- A number that lies in the window. -/
theorem itimediff_before {sn nxt wnd : UInt32} (hnxt : nxt.toNat ≤ sn.toNat)
    (hlt : sn.toNat < nxt.toNat + wnd.toNat)
    (hwnd : wnd.toNat ≤ 2 ^ 31) : itimediff sn (nxt + wnd) < 0 := by
  rw [itimediff, Int32.lt_iff_toInt_lt, KCP.toInt_toInt32, UInt32.toNat_sub, UInt32.toNat_add]
  show _ < (0 : Int)
  rw [Int.bmod_def]
  omega

variable {frames : List Frame}

namespace Endpoint

section Push

variable {own popped : List Segment} {peer : Progress Segment} {e e' : Endpoint}
  {conv : UInt32} {frame : Frame} {acc acc' : Arrival}

/-- A segment in the window that comes in has come in. -/
theorem Sound.received_push (h : Sound own popped peer e) (hframe : Honest conv peer frame)
    (hcmd : frame.head.cmd = 81) (hwnd : e.rcvWnd.toNat ≤ 2 ^ 31)
    (hlt : frame.head.sn.toNat < e.rcvNxt.toNat + e.rcvWnd.toNat)
    (hreceive : receive true e acc frame.head frame.data = .ok (e', acc')) :
    (e'.progress own).Received frame.head.sn.toNat := by
  obtain ⟨e'', acc'', hreceive', -, hle⟩ := h.received hframe acc
  rw [hreceive] at hreceive'
  obtain ⟨rfl, -⟩ := Prod.mk.inj (Except.ok.inj hreceive')
  by_cases hold : frame.head.sn.toNat < e.rcvNxt.toNat
  · exact hle.received _ (.inl hold)
  · rcases hframe.cmd with ⟨hack, -⟩ | ⟨-, seg, hseg, hsn, hfrg, hdata⟩ | ⟨hprobe, -⟩
    · exact absurd (hcmd.symm.trans hack) (by decide)
    · have hbefore := itimediff_before (Nat.le_of_not_lt hold) hlt hwnd
      obtain ⟨nxt, queue, buf, hobey, -, -, -, hgot⟩ :=
        (h.heard hframe.una true).receiving.push hcmd hseg hsn hfrg hbefore
          (if (hear true e frame.head).2 > 0 then { acc with flushSegments := true } else acc)
      rw [hdata] at hobey
      obtain ⟨rfl, -⟩ := Prod.mk.inj (Except.ok.inj (hreceive.symm.trans hobey))
      exact hgot
    · rcases hprobe with hprobe | hprobe <;>
        exact absurd (hcmd.symm.trans hprobe) (by decide)

theorem Sound.receivedAll_push (h : Sound own popped peer e)
    (hframes : ∀ frame ∈ frames, Honest conv peer frame) (hframe : frame ∈ frames)
    (hcmd : frame.head.cmd = 81) (hwnd : e.rcvWnd.toNat ≤ 2 ^ 31)
    (hlt : frame.head.sn.toNat < e.rcvNxt.toNat + e.rcvWnd.toNat)
    (hreceive : receiveAll true e acc frames = .ok (e', acc')) :
    (e'.progress own).Received frame.head.sn.toNat := by
  induction frames generalizing e acc with
  | nil => cases hframe
  | cons first rest ih =>
    obtain ⟨hfirst, hrest⟩ := List.forall_mem_cons.mp hframes
    obtain ⟨e₁, acc₁, hone, hsound, hle⟩ := h.received hfirst acc
    rw [receiveAll, hone] at hreceive
    replace hreceive : receiveAll true e₁ acc₁ rest = .ok (e', acc') := hreceive
    rcases List.mem_cons.mp hframe with rfl | hlater
    · obtain ⟨e₂, acc₂, hall, -, hle'⟩ := hsound.receivedAll hrest acc₁
      rw [hreceive] at hall
      obtain ⟨rfl, -⟩ := Prod.mk.inj (Except.ok.inj hall)
      exact hle'.received _ (h.received_push hfirst hcmd hwnd hlt hone)
    · have hconfig := receive_sameQueue hone
      refine ih hsound hrest hlater (hconfig.rcvWnd ▸ hwnd) ?_ hreceive
      rw [hconfig.rcvWnd]
      exact Nat.lt_of_lt_of_le hlt (Nat.add_le_add_right hle.next _)

end Push

end Endpoint

/-! ## Along a run -/

section Recovery

variable {conv : UInt32} {ends : Side → Endpoint} {l : Link} {x : Side}
  {actions : List LinkAction}

/-- After any actions the invariant holds, and both ends have only gone on. -/
theorem Linked.after (h : Linked conv ends l)
    (hadmits : (link ends).Admits Link.Allowed actions l) :
    Advances conv ends l ((link ends).after actions l) := by
  induction actions generalizing l with
  | nil => exact ⟨h, fun _ => .refl _⟩
  | cons a rest ih =>
    obtain ⟨henabled, hallowed, hrest⟩ := hadmits
    have hstep := h.step henabled hallowed
    have hlater := ih hstep.linked hrest
    exact ⟨hlater.linked, fun y => (hstep.le y).trans (hlater.le y)⟩

/-- A datagram with a segment in the window comes in. -/
theorem Linked.next_input_push (h : Linked conv ends l) {frame : Frame}
    (hhonest : ∀ frame ∈ frames, Honest conv (l.progress x.other) frame) (hframe : frame ∈ frames)
    (hcmd : frame.head.cmd = 81) (hwnd : (ends x).rcvWnd.toNat ≤ 2 ^ 31)
    (hlt : frame.head.sn.toNat < (l.ends x).rcvNxt.toNat + (ends x).rcvWnd.toNat)
    (ackNoDelay : Bool) (now : UInt32) (clock : Nat → UInt32) :
    ((l.next (.input x (Frame.wires frames) ackNoDelay now clock)).progress x).Received
      frame.head.sn.toNat := by
  obtain ⟨popped, hsound, -⟩ := h.sound x
  obtain ⟨received, acc, out, e, hreceive, hinput, hreplies, -⟩ :=
    h.inputFrames (List.ne_nil_of_mem hframe) hhonest ackNoDelay now clock
  rw [← (h.config x).rcvWnd] at hwnd hlt
  have hgot := hsound.receivedAll_push hhonest hframe hcmd hwnd hlt hreceive
  obtain ⟨moved, parts, -, hflushed, -⟩ := hreplies
  rw [Link.next, hinput]
  show Progress.Received (Link.progress (l.put x e out (l.sent x) (l.got x)) x) _
  simp only [Link.progress, Link.put, Function.update_self]
  show Got e.rcvNxt e.rcvBuf frame.head.sn.toNat
  rw [hflushed.rcvNxt, hflushed.rcvBuf]
  exact hgot

variable {clock : Nat → UInt32}

/-- A datagram that is delivered at some time has come in at the end. -/
theorem Linked.after_input_push (h : Linked conv ends l)
    (hadmits : (link ends).Admits Link.Allowed actions l) {frame : Frame}
    (hhonest : ∀ frame ∈ frames, Honest conv (l.progress x.other) frame) (hframe : frame ∈ frames)
    (hcmd : frame.head.cmd = 81) (hwnd : (ends x).rcvWnd.toNat ≤ 2 ^ 31)
    (hlt : frame.head.sn.toNat < (l.ends x).rcvNxt.toNat + (ends x).rcvWnd.toNat)
    {ackNoDelay : Bool} {now : UInt32}
    (hinput : .input x (Frame.wires frames) ackNoDelay now clock ∈ actions) :
    (((link ends).after actions l).progress x).Received frame.head.sn.toNat := by
  induction actions generalizing l with
  | nil => cases hinput
  | cons a rest ih =>
    obtain ⟨henabled, hallowed, hrest⟩ := hadmits
    have hstep := h.step henabled hallowed
    rcases List.mem_cons.mp hinput with rfl | hlater
    · exact ((hstep.linked.after hrest).le x).received _
        (h.next_input_push hhonest hframe hcmd hwnd hlt _ _ _)
    · refine ih hstep.linked hrest
        (fun other hother => (hhonest other hother).mono (hstep.le x.other)) ?_ hlater
      exact Nat.lt_of_lt_of_le hlt (Nat.add_le_add_right (hstep.le x).next _)

/-- What the last flush has put out. -/
def Link.flushed (l : Link) (x : Side) (clock : Nat → UInt32) : List Bytes :=
  ((l.next (.flush x true clock)).net x.other).drop (l.net x.other).length

/-- A flush at a time when everything is overdue sends whatever the peer may be missing. -/
theorem Linked.flush_covers (h : Linked conv ends l)
    (hdue : ∀ seg ∈ (l.ends x).sndBuf, seg.acked = false → Overdue clock seg)
    (hsmall : l.Small (.flush x true clock)) {i : Nat}
    (hi : i < ((l.next (.flush x true clock)).numbered x).length) :
    ((l.next (.flush x true clock)).progress x.other).Received i ∨
      ∃ frames frame, Frame.wires frames ∈ l.flushed x clock ∧ frame ∈ frames ∧
        (∀ frame ∈ frames, Honest conv ((l.next (.flush x true clock)).progress x) frame) ∧
        frame.head.cmd = 81 ∧ frame.head.sn.toNat = i := by
  obtain ⟨popped, hsound, -⟩ := h.sound x
  obtain ⟨nextUpdate, parts, e, moved, hflush, hflushed, -, houtput, hall⟩ :=
    Endpoint.flush_spec hsound.sized.fits true clock
  have hnext : l.next (.flush x true clock) =
      l.put x e (parts.map Frame.wires) (l.sent x) (l.got x) := by
    rw [Link.next, hflush]
    rfl
  have henabled : l.Enabled (.flush x true clock) := ⟨h.panic, trivial⟩
  have hlinked := (h.step henabled ⟨hsmall, trivial⟩).linked
  have hends : (l.next (.flush x true clock)).ends x = e := by
    rw [hnext]
    exact Function.update_self ..
  have hout : l.flushed x clock = parts.map Frame.wires := by
    rw [Link.flushed, hnext]
    simp only [Link.put, Function.update_self]
    exact List.drop_left
  obtain ⟨popped', hsound', -⟩ := hlinked.sound x
  have hseg : ((l.next (.flush x true clock)).numbered x)[i]? = some _ :=
    List.getElem?_eq_getElem hi
  rcases hsound'.sending.received_or_flight hseg with hreceived | ⟨flight, hflight, hfree, hsame⟩
  · exact .inl hreceived
  · rw [hends] at hsound' hflight
    obtain ⟨part, hpart, head, hframe⟩ := hall rfl hdue flight hflight hfree
    refine .inr ⟨part, pushFrame head flight, ?_, hframe, fun frame hother => ?_, rfl, ?_⟩
    · rw [hout]
      exact List.mem_map_of_mem hpart
    · have hhonest := (houtput.emitted part hpart frame hother).honest hflushed hsound'.sending
        hsound.receiving.acklist
      rw [h.sameConv x] at hhonest
      rw [Link.progress, hends]
      exact hhonest
    · show flight.segment.sn.toNat = i
      rw [hsame]
      exact hsound'.sending.inPlace i _ hseg

/-- **Recovery.**  In any state an end makes a full flush when everything it holds is overdue, and
the window of the peer has room for all that was numbered.  Once every datagram of this flush has
come in, the peer has received all that was numbered, and it has it in sequence unless its queue is
full. -/
theorem link_recovers (h : ∀ x, Fresh conv (ends x)) (hrun : (link ends).Run Link.Allowed l)
    (hdue : ∀ seg ∈ (l.ends x).sndBuf, seg.acked = false → Overdue clock seg)
    (hsmall : l.Small (.flush x true clock)) (hwnd : (ends x.other).rcvWnd.toNat ≤ 2 ^ 31)
    (hwindow : ((l.next (.flush x true clock)).numbered x).length ≤
      (l.ends x.other).rcvNxt.toNat + (ends x.other).rcvWnd.toNat)
    (hadmits : (link ends).Admits Link.Allowed actions (l.next (.flush x true clock)))
    (hinputs : ∀ data ∈ l.flushed x clock, ∃ ackNoDelay now clock',
      .input x.other data ackNoDelay now clock' ∈ actions) :
    (∀ i < ((l.next (.flush x true clock)).numbered x).length,
      (((link ends).after actions (l.next (.flush x true clock))).progress x.other).Received i) ∧
    (((l.next (.flush x true clock)).numbered x).length ≤
        (((link ends).after actions (l.next (.flush x true clock))).ends x.other).rcvNxt.toNat ∨
      (ends x.other).rcvWnd.toNat ≤
        (((link ends).after actions (l.next (.flush x true clock))).ends
          x.other).rcvQueue.length) := by
  have hlinked := linked_of_run h hrun
  have hstep := hlinked.step (a := .flush x true clock) ⟨hlinked.panic, trivial⟩
    ⟨hsmall, trivial⟩
  have hafter := hstep.linked.after hadmits
  have hall : ∀ i < ((l.next (.flush x true clock)).numbered x).length,
      (((link ends).after actions (l.next (.flush x true clock))).progress x.other).Received i := by
    intro i hi
    rcases hlinked.flush_covers hdue hsmall hi with
      hreceived | ⟨frames, frame, hdata, hframe, hhonest, hcmd, hsn⟩
    · exact (hafter.le x.other).received i hreceived
    · obtain ⟨ackNoDelay, now, clock', hinput⟩ := hinputs _ hdata
      rw [← hsn]
      refine hstep.linked.after_input_push hadmits ?_ hframe hcmd hwnd ?_ hinput
      · rw [Side.other_other]
        exact hhonest
      · rw [hsn]
        exact Nat.lt_of_lt_of_le (Nat.lt_of_lt_of_le hi hwindow)
          (Nat.add_le_add_right (hstep.le x.other).next _)
  refine ⟨hall, ?_⟩
  by_contra hneither
  obtain ⟨hbehind, hroom⟩ := not_or.mp hneither
  obtain ⟨_, hsound, _⟩ := hafter.linked.sound x.other
  -- the next segment has come in, so it would have gone to the queue
  rcases hall _ (Nat.lt_of_not_le hbehind) with hless | ⟨seg, hseg, hsn⟩
  · exact Nat.lt_irrefl _ hless
  · have hfull := hsound.receiving.settled seg hseg (UInt32.toNat_inj.mp hsn)
    rw [(hafter.linked.config x.other).rcvWnd] at hfull
    exact hroom hfull

end Recovery

/-- The state in which the first datagram is lost. -/
def lost : Link := (link opened).after (exchange.take 2) (link opened).init

/-- The datagram that is sent again, a second later. -/
def repeated : Bytes :=
  Frame.wires [⟨{ conv := 7, cmd := 81, frg := 0, wnd := 32, ts := 1100, sn := 0, una := 0 },
    [1, 2, 3]⟩]

/-- The first datagram is lost, and the next flush makes up for it. -/
theorem link_recovers_lost :
    (lost.ends .right).rcvNxt = 0 ∧
      (1 ≤ (((link opened).after [.input .right repeated true 1100 fun _ => 1100]
          (lost.next (.flush .left true fun _ => 1100))).ends .right).rcvNxt.toNat ∨
        32 ≤ (((link opened).after [.input .right repeated true 1100 fun _ => 1100]
          (lost.next (.flush .left true fun _ => 1100))).ends .right).rcvQueue.length) := by
  have hdue : ∀ seg ∈ (lost.ends .left).sndBuf, itimediff 1100 seg.resendts ≥ 0 := by
    decide +kernel
  have hinputs : ∀ data ∈ lost.flushed .left fun _ => 1100, data = repeated := by
    decide +kernel
  refine ⟨by decide +kernel, (link_recovers opened_fresh sending_run
    (fun seg hseg _ => .inr fun _ => hdue seg hseg) (by decide +kernel) (by decide +kernel)
    (by decide +kernel) (by decide +kernel) fun data hdata => ⟨true, 1100, fun _ => 1100, ?_⟩).2⟩
  rw [hinputs data hdata]
  exact List.mem_singleton_self _

end Gokit.Kcp
