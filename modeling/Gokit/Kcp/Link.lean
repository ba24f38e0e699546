/-
# Two ends and the network between them

Two ends of one conversation send datagrams to each other.  The network may lose a datagram,
deliver it any number of times, and in any order: what was sent once may come in at any later
time, or never.  Each end calls `Send`, `Recv`, `flush` and `Update` whenever it likes and with
whatever data, and clocks are arbitrary.

Along every run neither end panics, and what one end has received is always the beginning of what
the other has sent.  The segments are to fit into the buffers of the pool, as they do in a session
with a `KcpMtu` of at most 1524, and their numbers are to stay below `2 ^ 31`.  With datagrams that
come in late without a bound this cannot be dropped, as a number would come around again.
In stream mode no call of `Send` is to be refused for its length.
-/

import Gokit.Kcp.Assembly
import Gokit.Math.Transition

namespace Gokit.Kcp

open Gokit.Math
open Endpoint (SameConfig SameQueue Replies receiveAll receiveAll_sameQueue input_spec)

/-! ## The system -/

inductive Side
  | left
  | right
  deriving DecidableEq

namespace Side

def other : Side → Side
  | left => right
  | right => left

@[simp]
theorem other_other (x : Side) : x.other.other = x := by
  cases x <;> rfl

theorem other_ne (x : Side) : x.other ≠ x := by
  cases x <;> decide

theorem eq_or_other (x y : Side) : y = x ∨ y = x.other := by
  cases x <;> cases y <;> decide

end Side

/-- The segments that were numbered from one state to the next. -/
def newly (e e' : Endpoint) : List Segment :=
  KCP.number e.sndNxt (e.sndQueue.take (e.sndQueue.length - e'.sndQueue.length))

/-- The ends, the network, and a record of what was done. -/
structure Link where
  ends : Side → Endpoint
  /-- the datagrams that were ever sent to a side -/
  net : Side → List Bytes := fun _ => []
  /-- what `Send` has taken, call by call -/
  sent : Side → List Bytes := fun _ => []
  /-- what `Recv` has returned, call by call -/
  got : Side → List Bytes := fun _ => []
  /-- the segments that were numbered -/
  numbered : Side → List Segment := fun _ => []
  panic : Option Panic := none

/-- The steps of the two sessions. -/
inductive LinkAction
  | send (x : Side) (data : Bytes)
  | recv (x : Side) (len : Nat)
  | flush (x : Side) (full : Bool) (clock : Nat → UInt32)
  | update (x : Side) (now : UInt32) (clock : Nat → UInt32)
  | input (x : Side) (data : Bytes) (ackNoDelay : Bool) (now : UInt32) (clock : Nat → UInt32)

namespace Link

/-- One end has done something, and has put out some datagrams. -/
def put (l : Link) (x : Side) (e : Endpoint) (out sent got : List Bytes) : Link :=
  { l with
    ends := Function.update l.ends x e
    net := Function.update l.net x.other (l.net x.other ++ out)
    sent := Function.update l.sent x sent
    got := Function.update l.got x got
    numbered := Function.update l.numbered x (l.numbered x ++ newly (l.ends x) e) }

/-- The same, if it has not panicked. -/
def reply (l : Link) (x : Side) : Except Panic (List Bytes × Endpoint) → Link
  | .error panic => { l with panic := some panic }
  | .ok (out, e) => l.put x e out (l.sent x) (l.got x)

def next (l : Link) : LinkAction → Link
  | .send x data =>
    match (l.ends x).send data with
    | .error panic => { l with panic := some panic }
    | .ok (n, e) => l.put x e [] (if n < 0 then l.sent x else l.sent x ++ [data]) (l.got x)
  | .recv x len =>
    let (n, message, e) := (l.ends x).recv len
    l.put x e [] (l.sent x) (if n < 0 then l.got x else l.got x ++ [message])
  | .flush x full clock => l.reply x ((l.ends x).flush full clock >>= fun r => .ok (r.2.1, r.2.2))
  | .update x now clock => l.reply x ((l.ends x).update now clock)
  | .input x data ackNoDelay now clock =>
    l.reply x ((l.ends x).input data true ackNoDelay now clock >>= fun r => .ok (r.2.1, r.2.2))

/-- What comes in was sent before. -/
def Enabled (l : Link) (a : LinkAction) : Prop :=
  l.panic = none ∧
    match a with
    | .input x data _ _ _ => data ∈ l.net x
    | _ => True

def progress (l : Link) (x : Side) : Progress Segment := (l.ends x).progress (l.numbered x)

end Link

/-- Two ends that start, up to the first panic. -/
def link (ends : Side → Endpoint) : System Link LinkAction where
  init := { ends := ends }
  Enabled := Link.Enabled
  next := Link.next

namespace Link

/-- A step that leaves the numbers small. -/
def Small (l : Link) (a : LinkAction) : Prop := ∀ x, ((l.next a).numbered x).length < 2 ^ 31

/-- In stream mode no call of `Send` is refused for its length: it would have queued some of its
bytes before. -/
def Whole (l : Link) : LinkAction → Prop
  | .send x data => (l.ends x).stream = true →
      ((l.ends x).send data).toOption.map Prod.fst ≠ some (-2)
  | _ => True

/-- The steps of the runs below. -/
def Allowed (l : Link) (a : LinkAction) : Prop := l.Small a ∧ l.Whole a

instance (l : Link) : (a : LinkAction) → Decidable (l.Enabled a)
  | .send _ _ => inferInstanceAs (Decidable (l.panic = none ∧ True))
  | .recv _ _ => inferInstanceAs (Decidable (l.panic = none ∧ True))
  | .flush _ _ _ => inferInstanceAs (Decidable (l.panic = none ∧ True))
  | .update _ _ _ => inferInstanceAs (Decidable (l.panic = none ∧ True))
  | .input x data _ _ _ => inferInstanceAs (Decidable (l.panic = none ∧ data ∈ l.net x))

instance (l : Link) (a : LinkAction) : Decidable (l.Small a) :=
  decidable_of_iff (((l.next a).numbered .left).length < 2 ^ 31 ∧
      ((l.next a).numbered .right).length < 2 ^ 31)
    ⟨fun h x => by cases x; exacts [h.1, h.2], fun h => ⟨h .left, h .right⟩⟩

instance (l : Link) : (a : LinkAction) → Decidable (l.Whole a)
  | .send _ _ => inferInstanceAs (Decidable (_ = _ → _ ≠ _))
  | .recv _ _ | .flush _ _ _ | .update _ _ _ | .input _ _ _ _ _ => inferInstanceAs (Decidable True)

instance (l : Link) (a : LinkAction) : Decidable (l.Allowed a) :=
  inferInstanceAs (Decidable (_ ∧ _))

end Link

instance (ends : Side → Endpoint) (l : Link) (a : LinkAction) :
    Decidable ((link ends).Enabled l a) :=
  inferInstanceAs (Decidable (l.Enabled a))

/-! ## The invariant -/

/-- Both ends are sound, each datagram in the network is true, and what was sent is what the
segments hold.  The ends have started as `ends`. -/
structure Linked (conv : UInt32) (ends : Side → Endpoint) (l : Link) : Prop where
  panic : l.panic = none
  sameConv : ∀ x, (l.ends x).conv = conv
  config : ∀ x, SameConfig (ends x) (l.ends x)
  sound : ∀ x, ∃ popped,
    (l.ends x).Sound (l.numbered x) popped (l.progress x.other) ∧
      KCP.assemble [] popped = (l.got x, [])
  net : ∀ x, ∀ data ∈ l.net x,
    Genuine (l.ends x.other).mtu.toNat conv (l.progress x.other) data
  written : ∀ x, KCP.Written (l.ends x).stream (l.sent x)
    (l.numbered x ++ KCP.number (l.ends x).sndNxt (l.ends x).sndQueue)

/-- What a step has to show: the invariant holds after it, and both ends have only gone on. -/
structure Advances (conv : UInt32) (ends : Side → Endpoint) (l l' : Link) : Prop where
  linked : Linked conv ends l'
  le : ∀ x, (l.progress x).Le (l'.progress x)

section Linked

variable {conv : UInt32} {ends : Side → Endpoint} {l : Link} {x : Side} {e : Endpoint}
  {out sent got : List Bytes} {popped : List Segment}

/-- **What one end does.**  It is enough that the end stays sound and that what it puts out is
true: the other end and the network only see that it has gone on. -/
theorem Linked.put (h : Linked conv ends l)
    (hconfig : SameConfig (l.ends x) e)
    (hsound : e.Sound (l.numbered x ++ newly (l.ends x) e) popped (l.progress x.other))
    (hgot : KCP.assemble [] popped = (got, []))
    (hle : (l.progress x).Le (e.progress (l.numbered x ++ newly (l.ends x) e)))
    (hout : ∀ data ∈ out, Genuine (l.ends x).mtu.toNat conv
      (e.progress (l.numbered x ++ newly (l.ends x) e)) data)
    (hwritten : KCP.Written (l.ends x).stream sent
      (l.numbered x ++ newly (l.ends x) e ++ KCP.number e.sndNxt e.sndQueue)) :
    Advances conv ends l (l.put x e out sent got) := by
  have hself : (l.put x e out sent got).progress x =
      e.progress (l.numbered x ++ newly (l.ends x) e) := by
    simp [Link.progress, Link.put]
  have hother : (l.put x e out sent got).progress x.other = l.progress x.other := by
    simp [Link.progress, Link.put, Function.update_of_ne x.other_ne]
  refine ⟨⟨h.panic, fun y => ?_, fun y => ?_, fun y => ?_, fun y => ?_, fun y => ?_⟩, fun y => ?_⟩
  · rcases x.eq_or_other y with rfl | rfl
    · simp only [Link.put, Function.update_self]
      exact hconfig.conv.trans (h.sameConv y)
    · simp only [Link.put, Function.update_of_ne x.other_ne]
      exact h.sameConv x.other
  · rcases x.eq_or_other y with rfl | rfl
    · simp only [Link.put, Function.update_self]
      exact (h.config y).trans hconfig
    · simp only [Link.put, Function.update_of_ne x.other_ne]
      exact h.config x.other
  · rcases x.eq_or_other y with rfl | rfl
    · refine ⟨popped, ?_, ?_⟩
      · rw [hother]
        simp only [Link.put, Function.update_self]
        exact hsound
      · simp only [Link.put, Function.update_self]
        exact hgot
    · obtain ⟨popped', hsound', hgot'⟩ := h.sound x.other
      rw [Side.other_other] at hsound' ⊢
      refine ⟨popped', ?_, ?_⟩
      · rw [hself]
        simp only [Link.put, Function.update_of_ne x.other_ne]
        exact hsound'.mono hle hsound.receiving.row.nxt_le hsound.sending.small
      · simp only [Link.put, Function.update_of_ne x.other_ne]
        exact hgot'
  · rcases x.eq_or_other y with rfl | rfl
    · rw [hother]
      simp only [Link.put, Function.update_of_ne y.other_ne, Function.update_of_ne y.other_ne.symm]
      exact h.net y
    · have hold := h.net x.other
      rw [Side.other_other] at hold ⊢
      rw [hself]
      simp only [Link.put, Function.update_self, hconfig.mtu]
      exact List.forall_mem_append.mpr ⟨fun data hdata => (hold data hdata).mono hle, hout⟩
  · rcases x.eq_or_other y with rfl | rfl
    · simp only [Link.put, Function.update_self, hconfig.stream]
      exact hwritten
    · simp only [Link.put, Function.update_of_ne x.other_ne]
      exact h.written x.other
  · rcases x.eq_or_other y with rfl | rfl
    · rw [hself]
      exact hle
    · rw [hother]
      exact .refl _

theorem newly_eq_nil {e e' : Endpoint} (hqueue : e.sndQueue.length ≤ e'.sndQueue.length) :
    newly e e' = [] := by
  rw [newly, Nat.sub_eq_zero_of_le hqueue, List.take_zero, KCP.number]

theorem newly_eq {e e' : Endpoint} {moved : List Segment}
    (hqueue : e.sndQueue = moved ++ e'.sndQueue) : newly e e' = KCP.number e.sndNxt moved := by
  rw [newly, hqueue, List.length_append, Nat.add_sub_cancel, List.take_left]

theorem Linked.put_same (h : Linked conv ends l) (hconfig : SameConfig (l.ends x) e)
    (hqueue : (l.ends x).sndQueue.length ≤ e.sndQueue.length)
    (hsound : e.Sound (l.numbered x) popped (l.progress x.other))
    (hgot : KCP.assemble [] popped = (got, []))
    (hle : (l.progress x).Le (e.progress (l.numbered x)))
    (hwritten : KCP.Written (l.ends x).stream sent
      (l.numbered x ++ KCP.number e.sndNxt e.sndQueue)) :
    Advances conv ends l (l.put x e [] sent got) := by
  have hnewly : l.numbered x ++ newly (l.ends x) e = l.numbered x := by
    rw [newly_eq_nil hqueue, List.append_nil]
  refine h.put hconfig ?_ hgot ?_ (by simp) ?_
  · rw [hnewly]
    exact hsound
  · rw [hnewly]
    exact hle
  · rw [hnewly]
    exact hwritten

theorem Linked.sended (h : Linked conv ends l) {data : Bytes} (hwhole : l.Whole (.send x data)) :
    Advances conv ends l (l.next (.send x data)) := by
  obtain ⟨popped, hsound, hgot⟩ := h.sound x
  have hsized := hsound.sized
  obtain ⟨n, queue, hsend, hsent⟩ :=
    @KCP.send_sent (l.ends x).base _ _ _ hsized.mss_pos hsized.mss_le hsized.queue (h.written x)
      data
  have hend : (l.ends x).send data = .ok (n, { l.ends x with sndQueue := queue }) := by
    rw [Endpoint.send, hsend]
    rfl
  rw [Link.next, hend]
  cases hsent with
  | queued hbounded hlength hwritten =>
    refine h.put_same ⟨rfl, rfl, rfl, rfl, rfl, rfl, rfl⟩ hlength
      ⟨{ hsound.sending with }, ⟨hsound.receiving.row, hsound.receiving.settled,
        hsound.receiving.acklist⟩, { hsized with queue := hbounded }⟩ hgot ?_ hwritten
    exact ⟨List.prefix_rfl, Nat.le_refl _, fun _ hi => hi⟩
  | refused hneg =>
    show Advances conv ends l (l.put x (l.ends x) [] (if n < 0 then _ else _) _)
    rw [if_pos hneg]
    exact h.put_same (.refl _) (Nat.le_refl _) hsound hgot (.refl _) (h.written x)
  | filled hstream =>
    refine absurd ?_ (hwhole hstream)
    rw [hend]
    rfl

/-- What is received in sequence is the beginning of what the peer has numbered. -/
theorem popped_initial {peer : Progress Segment} {own : List Segment}
    (hsound : e.Sound own popped peer) (more : List Segment) :
    popped ++ e.rcvQueue <+: peer.sent ++ more := by
  rw [hsound.receiving.row.inOrder]
  exact (List.take_prefix _ _).trans (List.prefix_append _ _)

theorem Linked.received (h : Linked conv ends l) (len : Nat) :
    Advances conv ends l (l.next (.recv x len)) := by
  obtain ⟨popped, hsound, hgot⟩ := h.sound x
  have hcounts : KCP.CountsDown (l.ends x).rcvQueue := by
    obtain ⟨rest, hrest⟩ := popped_initial hsound
      (KCP.number (l.ends x.other).sndNxt (l.ends x.other).sndQueue)
    exact (h.written x.other).counts.of_part ⟨popped, rest, hrest⟩
  show Advances conv ends l (l.put x ((l.ends x).recv len).2.2 [] (l.sent x)
    (if ((l.ends x).recv len).1 < 0 then l.got x else l.got x ++ [((l.ends x).recv len).2.1]))
  by_cases hneg : ((l.ends x).recv len).1 < 0
  · rw [if_pos hneg, Endpoint.recv_of_neg hneg]
    exact h.put_same (.refl _) (Nat.le_refl _) hsound hgot (.refl _) (h.written x)
  · obtain ⟨segs, queue, nxt, buf, askTell, hrecv, hmessage, hreceiving, hle, hall⟩ :=
      hsound.receiving.recv hcounts (Int.not_lt.mp hneg)
    rw [if_neg hneg, hrecv]
    refine h.put_same ⟨rfl, rfl, rfl, rfl, rfl, rfl, rfl⟩ (Nat.le_refl _)
      ⟨{ hsound.sending with }, hreceiving, { hsound.sized with }⟩ ?_
      ⟨List.prefix_rfl, hle, hall⟩ (h.written x)
    rw [KCP.assemble_append, hgot, hmessage]

/-- An end puts something out after some frames have come in. -/
theorem Linked.replied (h : Linked conv ends l) {received : Endpoint}
    (hsame : SameQueue (l.ends x) received)
    (hsound : received.Sound (l.numbered x) popped (l.progress x.other))
    (hgot : KCP.assemble [] popped = (l.got x, []))
    (hle : (l.progress x).Le (received.progress (l.numbered x))) (hreplies : Replies received e out)
    (hsmall : (l.numbered x ++ newly (l.ends x) e).length < 2 ^ 31) :
    Advances conv ends l (l.put x e out (l.sent x) (l.got x)) := by
  obtain ⟨moved, hflushed, hreplied⟩ := hsound.replied hreplies
  have hnewly : newly (l.ends x) e = KCP.number received.sndNxt moved := by
    rw [newly_eq (hsame.sndQueue.symm.trans hflushed.queue), hsame.sndNxt]
  rw [hnewly, List.length_append, length_number] at hsmall
  obtain ⟨hsound', hle', hout⟩ := hreplied hsmall
  refine h.put (hsame.toSameConfig.trans hflushed.config) ?_ hgot ?_ ?_ ?_
  · rw [hnewly]
    exact hsound'
  · rw [hnewly]
    exact hle.trans hle'
  · rw [hnewly, ← hsame.mtu, ← h.sameConv x, ← hsame.conv]
    exact hout
  · rw [hnewly, hflushed.sndNxt, List.append_assoc, ← number_append_eq, ← hflushed.queue,
      hsame.sndNxt, hsame.sndQueue]
    exact h.written x

/-- Frames come in that are true of the peer. -/
theorem Linked.inputFrames (h : Linked conv ends l) {frames : List Frame} (hne : frames ≠ [])
    (hhonest : ∀ frame ∈ frames, Honest conv (l.progress x.other) frame) (ackNoDelay : Bool)
    (now : UInt32) (clock : Nat → UInt32) :
    ∃ received acc out e, receiveAll true (l.ends x) {} frames = .ok (received, acc) ∧
      (l.ends x).input (Frame.wires frames) true ackNoDelay now clock = .ok (0, out, e) ∧
      Replies received e out ∧
      ∃ popped, received.Sound (l.numbered x) popped (l.progress x.other) ∧
        KCP.assemble [] popped = (l.got x, []) ∧
        (l.progress x).Le (received.progress (l.numbered x)) := by
  obtain ⟨popped, hsound, hgot⟩ := h.sound x
  obtain ⟨received, acc, hreceive, hsound', hle⟩ := hsound.receivedAll hhonest {}
  have hreadable : ∀ frame ∈ frames, frame.Readable (l.ends x).conv := by
    rw [h.sameConv x]
    exact fun frame hframe => (hhonest frame hframe).readable
  obtain ⟨out, e, hinput, hreplies⟩ := input_spec hne hreadable hreceive hsound'.sized.fits
    hsound'.sized.mss_pos ackNoDelay now clock
  exact ⟨received, acc, out, e, hreceive, hinput, hreplies, popped, hsound', hgot, hle⟩

/-- The numbers stay small in a step that is admitted. -/
theorem small_of_next {a : LinkAction} (hnext : l.next a = l.put x e out sent got)
    (hsmall : l.Small a) : (l.numbered x ++ newly (l.ends x) e).length < 2 ^ 31 := by
  have hlength := hsmall x
  simp only [hnext, Link.put, Function.update_self] at hlength
  exact hlength

/-- **The step.** -/
theorem Linked.step (h : Linked conv ends l) {a : LinkAction} (henabled : l.Enabled a)
    (hallowed : l.Allowed a) : Advances conv ends l (l.next a) := by
  obtain ⟨-, henabled⟩ := henabled
  obtain ⟨hsmall, hwhole⟩ := hallowed
  cases a with
  | send x data => exact h.sended hwhole
  | recv x len => exact h.received len
  | flush x full clock =>
    obtain ⟨popped, hsound, hgot⟩ := h.sound x
    obtain ⟨out, e, hflush, hreplies⟩ := Endpoint.replies_flush hsound.sized.fits full clock
    have hnext : l.next (.flush x full clock) = l.put x e out (l.sent x) (l.got x) := by
      rw [Link.next, hflush]
      rfl
    rw [hnext]
    exact h.replied (.refl _) hsound hgot (.refl _) hreplies (small_of_next hnext hsmall)
  | update x now clock =>
    obtain ⟨popped, hsound, hgot⟩ := h.sound x
    obtain ⟨out, e, hupdate, hreplies⟩ := Endpoint.update_spec hsound.sized.fits now clock
    have hnext : l.next (.update x now clock) = l.put x e out (l.sent x) (l.got x) := by
      rw [Link.next, hupdate]
      rfl
    rw [hnext]
    exact h.replied (.refl _) hsound hgot (.refl _) hreplies (small_of_next hnext hsmall)
  | input x data ackNoDelay now clock =>
    obtain ⟨frames, rfl, hsendable, hhonest⟩ := h.net x data henabled
    obtain ⟨received, acc, out, e, hreceive, hinput, hreplies, popped, hsound, hgot, hle⟩ :=
      h.inputFrames hsendable.ne_nil hhonest ackNoDelay now clock
    have hnext : l.next (.input x (Frame.wires frames) ackNoDelay now clock) =
        l.put x e out (l.sent x) (l.got x) := by
      rw [Link.next, hinput]
      rfl
    rw [hnext]
    exact h.replied (receiveAll_sameQueue hreceive) hsound hgot hle hreplies
      (small_of_next hnext hsmall)

end Linked

/-! ## Runs -/

/-- An end that starts. -/
structure Fresh (conv : UInt32) (e : Endpoint) : Prop where
  sameConv : e.conv = conv
  sndUna : e.sndUna = 0
  sndNxt : e.sndNxt = 0
  rcvNxt : e.rcvNxt = 0
  sndQueue : e.sndQueue = []
  rcvQueue : e.rcvQueue = []
  sndBuf : e.sndBuf = []
  rcvBuf : e.rcvBuf = []
  acklist : e.acklist = []
  sized : e.Sized

section Runs

variable {conv : UInt32} {ends : Side → Endpoint} {l : Link}

theorem Fresh.sound {e peer : Endpoint} (h : Fresh conv e) (hpeer : Fresh conv peer) :
    e.Sound [] [] (peer.progress []) where
  sending := {
    small := by decide
    inPlace := fun _ _ hseg => by cases hseg
    sndNxt := by rw [h.sndNxt]; rfl
    peerNext := by
      show peer.rcvNxt.toNat ≤ 0
      rw [hpeer.rcvNxt]
      decide
    sndUna := by
      rw [h.sndUna]
      exact Nat.zero_le _
    flights := by
      rw [h.sndUna, h.sndBuf]
      exact .nil }
  receiving := {
    row := by
      rw [h.rcvQueue, h.rcvNxt, h.rcvBuf]
      exact ⟨Nat.two_pow_pos 31, Nat.zero_le _, rfl, by simp, .nil⟩
    settled := by
      rw [h.rcvBuf]
      exact fun seg hseg => by cases hseg
    acklist := by
      rw [h.acklist]
      exact fun ack hack => by cases hack }
  sized := h.sized

theorem linked_init (h : ∀ x, Fresh conv (ends x)) : Linked conv ends (link ends).init where
  panic := rfl
  sameConv x := (h x).sameConv
  config x := .refl (ends x)
  sound x := ⟨[], (h x).sound (h x.other), rfl⟩
  net _ _ hdata := by cases hdata
  written x := by
    show KCP.Written _ [] ([] ++ KCP.number (ends x).sndNxt (ends x).sndQueue)
    rw [(h x).sndQueue]
    exact KCP.written_nil _

/-- **The invariant.** -/
theorem linked_of_run (h : ∀ x, Fresh conv (ends x)) (hrun : (link ends).Run Link.Allowed l) :
    Linked conv ends l :=
  hrun.invariant (linked_init h) fun _ _ hlinked henabled hallowed =>
    (hlinked.step henabled hallowed).linked

/-- An end that sends without a congestion window. -/
def openedEnd : Endpoint := { Endpoint.newKCP 7 with nocwnd := 1 }

def opened : Side → Endpoint := fun _ => openedEnd

theorem opened_fresh : ∀ x, Fresh 7 (opened x) := fun _ => show Fresh 7 openedEnd from
  ⟨rfl, rfl, rfl, rfl, rfl, rfl, rfl, rfl, rfl,
    ⟨by decide, by decide, by decide, by decide, List.forall_mem_nil _, List.forall_mem_nil _⟩⟩

/-- The datagram that goes from left to right. -/
def exchanged : Bytes :=
  Frame.wires [⟨{ conv := 7, cmd := 81, frg := 0, wnd := 32, ts := 100, sn := 0, una := 0 },
    [1, 2, 3]⟩]

/-- A message goes from left to right. -/
def exchange : List LinkAction :=
  [.send .left [1, 2, 3], .flush .left true fun _ => 100,
    .input .right exchanged true 100 fun _ => 100, .recv .right 3]

theorem exchange_run :
    (link opened).Run Link.Allowed ((link opened).after exchange (link opened).init) :=
  .of_admits .start (by decide +kernel)

/-- The datagram is under way. -/
theorem sending_run : (link opened).Run Link.Allowed
    ((link opened).after (exchange.take 2) (link opened).init) :=
  .of_admits .start (by decide +kernel)

/-- **Reliable delivery.**  Two ends of a conversation send to each other over a network that may
lose, repeat and reorder datagrams.  Whatever they do, neither of them panics, and the bytes that
one has received are the first ones of those that the other has sent. -/
theorem link_delivers_in_order (h : ∀ x, Fresh conv (ends x))
    (hrun : (link ends).Run Link.Allowed l) (x : Side) :
    l.panic = none ∧ (l.got x).flatten <+: (l.sent x.other).flatten := by
  have hlinked := linked_of_run h hrun
  obtain ⟨popped, hsound, hgot⟩ := hlinked.sound x
  have hbytes := KCP.flatten_assemble [] popped
  rw [hgot, List.append_nil, List.nil_append] at hbytes
  refine ⟨hlinked.panic, ?_⟩
  show (l.got x).flatten <+: _
  rw [hbytes, ← (hlinked.written x.other).bytes]
  exact KCP.content_prefix ((List.prefix_append _ _).trans (popped_initial hsound _))

/-- The message comes in. -/
theorem link_delivers_in_order_exchange :
    ((link opened).after exchange (link opened).init).got .right = [[1, 2, 3]] ∧
      (((link opened).after exchange (link opened).init).got .right).flatten <+:
        (((link opened).after exchange (link opened).init).sent .left).flatten :=
  ⟨by decide +kernel, (link_delivers_in_order opened_fresh exchange_run .right).2⟩

/-- **Messages.**  If an end sends in message mode, then what the other end has received are the
first ones of its messages, each as it was sent. -/
theorem link_delivers_messages (h : ∀ x, Fresh conv (ends x))
    (hrun : (link ends).Run Link.Allowed l) {x : Side} (hmode : (ends x.other).stream = false) :
    l.got x <+: l.sent x.other := by
  have hlinked := linked_of_run h hrun
  obtain ⟨popped, hsound, hgot⟩ := hlinked.sound x
  have hsent := (hlinked.written x.other).messages ((hlinked.config x.other).stream.trans hmode)
  have hprefix : popped <+: l.numbered x.other ++
      KCP.number (l.ends x.other).sndNxt (l.ends x.other).sndQueue :=
    (List.prefix_append popped _).trans (popped_initial hsound _)
  have hmessages : (KCP.assemble [] popped).1 <+: _ := KCP.assemble_prefix hprefix
  rw [hgot, hsent] at hmessages
  exact hmessages

theorem link_delivers_messages_exchange :
    opened Side.left = openedEnd ∧
      ((link opened).after exchange (link opened).init).got .right <+:
        ((link opened).after exchange (link opened).init).sent .left :=
  ⟨rfl, link_delivers_messages opened_fresh exchange_run rfl⟩

/-- A segment that was numbered has come in, or it is on its way. -/
theorem Endpoint.Sending.received_or_flight {e : Endpoint} {own : List Segment}
    {peer : Progress Segment} (h : e.Sending own peer) {i : Nat} {seg : Segment}
    (hseg : own[i]? = some seg) :
    peer.Received i ∨ ∃ flight ∈ e.sndBuf, flight.acked = false ∧ flight.segment = seg := by
  by_cases hbelow : i < e.sndUna.toNat
  · exact .inl (.inl (Nat.lt_of_lt_of_le hbelow h.sndUna))
  · have hmem : seg ∈ own.drop e.sndUna.toNat := by
      refine List.mem_of_getElem? (i := i - e.sndUna.toNat) ?_
      rw [List.getElem?_drop, Nat.add_sub_cancel' (Nat.le_of_not_lt hbelow)]
      exact hseg
    obtain ⟨flight, hflight, hcarries⟩ := exists_right_of_mem h.flights hmem
    cases hacked : flight.acked with
    | true =>
      rw [← h.inPlace i seg hseg]
      exact .inl (hcarries.acked hacked)
    | false =>
      refine .inr ⟨flight, hflight, hacked, ?_⟩
      rw [Flight.segment, hcarries.sn, hcarries.frg hacked, hcarries.data hacked]

/-- **Nothing is lost.**  What an end was given to send is what it has numbered and what waits to
be numbered.  Every segment that was numbered has come to the peer in sequence, or waits there for
one before it, or is still held by the end, which has not been told that it came in. -/
theorem link_loses_nothing (h : ∀ x, Fresh conv (ends x)) (hrun : (link ends).Run Link.Allowed l)
    (x : Side) :
    KCP.content (l.numbered x ++ (l.ends x).sndQueue) = (l.sent x).flatten ∧
      ∀ i seg, (l.numbered x)[i]? = some seg →
        i < (l.ends x.other).rcvNxt.toNat ∨ seg ∈ (l.ends x.other).rcvBuf ∨
          ∃ flight ∈ (l.ends x).sndBuf, flight.acked = false ∧ flight.segment = seg := by
  have hlinked := linked_of_run h hrun
  obtain ⟨_, hsound, _⟩ := hlinked.sound x
  obtain ⟨_, hpeer, _⟩ := hlinked.sound x.other
  rw [Side.other_other] at hpeer
  refine ⟨?_, fun i seg hseg => ?_⟩
  · rw [← (hlinked.written x).bytes, KCP.content_append, KCP.content_append, KCP.content_number]
  · rcases hsound.sending.received_or_flight hseg with (hbelow | ⟨other, hother, hsn⟩) | hflight
    · exact .inl hbelow
    · have hsame : (l.numbered x)[other.sn.toNat]? = some other :=
        (hpeer.receiving.row.early other hother).2
      rw [hsn, hseg] at hsame
      rw [Option.some.inj hsame]
      exact .inr (.inl hother)
    · exact .inr (.inr hflight)

theorem link_loses_nothing_exchange :
    ((link opened).after (exchange.take 2) (link opened).init).sent .left = [[1, 2, 3]] ∧
      KCP.content (((link opened).after (exchange.take 2) (link opened).init).numbered .left ++
        (((link opened).after (exchange.take 2) (link opened).init).ends .left).sndQueue) =
          (((link opened).after (exchange.take 2) (link opened).init).sent .left).flatten :=
  ⟨by decide +kernel, (link_loses_nothing opened_fresh sending_run .left).1⟩

/-- **Every datagram is read.**  Whatever was sent has at most the bytes of an MTU, and whenever it
comes in, `Input` accepts it. -/
theorem link_datagram_accepted (h : ∀ x, Fresh conv (ends x))
    (hrun : (link ends).Run Link.Allowed l) {x : Side} {data : Bytes} (hdata : data ∈ l.net x)
    (ackNoDelay : Bool) (now : UInt32) (clock : Nat → UInt32) :
    overhead ≤ data.length ∧ data.length ≤ (ends x.other).mtu.toNat ∧
      ∃ out e, (l.ends x).input data true ackNoDelay now clock = .ok (0, out, e) := by
  have hlinked := linked_of_run h hrun
  obtain ⟨frames, rfl, hsendable, hhonest⟩ := hlinked.net x data hdata
  obtain ⟨_, _, out, e, -, hinput, -⟩ :=
    hlinked.inputFrames hsendable.ne_nil hhonest ackNoDelay now clock
  refine ⟨?_, ?_, out, e, hinput⟩
  · obtain ⟨frame, rest, rfl⟩ := List.exists_cons_of_ne_nil hsendable.ne_nil
    show overhead ≤ (frame.wire ++ Frame.wires rest).length
    rw [List.length_append, Endpoint.length_wire]
    omega
  · rw [← (hlinked.config x.other).mtu]
    exact hsendable.fits

/-- The right end has not seen the datagram yet. -/
theorem link_datagram_accepted_exchange :
    exchanged.length = 27 ∧ ∃ out e,
      (((link opened).after (exchange.take 2) (link opened).init).ends .right).input exchanged true
        true 100 (fun _ => 100) = .ok (0, out, e) :=
  ⟨by decide +kernel, (link_datagram_accepted opened_fresh sending_run (by decide +kernel) true 100
    fun _ => 100).2.2⟩

end Runs

/-! ## Sessions -/

/-- The sizes that `SetMtu` leaves behind. -/
theorem setMtu_sizes {alloc : Int64 → Bool} {convId : UInt32} {kcpMtu : Int64} {code : Int}
    {e : Endpoint} (hmtu : kcpMtu.toInt ≤ 1524)
    (hset : (Endpoint.newKCP convId).setMtu alloc kcpMtu = .ok (code, e)) :
    ∃ mtu mss bufferLen, e = { Endpoint.newKCP convId with mtu, mss, bufferLen } ∧ mss ≠ 0 ∧
      mss.toNat ≤ mtuLimit ∧ mtu.toNat = overhead + mss.toNat ∧ mtu.toNat ≤ bufferLen := by
  obtain ⟨⟨code', kcp⟩, hbase, hrest⟩ := bind_eq_ok_iff.mp hset
  rw [← (Prod.mk.inj (Except.ok.inj hrest)).2]
  unfold KCP.setMtu at hbase
  split_ifs at hbase with hsmall
  · obtain ⟨rfl, rfl⟩ := Prod.mk.inj (Except.ok.inj hbase)
    exact ⟨1400, 1376, 4272, rfl, by decide, by decide, by decide, by decide⟩
  · obtain ⟨rfl, rfl⟩ := Prod.mk.inj (Except.ok.inj hbase)
    have hge : 50 ≤ kcpMtu.toInt := by
      by_contra hlt
      exact hsmall (.inl (Int64.lt_iff_toInt_lt.mpr (Int.not_le.mp hlt)))
    have hvalue : ((uint32 kcpMtu).toNat : Int) = kcpMtu.toInt := by
      rw [toNat_uint32]
      omega
    have hmss : (uint32 kcpMtu - 24).toNat + 24 = (uint32 kcpMtu).toNat := by
      rw [UInt32.toNat_sub, show (24 : UInt32).toNat = 24 from rfl]
      omega
    refine ⟨uint32 kcpMtu, uint32 kcpMtu - 24, ((kcpMtu + 24) * 3).toInt.toNat, rfl,
      fun hzero => ?_, ?_, ?_, ?_⟩
    · rw [hzero] at hmss
      rw [show (0 : UInt32).toNat = 0 from rfl] at hmss
      omega
    · rw [mtuLimit]
      omega
    · rw [overhead]
      omega
    · have hlength : ((kcpMtu + 24) * 3).toInt = (kcpMtu.toInt + 24) * 3 := by
        rw [Int64.toInt_mul, Int64.toInt_add, show (24 : Int64).toInt = 24 from rfl,
          show (3 : Int64).toInt = 3 from rfl, Int.bmod_def, Int.bmod_def]
        omega
      rw [hlength]
      omega

/-- A session whose MTU fits into a buffer of the pool starts sound. -/
theorem newSession_fresh {alloc : Int64 → Bool} {convId : UInt32} {opt : Endpoint.Options}
    {e : Endpoint} (hmtu : opt.kcpMtu.toInt ≤ 1524)
    (hnew : Endpoint.newSession alloc convId opt = .ok e) : Fresh convId e := by
  obtain ⟨⟨code, e'⟩, hset, hrest⟩ := bind_eq_ok_iff.mp hnew
  obtain ⟨mtu, mss, bufferLen, rfl, hpos, hle, hmtu, hbuffer⟩ := setMtu_sizes hmtu hset
  rw [← Except.ok.inj hrest]
  exact ⟨rfl, rfl, rfl, rfl, rfl, rfl, rfl, rfl, rfl,
    ⟨hpos, hle, hmtu, hbuffer, List.forall_mem_nil _, List.forall_mem_nil _⟩⟩

end Gokit.Kcp
