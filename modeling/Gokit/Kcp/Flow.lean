/-
# One end of a conversation

What an end holds is determined by what was numbered on either side.  The segments of `snd_buf`
are those it has numbered from `snd_una` on.  What it has received is what the peer has numbered
below `rcv_nxt`, and besides this the segments of `rcv_buf`.

This is kept by everything an end does, as long as the frames that come in are true of the peer.
And the frames that it puts out are true of itself.  The numbers are to stay below `2 ^ 31`: only
then `_itimediff` is their order.
-/

import Gokit.Kcp.Datagram

namespace Gokit.Kcp

open Gokit.Math

/-! ## Numbers -/

variable {sn : UInt32}

section Numbers

variable {a b : UInt32}

theorem toInt_itimediff (ha : a.toNat < 2 ^ 31) (hb : b.toNat < 2 ^ 31) :
    (itimediff a b).toInt = (a.toNat : Int) - b.toNat := by
  rw [itimediff, KCP.toInt_toInt32, UInt32.toNat_sub, Int.bmod_def]
  omega

theorem itimediff_neg_iff (ha : a.toNat < 2 ^ 31) (hb : b.toNat < 2 ^ 31) :
    itimediff a b < 0 ↔ a.toNat < b.toNat := by
  rw [Int32.lt_iff_toInt_lt, toInt_itimediff ha hb, Int32.toInt_zero]
  omega

theorem itimediff_pos_iff (ha : a.toNat < 2 ^ 31) (hb : b.toNat < 2 ^ 31) :
    itimediff a b > 0 ↔ b.toNat < a.toNat := by
  rw [gt_iff_lt, Int32.lt_iff_toInt_lt, toInt_itimediff ha hb, Int32.toInt_zero]
  omega

theorem toNat_succ (hsn : sn.toNat < 2 ^ 31) : (sn + 1).toNat = sn.toNat + 1 := by
  rw [UInt32.toNat_add, show (1 : UInt32).toNat = 1 from rfl]
  omega

end Numbers

/-! ## Receiving -/

/-- The receiving side: `theirs` is what the peer has numbered, `popped` what `Recv` has taken. -/
structure Row (theirs popped queue : List Segment) (nxt : UInt32) (buf : List Segment) :
    Prop where
  small : theirs.length < 2 ^ 31
  nxt_le : nxt.toNat ≤ theirs.length
  inOrder : popped ++ queue = theirs.take nxt.toNat
  early : ∀ seg ∈ buf, nxt.toNat ≤ seg.sn.toNat ∧ theirs[seg.sn.toNat]? = some seg
  sorted : buf.Pairwise fun seg other => seg.sn.toNat < other.sn.toNat

/-- What has come in. -/
def Got (nxt : UInt32) (buf : List Segment) (i : Nat) : Prop :=
  i < nxt.toNat ∨ ∃ seg ∈ buf, seg.sn.toNat = i

/-- No segment that could go to the queue is left behind. -/
def Settled (wnd : Nat) (queue : List Segment) (nxt : UInt32) (buf : List Segment) : Prop :=
  ∀ seg ∈ buf, seg.sn = nxt → wnd ≤ queue.length

section Row

variable {theirs popped queue buf : List Segment} {nxt : UInt32} {seg : Segment}

theorem lt_length_of_getElem? {i : Nat} (h : theirs[i]? = some seg) : i < theirs.length :=
  (List.getElem?_eq_some_iff.mp h).1

/-- The next segment goes to the queue. -/
theorem Row.next (h : Row theirs popped queue nxt (seg :: buf)) (hsn : seg.sn = nxt) :
    Row theirs popped (queue ++ [seg]) (nxt + 1) buf := by
  obtain ⟨-, hseg⟩ := h.early seg List.mem_cons_self
  rw [hsn] at hseg
  have hlt := lt_length_of_getElem? hseg
  have hnxt : (nxt + 1).toNat = nxt.toNat + 1 := toNat_succ (hlt.trans h.small)
  obtain ⟨hfirst, hsorted⟩ := List.pairwise_cons.mp h.sorted
  refine ⟨h.small, ?_, ?_, fun other hother => ⟨?_, ?_⟩, hsorted⟩
  · rw [hnxt]
    exact hlt
  · rw [hnxt, List.take_add_one, hseg, ← h.inOrder, List.append_assoc]
    rfl
  · have hless := hfirst other hother
    rw [hsn] at hless
    rw [hnxt]
    exact hless
  · exact (h.early other (List.mem_cons_of_mem seg hother)).2

/-- The loop that moves segments to the queue loses none, and leaves none behind that it could
move. -/
theorem Row.moveAvailable (h : Row theirs popped queue nxt buf) (wnd : Nat) :
    ∃ queue' nxt' buf', KCP.moveAvailable wnd queue nxt buf = (queue', nxt', buf') ∧
      Row theirs popped queue' nxt' buf' ∧ Settled wnd queue' nxt' buf' ∧
      nxt.toNat ≤ nxt'.toNat ∧ ∀ i, Got nxt buf i → Got nxt' buf' i := by
  induction buf generalizing queue nxt with
  | nil =>
    refine ⟨queue, nxt, [], rfl, h, fun seg hseg => ?_, Nat.le_refl _, fun _ hi => hi⟩
    cases hseg
  | cons seg buf ih =>
    rw [KCP.moveAvailable]
    by_cases hmove : seg.sn = nxt ∧ queue.length < wnd
    · rw [if_pos hmove]
      obtain ⟨queue', nxt', buf', hmoved, hrow, hsettled, hle, hgot⟩ := ih (h.next hmove.1)
      have hseg := lt_length_of_getElem? (h.early seg List.mem_cons_self).2
      rw [hmove.1] at hseg
      have hnxt : (nxt + 1).toNat = nxt.toNat + 1 := toNat_succ (hseg.trans h.small)
      refine ⟨queue', nxt', buf', hmoved, hrow, hsettled, by omega, fun i hi => hgot i ?_⟩
      rcases hi with hold | ⟨other, hother, rfl⟩
      · exact .inl (by omega)
      · rcases List.mem_cons.mp hother with rfl | hlater
        · refine .inl ?_
          rw [hmove.1]
          omega
        · exact .inr ⟨other, hlater, rfl⟩
    · rw [if_neg hmove]
      refine ⟨queue, nxt, seg :: buf, rfl, h, fun other hother hsn => ?_, Nat.le_refl _,
        fun _ hi => hi⟩
      -- only the first one can be the next: the others have larger numbers
      have hfirst : seg.sn = nxt := by
        rcases List.mem_cons.mp hother with rfl | hlater
        · exact hsn
        · have hless := (List.pairwise_cons.mp h.sorted).1 other hlater
          have hge := (h.early seg List.mem_cons_self).1
          rw [hsn] at hless
          omega
      by_contra hroom
      exact hmove ⟨hfirst, Nat.lt_of_not_le hroom⟩

theorem mem_heapPush {other : Segment} :
    other ∈ KCP.heapPush seg buf ↔ other = seg ∨ other ∈ buf := by
  induction buf with
  | nil => simp [KCP.heapPush]
  | cons first rest ih =>
    rw [KCP.heapPush]
    split_ifs
    · exact List.mem_cons
    · rw [List.mem_cons, ih, List.mem_cons]
      tauto

/-- `heap.Push` keeps any order that `Less` decides. -/
theorem sorted_heapPush {key : Segment → Nat}
    (hless : ∀ other ∈ buf, itimediff other.sn seg.sn > 0 ↔ key seg < key other)
    (hnew : ∀ other ∈ buf, key other ≠ key seg)
    (hsorted : buf.Pairwise fun seg other => key seg < key other) :
    (KCP.heapPush seg buf).Pairwise fun seg other => key seg < key other := by
  induction buf with
  | nil => exact List.pairwise_singleton _ _
  | cons first rest ih =>
    obtain ⟨hfirst, hrest⟩ := List.pairwise_cons.mp hsorted
    have hiff := hless first List.mem_cons_self
    rw [KCP.heapPush]
    split_ifs with hbefore
    · rw [hiff] at hbefore
      refine List.pairwise_cons.mpr ⟨fun other hother => ?_, hsorted⟩
      rcases List.mem_cons.mp hother with rfl | hlater
      · exact hbefore
      · exact hbefore.trans (hfirst other hlater)
    · have hne := hnew first List.mem_cons_self
      rw [hiff] at hbefore
      refine List.pairwise_cons.mpr ⟨fun other hother => ?_,
        ih (fun other hother => hless other (List.mem_cons_of_mem first hother))
          (fun other hother => hnew other (List.mem_cons_of_mem first hother)) hrest⟩
      rcases mem_heapPush.mp hother with rfl | hlater
      · omega
      · exact hfirst other hlater

/-- The peer numbers more segments. -/
theorem Row.mono (h : Row theirs popped queue nxt buf) {theirs' : List Segment}
    (hmore : theirs <+: theirs') (hsmall : theirs'.length < 2 ^ 31) :
    Row theirs' popped queue nxt buf := by
  obtain ⟨more, rfl⟩ := hmore
  refine ⟨hsmall, ?_, ?_, fun seg hseg => ⟨(h.early seg hseg).1, ?_⟩, h.sorted⟩
  · rw [List.length_append]
    exact Nat.le_add_right_of_le h.nxt_le
  · rw [List.take_append_of_le_length h.nxt_le]
    exact h.inOrder
  · have hthere := (h.early seg hseg).2
    rw [List.getElem?_append_left (lt_length_of_getElem? hthere)]
    exact hthere

/-- A segment that comes in is put in its place. -/
theorem Row.heapPush (h : Row theirs popped queue nxt buf) (hseg : theirs[seg.sn.toNat]? = some seg)
    (hnxt : nxt.toNat ≤ seg.sn.toNat) (hnew : ∀ other ∈ buf, other.sn ≠ seg.sn) :
    Row theirs popped queue nxt (KCP.heapPush seg buf) where
  small := h.small
  nxt_le := h.nxt_le
  inOrder := h.inOrder
  early other hother := by
    rcases mem_heapPush.mp hother with rfl | hold
    · exact ⟨hnxt, hseg⟩
    · exact h.early other hold
  sorted := by
    refine sorted_heapPush (fun other hother => ?_)
      (fun other hother heq => hnew other hother (UInt32.toNat_inj.mp heq)) h.sorted
    exact itimediff_pos_iff ((lt_length_of_getElem? (h.early other hother).2).trans h.small)
      ((lt_length_of_getElem? hseg).trans h.small)

theorem moveAll_eq {kcp : KCP}
    (hmoved : KCP.moveAvailable kcp.rcvWnd.toNat kcp.rcvQueue kcp.rcvNxt kcp.rcvBuf =
      (queue, nxt, buf)) :
    kcp.moveAll = { kcp with rcvQueue := queue, rcvNxt := nxt, rcvBuf := buf } := by
  rw [KCP.moveAll, hmoved]

/-- `parse_data`, for a segment in the window. -/
theorem Row.parseData {kcp : KCP} (h : Row theirs popped kcp.rcvQueue kcp.rcvNxt kcp.rcvBuf)
    (hseg : theirs[seg.sn.toNat]? = some seg)
    (hbefore : itimediff seg.sn (kcp.rcvNxt + kcp.rcvWnd) < 0)
    (hafter : itimediff seg.sn kcp.rcvNxt ≥ 0) :
    ∃ queue nxt buf, kcp.parseData seg.frg seg.sn seg.data.bts =
        .ok { kcp with rcvQueue := queue, rcvNxt := nxt, rcvBuf := buf } ∧
      Row theirs popped queue nxt buf ∧ Settled kcp.rcvWnd.toNat queue nxt buf ∧
      kcp.rcvNxt.toNat ≤ nxt.toNat ∧ (∀ i, Got kcp.rcvNxt kcp.rcvBuf i → Got nxt buf i) ∧
      Got nxt buf seg.sn.toNat := by
  have hguard : ¬ (itimediff seg.sn (kcp.rcvNxt + kcp.rcvWnd) ≥ 0 ∨
      itimediff seg.sn kcp.rcvNxt < 0) :=
    not_or.mpr ⟨Int32.not_le.mpr hbefore, Int32.not_lt.mpr hafter⟩
  rw [KCP.parseData, if_neg hguard]
  by_cases hknown : (kcp.rcvBuf.any fun other => other.sn = seg.sn) = true
  · rw [if_pos hknown]
    obtain ⟨queue, nxt, buf, hmoved, hrow, hsettled, hle, hgot⟩ := h.moveAvailable kcp.rcvWnd.toNat
    refine ⟨queue, nxt, buf, ?_, hrow, hsettled, hle, hgot, hgot _ (.inr ?_)⟩
    · rw [moveAll_eq hmoved]
    · obtain ⟨other, hother, hsn⟩ := List.any_eq_true.mp hknown
      exact ⟨other, hother, congrArg UInt32.toNat (of_decide_eq_true hsn)⟩
  · rw [if_neg hknown, Buffer.get_bts]
    have hnew : ∀ other ∈ kcp.rcvBuf, other.sn ≠ seg.sn := fun other hother hsn =>
      hknown (List.any_eq_true.mpr ⟨other, hother, decide_eq_true hsn⟩)
    have hsmall : seg.sn.toNat < 2 ^ 31 := (lt_length_of_getElem? hseg).trans h.small
    have hnxt : kcp.rcvNxt.toNat ≤ seg.sn.toNat := by
      by_contra hlt
      exact Int32.not_lt.mpr hafter ((itimediff_neg_iff hsmall
        (Nat.lt_of_le_of_lt h.nxt_le h.small)).mpr (Nat.lt_of_not_le hlt))
    obtain ⟨queue, nxt, buf, hmoved, hrow, hsettled, hle, hgot⟩ :=
      (h.heapPush hseg hnxt hnew).moveAvailable kcp.rcvWnd.toNat
    refine ⟨queue, nxt, buf, ?_, hrow, hsettled, hle, fun i hi => hgot i ?_, hgot _ (.inr ?_)⟩
    · exact congrArg Except.ok
        (@moveAll_eq queue buf nxt { kcp with rcvBuf := KCP.heapPush seg kcp.rcvBuf } hmoved)
    · refine hi.imp_right ?_
      rintro ⟨other, hother, hsn⟩
      exact ⟨other, mem_heapPush.mpr (.inr hother), hsn⟩
    · exact ⟨seg, mem_heapPush.mpr (.inl rfl), rfl⟩

end Row

/-! ## Sending -/

/-- A segment and its copy in `snd_buf`.  The copy of a segment that is acknowledged has given its
bytes back, but such a segment was received. -/
structure Carries (received : Nat → Prop) (seg : Segment) (flight : Flight) : Prop where
  sn : flight.sn = seg.sn
  acked : flight.acked = true → received seg.sn.toNat
  frg : flight.acked = false → flight.frg = seg.frg
  data : flight.acked = false → flight.data = seg.data

/-- The number of a segment is its place. -/
def InPlace (own : List Segment) : Prop :=
  ∀ (i : Nat) (seg : Segment), own[i]? = some seg → seg.sn.toNat = i

section Carries

variable {received received' : Nat → Prop} {seg : Segment} {flight flight' : Flight}
  {segs : List Segment} {flights : List Flight}

theorem Carries.mono (h : Carries received seg flight)
    (hmore : ∀ i, received i → received' i) : Carries received' seg flight :=
  ⟨h.sn, fun hacked => hmore _ (h.acked hacked), h.frg, h.data⟩

theorem Carries.same (h : Carries received seg flight)
    (hsame : Endpoint.SameFlight flight flight') : Carries received seg flight' where
  sn := hsame.sn.trans h.sn
  acked hacked := h.acked (hsame.acked.symm.trans hacked)
  frg hfree := hsame.frg.trans (h.frg (hsame.acked.symm.trans hfree))
  data hfree := hsame.data.trans (h.data (hsame.acked.symm.trans hfree))

theorem carries_fresh (received : Nat → Prop) (seg : Segment) :
    Carries received seg (Endpoint.fresh seg) where
  sn := rfl
  acked hacked := by cases hacked
  frg _ := rfl
  data _ := rfl

/-- `parse_ack` marks a segment that was received. -/
theorem carries_markAcked (hsn : received sn.toNat)
    (h : List.Forall₂ (Carries received) segs flights) :
    List.Forall₂ (Carries received) segs (Endpoint.markAcked sn flights) := by
  induction h with
  | nil => exact .nil
  | @cons seg flight segs flights hfirst hrest ih =>
    rw [Endpoint.markAcked]
    split_ifs with hthis
    · refine .cons ⟨hfirst.sn, fun _ => ?_, fun hfree => ?_, fun hfree => ?_⟩ hrest
      · rw [← hfirst.sn, ← hthis]
        exact hsn
      · cases hfree
      · cases hfree
    · exact .cons hfirst hrest
    · exact .cons hfirst ih

/-- `parse_fastack` only counts. -/
theorem sameFlight_countSkipped (sn ts fastresend : UInt32) (flights : List Flight) :
    List.Forall₂ Endpoint.SameFlight flights
      (Endpoint.countSkipped sn ts fastresend flights).1 := by
  induction flights with
  | nil => exact .nil
  | cons flight flights ih =>
    rw [Endpoint.countSkipped]
    dsimp only
    split_ifs
    · exact Endpoint.forall₂_sameFlight_refl _
    · exact .cons ⟨rfl, rfl, rfl, rfl⟩ ih
    · exact .cons (.refl flight) ih

theorem carries_same {flights' : List Flight} (h : List.Forall₂ (Carries received) segs flights)
    (hsame : List.Forall₂ Endpoint.SameFlight flights flights') :
    List.Forall₂ (Carries received) segs flights' := by
  induction h generalizing flights' with
  | nil =>
    rw [List.forall₂_nil_left_iff.mp hsame]
    exact .nil
  | cons hfirst hrest ih =>
    obtain ⟨flight', rest', hthis, hothers, rfl⟩ := List.forall₂_cons_left_iff.mp hsame
    exact .cons (hfirst.same hthis) (ih hothers)

end Carries

section InPlace

variable {own : List Segment}

@[simp]
theorem length_number (nxt : UInt32) (segs : List Segment) :
    (KCP.number nxt segs).length = segs.length := by
  induction segs generalizing nxt with
  | nil => rfl
  | cons seg rest ih => rw [KCP.number, List.length_cons, List.length_cons, ih]

theorem number_append_eq (nxt : UInt32) (segs others : List Segment) :
    KCP.number nxt (segs ++ others) =
      KCP.number nxt segs ++ KCP.number (nxt + UInt32.ofNat segs.length) others := by
  induction segs generalizing nxt with
  | nil => simp [KCP.number]
  | cons seg rest ih =>
    rw [List.cons_append, KCP.number, ih, KCP.number, List.cons_append, List.length_cons,
      UInt32.ofNat_add, UInt32.add_assoc, UInt32.add_comm 1]
    rfl

theorem InPlace.append_one (h : InPlace own) {seg : Segment} (hsn : seg.sn.toNat = own.length) :
    InPlace (own ++ [seg]) := by
  intro i other hother
  rw [List.getElem?_append] at hother
  split_ifs at hother with hold
  · exact h i other hother
  · have hlast : i - own.length < 1 := lt_length_of_getElem? hother
    have hi : i = own.length := by omega
    rw [hi, Nat.sub_self] at hother
    rw [← Option.some.inj hother, hsn, hi]

theorem InPlace.append_number (h : InPlace own) {nxt : UInt32} {moved : List Segment}
    (hnxt : nxt.toNat = own.length) (hsmall : own.length + moved.length < 2 ^ 31) :
    InPlace (own ++ KCP.number nxt moved) := by
  induction moved generalizing own nxt with
  | nil =>
    rw [KCP.number, List.append_nil]
    exact h
  | cons seg rest ih =>
    rw [List.length_cons] at hsmall
    have hnext : (nxt + 1).toNat = (own ++ [{ seg with sn := nxt }]).length := by
      rw [toNat_succ (by omega), hnxt, List.length_append]
      rfl
    have hrest := ih (@InPlace.append_one own h { seg with sn := nxt } hnxt) hnext (by
      rw [List.length_append, List.length_singleton]
      omega)
    rw [KCP.number, ← List.singleton_append, ← List.append_assoc]
    exact hrest

theorem InPlace.getElem?_of_mem (h : InPlace own) {seg : Segment} (hseg : seg ∈ own) :
    own[seg.sn.toNat]? = some seg := by
  obtain ⟨i, hi⟩ := List.mem_iff_getElem?.mp hseg
  rw [h i seg hi]
  exact hi

end InPlace

/-! ## An end -/

/-- What a frame says about the end that has sent it. -/
structure Honest (conv : UInt32) (p : Progress Segment) (frame : Frame) : Prop where
  conv : frame.head.conv = conv
  una : (Report.upTo frame.head.una.toNat).TrueOf p
  cmd : (frame.head.cmd = 82 ∧ frame.data = [] ∧ (Report.ack frame.head.sn.toNat).TrueOf p) ∨
    (frame.head.cmd = 81 ∧ ∃ seg, (Report.data frame.head.sn.toNat seg).TrueOf p ∧
      seg.sn = frame.head.sn ∧ seg.frg = frame.head.frg ∧ seg.data.bts = frame.data) ∨
    ((frame.head.cmd = 83 ∨ frame.head.cmd = 84) ∧ frame.data = [])

/-- A datagram that an end may have sent. -/
def Genuine (mtu : Nat) (conv : UInt32) (p : Progress Segment) (data : Bytes) : Prop :=
  ∃ frames, data = Frame.wires frames ∧ Endpoint.Sendable mtu frames ∧
    ∀ frame ∈ frames, Honest conv p frame

section Honest

variable {conv : UInt32} {p q : Progress Segment} {frame : Frame}

theorem Honest.mono (h : Honest conv p frame) (hle : p.Le q) : Honest conv q frame where
  conv := h.conv
  una := h.una.mono hle
  cmd := by
    rcases h.cmd with ⟨hcmd, hdata, hack⟩ | ⟨hcmd, seg, hseg, hsame⟩ | hprobe
    · exact .inl ⟨hcmd, hdata, hack.mono hle⟩
    · exact .inr (.inl ⟨hcmd, seg, hseg.mono hle, hsame⟩)
    · exact .inr (.inr hprobe)

theorem Honest.readable (h : Honest conv p frame) : frame.Readable conv where
  conv := h.conv
  cmd := by
    rcases h.cmd with ⟨hcmd, -⟩ | ⟨hcmd, -⟩ | ⟨hcmd | hcmd, -⟩
    · exact .inr (.inl hcmd)
    · exact .inl hcmd
    · exact .inr (.inr (.inl hcmd))
    · exact .inr (.inr (.inr hcmd))
  fits := by
    rcases h.cmd with ⟨-, hdata, -⟩ | ⟨-, seg, -, -, -, hdata⟩ | ⟨-, hdata⟩
    · rw [hdata]
      decide
    · rw [← hdata]
      exact Nat.lt_of_le_of_lt seg.data.fits (by decide)
    · rw [hdata]
      decide

theorem Genuine.mono {mtu : Nat} {data : Bytes} (h : Genuine mtu conv p data) (hle : p.Le q) :
    Genuine mtu conv q data := by
  obtain ⟨frames, hdata, hsendable, hhonest⟩ := h
  exact ⟨frames, hdata, hsendable, fun frame hframe => (hhonest frame hframe).mono hle⟩

end Honest

namespace Endpoint

/-- What an end has done so far; `own` is what it has numbered. -/
def progress (own : List Segment) (e : Endpoint) : Progress Segment where
  sent := own
  next := e.rcvNxt.toNat
  held i := ∃ seg ∈ e.rcvBuf, seg.sn.toNat = i

/-- The sending side of an end: `snd_buf` holds what was numbered from `snd_una` on. -/
structure Sending (own : List Segment) (peer : Progress Segment) (e : Endpoint) : Prop where
  small : own.length < 2 ^ 31
  inPlace : InPlace own
  sndNxt : e.sndNxt.toNat = own.length
  peerNext : peer.next ≤ own.length
  sndUna : e.sndUna.toNat ≤ peer.next
  flights : List.Forall₂ (Carries peer.Received) (own.drop e.sndUna.toNat) e.sndBuf

/-- The receiving side of an end. -/
structure Receiving (theirs popped : List Segment) (e : Endpoint) : Prop where
  row : Row theirs popped e.rcvQueue e.rcvNxt e.rcvBuf
  settled : Settled e.rcvWnd.toNat e.rcvQueue e.rcvNxt e.rcvBuf
  acklist : ∀ ack ∈ e.acklist, Got e.rcvNxt e.rcvBuf ack.sn.toNat

/-- The sizes of an end: a segment with its head fits into a datagram. -/
structure Sized (e : Endpoint) : Prop where
  mss_pos : e.mss ≠ 0
  mss_le : e.mss.toNat ≤ mtuLimit
  mtu : e.mtu.toNat = overhead + e.mss.toNat
  buffer : e.mtu.toNat ≤ e.bufferLen
  queue : Bounded e.mss.toNat e.sndQueue
  flights : ∀ seg ∈ e.sndBuf, seg.data.bts.length ≤ e.mss.toNat

/-- An end whose peer has come as far as `peer`; `popped` is what `Recv` has taken from it. -/
structure Sound (own popped : List Segment) (peer : Progress Segment) (e : Endpoint) : Prop where
  sending : Sending own peer e
  receiving : Receiving peer.sent popped e
  sized : Sized e

section Sound

variable {own popped theirs : List Segment} {peer peer' : Progress Segment} {e e' : Endpoint}

theorem Sized.fits (h : Sized e) : Fits e where
  mtu := h.mtu ▸ Nat.le_add_right _ _
  buffer := h.buffer
  queue seg hseg := h.mtu ▸ Nat.add_le_add_left (h.queue seg hseg) _
  flights seg hseg := h.mtu ▸ Nat.add_le_add_left (h.flights seg hseg) _

/-- The peer goes on. -/
theorem Sending.mono (h : Sending own peer e) (hle : peer.Le peer')
    (hnext : peer'.next ≤ own.length) : Sending own peer' e where
  small := h.small
  inPlace := h.inPlace
  sndNxt := h.sndNxt
  peerNext := hnext
  sndUna := h.sndUna.trans hle.next
  flights := h.flights.imp fun _ _ hcarries => hcarries.mono hle.received

theorem Sound.mono (h : Sound own popped peer e) (hle : peer.Le peer')
    (hnext : peer'.next ≤ own.length) (hsmall : peer'.sent.length < 2 ^ 31) :
    Sound own popped peer' e where
  sending := h.sending.mono hle hnext
  receiving := ⟨h.receiving.row.mono hle.sent hsmall, h.receiving.settled, h.receiving.acklist⟩
  sized := h.sized

/-- A segment on its way has a number that was given. -/
theorem Sending.sn_lt (h : Sending own peer e) {i : Nat} {seg : Segment} {flight : Flight}
    (hseg : own[i]? = some seg) (hcarries : Carries peer.Received seg flight) :
    flight.sn.toNat = i ∧ i < 2 ^ 31 := by
  rw [hcarries.sn]
  exact ⟨h.inPlace i seg hseg, (lt_length_of_getElem? hseg).trans h.small⟩

theorem sndUna_shrinkBuf_of_nil (hbuf : e.sndBuf = []) : e.shrinkBuf.sndUna = e.sndNxt := by
  rw [shrinkBuf, hbuf]

theorem sndUna_shrinkBuf_of_cons {flight : Flight} {others : List Flight}
    (hbuf : e.sndBuf = flight :: others) : e.shrinkBuf.sndUna = flight.sn := by
  rw [shrinkBuf, hbuf]

/-- `parse_una` and `shrink_buf`: what the peer has is removed. -/
theorem Sending.heard (h : Sending own peer e) {head : Head} (huna : head.una.toNat ≤ peer.next)
    (regular : Bool) : Sending own peer (hear regular e head).1 := by
  have hle : head.una.toNat ≤ own.length := huna.trans h.peerNext
  have hflights : List.Forall₂ (Carries peer.Received)
      (own.drop (max e.sndUna.toNat head.una.toNat))
      (e.sndBuf.dropWhile fun seg => itimediff head.una seg.sn > 0) := by
    refine forall₂_dropWhile hle h.flights fun i seg flight hseg hcarries => ?_
    obtain ⟨hsn, hi⟩ := h.sn_lt hseg hcarries
    rw [decide_eq_true_iff, itimediff_pos_iff (Nat.lt_of_le_of_lt hle h.small) (hsn ▸ hi), hsn]
  set rest := e.sndBuf.dropWhile fun seg => itimediff head.una seg.sn > 0 with hrest
  have hmax : max e.sndUna.toNat head.una.toNat ≤ own.length :=
    max_le (h.sndUna.trans h.peerNext) hle
  -- `snd_una` is the number of the first segment that is left
  have hsndUna : (hear regular e head).1.sndUna.toNat = max e.sndUna.toNat head.una.toNat := by
    obtain ⟨before, hshrink, hbuf, hnxt⟩ : ∃ before : Endpoint,
        (hear regular e head).1 = before.shrinkBuf ∧ before.sndBuf = rest ∧
          before.sndNxt = e.sndNxt := by
      cases regular <;> exact ⟨_, rfl, rfl, rfl⟩
    rw [hshrink]
    cases hcases : rest with
    | nil =>
      rw [hcases, List.forall₂_nil_right_iff, List.drop_eq_nil_iff] at hflights
      rw [sndUna_shrinkBuf_of_nil (hbuf.trans hcases), hnxt, h.sndNxt]
      exact Nat.le_antisymm hflights hmax
    | cons flight others =>
      rw [hcases] at hflights
      obtain ⟨seg, segs, hcarries, -, hdrop⟩ := List.forall₂_cons_right_iff.mp hflights
      have hseg : own[max e.sndUna.toNat head.una.toNat]? = some seg := by
        rw [← List.head?_drop, hdrop]
        rfl
      rw [sndUna_shrinkBuf_of_cons (hbuf.trans hcases)]
      exact (h.sn_lt hseg hcarries).1
  refine ⟨h.small, h.inPlace, ?_, h.peerNext, ?_, ?_⟩
  · cases regular <;> exact h.sndNxt
  · rw [hsndUna]
    exact max_le h.sndUna huna
  · rw [hsndUna]
    cases regular <;> exact hflights

theorem Sending.parseAck (h : Sending own peer e) (hsn : peer.Received sn.toNat) :
    Sending own peer (e.parseAck sn) := by
  unfold Endpoint.parseAck
  split_ifs
  · exact h
  · exact { h with flights := carries_markAcked hsn h.flights }

theorem Sending.parseFastack (h : Sending own peer e) (sn ts : UInt32) :
    Sending own peer (e.parseFastack sn ts).1 := by
  unfold Endpoint.parseFastack
  split_ifs
  · exact h
  · exact { h with flights := carries_same h.flights (sameFlight_countSkipped ..) }

variable {moved : List Segment}

/-- `flush` numbers some segments, and puts them into `snd_buf`. -/
theorem Sending.flushed (h : Sending own peer e) (hflushed : Flushed moved e e')
    (hsmall : own.length + moved.length < 2 ^ 31) :
    Sending (own ++ KCP.number e.sndNxt moved) peer e' := by
  have hlength : (own ++ KCP.number e.sndNxt moved).length = own.length + moved.length := by
    rw [List.length_append, length_number]
  refine ⟨hlength ▸ hsmall, h.inPlace.append_number h.sndNxt hsmall, ?_, ?_, ?_, ?_⟩
  · rw [hflushed.sndNxt, hlength, UInt32.toNat_add, h.sndNxt, UInt32.toNat_ofNat']
    omega
  · rw [hlength]
    exact Nat.le_add_right_of_le h.peerNext
  · rw [hflushed.sndUna]
    exact h.sndUna
  · rw [hflushed.sndUna, List.drop_append_of_le_length (h.sndUna.trans h.peerNext)]
    refine carries_same (List.rel_append h.flights ?_) hflushed.flights
    exact List.forall₂_map_right_iff.mpr (List.forall₂_same.mpr fun seg _ => carries_fresh _ seg)

/-! ### What comes in -/

theorem acked_eq (e : Endpoint) (sn ts : UInt32) :
    ∃ sndBuf, ((e.parseAck sn).parseFastack sn ts).1 = { e with sndBuf } := by
  unfold Endpoint.parseFastack Endpoint.parseAck
  dsimp only
  split_ifs <;> exact ⟨_, rfl⟩

theorem length_data_markAcked {mss : Nat} {flights : List Flight}
    (h : ∀ seg ∈ flights, seg.data.bts.length ≤ mss) :
    ∀ seg ∈ markAcked sn flights, seg.data.bts.length ≤ mss := by
  induction flights with
  | nil => exact h
  | cons flight flights ih =>
    obtain ⟨hfirst, hrest⟩ := List.forall_mem_cons.mp h
    rw [markAcked]
    split_ifs
    · exact List.forall_mem_cons.mpr ⟨Nat.zero_le _, hrest⟩
    · exact h
    · exact List.forall_mem_cons.mpr ⟨hfirst, ih hrest⟩

theorem length_data_same {mss : Nat} {flights flights' : List Flight}
    (h : ∀ seg ∈ flights, seg.data.bts.length ≤ mss)
    (hsame : List.Forall₂ SameFlight flights flights') :
    ∀ seg ∈ flights', seg.data.bts.length ≤ mss := by
  intro seg' hseg'
  obtain ⟨seg, hseg, hsame⟩ := exists_left_of_mem hsame hseg'
  rw [hsame.data]
  exact h seg hseg

theorem Sized.parseAck (h : Sized e) (sn : UInt32) : Sized (e.parseAck sn) := by
  unfold Endpoint.parseAck
  split_ifs
  · exact h
  · exact { h with flights := length_data_markAcked h.flights }

theorem Sized.parseFastack (h : Sized e) (sn ts : UInt32) : Sized (e.parseFastack sn ts).1 := by
  unfold Endpoint.parseFastack
  split_ifs
  · exact h
  · exact { h with flights := length_data_same h.flights (sameFlight_countSkipped ..) }

theorem Sound.heard (h : Sound own popped peer e) {head : Head} (huna : head.una.toNat ≤ peer.next)
    (regular : Bool) : Sound own popped peer (hear regular e head).1 := by
  have hflights : ∀ seg ∈ e.sndBuf.dropWhile fun seg => itimediff head.una seg.sn > 0,
      seg.data.bts.length ≤ e.mss.toNat := fun seg hseg =>
    h.sized.flights seg ((List.dropWhile_suffix _).mem hseg)
  refine ⟨h.sending.heard huna regular, ?_, ?_⟩
  · cases regular <;> exact ⟨h.receiving.row, h.receiving.settled, h.receiving.acklist⟩
  · cases regular <;> exact { h.sized with flights := hflights }

/-- A segment comes in, in the window of the receiver. -/
theorem Receiving.push (h : Receiving theirs popped e) {head : Head} {seg : Segment}
    (hcmd : head.cmd = 81) (hseg : theirs[head.sn.toNat]? = some seg) (hsn : seg.sn = head.sn)
    (hfrg : seg.frg = head.frg) (hbefore : itimediff head.sn (e.rcvNxt + e.rcvWnd) < 0)
    (acc : Arrival) :
    ∃ nxt queue buf, obey e acc head seg.data.bts = .ok ({ e.ackPush head.sn head.ts with
        rcvNxt := nxt, rcvQueue := queue, rcvBuf := buf }, acc) ∧
      Receiving theirs popped { e.ackPush head.sn head.ts with
        rcvNxt := nxt, rcvQueue := queue, rcvBuf := buf } ∧
      e.rcvNxt.toNat ≤ nxt.toNat ∧ (∀ i, Got e.rcvNxt e.rcvBuf i → Got nxt buf i) ∧
      Got nxt buf head.sn.toNat := by
  have hacks : ∀ (nxt : UInt32) (buf : List Segment),
      (∀ i, Got e.rcvNxt e.rcvBuf i → Got nxt buf i) → Got nxt buf head.sn.toNat →
      ∀ ack ∈ (e.ackPush head.sn head.ts).acklist, Got nxt buf ack.sn.toNat := by
    intro nxt buf hgot hthis
    refine List.forall_mem_append.mpr ⟨fun ack hack => hgot _ (h.acklist ack hack), ?_⟩
    exact List.forall_mem_singleton.mpr hthis
  have hack : head.cmd ≠ 82 := by
    rw [hcmd]
    decide
  rw [obey, if_neg hack, if_pos hcmd, if_pos hbefore]
  by_cases hafter : itimediff head.sn e.rcvNxt ≥ 0
  · rw [← hsn] at hseg hbefore
    have hrow : Row theirs popped e.base.rcvQueue e.base.rcvNxt e.base.rcvBuf := h.row
    obtain ⟨queue, nxt, buf, hparse, hrow, hsettled, hle, hgot, hthis⟩ :=
      hrow.parseData hseg hbefore (hsn ▸ hafter)
    rw [hsn] at hparse hthis
    refine ⟨nxt, queue, buf, ?_, ⟨hrow, hsettled, hacks nxt buf hgot hthis⟩, hle, hgot, hthis⟩
    rw [if_pos hafter, ← hfrg, hparse]
    rfl
  · have hlt : head.sn.toNat < e.rcvNxt.toNat :=
      (itimediff_neg_iff ((lt_length_of_getElem? hseg).trans h.row.small)
        (Nat.lt_of_le_of_lt h.row.nxt_le h.row.small)).mp (Int32.not_le.mp hafter)
    refine ⟨e.rcvNxt, e.rcvQueue, e.rcvBuf, ?_, ⟨h.row, h.settled, ?_⟩, Nat.le_refl _,
      fun _ hi => hi, .inl hlt⟩
    · rw [if_neg hafter]
      rfl
    · exact hacks e.rcvNxt e.rcvBuf (fun _ hi => hi) (.inl hlt)

variable {conv : UInt32} {frame : Frame}

theorem Sound.obeyed (h : Sound own popped peer e) (hframe : Honest conv peer frame)
    (acc : Arrival) :
    ∃ e' acc', obey e acc frame.head frame.data = .ok (e', acc') ∧ Sound own popped peer e' ∧
      (e.progress own).Le (e'.progress own) := by
  rcases hframe.cmd with ⟨hcmd, -, hack⟩ | ⟨hcmd, seg, hseg, hsn, hfrg, hdata⟩ | ⟨hcmd, -⟩
  · rw [obey, if_pos hcmd]
    obtain ⟨sndBuf, hacked⟩ := acked_eq e frame.head.sn frame.head.ts
    refine ⟨((e.parseAck frame.head.sn).parseFastack frame.head.sn frame.head.ts).1, _, rfl,
      ⟨(h.sending.parseAck hack).parseFastack _ _, ?_,
        (h.sized.parseAck _).parseFastack _ _⟩, ?_⟩
    · rw [hacked]
      exact ⟨h.receiving.row, h.receiving.settled, h.receiving.acklist⟩
    · rw [hacked]
      exact .refl _
  · rw [← hdata]
    by_cases hbefore : itimediff frame.head.sn (e.rcvNxt + e.rcvWnd) < 0
    · obtain ⟨nxt, queue, buf, hobey, hreceiving, hle, hgot, -⟩ :=
        h.receiving.push hcmd hseg hsn hfrg hbefore acc
      refine ⟨_, acc, hobey, ⟨?_, hreceiving, ?_⟩, List.prefix_rfl, hle, hgot⟩
      · exact { h.sending with }
      · exact { h.sized with }
    · have hack : frame.head.cmd ≠ 82 := by
        rw [hcmd]
        decide
      rw [obey, if_neg hack, if_pos hcmd, if_neg hbefore]
      exact ⟨e, acc, rfl, h, .refl _⟩
  · have hack : frame.head.cmd ≠ 82 := by
      rcases hcmd with hcmd | hcmd <;> rw [hcmd] <;> decide
    have hpush : frame.head.cmd ≠ 81 := by
      rcases hcmd with hcmd | hcmd <;> rw [hcmd] <;> decide
    rw [obey, if_neg hack, if_neg hpush]
    split_ifs
    · refine ⟨_, acc, rfl, ⟨{ h.sending with }, ?_, { h.sized with }⟩, .refl _⟩
      exact ⟨h.receiving.row, h.receiving.settled, h.receiving.acklist⟩
    · exact ⟨e, acc, rfl, h, .refl _⟩

/-- **A frame comes in.**  An end takes it without a panic, and stays sound. -/
theorem Sound.received (h : Sound own popped peer e) (hframe : Honest conv peer frame)
    (acc : Arrival) :
    ∃ e' acc', receive true e acc frame.head frame.data = .ok (e', acc') ∧
      Sound own popped peer e' ∧ (e.progress own).Le (e'.progress own) :=
  (h.heard hframe.una true).obeyed hframe _

theorem Sound.receivedAll (h : Sound own popped peer e) {frames : List Frame}
    (hframes : ∀ frame ∈ frames, Honest conv peer frame) (acc : Arrival) :
    ∃ e' acc', receiveAll true e acc frames = .ok (e', acc') ∧ Sound own popped peer e' ∧
      (e.progress own).Le (e'.progress own) := by
  induction frames generalizing e acc with
  | nil => exact ⟨e, acc, rfl, h, .refl _⟩
  | cons frame rest ih =>
    obtain ⟨hframe, hrest⟩ := List.forall_mem_cons.mp hframes
    obtain ⟨e₁, acc₁, hreceive, hsound, hle⟩ := h.received hframe acc
    obtain ⟨e₂, acc₂, hall, hsound', hle'⟩ := ih hsound hrest acc₁
    refine ⟨e₂, acc₂, ?_, hsound', hle.trans hle'⟩
    rw [receiveAll, hreceive]
    exact hall

/-! ### What is put out -/

theorem Emitted.honest (hframe : Emitted e e' frame) (hflushed : Flushed moved e e')
    (hsending : Sending own peer e')
    (hacks : ∀ ack ∈ e.acklist, Got e.rcvNxt e.rcvBuf ack.sn.toNat) :
    Honest e.conv (e'.progress own) frame where
  conv := hframe.conv
  una := by
    rw [hframe.una, ← hflushed.rcvNxt]
    exact Nat.le_refl _
  cmd := by
    rcases hframe.cmd with ⟨hcmd, hdata, ack, hack, hsn⟩ |
      ⟨hcmd, flight, hflight, hfree, hsn, hfrg, hdata⟩ | hprobe
    · refine .inl ⟨hcmd, hdata, ?_⟩
      have hgot := hacks ack hack
      rw [← hflushed.rcvNxt, ← hflushed.rcvBuf, ← hsn] at hgot
      exact hgot
    · obtain ⟨seg, hseg, hcarries⟩ := exists_left_of_mem hsending.flights hflight
      have hplace := hsending.inPlace.getElem?_of_mem (List.mem_of_mem_drop hseg)
      have hseg_sn : seg.sn = frame.head.sn := hcarries.sn.symm.trans hsn.symm
      refine .inr (.inl ⟨hcmd, seg, ?_, hseg_sn, ?_, ?_⟩)
      · rw [← hseg_sn]
        exact hplace
      · rw [hfrg, hcarries.frg hfree]
      · rw [hdata, hcarries.data hfree]
    · exact .inr (.inr hprobe)

theorem Sized.flushed (h : Sized e) (hflushed : Flushed moved e e') : Sized e' := by
  obtain ⟨hqueue, hflights⟩ :=
    hflushed.forall_data (P := fun data => data.bts.length ≤ e.mss.toNat) h.queue h.flights
  obtain ⟨-, hmtu, hmss, -, -, -, hbuffer⟩ := hflushed.config
  rw [← hmss] at hqueue hflights
  exact ⟨hmss ▸ h.mss_pos, hmss ▸ h.mss_le, hmtu ▸ hmss ▸ h.mtu, hmtu ▸ hbuffer ▸ h.buffer, hqueue,
    hflights⟩

/-- **What an end puts out.**  Whatever is put out is true of the end, and the end stays sound. -/
theorem Sound.replied (h : Sound own popped peer e) {out : List Bytes}
    (hreplies : Replies e e' out) :
    ∃ moved, Flushed moved e e' ∧
      (own.length + moved.length < 2 ^ 31 →
        Sound (own ++ KCP.number e.sndNxt moved) popped peer e' ∧
        (e.progress own).Le (e'.progress (own ++ KCP.number e.sndNxt moved)) ∧
        ∀ data ∈ out,
          Genuine e.mtu.toNat e.conv (e'.progress (own ++ KCP.number e.sndNxt moved)) data) := by
  obtain ⟨moved, parts, rfl, hflushed, houtput⟩ := hreplies
  refine ⟨moved, hflushed, fun hsmall => ?_⟩
  have hsending := h.sending.flushed hflushed hsmall
  refine ⟨⟨hsending, ⟨?_, ?_, ?_⟩, ?_⟩, ⟨List.prefix_append _ _, ?_, ?_⟩, ?_⟩
  · rw [hflushed.rcvNxt, hflushed.rcvQueue, hflushed.rcvBuf]
    exact h.receiving.row
  · rw [hflushed.rcvNxt, hflushed.rcvQueue, hflushed.rcvBuf, hflushed.config.rcvWnd]
    exact h.receiving.settled
  · rw [hflushed.rcvNxt, hflushed.rcvBuf]
    exact fun ack hack => h.receiving.acklist ack (hflushed.acklist ack hack)
  · exact h.sized.flushed hflushed
  · show e.rcvNxt.toNat ≤ e'.rcvNxt.toNat
    rw [hflushed.rcvNxt]
  · intro i hi
    show Got e'.rcvNxt e'.rcvBuf i
    rw [hflushed.rcvNxt, hflushed.rcvBuf]
    exact hi
  · intro data hdata
    obtain ⟨part, hpart, rfl⟩ := List.mem_map.mp hdata
    exact ⟨part, rfl, houtput.sendable part hpart, fun frame hframe =>
      (houtput.emitted part hpart frame hframe).honest hflushed hsending h.receiving.acklist⟩

end Sound

end Endpoint

end Gokit.Kcp
