/-
# Messages out of segments

The segments of a message count down to zero, and `Recv` puts a message together from the
segments up to the first zero.  It looks only at the first segment to see whether the message is
complete, and this is enough as long as the segments do count down.

In stream mode every segment has the number zero, and the last one that is queued is filled up.
There it is the bytes that are kept, not where one call of `Send` ends.
-/

import Gokit.Kcp.Flow
import Mathlib.Data.List.Chain

namespace Gokit.Kcp

open Gokit.Math

namespace KCP

/-- The messages that are complete, and the bytes behind the last of them. -/
def assemble (acc : Bytes) : List Segment → List Bytes × Bytes
  | [] => ([], acc)
  | seg :: rest =>
    if seg.frg = 0 then
      ((acc ++ seg.data.bts) :: (assemble [] rest).1, (assemble [] rest).2)
    else assemble (acc ++ seg.data.bts) rest

/-- The segments count down, and the byte is large enough for their number. -/
structure CountsDown (segs : List Segment) : Prop where
  chain : segs.IsChain fun seg next => seg.frg ≠ 0 → next.frg + 1 = seg.frg
  small : ∀ seg ∈ segs, seg.frg.toNat < 255

variable {count : Nat}

section Assemble

variable {acc : Bytes} {segs others : List Segment} {seg : Segment}

theorem assemble_append (acc : Bytes) (segs others : List Segment) :
    assemble acc (segs ++ others) =
      ((assemble acc segs).1 ++ (assemble (assemble acc segs).2 others).1,
        (assemble (assemble acc segs).2 others).2) := by
  induction segs generalizing acc with
  | nil => rfl
  | cons seg rest ih =>
    rw [List.cons_append, assemble, assemble]
    split_ifs
    · rw [ih]
      rfl
    · exact ih _

theorem flatten_assemble (acc : Bytes) (segs : List Segment) :
    (assemble acc segs).1.flatten ++ (assemble acc segs).2 = acc ++ content segs := by
  induction segs generalizing acc with
  | nil => exact (List.append_nil acc).symm
  | cons seg rest ih =>
    have hcontent : content (seg :: rest) = seg.data.bts ++ content rest := rfl
    rw [assemble, hcontent]
    split_ifs
    · rw [List.flatten_cons, List.append_assoc, ih, List.append_assoc]
      rfl
    · rw [ih, List.append_assoc]

theorem content_append (segs others : List Segment) :
    content (segs ++ others) = content segs ++ content others :=
  List.flatMap_append

/-- The messages of some segments are the first messages of more segments. -/
theorem assemble_prefix (h : segs <+: others) :
    (assemble acc segs).1 <+: (assemble acc others).1 := by
  obtain ⟨more, rfl⟩ := h
  rw [assemble_append]
  exact List.prefix_append _ _

theorem content_prefix (h : segs <+: others) : content segs <+: content others := by
  obtain ⟨more, rfl⟩ := h
  rw [content_append]
  exact List.prefix_append _ _

theorem assemble_last (hlast : seg.frg = 0) (acc : Bytes) :
    assemble acc [seg] = ([acc ++ content [seg]], []) := by
  rw [assemble, if_pos hlast]
  show ([acc ++ seg.data.bts], []) = ([acc ++ (seg.data.bts ++ [])], ([] : Bytes))
  rw [List.append_nil]

theorem ofNat_ne_zero (hpos : 0 < count) (hsmall : count < 256) : UInt8.ofNat count ≠ 0 := by
  intro hzero
  have hvalue := congrArg UInt8.toNat hzero
  rw [UInt8.toNat_ofNat', Nat.mod_eq_of_lt hsmall] at hvalue
  exact Nat.ne_of_gt hpos hvalue

theorem assemble_numbered (h : Numbered (count + 1) segs) (hsmall : count < 256) :
    assemble acc segs = ([acc ++ content segs], []) := by
  induction count generalizing segs acc with
  | zero =>
    obtain ⟨seg, _, rfl, hfrg, rfl⟩ := h
    exact assemble_last hfrg acc
  | succ count ih =>
    obtain ⟨seg, rest, rfl, hfrg, hrest⟩ := h
    have hmore : seg.frg ≠ 0 := hfrg ▸ ofNat_ne_zero (Nat.succ_pos count) hsmall
    rw [assemble, if_neg hmore, ih hrest (Nat.lt_of_succ_lt hsmall), List.append_assoc]
    rfl

end Assemble

/-! ## Counting down -/

section CountsDown

variable {segs others : List Segment} {seg : Segment}

theorem CountsDown.of_part (h : CountsDown others) (hpart : segs <:+: others) :
    CountsDown segs where
  chain := List.IsChain.infix h.chain hpart
  small seg hseg := h.small seg (hpart.mem hseg)

theorem countsDown_of_zero (h : ∀ seg ∈ segs, seg.frg = 0) : CountsDown segs where
  chain := by
    induction segs with
    | nil => exact .nil
    | cons seg rest ih =>
      refine List.isChain_cons.mpr ⟨fun next _ hne => ?_,
        ih fun other hother => h other (List.mem_cons_of_mem seg hother)⟩
      exact absurd (h seg List.mem_cons_self) hne
  small seg hseg := by
    rw [h seg hseg]
    decide

/-- Another message behind complete ones. -/
theorem CountsDown.append (h : CountsDown segs) (h' : CountsDown others)
    (hlast : ∀ seg ∈ segs.getLast?, seg.frg = 0) : CountsDown (segs ++ others) :=
  ⟨h.chain.append h'.chain fun seg hseg _ _ hne => absurd (hlast seg hseg) hne,
    List.forall_mem_append.mpr ⟨h.small, h'.small⟩⟩

theorem Numbered.countsDown (h : Numbered count segs) (hsmall : count ≤ 255) :
    CountsDown segs ∧ ∀ seg ∈ segs.getLast?, seg.frg = 0 := by
  induction count generalizing segs with
  | zero =>
    rw [show segs = [] from h]
    exact ⟨⟨.nil, by simp⟩, by simp⟩
  | succ count ih =>
    obtain ⟨seg, rest, rfl, hfrg, hrest⟩ := h
    obtain ⟨hcounts, hlast⟩ := ih hrest (Nat.le_of_succ_le hsmall)
    have hvalue : seg.frg.toNat = count := by
      rw [hfrg, UInt8.toNat_ofNat']
      omega
    have hsmall' : ∀ other ∈ seg :: rest, other.frg.toNat < 255 :=
      List.forall_mem_cons.mpr ⟨by omega, hcounts.small⟩
    cases count with
    | zero =>
      rw [show rest = [] from hrest] at hsmall' ⊢
      exact ⟨⟨.singleton seg, hsmall'⟩, by simpa using hfrg⟩
    | succ count =>
      obtain ⟨next, later, rfl, hnext, -⟩ := hrest
      refine ⟨⟨.cons_cons (fun _ => ?_) hcounts.chain, hsmall'⟩, ?_⟩
      · rw [hfrg, hnext, UInt8.ofNat_add]
        rfl
      · rw [List.getLast?_cons_cons]
        exact hlast

/-- **A complete message.**  If there are as many segments as the first one says, then `Recv`
takes one message. -/
theorem assemble_popMessage {acc : Bytes} (h : CountsDown (seg :: segs))
    (hthere : seg.frg.toNat < (seg :: segs).length) :
    assemble acc (popMessage (seg :: segs)).1 =
      ([acc ++ content (popMessage (seg :: segs)).1], []) := by
  induction segs generalizing seg acc with
  | nil =>
    have hzero : seg.frg = 0 := UInt8.toNat_inj.mp (Nat.lt_one_iff.mp hthere)
    rw [popMessage, if_pos hzero]
    exact assemble_last hzero acc
  | cons next rest ih =>
    by_cases hzero : seg.frg = 0
    · rw [popMessage, if_pos hzero]
      exact assemble_last hzero acc
    · obtain ⟨hnext, hchain⟩ := List.isChain_cons_cons.mp h.chain
      obtain ⟨-, hsmall⟩ := List.forall_mem_cons.mp h.small
      have hfrg : next.frg.toNat + 1 = seg.frg.toNat := by
        have hless := hsmall next List.mem_cons_self
        rw [← hnext hzero, UInt8.toNat_add, show (1 : UInt8).toNat = 1 from rfl]
        omega
      have hrest : next.frg.toNat < (next :: rest).length := by
        simp only [List.length_cons] at hthere ⊢
        omega
      rw [popMessage, if_neg hzero, assemble, if_neg hzero, ih ⟨hchain, hsmall⟩ hrest,
        List.append_assoc]
      rfl

theorem popMessage_append_eq (segs : List Segment) :
    (popMessage segs).1 ++ (popMessage segs).2 = segs := by
  induction segs with
  | nil => rfl
  | cons seg rest ih =>
    rw [popMessage]
    split_ifs
    · rfl
    · exact congrArg (seg :: ·) ih

end CountsDown

/-! ## What `Send` adds -/

section Send

variable {kcp : KCP} {data : Bytes}

theorem bts_of_get {bts : Bytes} {buffer : Buffer} (hget : Buffer.get bts = .ok buffer) :
    buffer.bts = bts := by
  unfold Buffer.get at hget
  split_ifs at hget with hfits
  rw [← Except.ok.inj hget]

/-- In stream mode the segments are not numbered. -/
theorem frg_cut {mss : Nat} {segs : List Segment} (hcut : cut mss true count data = .ok segs) :
    ∀ seg ∈ segs, seg.frg = 0 := by
  induction count generalizing data segs with
  | zero =>
    rw [← Except.ok.inj hcut]
    simp
  | succ count ih =>
    rw [cut] at hcut
    obtain ⟨buffer, -, hrest⟩ := bind_eq_ok_iff.mp hcut
    obtain ⟨rest, hrest, hsegs⟩ := bind_eq_ok_iff.mp hrest
    rw [← Except.ok.inj hsegs]
    exact List.forall_mem_cons.mpr ⟨rfl, ih hrest⟩

/-- The segments that `Send` adds in stream mode. -/
theorem push_stream (hstream : kcp.stream = true) (hpos : kcp.mss ≠ 0)
    (hmss : kcp.mss.toNat ≤ mtuLimit) (hdata : data.length ≠ 0)
    (hfew : fragments kcp.mss.toNat data.length ≤ 255) :
    ∃ segs, kcp.push data = .ok (0, kcp.enqueue segs) ∧ Bounded kcp.mss.toNat segs ∧
      content segs = data ∧ ∀ seg ∈ segs, seg.frg = 0 := by
  obtain ⟨segs, hpush, hbounded, hcontent, -⟩ := push_spec hpos hmss hdata hfew
  refine ⟨segs, hpush, hbounded, hcontent, ?_⟩
  -- the same segments, as `cut` makes them
  obtain ⟨count, found, hcut, hfound⟩ : ∃ count found,
      cut kcp.mss.toNat kcp.stream count data = .ok found ∧
        kcp.enqueue found = kcp.enqueue segs := by
    unfold push at hpush
    dsimp only at hpush
    split_ifs at hpush
    all_goals first
      | (obtain ⟨found, hcut, hfound⟩ := bind_eq_ok_iff.mp hpush
         exact ⟨_, found, hcut, (Prod.mk.inj (Except.ok.inj hfound)).2⟩)
      | cases hpush
  have hsame : found = segs := List.append_cancel_left (congrArg KCP.sndQueue hfound)
  rw [hstream, hsame] at hcut
  exact frg_cut hcut

/-- Filling up the last segment adds bytes behind the others. -/
theorem content_fillLast {rest : Bytes} {kcp' : KCP}
    (hfill : kcp.fillLast data = .ok (rest, kcp')) :
    content kcp'.sndQueue ++ rest = content kcp.sndQueue ++ data ∧
      kcp'.sndQueue.map Segment.frg = kcp.sndQueue.map Segment.frg := by
  cases hlast : kcp.sndQueue.reverse with
  | nil =>
    rw [fillLast, hlast] at hfill
    obtain ⟨rfl, rfl⟩ := Prod.mk.inj (Except.ok.inj hfill)
    exact ⟨rfl, rfl⟩
  | cons seg before =>
    rw [fillLast, hlast] at hfill
    dsimp only at hfill
    split_ifs at hfill with hroom
    · obtain ⟨buffer, hgrow, hfill⟩ := bind_eq_ok_iff.mp hfill
      obtain ⟨rfl, rfl⟩ := Prod.mk.inj (Except.ok.inj hfill)
      have hqueue : kcp.sndQueue = before.reverse ++ [seg] := by
        rw [← List.reverse_cons, ← hlast, List.reverse_reverse]
      have hone : ∀ seg : Segment, content [seg] = seg.data.bts := fun seg =>
        List.append_nil _
      rw [hqueue, List.reverse_cons, content_append, content_append, hone, hone,
        bts_of_get hgrow, List.append_assoc, List.append_assoc, List.append_assoc,
        List.take_append_drop, List.map_append, List.map_append]
      exact ⟨rfl, rfl⟩
    · obtain ⟨rfl, rfl⟩ := Prod.mk.inj (Except.ok.inj hfill)
      exact ⟨rfl, rfl⟩

theorem map_frg_number (nxt : UInt32) (segs : List Segment) :
    (number nxt segs).map Segment.frg = segs.map Segment.frg := by
  induction segs generalizing nxt with
  | nil => rfl
  | cons seg rest ih => exact congrArg (seg.frg :: ·) (ih (nxt + 1))

end Send

/-- What was sent, and the segments that were made of it. -/
structure Written (stream : Bool) (sent : List Bytes) (segs : List Segment) : Prop where
  bytes : content segs = sent.flatten
  messages : stream = false → assemble [] segs = (sent, [])
  zero : stream = true → ∀ seg ∈ segs, seg.frg = 0
  counts : CountsDown segs
  last : ∀ seg ∈ segs.getLast?, seg.frg = 0

section Written

variable {kcp : KCP} {data : Bytes} {sent : List Bytes} {own segs : List Segment} {nxt : UInt32}

theorem written_nil (stream : Bool) : Written stream [] [] where
  bytes := rfl
  messages _ := rfl
  zero _ := by simp
  counts := ⟨.nil, by simp⟩
  last := by simp

/-- In stream mode it is the bytes that count. -/
theorem written_stream (hbytes : content segs = sent.flatten) (hzero : ∀ seg ∈ segs, seg.frg = 0) :
    Written true sent segs where
  bytes := hbytes
  messages h := by cases h
  zero _ := hzero
  counts := countsDown_of_zero hzero
  last seg hseg := hzero seg (List.mem_of_getLast? hseg)

/-- In message mode another message is added. -/
theorem Written.append_message (h : Written false sent segs) {message : List Segment}
    (hmessage : Numbered (count + 1) message) (hsmall : count < 255) :
    Written false (sent ++ [content message]) (segs ++ message) := by
  obtain ⟨hcounts, hlast⟩ := hmessage.countsDown hsmall
  refine ⟨?_, fun _ => ?_, fun hstream => (by cases hstream), h.counts.append hcounts h.last, ?_⟩
  · rw [content_append, h.bytes, List.flatten_append, List.flatten_singleton]
  · rw [assemble_append, h.messages rfl, assemble_numbered hmessage (by omega)]
    rfl
  · obtain ⟨seg, rest, rfl, -, -⟩ := hmessage
    rw [List.getLast?_append_of_ne_nil _ (List.cons_ne_nil _ _)]
    exact hlast

theorem forall_frg : (∀ frg ∈ segs.map Segment.frg, frg = 0) ↔ ∀ seg ∈ segs, seg.frg = 0 := by
  simp

theorem frg_number {nxt : UInt32} :
    (∀ seg ∈ number nxt segs, seg.frg = 0) ↔ ∀ seg ∈ segs, seg.frg = 0 := by
  rw [← forall_frg, ← forall_frg, map_frg_number]

/-- In stream mode bytes are added to the queue. -/
theorem Written.append_bytes (hstream : kcp.stream = true)
    (h : Written kcp.stream sent (own ++ number nxt kcp.sndQueue)) {queue : List Segment}
    (hbytes : content queue = content kcp.sndQueue ++ data)
    (hzero : (∀ seg ∈ kcp.sndQueue, seg.frg = 0) → ∀ seg ∈ queue, seg.frg = 0) :
    Written kcp.stream (sent ++ [data]) (own ++ number nxt queue) := by
  rw [hstream] at h ⊢
  obtain ⟨hown, hqueue⟩ := List.forall_mem_append.mp (h.zero rfl)
  refine written_stream ?_ (List.forall_mem_append.mpr
    ⟨hown, frg_number.mpr (hzero (frg_number.mp hqueue))⟩)
  have hold := h.bytes
  rw [content_append, content_number] at hold
  rw [content_append, content_number, hbytes, ← List.append_assoc, hold, List.flatten_append,
    List.flatten_singleton]

/-- A buffer that makes too many segments is refused. -/
theorem push_of_many (hpos : kcp.mss ≠ 0) (hdata : data.length ≠ 0)
    (hmany : ¬ fragments kcp.mss.toNat data.length ≤ 255) : kcp.push data = .ok (-2, kcp) := by
  have hlong : ¬ data.length ≤ kcp.mss.toNat := fun hle =>
    hmany (fragments_of_le (Nat.pos_of_ne_zero hdata) hle ▸ by decide)
  simp only [push, hpos, and_false, if_false, if_neg hlong, if_pos (Nat.lt_of_not_le hmany)]

/-- What a call of `Send` that returns `n` makes of the queue.  It has queued the data behind what
was sent before, or refused it.  In stream mode, data that is refused for its length may have
filled up the last segment. -/
inductive Sent (kcp : KCP) (sent : List Bytes) (own : List Segment) (nxt : UInt32) (data : Bytes) :
    Int → List Segment → Prop
  | queued {queue : List Segment} (bounded : Bounded kcp.mss.toNat queue)
      (length : kcp.sndQueue.length ≤ queue.length)
      (written : Written kcp.stream (sent ++ [data]) (own ++ number nxt queue)) :
      Sent kcp sent own nxt data 0 queue
  | refused {n : Int} (hneg : n < 0) : Sent kcp sent own nxt data n kcp.sndQueue
  | filled {queue : List Segment} (hstream : kcp.stream = true) :
      Sent kcp sent own nxt data (-2) queue

/-- In stream mode the last segment is filled up first. -/
theorem send_stream (hpos : kcp.mss ≠ 0) (hmss : kcp.mss.toNat ≤ mtuLimit)
    (hqueue : Bounded kcp.mss.toNat kcp.sndQueue) (hstream : kcp.stream = true)
    (h : Written kcp.stream sent (own ++ number nxt kcp.sndQueue)) (hdata : data.length ≠ 0) :
    ∃ n queue, kcp.send data = .ok (n, { kcp with sndQueue := queue }) ∧
      Sent kcp sent own nxt data n queue := by
  obtain ⟨rest, queue, hfill, -, hbounded⟩ := fillLast_spec hmss hqueue data
  obtain ⟨hbytes, hfrg⟩ := content_fillLast hfill
  have hlength : queue.length = kcp.sndQueue.length := by
    simpa using congrArg List.length hfrg
  have hzero : (∀ seg ∈ kcp.sndQueue, seg.frg = 0) → ∀ seg ∈ queue, seg.frg = 0 := by
    rw [← forall_frg, ← forall_frg]
    exact fun hold => hfrg ▸ hold
  rw [send, if_neg hdata, if_pos hstream, hfill]
  show ∃ n queue', (if rest.length = 0 then _ else _) = _ ∧ _
  by_cases hrest : rest.length = 0
  · rw [if_pos hrest]
    rw [List.eq_nil_of_length_eq_zero hrest, List.append_nil] at hbytes
    exact ⟨0, queue, rfl, .queued hbounded hlength.ge (h.append_bytes hstream hbytes hzero)⟩
  rw [if_neg hrest]
  by_cases hfew : fragments kcp.mss.toNat rest.length ≤ 255
  · obtain ⟨segs, hpush, hsegs, hcontent, hnew⟩ :=
      @push_stream { kcp with sndQueue := queue } rest hstream hpos hmss hrest hfew
    refine ⟨0, queue ++ segs, hpush, .queued (hbounded.append hsegs) ?_
      (h.append_bytes hstream ?_ fun hold => ?_)⟩
    · rw [List.length_append, hlength]
      exact Nat.le_add_right _ _
    · rw [content_append, hcontent]
      exact hbytes
    · exact List.forall_mem_append.mpr ⟨hzero hold, hnew⟩
  · exact ⟨-2, queue, @push_of_many { kcp with sndQueue := queue } rest hpos hrest hfew,
      .filled hstream⟩

/-- **What `Send` adds.** -/
theorem send_sent (hpos : kcp.mss ≠ 0) (hmss : kcp.mss.toNat ≤ mtuLimit)
    (hqueue : Bounded kcp.mss.toNat kcp.sndQueue)
    (h : Written kcp.stream sent (own ++ number nxt kcp.sndQueue)) (data : Bytes) :
    ∃ n queue, kcp.send data = .ok (n, { kcp with sndQueue := queue }) ∧
      Sent kcp sent own nxt data n queue := by
  by_cases hdata : data.length = 0
  · refine ⟨-1, kcp.sndQueue, ?_, .refused (by decide)⟩
    rw [send, if_pos hdata]
  by_cases hstream : kcp.stream = true
  · exact send_stream hpos hmss hqueue hstream h hdata
  rw [send, if_neg hdata, if_neg hstream]
  by_cases hfew : fragments kcp.mss.toNat data.length ≤ 255
  · have hmode : kcp.stream = false := Bool.eq_false_of_not_eq_true hstream
    obtain ⟨segs, hpush, hsegs, hcontent, hnumbered⟩ := push_spec hpos hmss hdata hfew
    refine ⟨0, kcp.sndQueue ++ segs, hpush, .queued (hqueue.append hsegs) ?_ ?_⟩
    · rw [List.length_append]
      exact Nat.le_add_right _ _
    · obtain ⟨nxt', hnumber⟩ := number_append nxt kcp.sndQueue segs
      obtain ⟨count, hcount⟩ := Nat.exists_eq_succ_of_ne_zero
        (Nat.ne_of_gt (fragments_pos (toNat_mss_pos hpos) hdata))
      have hmessage := (hcount ▸ hnumbered hmode).number nxt'
      rw [hmode] at h ⊢
      rw [hnumber, ← List.append_assoc, ← hcontent, ← content_number nxt' segs]
      exact h.append_message hmessage (by omega)
  · exact ⟨-2, kcp.sndQueue, push_of_many hpos hdata hfew, .refused (by decide)⟩

end Written

/-! ## What `Recv` takes -/

section Recv

variable {kcp : KCP} {len : Nat}

theorem length_of_peekSize (hpeek : 0 ≤ kcp.peekSize) (hcounts : CountsDown kcp.rcvQueue) :
    ∃ seg rest, kcp.rcvQueue = seg :: rest ∧ seg.frg.toNat < (seg :: rest).length := by
  obtain ⟨seg, rest, hqueue⟩ := List.exists_cons_of_ne_nil (rcvQueue_ne_nil hpeek)
  refine ⟨seg, rest, hqueue, ?_⟩
  have hsmall := hcounts.small seg (hqueue ▸ List.mem_cons_self)
  rw [peekSize_of_cons hqueue] at hpeek
  split_ifs at hpeek with hzero hshort
  · rw [hzero]
    exact Nat.zero_lt_succ _
  · exact absurd hpeek (by decide)
  · rw [UInt8.toNat_add, show (1 : UInt8).toNat = 1 from rfl] at hshort
    omega

theorem recv_of_neg (hneg : (kcp.recv len).1 < 0) : (kcp.recv len).2.2 = kcp := by
  unfold recv at hneg ⊢
  split_ifs at hneg ⊢
  · rfl
  · rfl
  · exact absurd hneg (Int.not_lt.mpr (Int.natCast_nonneg _))

theorem recv_of_nonneg (hlen : 0 ≤ (kcp.recv len).1) :
    0 ≤ kcp.peekSize ∧ (kcp.recv len).2 = (content (popMessage kcp.rcvQueue).1,
      { kcp with rcvQueue := (popMessage kcp.rcvQueue).2 }.moveAll) := by
  unfold recv at hlen ⊢
  split_ifs at hlen ⊢ with hnone
  · exact absurd (show (0 : Int) ≤ -1 from hlen) (by decide)
  · exact absurd (show (0 : Int) ≤ -2 from hlen) (by decide)
  · exact ⟨Int.not_lt.mp hnone, rfl⟩

end Recv

end KCP

namespace Endpoint

variable {theirs popped : List Segment} {e : Endpoint} {len : Nat}

theorem recv_eq (e : Endpoint) (len : Nat) :
    ∃ askTell, e.recv len = ((e.base.recv len).1, (e.base.recv len).2.1,
        { e.withBase (e.base.recv len).2.2 with askTell := askTell }) ∧
      ((e.base.recv len).1 < 0 → askTell = e.askTell) := by
  refine ⟨e.askTell || (decide ((e.base.recv len).2.2.rcvQueue.length < e.rcvWnd.toNat) &&
    decide (0 ≤ (e.base.recv len).1 ∧ e.rcvQueue.length ≥ e.rcvWnd.toNat)), rfl, fun hneg => ?_⟩
  have hslow : decide (0 ≤ (e.base.recv len).1 ∧ e.rcvQueue.length ≥ e.rcvWnd.toNat) = false :=
    decide_eq_false fun h => Int.not_lt.mpr h.1 hneg
  rw [hslow, Bool.and_false, Bool.or_false]

/-- `Recv` that returns nothing changes nothing. -/
theorem recv_of_neg (hneg : (e.recv len).1 < 0) : (e.recv len).2.2 = e := by
  obtain ⟨askTell, hrecv, hsame⟩ := recv_eq e len
  rw [hrecv] at hneg ⊢
  show { e.withBase (e.base.recv len).2.2 with askTell := askTell } = e
  rw [KCP.recv_of_neg hneg, hsame hneg]
  rfl

/-- **What `Recv` takes.**  It takes the segments of one message from the queue, and nothing else
is lost. -/
theorem Receiving.recv (h : Receiving theirs popped e) (hcounts : KCP.CountsDown e.rcvQueue)
    (hlen : 0 ≤ (e.recv len).1) :
    ∃ (segs queue : List Segment) (nxt : UInt32) (buf : List Segment) (askTell : Bool),
      (e.recv len).2 = (KCP.content segs,
        { e with rcvQueue := queue, rcvNxt := nxt, rcvBuf := buf, askTell := askTell }) ∧
      KCP.assemble [] segs = ([KCP.content segs], []) ∧
      Receiving theirs (popped ++ segs)
        { e with rcvQueue := queue, rcvNxt := nxt, rcvBuf := buf, askTell := askTell } ∧
      e.rcvNxt.toNat ≤ nxt.toNat ∧ ∀ i, Got e.rcvNxt e.rcvBuf i → Got nxt buf i := by
  obtain ⟨askTell, hend, -⟩ := recv_eq e len
  rw [hend] at hlen
  obtain ⟨hpeek, hrecv⟩ := KCP.recv_of_nonneg hlen
  obtain ⟨seg, rest, hqueue, hthere⟩ := KCP.length_of_peekSize hpeek hcounts
  have hqueue' : e.rcvQueue = seg :: rest := hqueue
  rw [hqueue'] at hcounts
  have hmessage : KCP.assemble [] (KCP.popMessage (seg :: rest)).1 = _ :=
    KCP.assemble_popMessage hcounts hthere
  rw [← hqueue', List.nil_append] at hmessage
  have hrow : Row theirs (popped ++ (KCP.popMessage e.rcvQueue).1)
      (KCP.popMessage e.rcvQueue).2 e.rcvNxt e.rcvBuf := by
    refine { h.row with inOrder := ?_ }
    rw [List.append_assoc, KCP.popMessage_append_eq]
    exact h.row.inOrder
  obtain ⟨queue, nxt, buf, hmoved, hrow', hsettled, hle, hgot⟩ := hrow.moveAvailable e.rcvWnd.toNat
  have hall := @moveAll_eq queue buf nxt
    { e.base with rcvQueue := (KCP.popMessage e.rcvQueue).2 } hmoved
  refine ⟨(KCP.popMessage e.rcvQueue).1, queue, nxt, buf, askTell, ?_, hmessage,
    ⟨hrow', hsettled, fun ack hack => hgot _ (h.acklist ack hack)⟩, hle, hgot⟩
  rw [hend]
  show ((e.base.recv len).2.1,
    { e.withBase (e.base.recv len).2.2 with askTell := askTell }) = _
  rw [hrecv]
  exact congrArg (fun kcp => (KCP.content (KCP.popMessage e.rcvQueue).1,
    { e.withBase kcp with askTell := askTell })) hall

end Endpoint

end Gokit.Kcp
