/-
# The payload limit

A frame is refused when its declared length and the fragments received before it exceed
the limit of the options.  The sum is taken in 64 bits.  A client may declare any length
below 2^63, so one byte of a fragment is enough for the sum to wrap around: the frame
passes, and the connection waits for a payload that never ends.

We show that this is the only way around the limit.  In every delivery of every stream,
a frame that is too large is refused in the round that decodes its header if and only if
its length and the fragments add up to less than 2^63; and as long as they do, the
fragments that are kept never exceed the limit.
-/

import Gokit.Wsg.Decoders

namespace Gokit.Wsg

open Gokit.Math

/-- The limit that `NewServer` keeps of its options; the default is `64 << 20`. -/
def Server.new (maxPayloadSize : Int64) (writeFails : List Bytes → Bool) : Server where
  maxPayloadSize := if maxPayloadSize ≤ 0 then 67108864 else maxPayloadSize
  writeFails := writeFails

theorem Server.new_pos (maxPayloadSize : Int64) (writeFails : List Bytes → Bool) :
    0 < (Server.new maxPayloadSize writeFails).maxPayloadSize.toInt := by
  show 0 < (if maxPayloadSize ≤ 0 then 67108864 else maxPayloadSize : Int64).toInt
  split
  · decide
  · exact Int64.lt_iff_toInt_lt.mp (Int64.not_le.mp ‹_›)

namespace Conn

def buffered (conn : Conn) : Nat := (conn.buff.getD []).length

/-! ## What is required, and when it holds -/

/-- A round that begins here decodes this header, and leaves these bytes behind it. -/
def Decodes (pool : WsHeadPool) (conn : Conn) (wsh : WsHead) (rest : Bytes) : Prop :=
  conn.wsHeadOk = false ∧ ∃ conn', conn.readWsHeader pool = .ok (conn', .ok true) ∧
    conn'.wsHead = some wsh ∧ conn'.inbound = rest

/-- The round fails, and with it the call; nothing behind the header is consumed or kept. -/
structure Refusal (srv : Server) (pool : WsHeadPool) (conn : Conn) (wsh : WsHead) (rest : Bytes)
    (conn' : Conn) (err : WsError) : Prop where
  round : conn.frame srv pool = .ok (conn', .fail err)
  call : conn.readFrame srv pool = .ok (conn'.release (some err), some err)
  reason : wsh.masked = true → wsh.opCode ≠ opText → err = .errPayloadTooLarge
  buff : conn'.buff = conn.buff
  inbound : conn'.inbound = rest

/-- A frame that is too large is refused by the round that decodes its header. -/
def Refuses (srv : Server) (pool : WsHeadPool) (conn : Conn) : Prop :=
  ∀ wsh rest, conn.Decodes pool wsh rest → 0 < wsh.length →
    srv.maxPayloadSize.toInt < wsh.length.toInt + conn.buffered →
    ∃ conn' err, conn.Refusal srv pool wsh rest conn' err

/-- The length that the header in front of the unread bytes declares does not wrap around
when the fragments are added; one without a mask, or of a text frame, is refused anyway. -/
def NoWrap (conn : Conn) : Prop :=
  ∀ wsh rest, conn.wsHeadOk = false → Wsg.readWsHeader conn.inbound = .ok (.ok wsh, rest) →
    wsh.masked = true → wsh.opCode ≠ opText → wsh.length.toInt + conn.buffered < 2 ^ 63

variable {conn conn' : Conn}

theorem buffered_eq_of_buff (hbuff : conn'.buff = conn.buff) : conn'.buffered = conn.buffered := by
  rw [buffered, buffered, hbuff]

/-! ## The sum in 64 bits -/

variable {wsh : WsHead}

theorem tooLarge_eq_true_iff {srv : Server} :
    conn.tooLarge srv wsh = true ↔
      srv.maxPayloadSize.toInt < (wsh.length + Int64.ofNat conn.buffered).toInt := by
  unfold tooLarge buffered
  rw [decide_eq_true_iff, gt_iff_lt, Int64.lt_iff_toInt_lt]

theorem tooLarge_of_fits {srv : Server} (hlength : 0 < wsh.length)
    (hfits : wsh.length.toInt + conn.buffered < 2 ^ 63) :
    conn.tooLarge srv wsh = true ↔
      srv.maxPayloadSize.toInt < wsh.length.toInt + conn.buffered := by
  have hpos : 0 < wsh.length.toInt := Int64.lt_iff_toInt_lt.mp hlength
  have hbuff : (Int64.ofNat conn.buffered).toInt = conn.buffered :=
    Int64.toInt_ofNat_of_lt (by omega)
  rw [tooLarge_eq_true_iff, toInt_add_of_fits (by omega) (by omega), hbuff]

theorem tooLarge_of_wraps {srv : Server} (hmax : 0 < srv.maxPayloadSize.toInt)
    (hbuff : conn.buffered < 2 ^ 63) (hwraps : 2 ^ 63 ≤ wsh.length.toInt + conn.buffered) :
    ¬ conn.tooLarge srv wsh = true := by
  have hhigh := wsh.length.toInt_lt
  have hsum : (wsh.length + Int64.ofNat conn.buffered).toInt =
      wsh.length.toInt + conn.buffered - 2 ^ 64 := by
    rw [Int64.toInt_add, Int64.toInt_ofNat_of_lt hbuff, Int.bmod_def]
    norm_num at *
    omega
  rw [tooLarge_eq_true_iff, hsum]
  omega

/-! ## One round -/

variable {rest : Bytes}

/-- Decoding, in terms of the bytes. -/
theorem decodes_iff (pool : WsHeadPool) (hconn : conn.Consistent) :
    conn.Decodes pool wsh rest ↔
      conn.wsHeadOk = false ∧ Wsg.readWsHeader conn.inbound = .ok (.ok wsh, rest) := by
  constructor
  · rintro ⟨hok, conn', hread, hhead, hrest⟩
    refine ⟨hok, ?_⟩
    rcases headShort_or_headAt conn.inbound with hshort | ⟨read, rest', hat⟩
    · obtain ⟨wsHead, wsHeadLen, hwait⟩ := readWsHeader_of_headShort pool hconn hok hshort
      cases hread.symm.trans hwait
    · obtain ⟨h, front, -, hsame, hdone⟩ := readWsHeader_of_headAt pool hconn hok hat
      rw [hat.readWsHeader_eq]
      obtain ⟨hconn', hresult⟩ := Prod.mk.inj (Except.ok.inj (hread.symm.trans hdone))
      cases read with
      | error err => cases hresult
      | ok h' =>
        cases hsame h' rfl
        subst hconn'
        cases hhead
        rw [← hrest]
        rfl
  · rintro ⟨hok, hread⟩
    obtain ⟨h, front, -, hsame, hdone⟩ :=
      readWsHeader_of_headAt pool hconn hok (headAt_of_readWsHeader hread)
    cases hsame wsh rfl
    exact ⟨hok, _, hdone, rfl, rfl⟩

/-- The round that decodes a header goes on with it. -/
theorem frame_of_decodes (srv : Server) {pool : WsHeadPool} (hconn : conn.Consistent)
    (hdecodes : conn.Decodes pool wsh rest) :
    ∃ mid : Conn, conn.frame srv pool = .ok (mid.acceptHead srv wsh) ∧ mid.buff = conn.buff ∧
      mid.inbound = rest ∧ mid.wsHead = some wsh := by
  obtain ⟨hok, hread⟩ := (decodes_iff pool hconn).mp hdecodes
  obtain ⟨h, front, -, hsame, hdone⟩ :=
    readWsHeader_of_headAt pool hconn hok (headAt_of_readWsHeader hread)
  cases hsame wsh rfl
  have hframe : conn.frame srv pool = .ok (acceptHead srv
      { conn with
        wsHead := some wsh
        wsHeadLen := front.length
        inbound := rest
        consumed := conn.consumed ++ front } wsh) := by
    unfold frame
    rw [hok, hdone]
    rfl
  exact ⟨_, hframe, rfl, rfl, rfl⟩

theorem readFrame_of_fail {srv : Server} {pool : WsHeadPool} {err : WsError}
    (hframe : conn.frame srv pool = .ok (conn', .fail err)) :
    conn.readFrame srv pool = .ok (conn'.release (some err), some err) := by
  have hstep : (frameReader srv pool).step conn = .ok (conn', .fail err) := hframe
  unfold readFrame Reader.loop
  rw [hstep]
  rfl

@[simp]
theorem replyWsError_buff (srv : Server) (conn : Conn) (statusCode : UInt16) (reason : WsError) :
    (conn.replyWsError srv statusCode reason).buff = conn.buff := by
  unfold replyWsError
  dsimp only [write]
  split <;> rfl

theorem processOpFrame_ne_tooLarge (srv : Server) (conn : Conn) (wsh : WsHead) (payload : Bytes) :
    (conn.processOpFrame srv wsh payload).2 ≠ some .errPayloadTooLarge := by
  unfold processOpFrame innerSendWsOpFrame
  split_ifs <;> simp

/-- A frame that passes the checks is not refused for its size any more. -/
theorem dispatch_ne_tooLarge (srv : Server) (conn : Conn) (wsh : WsHead) (payload : Bytes) :
    (conn.dispatch srv wsh payload).2 ≠ .fail .errPayloadTooLarge := by
  have herr := processOpFrame_ne_tooLarge srv conn wsh payload
  unfold dispatch
  split
  · rcases hprocess : conn.processOpFrame srv wsh payload with ⟨conn', _ | err⟩
    · simp
    · rw [hprocess] at herr
      simpa using herr
  · simp

theorem acceptHead_of_masked (srv : Server) (conn : Conn) (hmasked : wsh.masked = true)
    (htext : wsh.opCode ≠ opText) :
    conn.acceptHead srv wsh = ({ conn with wsHeadOk := true } : Conn).readPayload srv wsh := by
  unfold acceptHead
  simp [hmasked, htext]

/-- A reply is a refusal: it leaves the fragments and the unread bytes alone. -/
theorem refusal_of_reply {srv : Server} {pool : WsHeadPool} {mid : Conn}
    (hframe : conn.frame srv pool = .ok (mid.acceptHead srv wsh)) (hbuff : mid.buff = conn.buff)
    (hrest : mid.inbound = rest) {code : UInt16} {err : WsError} (haccept : mid.acceptHead srv wsh =
      (({ mid with wsHeadOk := true } : Conn).replyWsError srv code err, .fail err))
    (herr : wsh.masked = true → wsh.opCode ≠ opText → err = .errPayloadTooLarge) :
    ∃ conn' err, conn.Refusal srv pool wsh rest conn' err := by
  rw [haccept] at hframe
  refine ⟨_, err, hframe, readFrame_of_fail hframe, herr, ?_, ?_⟩
  · rw [replyWsError_buff]
    exact hbuff
  · rw [replyWsError_inbound]
    exact hrest

/-- A header whose sum wraps around passes the check. -/
theorem Refuses.noWrap {srv : Server} {pool : WsHeadPool} (hmax : 0 < srv.maxPayloadSize.toInt)
    (hconn : conn.Consistent) (hbuff : (conn.buffered : Int) ≤ srv.maxPayloadSize.toInt)
    (hrefuses : conn.Refuses srv pool) : conn.NoWrap := by
  have hhigh := srv.maxPayloadSize.toInt_lt
  intro wsh rest hok hread hmasked htext
  by_contra hwraps
  have hdecodes := (decodes_iff pool hconn).mpr ⟨hok, hread⟩
  have hpos : 0 < wsh.length := Int64.lt_iff_toInt_lt.mpr (show (0 : Int) < _ by omega)
  obtain ⟨conn', err, hrefusal⟩ := hrefuses wsh rest hdecodes hpos (by omega)
  obtain ⟨mid, hmid, hsame, -⟩ := frame_of_decodes srv hconn hdecodes
  have hkept : ({ mid with wsHeadOk := true } : Conn).buffered = conn.buffered :=
    buffered_eq_of_buff hsame
  have hsmall : ¬ ({ mid with wsHeadOk := true } : Conn).tooLarge srv wsh = true := by
    apply tooLarge_of_wraps hmax <;> rw [hkept] <;> omega
  have hresult := congrArg Prod.snd (Except.ok.inj (hmid.symm.trans hrefusal.round))
  rw [acceptHead_of_masked srv mid hmasked htext, hrefusal.reason hmasked htext] at hresult
  unfold readPayload at hresult
  rw [if_pos hpos, if_neg hsmall] at hresult
  split at hresult
  · cases hresult
  · exact dispatch_ne_tooLarge _ _ _ _ hresult

/-- All three refusals are replies. -/
theorem NoWrap.refuses {srv : Server} {pool : WsHeadPool} (hconn : conn.Consistent)
    (hfits : conn.NoWrap) : conn.Refuses srv pool := by
  intro wsh rest hdecodes hpos hlarge
  obtain ⟨hok, hread⟩ := (decodes_iff pool hconn).mp hdecodes
  obtain ⟨mid, hmid, hsame, hrest, -⟩ := frame_of_decodes srv hconn hdecodes
  by_cases hmasked : wsh.masked = true
  · by_cases htext : wsh.opCode = opText
    · have haccept : mid.acceptHead srv wsh =
          (({ mid with wsHeadOk := true } : Conn).replyWsError srv 1002 .errNotSupportTextData,
            .fail .errNotSupportTextData) := by
        simp [acceptHead, hmasked, htext]
      exact refusal_of_reply hmid hsame hrest haccept fun _ hne => absurd htext hne
    · have hkept : ({ mid with wsHeadOk := true } : Conn).buffered = conn.buffered :=
        buffered_eq_of_buff hsame
      have hover : ({ mid with wsHeadOk := true } : Conn).tooLarge srv wsh = true := by
        rw [tooLarge_of_fits hpos (hkept ▸ hfits wsh rest hok hread hmasked htext), hkept]
        exact hlarge
      have haccept : mid.acceptHead srv wsh =
          (({ mid with wsHeadOk := true } : Conn).replyWsError srv 1009 .errPayloadTooLarge,
            .fail .errPayloadTooLarge) := by
        rw [acceptHead_of_masked srv mid hmasked htext, readPayload, if_pos hpos, if_pos hover]
      exact refusal_of_reply hmid hsame hrest haccept fun _ _ => rfl
  · have haccept : mid.acceptHead srv wsh =
        (({ mid with wsHeadOk := true } : Conn).replyWsError srv 1002 .mustMasked,
          .fail .mustMasked) := by
      simp [acceptHead, hmasked]
    exact refusal_of_reply hmid hsame hrest haccept fun h => absurd h hmasked

/-- **The limit and the sum**: with fragments within the limit, a frame that is too large is
refused at once if and only if the sum does not wrap around. -/
theorem refuses_iff_noWrap {srv : Server} (pool : WsHeadPool) (hmax : 0 < srv.maxPayloadSize.toInt)
    (hconn : conn.Consistent) (hbuff : (conn.buffered : Int) ≤ srv.maxPayloadSize.toInt) :
    conn.Refuses srv pool ↔ conn.NoWrap :=
  ⟨Refuses.noWrap hmax hconn hbuff, NoWrap.refuses hconn⟩

/-! ## The fragments that are kept -/

/-- What is kept is within the limit, and stays so with the frame whose payload is awaited. -/
structure Within (srv : Server) (conn : Conn) : Prop where
  kept : (conn.buffered : Int) ≤ srv.maxPayloadSize.toInt
  awaited : conn.wsHeadOk = true → ∀ wsh, conn.wsHead = some wsh →
    wsh.length.toInt + conn.buffered ≤ srv.maxPayloadSize.toInt

theorem buffered_collect (conn : Conn) (wsh : WsHead) (payload : Bytes) :
    (conn.collect wsh payload).buffered ≤ conn.buffered + payload.length := by
  unfold collect buffered
  split_ifs <;> simp

theorem processOpFrame_buff (srv : Server) (conn : Conn) (wsh : WsHead) (payload : Bytes) :
    (conn.processOpFrame srv wsh payload).1.buff = conn.buff := by
  have hinner : ∀ op, (conn.innerSendWsOpFrame srv op payload).1.buff = conn.buff := by
    intro op
    unfold innerSendWsOpFrame
    dsimp only [write]
    split <;> rfl
  unfold processOpFrame
  split_ifs <;> simp [hinner]

theorem buffered_dispatch (srv : Server) (conn : Conn) (wsh : WsHead) (payload : Bytes) :
    (conn.dispatch srv wsh payload).1.buffered ≤ conn.buffered + payload.length := by
  have hcontrol := processOpFrame_buff srv conn wsh payload
  unfold dispatch
  split
  · rcases hprocess : conn.processOpFrame srv wsh payload with ⟨conn', err⟩
    rw [hprocess] at hcontrol
    have hsame : conn'.buffered = conn.buffered := buffered_eq_of_buff hcontrol
    cases err with
    | none => exact hsame.trans_le (Nat.le_add_right ..)
    | some err => exact hsame.trans_le (Nat.le_add_right ..)
  · exact buffered_collect conn wsh payload

/-- A payload that fits with the fragments is kept with them. -/
theorem buffered_readPayload {srv : Server}
    (hkept : (conn.buffered : Int) ≤ srv.maxPayloadSize.toInt)
    (hfits : 0 < wsh.length → wsh.length.toInt + conn.buffered ≤ srv.maxPayloadSize.toInt) :
    ((conn.readPayload srv wsh).1.buffered : Int) ≤ srv.maxPayloadSize.toInt := by
  unfold readPayload
  by_cases hpos : 0 < wsh.length
  · rw [if_pos hpos]
    split
    · rw [buffered, replyWsError_buff]
      exact hkept
    · rcases Nat.lt_or_ge conn.inbound.length wsh.length.toInt.toNat with hshort | henough
      · rw [next_of_lt hshort]
        exact hkept
      · have hnonneg : 0 < wsh.length.toInt := Int64.lt_iff_toInt_lt.mp hpos
        have hgrows := buffered_dispatch srv (conn.discard wsh.length.toInt.toNat) wsh
          (maskWsPayload wsh.mask (conn.inbound.take wsh.length.toInt.toNat))
        rw [length_maskWsPayload, List.length_take_of_le henough] at hgrows
        have hdiscard : (conn.discard wsh.length.toInt.toNat).buffered = conn.buffered := rfl
        have hsum := hfits hpos
        rw [next_of_le henough]
        dsimp only
        omega
  · rw [if_neg hpos]
    have hgrows := buffered_dispatch srv conn wsh []
    rw [List.length_nil, Nat.add_zero] at hgrows
    omega

/-- Behind a header whose frame fits with the fragments. -/
theorem Within.readPayload {srv : Server} (hkept : (conn.buffered : Int) ≤ srv.maxPayloadSize.toInt)
    (hhead : conn.wsHead = some wsh)
    (hfits : 0 < wsh.length → wsh.length.toInt + conn.buffered ≤ srv.maxPayloadSize.toInt) :
    ((conn.readPayload srv wsh).1.buffered : Int) ≤ srv.maxPayloadSize.toInt ∧
      ((∀ err, (conn.readPayload srv wsh).2 ≠ .fail err) →
        (conn.readPayload srv wsh).1.Within srv) := by
  have hbuff := buffered_readPayload hkept hfits
  refine ⟨hbuff, fun hflow => ⟨hbuff, fun hready => ?_⟩⟩
  rcases readPayload_spec srv conn wsh with ⟨hpos, hwait⟩ | ⟨conn', flow, hread, hne, -, hnext⟩
  · intro wsh' hhead'
    rw [hwait, hhead] at hhead'
    cases hhead'
    rw [hwait]
    exact hfits hpos
  · rw [hread] at hflow hready
    cases flow with
    | wait => exact absurd rfl hne
    | fail err => exact absurd rfl (hflow err)
    | next =>
      rw [(hnext rfl).1] at hready
      cases hready

theorem Within.acceptHead {srv : Server} (hkept : (conn.buffered : Int) ≤ srv.maxPayloadSize.toInt)
    (hhead : conn.wsHead = some wsh)
    (hfits : 0 < wsh.length → wsh.length.toInt + conn.buffered ≤ srv.maxPayloadSize.toInt) :
    ((conn.acceptHead srv wsh).1.buffered : Int) ≤ srv.maxPayloadSize.toInt ∧
      ((∀ err, (conn.acceptHead srv wsh).2 ≠ .fail err) →
        (conn.acceptHead srv wsh).1.Within srv) := by
  have hreply : ∀ (code : UInt16) (err : WsError),
      ((({ conn with wsHeadOk := true } : Conn).replyWsError srv code err).buffered : Int) ≤
        srv.maxPayloadSize.toInt := by
    intro code err
    rw [buffered, replyWsError_buff]
    exact hkept
  unfold Conn.acceptHead
  split
  · exact ⟨hreply _ _, fun hflow => absurd rfl (hflow _)⟩
  · split
    · exact ⟨hreply _ _, fun hflow => absurd rfl (hflow _)⟩
    · exact @Within.readPayload { conn with wsHeadOk := true } wsh srv hkept hhead hfits

/-- **One round** keeps the fragments within the limit, if it refuses what is too large. -/
theorem Within.frame {srv : Server} {pool : WsHeadPool} {flow : Flow WsError}
    (hwithin : conn.Within srv) (hconn : conn.Consistent) (hrefuses : conn.Refuses srv pool)
    (hframe : conn.frame srv pool = .ok (conn', flow)) :
    (conn'.buffered : Int) ≤ srv.maxPayloadSize.toInt ∧
      ((∀ err, flow ≠ .fail err) → conn'.Within srv) := by
  cases hok : conn.wsHeadOk with
  | true =>
    obtain ⟨wsh, hhead, -⟩ := hconn.ready hok
    have hnow : conn.frame srv pool = .ok (conn.readPayload srv wsh) := by
      simp [Conn.frame, hok, hhead]
    have hread := Within.readPayload hwithin.kept hhead fun _ => hwithin.awaited hok wsh hhead
    rw [Except.ok.inj (hnow.symm.trans hframe)] at hread
    exact hread
  | false =>
    rcases headShort_or_headAt conn.inbound with hshort | ⟨read, rest, hat⟩
    · obtain ⟨wsHead, wsHeadLen, hwait⟩ := readWsHeader_of_headShort pool hconn hok hshort
      have hnow : conn.frame srv pool =
          .ok ({ conn with wsHead := wsHead, wsHeadLen := wsHeadLen }, .wait) := by
        simp [Conn.frame, hok, hwait]
      cases hnow.symm.trans hframe
      exact ⟨hwithin.kept, fun _ => ⟨hwithin.kept, fun h => absurd (hok.symm.trans h) (by simp)⟩⟩
    · cases read with
      | error err =>
        obtain ⟨h, front, -, -, hdone⟩ := readWsHeader_of_headAt pool hconn hok hat
        unfold Conn.frame at hframe
        rw [hok, hdone] at hframe
        cases hframe
        exact ⟨hwithin.kept, fun hflow => absurd rfl (hflow err)⟩
      | ok wsh =>
        have hdecodes := (decodes_iff pool hconn).mpr ⟨hok, hat.readWsHeader_eq⟩
        obtain ⟨mid, hmid, hsame, -, hhead⟩ := frame_of_decodes srv hconn hdecodes
        have hkept : mid.buffered = conn.buffered := buffered_eq_of_buff hsame
        by_cases hlarge : 0 < wsh.length ∧
            srv.maxPayloadSize.toInt < wsh.length.toInt + conn.buffered
        · obtain ⟨conn'', err, hrefusal⟩ := hrefuses wsh rest hdecodes hlarge.1 hlarge.2
          cases hrefusal.round.symm.trans hframe
          refine ⟨?_, fun hflow => absurd rfl (hflow err)⟩
          rw [buffered, hrefusal.buff]
          exact hwithin.kept
        · rw [not_and, Int.not_lt, ← hkept] at hlarge
          have haccept := Within.acceptHead (hkept ▸ hwithin.kept) hhead hlarge
          rw [Except.ok.inj (hmid.symm.trans hframe)] at haccept
          exact haccept

/-! ## Deliveries -/

/-- A round begins here while the pieces are delivered to a new connection. -/
def Visited (srv : Server) (pool : WsHeadPool) (pieces : List Bytes) (conn : Conn) : Prop :=
  ∃ seen, seen <+: pieces ∧ (frameReader srv pool).Visits {} seen conn

section Runs

variable {srv : Server} {pool : WsHeadPool} {pieces : List Bytes}

/-- The rounds of a delivery stay within the limit if each of them refuses what is too large,
given that those before it did. -/
theorem Visited.within
    (hrefuses : ∀ conn, Visited srv pool pieces conn → conn.Within srv → conn.Consistent →
      conn.Refuses srv pool) (hmax : 0 < srv.maxPayloadSize.toInt)
    (hvisited : Visited srv pool pieces conn) : conn.Within srv ∧ conn.Consistent := by
  obtain ⟨seen, hseen, hvisits⟩ := hvisited
  induction hvisits with
  | first piece =>
    refine ⟨⟨?_, by simp [frameReader, receive]⟩, (Consistent.idle rfl rfl).receive piece⟩
    simpa [frameReader, receive, buffered] using hmax.le
  | @next seen conn conn' hvisits hstep ih =>
    obtain ⟨hwithin, hconn⟩ := ih hseen
    have hround := hwithin.frame hconn (hrefuses conn ⟨seen, hseen, hvisits⟩ hwithin hconn) hstep
    exact ⟨hround.2 (by simp), ((frame_receive srv pool hconn hstep (by simp)).2 rfl).1⟩
  | @call seen conn conn' hvisits hstep piece ih =>
    have hbefore : seen <+: pieces := (List.prefix_append ..).trans hseen
    obtain ⟨hwithin, hconn⟩ := ih hbefore
    have hround := hwithin.frame hconn (hrefuses conn ⟨seen, hbefore, hvisits⟩ hwithin hconn) hstep
    have hwait := hround.2 (by simp)
    exact ⟨⟨hwait.kept, hwait.awaited⟩, (frame_resume srv pool hconn hstep).1.receive piece⟩

/-- A delivery that stays within the limit leaves a connection that is. -/
theorem buffered_serve_le (hrefuses : ∀ conn, Visited srv pool pieces conn → conn.Refuses srv pool)
    (hmax : 0 < srv.maxPayloadSize.toInt) {err : Option WsError}
    (hserve : ({} : Conn).serve srv pool pieces = .ok (conn, err)) :
    (conn.buffered : Int) ≤ srv.maxPayloadSize.toInt := by
  rw [serve_eq_deliver] at hserve
  obtain ⟨⟨last, err'⟩, hdeliver, hrelease⟩ := Exec.bind_eq_ok_iff.mp hserve
  have hsame : conn.buffered = last.buffered := by
    cases hrelease
    cases err' <;> rfl
  rw [hsame]
  by_cases hsome : pieces = []
  · subst hsome
    cases hdeliver
    exact hmax.le
  · obtain ⟨seen, t, flow, hseen, hvisits, hstep⟩ := Reader.Visits.of_deliver hsome hdeliver
    have hvisited : Visited srv pool pieces t := ⟨seen, hseen, hvisits⟩
    obtain ⟨hwithin, hconn⟩ := hvisited.within (fun conn hconn _ _ => hrefuses conn hconn) hmax
    exact (hwithin.frame hconn (hrefuses t hvisited) hstep).1

end Runs

/-- **The payload limit**: whatever limit is configured, whatever the client sends and however
it is cut, every frame that is too large is refused by the round that decodes its header if
and only if none of the lengths declared wraps around with the fragments kept; and then the
fragments never exceed the limit, in any round and at the end. -/
theorem visited_refuses_iff_fits (maxPayloadSize : Int64) (writeFails : List Bytes → Bool)
    (pool : WsHeadPool) (pieces : List Bytes) : let srv := Server.new maxPayloadSize writeFails
    ((∀ conn, Visited srv pool pieces conn → conn.Refuses srv pool) ↔
      ∀ conn, Visited srv pool pieces conn → conn.NoWrap) ∧
    ((∀ conn, Visited srv pool pieces conn → conn.NoWrap) →
      (∀ conn, Visited srv pool pieces conn →
        (conn.buffered : Int) ≤ srv.maxPayloadSize.toInt) ∧
      ∀ conn err, ({} : Conn).serve srv pool pieces = .ok (conn, err) →
        (conn.buffered : Int) ≤ srv.maxPayloadSize.toInt) := by
  intro srv
  have hmax : 0 < srv.maxPayloadSize.toInt := Server.new_pos maxPayloadSize writeFails
  have hfitting : (∀ conn, Visited srv pool pieces conn → conn.NoWrap) →
      ∀ conn, Visited srv pool pieces conn → conn.Within srv ∧ conn.Refuses srv pool := by
    intro hfits conn hvisited
    have hrefuses : ∀ conn, Visited srv pool pieces conn → conn.Within srv → conn.Consistent →
        conn.Refuses srv pool := fun conn hvisited hwithin hconn =>
      (refuses_iff_noWrap pool hmax hconn hwithin.kept).mpr (hfits conn hvisited)
    obtain ⟨hwithin, hconn⟩ := hvisited.within hrefuses hmax
    exact ⟨hwithin, hrefuses conn hvisited hwithin hconn⟩
  refine ⟨⟨fun hrefuses conn hvisited => ?_, fun hfits conn hvisited => ?_⟩, fun hfits => ⟨?_, ?_⟩⟩
  · obtain ⟨hwithin, hconn⟩ := hvisited.within (fun conn hconn _ _ => hrefuses conn hconn) hmax
    exact (refuses_iff_noWrap pool hmax hconn hwithin.kept).mp (hrefuses conn hvisited)
  · exact (hfitting hfits conn hvisited).2
  · exact fun conn hvisited => (hfitting hfits conn hvisited).1.kept
  · intro conn err hserve
    exact buffered_serve_le (fun conn hvisited => (hfitting hfits conn hvisited).2) hmax hserve

/-- One byte of a message, and then a frame of 2^63 - 1 bytes: with a limit of sixteen bytes
the connection waits for it. -/
theorem visited_not_refuses : let srv := Server.new 16 fun _ => false
    let fragment : Bytes := [0x02, 0x81, 0, 0, 0, 0, 7]
    let huge : Bytes := [0x80, 0xff, 0x7f, 0xff, 0xff, 0xff, 0xff, 0xff, 0xff, 0xff, 0, 0, 0, 0]
    (∃ conn, Visited srv (fun _ => none) [fragment ++ huge] conn ∧
      ¬ conn.Refuses srv fun _ => none) ∧
    ∃ conn, ({} : Conn).serve srv (fun _ => none) [fragment ++ huge] = .ok (conn, none) := by
  intro srv fragment huge
  let conn : Conn := { buff := some [7], inbound := huge, consumed := fragment }
  let wsh : WsHead := { fin := true, masked := true, length := 9223372036854775807 }
  let waiting : Conn :=
    { conn with
      wsHeadOk := true, wsHeadLen := 14, wsHead := some wsh, inbound := [],
      consumed := fragment ++ huge }
  have hfirst : (({} : Conn).receive (fragment ++ huge)).frame srv (fun _ => none) =
      .ok (conn, .next) := by decide +kernel
  have hsecond : conn.frame srv (fun _ => none) = .ok (waiting, .wait) := by decide +kernel
  have hdecodes : conn.Decodes (fun _ => none) wsh [] :=
    ⟨rfl, { waiting with wsHeadOk := false }, by decide +kernel, rfl, rfl⟩
  refine ⟨⟨conn, ⟨_, List.prefix_rfl, .next (.first _) hfirst⟩, fun hrefuses => ?_⟩,
    waiting, by decide +kernel⟩
  obtain ⟨conn', err, hrefusal⟩ := hrefuses wsh [] hdecodes (by decide) (by decide)
  cases hrefusal.round.symm.trans hsecond

end Conn

end Gokit.Wsg
