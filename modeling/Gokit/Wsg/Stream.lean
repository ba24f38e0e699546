/-
# Frames do not depend on how the stream is cut

A connection can be interrupted behind the first two bytes of a header, inside
the extended header and inside the payload of any frame.  This module shows that
`readFrame` is an incremental reader in the sense of `Gokit.Math.Incremental`,
and concludes that the deliveries of a stream cannot be told apart by what the
connection does with it.

What has to be known about a connection between two rounds is little: a header
that has been begun agrees with the two bytes in front of the buffer, and a
header that is complete announces a payload.
-/

import Gokit.Wsg.Defs

namespace Gokit.Wsg

open Gokit.Math

/-- Whatever was put into the pool, what comes out is a zero head. -/
@[simp]
theorem WsHeadPool.get_eq (pool : WsHeadPool) (position : Nat) : pool.get position = {} := by
  unfold WsHeadPool.get
  cases pool position with
  | none => rfl
  | some h => rfl

namespace Conn

/-! ## The inbound buffer -/

variable {conn : Conn} {n : Nat}

theorem next_of_lt (hshort : conn.inbound.length < n) :
    conn.next n = none := if_neg (Nat.not_le.mpr hshort)

theorem next_of_le (henough : n ≤ conn.inbound.length) :
    conn.next n = some (conn.inbound.take n, conn.discard n) := if_pos henough

theorem discard_receive (henough : n ≤ conn.inbound.length) (ys : Bytes) :
    (conn.receive ys).discard n = (conn.discard n).receive ys := by
  simp only [discard, receive, List.take_append_of_le_length henough,
    List.drop_append_of_le_length henough]

theorem next_receive (henough : n ≤ conn.inbound.length) (ys : Bytes) :
    (conn.receive ys).next n =
      some (conn.inbound.take n, (conn.discard n).receive ys) := by
  have hlonger : n ≤ (conn.receive ys).inbound.length := by
    simp only [receive, List.length_append]
    omega
  rw [next_of_le hlonger, discard_receive henough]
  simp only [receive, List.take_append_of_le_length henough]

@[simp]
theorem discard_inbound_length (conn : Conn) (n : Nat) :
    (conn.discard n).inbound.length = conn.inbound.length - n := List.length_drop

/-! ## Replies and whole frames

None of these looks at the inbound buffer. -/

theorem replyWsError_receive (srv : Server) (conn : Conn) (statusCode : UInt16)
    (reason : WsError) (ys : Bytes) :
    (conn.receive ys).replyWsError srv statusCode reason =
      (conn.replyWsError srv statusCode reason).receive ys := by
  unfold replyWsError
  dsimp only [write, receive]
  split <;> rfl

theorem innerSendWsOpFrame_receive (srv : Server) (conn : Conn) (op : UInt8) (payload ys : Bytes) :
    (conn.receive ys).innerSendWsOpFrame srv op payload =
      ((conn.innerSendWsOpFrame srv op payload).1.receive ys,
        (conn.innerSendWsOpFrame srv op payload).2) := by
  unfold innerSendWsOpFrame
  dsimp only [write, receive]
  split <;> rfl

theorem processOpFrame_receive (srv : Server) (conn : Conn) (wsh : WsHead) (payload ys : Bytes) :
    (conn.receive ys).processOpFrame srv wsh payload =
      ((conn.processOpFrame srv wsh payload).1.receive ys,
        (conn.processOpFrame srv wsh payload).2) := by
  unfold processOpFrame
  simp only [replyWsError_receive, innerSendWsOpFrame_receive]
  repeat' split
  all_goals rfl

theorem dispatch_receive (srv : Server) (conn : Conn) (wsh : WsHead) (payload ys : Bytes) :
    (conn.receive ys).dispatch srv wsh payload =
      ((conn.dispatch srv wsh payload).1.receive ys, (conn.dispatch srv wsh payload).2) := by
  unfold dispatch
  by_cases hcontrol : isControlOp wsh.opCode = true
  · rw [if_pos hcontrol, if_pos hcontrol, processOpFrame_receive]
    rcases conn.processOpFrame srv wsh payload with ⟨conn', err⟩
    cases err with
    | none => rfl
    | some err => rfl
  · rw [if_neg hcontrol, if_neg hcontrol]
    unfold collect
    split
    · split <;> rfl
    · rfl

theorem replyWsError_inbound (srv : Server) (conn : Conn) (statusCode : UInt16)
    (reason : WsError) : (conn.replyWsError srv statusCode reason).inbound = conn.inbound := by
  unfold replyWsError
  dsimp only [write]
  split <;> rfl

theorem innerSendWsOpFrame_inbound (srv : Server) (conn : Conn) (op : UInt8) (payload : Bytes) :
    (conn.innerSendWsOpFrame srv op payload).1.inbound = conn.inbound := by
  unfold innerSendWsOpFrame
  dsimp only [write]
  split <;> rfl

theorem processOpFrame_inbound (srv : Server) (conn : Conn) (wsh : WsHead) (payload : Bytes) :
    (conn.processOpFrame srv wsh payload).1.inbound = conn.inbound := by
  unfold processOpFrame
  repeat' split
  all_goals simp only [replyWsError_inbound, innerSendWsOpFrame_inbound]

theorem collect_inbound (conn : Conn) (wsh : WsHead) (payload : Bytes) :
    (conn.collect wsh payload).inbound = conn.inbound := by
  unfold collect
  split
  · split <;> rfl
  · rfl

/-- A frame that does not end the connection leaves it between two frames. -/
theorem dispatch_spec (srv : Server) (conn : Conn) (wsh : WsHead) (payload : Bytes) :
    ∃ conn' flow, conn.dispatch srv wsh payload = (conn', flow) ∧ flow ≠ .wait ∧
      (∀ ys, (conn.receive ys).dispatch srv wsh payload = (conn'.receive ys, flow)) ∧
      (flow = .next →
        conn'.wsHeadOk = false ∧ conn'.wsHeadLen = 0 ∧ conn'.inbound = conn.inbound) := by
  simp only [dispatch_receive]
  unfold dispatch
  split
  · have hinbound := processOpFrame_inbound srv conn wsh payload
    rcases hresult : conn.processOpFrame srv wsh payload with ⟨conn', err⟩
    rw [hresult] at hinbound
    cases err with
    | none => exact ⟨_, _, rfl, nofun, fun _ => rfl, fun _ => ⟨rfl, rfl, hinbound⟩⟩
    | some err => exact ⟨_, _, rfl, nofun, fun _ => rfl, nofun⟩
  · exact ⟨_, _, rfl, nofun, fun _ => rfl, fun _ => ⟨rfl, rfl, collect_inbound ..⟩⟩

/-! ## One round -/

/-- Behind a complete header a round waits, without having done anything, or
goes through; then later bytes do not matter. -/
theorem readPayload_spec (srv : Server) (conn : Conn) (wsh : WsHead) :
    (0 < wsh.length ∧ conn.readPayload srv wsh = (conn, .wait)) ∨
      ∃ conn' flow, conn.readPayload srv wsh = (conn', flow) ∧ flow ≠ .wait ∧
        (∀ ys, (conn.receive ys).readPayload srv wsh = (conn'.receive ys, flow)) ∧
        (flow = .next → conn'.wsHeadOk = false ∧ conn'.wsHeadLen = 0 ∧
          conn'.inbound.length ≤ conn.inbound.length ∧
          (0 < wsh.length → conn'.inbound.length < conn.inbound.length)) := by
  unfold readPayload
  by_cases hpositive : 0 < wsh.length
  · simp only [if_pos hpositive]
    by_cases hlarge : conn.tooLarge srv wsh = true
    · right
      have hlater : ∀ ys, (conn.receive ys).tooLarge srv wsh = true := fun _ => hlarge
      simp only [hlarge, hlater, if_true, replyWsError_receive]
      exact ⟨_, _, rfl, nofun, fun _ => rfl, nofun⟩
    · have hlater : ∀ ys, ¬ (conn.receive ys).tooLarge srv wsh = true := fun _ => hlarge
      simp only [hlarge, hlater, if_false, Bool.false_eq_true]
      rcases Nat.lt_or_ge conn.inbound.length wsh.length.toInt.toNat with hshort | henough
      · exact .inl ⟨hpositive, by rw [next_of_lt hshort]⟩
      · right
        simp only [next_of_le henough, next_receive henough]
        obtain ⟨conn', flow, hdispatch, hflow, hlater, hafter⟩ :=
          dispatch_spec srv (conn.discard wsh.length.toInt.toNat) wsh
            (maskWsPayload wsh.mask (conn.inbound.take wsh.length.toInt.toNat))
        refine ⟨conn', flow, hdispatch, hflow, hlater, fun hnext => ?_⟩
        obtain ⟨hok, hlen, hinbound⟩ := hafter hnext
        have hlength : 0 < wsh.length.toInt := by
          simpa [Int64.lt_iff_toInt_lt] using hpositive
        rw [hinbound, discard_inbound_length]
        exact ⟨hok, hlen, by omega, fun _ => by omega⟩
  · right
    simp only [if_neg hpositive]
    obtain ⟨conn', flow, hdispatch, hflow, hlater, hafter⟩ := dispatch_spec srv conn wsh []
    refine ⟨conn', flow, hdispatch, hflow, hlater, fun hnext => ?_⟩
    obtain ⟨hok, hlen, hinbound⟩ := hafter hnext
    exact ⟨hok, hlen, hinbound ▸ Nat.le_refl _, fun h => absurd h hpositive⟩

/-- Two bytes always begin a head, and leave room for the extended length they
announce. -/
theorem beginHead_spec (b0 b1 : UInt8) :
    ∃ h extra, beginHead {} b0 b1 = .ok (h, extra) ∧
      (b1 &&& 0x7f = 126 → 2 ≤ extra) ∧ (b1 &&& 0x7f = 127 → 8 ≤ extra) := by
  have hsmall : (b1 &&& 0x7f).toNat ≤ 127 := by
    rw [UInt8.toNat_and]
    exact Nat.and_le_right
  have hform : b1 &&& 0x7f < 126 ∨ b1 &&& 0x7f = 126 ∨ b1 &&& 0x7f = 127 := by
    simp only [UInt8.lt_iff_toNat_lt, ← UInt8.toNat_inj]
    simp only [UInt8.reduceToNat]
    omega
  unfold beginHead
  generalize b1 &&& 0x7f = payloadLen at hform ⊢
  by_cases hmasked : b1 &&& 0x80 != 0
  all_goals
    simp only [hmasked, if_true, if_false, Bool.false_eq_true]
    rcases hform with hlt | rfl | rfl
    · rw [if_pos hlt]
      refine ⟨_, _, rfl, ?_, ?_⟩ <;> rintro rfl <;> exact absurd hlt (by decide)
    · exact ⟨_, _, rfl, by decide, by decide⟩
    · exact ⟨_, _, rfl, by decide, by decide⟩

theorem finishHead_ok (h : WsHead) (payloadLen : UInt8) (bts : Bytes)
    (hshort : payloadLen = 126 → 2 ≤ bts.length) (hlong : payloadLen = 127 → 8 ≤ bts.length) :
    ∃ result, finishHead h payloadLen bts = .ok result := by
  unfold finishHead
  by_cases h126 : payloadLen = 126
  · simp [h126, sliceTo_of_le (hshort h126)]
  · by_cases h127 : payloadLen = 127
    · have hroom := hlong h127
      cases bts with
      | nil => simp at hroom
      | cons top rest =>
        rw [if_neg h126, if_pos h127]
        simp only [byteAt_cons_zero, sliceTo_of_le hroom, Exec.ok_bind]
        split <;> exact ⟨_, rfl⟩
    · simp [h126, h127]

/-- What is known of a connection between two rounds. -/
structure Consistent (conn : Conn) : Prop where
  ready : conn.wsHeadOk = true → ∃ wsh, conn.wsHead = some wsh ∧ 0 < wsh.length
  begun : conn.wsHeadOk = false → conn.wsHeadLen ≠ 0 →
    ∃ b0 b1 rest h extra, conn.inbound = b0 :: b1 :: rest ∧
      beginHead {} b0 b1 = .ok (h, extra) ∧ conn.wsHead = some h ∧ conn.wsHeadLen = 2 + extra

theorem Consistent.idle (hok : conn.wsHeadOk = false) (hlen : conn.wsHeadLen = 0) :
    conn.Consistent where
  ready hready := by simp [hok] at hready
  begun _ hbegun := absurd hlen hbegun

theorem Consistent.receive (hconn : conn.Consistent) (ys : Bytes) :
    (conn.receive ys).Consistent where
  ready := hconn.ready
  begun hok hlen := by
    obtain ⟨b0, b1, rest, h, extra, hinbound, hbegin⟩ := hconn.begun hok hlen
    refine ⟨b0, b1, rest ++ ys, h, extra, ?_, hbegin⟩
    simp [Conn.receive, hinbound]

/-- The second half of a header is read as a whole, or not at all. -/
theorem readRest_spec {b0 b1 : UInt8} {rest : Bytes} {h : WsHead} {extra : Nat}
    (hinbound : conn.inbound = b0 :: b1 :: rest) (hbegin : beginHead {} b0 b1 = .ok (h, extra))
    (hlen : conn.wsHeadLen = 2 + extra) :
    (conn.inbound.length < conn.wsHeadLen ∧ conn.readRest h = .ok (conn, .ok false)) ∨
      ∃ conn' result, conn.readRest h = .ok (conn', result) ∧ result ≠ .ok false ∧
        (∀ ys, (conn.receive ys).readRest h = .ok (conn'.receive ys, result)) ∧
        (result = .ok true → conn'.wsHead.isSome) ∧
        conn'.wsHeadOk = conn.wsHeadOk ∧ conn'.inbound.length < conn.inbound.length := by
  unfold readRest
  rcases Nat.lt_or_ge conn.inbound.length conn.wsHeadLen with hshort | henough
  · exact .inl ⟨hshort, by rw [next_of_lt hshort]⟩
  · right
    have hlater : ∀ ys, (conn.receive ys).wsHeadLen = conn.wsHeadLen := fun _ => rfl
    have hfront : conn.inbound.take conn.wsHeadLen = b0 :: b1 :: rest.take extra := by
      rw [hinbound, hlen, Nat.add_comm]
      rfl
    have hroom : (rest.take extra).length = extra := by
      rw [hinbound, hlen] at henough
      simp only [List.length_cons] at henough
      simp only [List.length_take]
      omega
    have hless : (conn.discard conn.wsHeadLen).inbound.length < conn.inbound.length := by
      rw [discard_inbound_length]
      omega
    obtain ⟨h', extra', hbegin', hshort', hlong'⟩ := beginHead_spec b0 b1
    have hsame := hbegin.symm.trans hbegin'
    simp only [Except.ok.injEq, Prod.mk.injEq] at hsame
    obtain ⟨result, hfinish⟩ := finishHead_ok h (b1 &&& 0x7f) (rest.take extra)
      (fun h126 => by have := hshort' h126; omega) (fun h127 => by have := hlong' h127; omega)
    simp only [next_of_le henough, hlater, next_receive henough, hfront, byteAt_cons_one,
      Exec.ok_bind, List.drop_succ_cons, List.drop_zero, hfinish]
    cases result with
    | error err => exact ⟨_, _, rfl, nofun, fun _ => rfl, nofun, rfl, hless⟩
    | ok h => exact ⟨_, _, rfl, nofun, fun _ => rfl, fun _ => rfl, rfl, hless⟩

/-- The connection once the first two bytes of a header have been looked at. -/
def withHead (conn : Conn) (h : WsHead) (extra : Nat) : Conn :=
  { conn with wsHead := some h, wsHeadLen := 2 + extra }

theorem readWsHeader_begin (pool : WsHeadPool) (conn : Conn) {b0 b1 : UInt8} {rest : Bytes}
    {h : WsHead} {extra : Nat} (hlen : conn.wsHeadLen = 0)
    (hinbound : conn.inbound = b0 :: b1 :: rest) (hbegin : beginHead {} b0 b1 = .ok (h, extra)) :
    conn.readWsHeader pool =
      if extra = 0 then .ok ((conn.withHead h extra).discard 2, .ok true)
      else (conn.withHead h extra).readRest h := by
  have hpeek : conn.peek 2 = some [b0, b1] := by
    simp [peek, hinbound]
  unfold readWsHeader
  rw [if_pos hlen, hpeek]
  simp only [byteAt_cons_zero, byteAt_cons_one, Exec.ok_bind, WsHeadPool.get_eq, hbegin]
  rfl

theorem readWsHeader_resume (pool : WsHeadPool) (conn : Conn) {h : WsHead}
    (hlen : conn.wsHeadLen ≠ 0) (hhead : conn.wsHead = some h) :
    conn.readWsHeader pool = conn.readRest h := by
  unfold readWsHeader
  rw [if_neg hlen, hhead]

/-- Reading a header waits at a place where it can be resumed, or comes to an
end that later bytes do not change. -/
theorem readWsHeader_spec (pool : WsHeadPool) (hconn : conn.Consistent)
    (hok : conn.wsHeadOk = false) :
    (∃ conn', conn.readWsHeader pool = .ok (conn', .ok false) ∧ conn'.Consistent ∧
        conn'.wsHeadOk = false ∧
        ∀ ys, (conn.receive ys).readWsHeader pool = (conn'.receive ys).readWsHeader pool) ∨
      ∃ conn' result, conn.readWsHeader pool = .ok (conn', result) ∧ result ≠ .ok false ∧
        (∀ ys, (conn.receive ys).readWsHeader pool = .ok (conn'.receive ys, result)) ∧
        (result = .ok true → conn'.wsHead.isSome) ∧
        conn'.inbound.length < conn.inbound.length := by
  by_cases hlen : conn.wsHeadLen = 0
  · rcases hinbound : conn.inbound with _ | ⟨b0, _ | ⟨b1, rest⟩⟩
    -- fewer than two bytes: nothing has been remembered yet
    · left
      exact ⟨conn, by simp [readWsHeader, hlen, peek, hinbound], hconn, hok, fun _ => rfl⟩
    · left
      exact ⟨conn, by simp [readWsHeader, hlen, peek, hinbound], hconn, hok, fun _ => rfl⟩
    · obtain ⟨h, extra, hbegin, -, -⟩ := beginHead_spec b0 b1
      have hlater : ∀ ys, (conn.receive ys).inbound = b0 :: b1 :: (rest ++ ys) := by
        intro ys
        simp [receive, hinbound]
      have hnow := readWsHeader_begin pool conn hlen hinbound hbegin
      have hthen := fun ys => readWsHeader_begin pool (conn.receive ys) hlen (hlater ys)
        hbegin
      by_cases hextra : extra = 0
      · right
        simp only [if_pos hextra] at hnow hthen
        refine ⟨_, _, hnow, nofun, fun ys => (hthen ys).trans ?_, fun _ => rfl, ?_⟩
        · rw [← discard_receive (by simp [withHead, hinbound])]
          rfl
        · simp only [discard_inbound_length, withHead, hinbound, List.length_cons]
          omega
      · simp only [if_neg hextra] at hnow hthen
        have hmid : (conn.withHead h extra).inbound = b0 :: b1 :: rest := hinbound
        rcases readRest_spec hmid hbegin rfl with ⟨-, hwait⟩ | hdone
        · left
          refine ⟨conn.withHead h extra, hnow.trans hwait, ?_, hok, fun ys => ?_⟩
          · exact ⟨fun hready => by simp [withHead, hok] at hready,
              fun _ _ => ⟨b0, b1, rest, h, extra, hinbound, hbegin, rfl, rfl⟩⟩
          · rw [hthen, readWsHeader_resume pool _ (h := h) (by simp [withHead, receive]) rfl]
            rfl
        · right
          obtain ⟨conn', result, hread, hresult, hsame, hhead, -, hless⟩ := hdone
          refine ⟨conn', result, hnow.trans hread, hresult, fun ys => ?_, hhead, ?_⟩
          · exact (hthen ys).trans (hsame ys)
          · exact hinbound ▸ hless
  · obtain ⟨b0, b1, rest, h, extra, hinbound, hbegin, hhead, hheadLen⟩ := hconn.begun hok hlen
    have hnow := readWsHeader_resume pool conn hlen hhead
    have hthen := fun ys => readWsHeader_resume pool (conn.receive ys) hlen hhead
    rcases readRest_spec hinbound hbegin hheadLen with ⟨-, hwait⟩ | hdone
    · left
      exact ⟨conn, hnow.trans hwait, hconn, hok, fun _ => rfl⟩
    · right
      obtain ⟨conn', result, hread, hresult, hsame, hhead', -, hless⟩ := hdone
      exact ⟨conn', result, hnow.trans hread, hresult, fun ys => (hthen ys).trans (hsame ys),
        hhead', hless⟩

theorem acceptHead_spec (srv : Server) (conn : Conn) (wsh : WsHead) :
    (0 < wsh.length ∧ conn.acceptHead srv wsh = ({ conn with wsHeadOk := true }, .wait) ∧
        ∀ ys, (conn.receive ys).acceptHead srv wsh =
          (({ conn with wsHeadOk := true } : Conn).receive ys).readPayload srv wsh) ∨
      ∃ conn' flow, conn.acceptHead srv wsh = (conn', flow) ∧ flow ≠ .wait ∧
        (∀ ys, (conn.receive ys).acceptHead srv wsh = (conn'.receive ys, flow)) ∧
        (flow = .next → conn'.wsHeadOk = false ∧ conn'.wsHeadLen = 0 ∧
          conn'.inbound.length ≤ conn.inbound.length) := by
  have hcommute : ∀ ys, { conn.receive ys with wsHeadOk := true } =
      ({ conn with wsHeadOk := true } : Conn).receive ys := fun _ => rfl
  unfold acceptHead
  simp only [hcommute, replyWsError_receive]
  by_cases hmasked : (!wsh.masked) = true
  · simp only [if_pos hmasked]
    exact .inr ⟨_, _, rfl, nofun, fun _ => rfl, nofun⟩
  · simp only [if_neg hmasked]
    by_cases htext : wsh.opCode = opText
    · simp only [if_pos htext]
      exact .inr ⟨_, _, rfl, nofun, fun _ => rfl, nofun⟩
    · simp only [if_neg htext]
      rcases readPayload_spec srv { conn with wsHeadOk := true } wsh with hwait | hdone
      · exact .inl ⟨hwait.1, hwait.2, fun _ => trivial⟩
      · obtain ⟨conn', flow, hread, hflow, hlater, hnext⟩ := hdone
        refine .inr ⟨conn', flow, hread, hflow, hlater, fun h => ?_⟩
        exact ⟨(hnext h).1, (hnext h).2.1, (hnext h).2.2.1⟩

/-- **One round**: it waits where it can be resumed, or it does something that
later bytes do not change, and is then done with at least one byte. -/
theorem frame_spec (srv : Server) (pool : WsHeadPool) (hconn : conn.Consistent) :
    (∃ conn', conn.frame srv pool = .ok (conn', .wait) ∧ conn'.Consistent ∧
        ∀ ys, (conn.receive ys).frame srv pool = (conn'.receive ys).frame srv pool) ∨
      ∃ conn' flow, conn.frame srv pool = .ok (conn', flow) ∧ flow ≠ .wait ∧
        (∀ ys, (conn.receive ys).frame srv pool = .ok (conn'.receive ys, flow)) ∧
        (flow = .next → conn'.Consistent ∧ conn'.inbound.length < conn.inbound.length) := by
  have hcommute : ∀ ys, (conn.receive ys).wsHeadOk = conn.wsHeadOk := fun _ => rfl
  cases hok : conn.wsHeadOk with
  | true =>
    obtain ⟨wsh, hhead, hpositive⟩ := hconn.ready hok
    have hnow : conn.frame srv pool = .ok (conn.readPayload srv wsh) := by
      simp [frame, hok, hhead]
    have hthen : ∀ ys, (conn.receive ys).frame srv pool =
        .ok ((conn.receive ys).readPayload srv wsh) := by
      intro ys
      simp [frame, hok, hhead, receive]
    rcases readPayload_spec srv conn wsh with hwait | hdone
    · exact .inl ⟨conn, by rw [hnow, hwait.2], hconn, fun _ => rfl⟩
    · obtain ⟨conn', flow, hread, hflow, hlater, hnext⟩ := hdone
      refine .inr ⟨conn', flow, by rw [hnow, hread], hflow, ?_, fun h => ?_⟩
      · intro ys
        rw [hthen, hlater]
      · obtain ⟨hidle, hlen, -, hless⟩ := hnext h
        exact ⟨.idle hidle hlen, hless hpositive⟩
  | false =>
    rcases readWsHeader_spec pool hconn hok with hwait | hdone
    · obtain ⟨mid, hread, hmid, hmidOk, hresume⟩ := hwait
      have hagree : ∀ ys, (conn.receive ys).frame srv pool =
          (mid.receive ys).frame srv pool := by
        intro ys
        have hmidLater : (mid.receive ys).wsHeadOk = false := hmidOk
        simp only [frame, hcommute, hok, hmidLater, hresume, Bool.not_false, if_true]
      exact .inl ⟨mid, by simp [frame, hok, hread], hmid, hagree⟩
    · obtain ⟨mid, result, hread, hresult, hlater, hsome, hless⟩ := hdone
      cases result with
      | error err =>
        refine .inr ⟨mid, .fail err, by simp [frame, hok, hread], nofun, fun ys => ?_, nofun⟩
        simp [frame, hcommute, hok, hlater]
      | ok ready =>
        cases ready with
        | false => exact absurd rfl hresult
        | true =>
          obtain ⟨wsh, hhead⟩ := Option.isSome_iff_exists.mp (hsome rfl)
          have hnow : conn.frame srv pool = .ok (mid.acceptHead srv wsh) := by
            simp [frame, hok, hread, hhead]
          have hthen : ∀ ys, (conn.receive ys).frame srv pool =
              .ok ((mid.receive ys).acceptHead srv wsh) := by
            intro ys
            have hsame : (mid.receive ys).wsHead = some wsh := hhead
            simp [frame, hcommute, hok, hlater, hsame]
          rcases acceptHead_spec srv mid wsh with hwait | hdone
          · obtain ⟨hpositive, haccept, hresume⟩ := hwait
            refine .inl ⟨{ mid with wsHeadOk := true }, by rw [hnow, haccept], ?_, ?_⟩
            · exact ⟨fun _ => ⟨wsh, hhead, hpositive⟩, nofun⟩
            · intro ys
              rw [hthen, hresume]
              simp [frame, receive, hhead]
          · obtain ⟨conn', flow, haccept, hflow, hsame, hnext⟩ := hdone
            refine .inr ⟨conn', flow, by rw [hnow, haccept], hflow, ?_, fun h => ?_⟩
            · intro ys
              rw [hthen, hsame]
            · obtain ⟨hidle, hlen, hle⟩ := hnext h
              exact ⟨.idle hidle hlen, Nat.lt_of_le_of_lt hle hless⟩

/-! ## Deliveries -/

variable {conn' : Conn}

/-- A round that does not wait is not changed by later bytes. -/
theorem frame_receive (srv : Server) (pool : WsHeadPool) {flow : Flow WsError}
    (hconn : conn.Consistent) (hframe : conn.frame srv pool = .ok (conn', flow))
    (hflow : flow ≠ .wait) :
    (∀ ys, (conn.receive ys).frame srv pool = .ok (conn'.receive ys, flow)) ∧
      (flow = .next → conn'.Consistent ∧ conn'.inbound.length < conn.inbound.length) := by
  rcases frame_spec srv pool hconn with hwait | hdone
  · obtain ⟨mid, hmid, -⟩ := hwait
    simp_all
  · obtain ⟨mid, flow', hmid, -, hlater, hnext⟩ := hdone
    rw [hframe] at hmid
    simp only [Except.ok.injEq, Prod.mk.injEq] at hmid
    rw [hmid.1, hmid.2]
    exact ⟨hlater, hnext⟩

/-- A round that waits can be resumed. -/
theorem frame_resume (srv : Server) (pool : WsHeadPool) (hconn : conn.Consistent)
    (hframe : conn.frame srv pool = .ok (conn', .wait)) :
    conn'.Consistent ∧
      ∀ ys, (conn.receive ys).frame srv pool = (conn'.receive ys).frame srv pool := by
  rcases frame_spec srv pool hconn with hwait | hdone
  · obtain ⟨mid, hmid, hmidOk, hlater⟩ := hwait
    rw [hframe] at hmid
    simp only [Except.ok.injEq, Prod.mk.injEq, and_true] at hmid
    rw [hmid]
    exact ⟨hmidOk, hlater⟩
  · obtain ⟨mid, flow', hmid, hflow, -⟩ := hdone
    simp_all

/-- **`readFrame` is an incremental reader.** -/
theorem frameReader_lawful (srv : Server) (pool : WsHeadPool) :
    (frameReader srv pool).Lawful Consistent (fun conn => conn.inbound.length) where
  push_nil conn := by simp [frameReader, receive]
  push_push conn xs ys := by simp [frameReader, receive]
  ok_push conn xs hconn := hconn.receive xs
  step_ok conn hconn := by
    rcases frame_spec srv pool hconn with ⟨conn', hframe, -⟩ | ⟨conn', flow, hframe, -⟩
    · exact ⟨conn', .wait, hframe⟩
    · exact ⟨conn', flow, hframe⟩
  next_size conn conn' hconn hframe := (frame_receive srv pool hconn hframe nofun).2 rfl
  wait_ok conn conn' hconn hframe := (frame_resume srv pool hconn hframe).1
  next_push conn conn' ys hconn hframe := (frame_receive srv pool hconn hframe nofun).1 ys
  fail_push conn conn' err ys hconn hframe := (frame_receive srv pool hconn hframe nofun).1 ys
  wait_push conn conn' ys hconn hframe := (frame_resume srv pool hconn hframe).2 ys

/-- The deliveries of a connection are those of the reader; only the head of a
failed call is given back in addition. -/
theorem serve_eq_deliver (srv : Server) (pool : WsHeadPool) (pieces : List Bytes) (conn : Conn) :
    conn.serve srv pool pieces =
      ((frameReader srv pool).deliver (fun conn => conn.inbound.length + 1) pieces conn >>=
        fun out => .ok (out.1.release out.2, out.2)) := by
  induction pieces generalizing conn with
  | nil => rfl
  | cons piece rest ih =>
    have hpush : (frameReader srv pool).push conn piece = conn.receive piece := rfl
    simp only [serve, Reader.deliver, readFrame, hpush]
    cases hloop : (frameReader srv pool).loop ((conn.receive piece).inbound.length + 1)
        (conn.receive piece) with
    | error fault => simp
    | ok out =>
      rcases out with ⟨conn', err⟩
      cases err with
      | none => exact ih conn'
      | some err => simp

/-- Two connections have done the same things and are at the same point of
their streams; they may differ in what has arrived since. -/
structure Agrees (conn conn' : Conn) : Prop where
  pushed : conn.pushed = conn'.pushed
  written : conn.written = conn'.written
  consumed : conn.consumed = conn'.consumed
  buff : conn.buff = conn'.buff
  wsHeadOk : conn.wsHeadOk = conn'.wsHeadOk
  wsHeadLen : conn.wsHeadLen = conn'.wsHeadLen
  wsHead : conn.wsHead = conn'.wsHead

/-- What is left to arrive is all that two states of one stream differ in. -/
theorem Agrees.of_receive_eq {unread unread' : Bytes}
    (heq : conn.receive unread = conn'.receive unread') : conn.Agrees conn' := by
  simp only [receive, Conn.mk.injEq] at heq
  obtain ⟨hok, hlen, hhead, hbuff, -, hconsumed, hpushed, hwritten⟩ := heq
  exact ⟨hpushed, hwritten, hconsumed, hbuff, hok, hlen, hhead⟩

theorem Agrees.release (hagrees : conn.Agrees conn') (err : Option WsError) :
    (conn.release err).Agrees (conn'.release err) := by
  cases err with
  | none => exact hagrees
  | some err => exact { hagrees with wsHead := rfl }

/-- The pool has no influence: its heads are zero. -/
theorem frameReader_pool (srv : Server) (pool pool' : WsHeadPool) :
    frameReader srv pool = frameReader srv pool' := by
  have hheader : readWsHeader pool = readWsHeader pool' := by
    funext conn
    simp only [readWsHeader, WsHeadPool.get_eq]
  have hframe : frame srv pool = frame srv pool' := by
    funext conn
    simp only [frame, hheader]
  rw [frameReader, hframe]
  rfl

/-- What is delivered to a fresh connection and what whole delivery does. -/
theorem serve_runs (srv : Server) (pool : WsHeadPool) (pieces : List Bytes) :
    ∃ (conn : Conn) (unread : Bytes) (err : Option WsError),
      ({} : Conn).serve srv pool pieces = .ok (conn.release err, err) ∧
      (frameReader srv pool).Runs (({} : Conn).receive pieces.flatten)
        (conn.receive unread, err) := by
  obtain ⟨⟨conn, err⟩, unread, hdeliver, hruns, -⟩ :=
    (frameReader_lawful srv pool).deliver_runs (fun conn => Nat.lt_succ_self conn.inbound.length)
      pieces (s := {}) (.idle rfl rfl) rfl
  refine ⟨conn, unread, err, ?_, hruns⟩
  rw [serve_eq_deliver, hdeliver]
  rfl

/-- **Frame processing does not depend on how the stream is cut**: any two ways
of delivering one byte stream, with any heads in the pool, return, with the same
error or none, and leave connections that have pushed, written and consumed the
same and hold the same fragments and the same pending header. -/
theorem serve_split_independent (srv : Server) (pool pool' : WsHeadPool)
    (pieces pieces' : List Bytes) (hstream : pieces.flatten = pieces'.flatten) :
    ∃ conn conn' err, ({} : Conn).serve srv pool pieces = .ok (conn, err) ∧
      ({} : Conn).serve srv pool' pieces' = .ok (conn', err) ∧ conn.Agrees conn' := by
  obtain ⟨conn, unread, err, hserve, hruns⟩ := serve_runs srv pool pieces
  obtain ⟨conn', unread', err', hserve', hruns'⟩ := serve_runs srv pool' pieces'
  rw [hstream, frameReader_pool srv pool pool'] at hruns
  have hsame := hruns.unique hruns'
  simp only [Prod.mk.injEq] at hsame
  obtain ⟨hstate, rfl⟩ := hsame
  exact ⟨_, _, err, hserve, hserve', (Agrees.of_receive_eq hstate).release err⟩

/-- A masked empty ping, cut behind its first byte and inside its key, and
delivered whole. -/
theorem serve_split_independent_ping :
    let srv : Server := { maxPayloadSize := 16, writeFails := fun _ => false }
    let used : WsHead := { fin := true, rsv := 5, opCode := 1, masked := true, length := 9 }
    ∃ conn conn' err,
      ({} : Conn).serve srv (fun _ => none) [[0x89], [0x80, 1, 2], [3, 4]] = .ok (conn, err) ∧
      ({} : Conn).serve srv (fun _ => some used) [[0x89, 0x80, 1, 2, 3, 4]] = .ok (conn', err) ∧
      conn.Agrees conn' :=
  serve_split_independent _ _ _ _ _ rfl

end Conn

end Gokit.Wsg
