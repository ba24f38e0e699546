/-
# Replies to protocol errors

`ReplyWsError` writes a close frame: a header that declares two bytes and the text of the
reason, and the payload that `MakeWsClosePayload` makes.  The two do not fit together.
The payload is allocated with room for the text and the text is then appended behind
that room, so that it is longer than declared by the length of the text; and for a text
of more than 123 bytes there is no payload, while the header still declares one.  What is
written is a close frame when there is no text, and only then.
-/

import Gokit.Wsg.Header

namespace Gokit.Wsg

open Gokit.Math

/-- The head that `ReplyWsError` encodes. -/
def closeHead (reasonDesc : Bytes) : WsHead :=
  { fin := true, opCode := opClose, length := Int64.ofNat (2 + reasonDesc.length) }

/-- `ReplyWsError` on a writer to which `written` has been written before: what has been
written afterwards. A reason that is nil has no text. -/
def replyWsError (writeFails : List Bytes → Bool) (written : List Bytes) (statusCode : UInt16)
    (reason : Option Bytes) : List Bytes :=
  let reasonDesc := reason.getD []
  let hbuff := headBuff (closeHead reasonDesc)
  if writeFails written then written ++ [hbuff]
  else written ++ [hbuff, (makeWsClosePayload statusCode reasonDesc).getD []]

/-- A connection replies with it. -/
theorem Conn.written_replyWsError (srv : Server) (conn : Conn) (statusCode : UInt16)
    (reason : WsError) :
    (conn.replyWsError srv statusCode reason).written =
      Wsg.replyWsError srv.writeFails conn.written statusCode
        (some reason.text.toUTF8.toList) := by
  unfold Conn.replyWsError Wsg.replyWsError
  dsimp only [Conn.write, closeHead, Option.getD_some]
  split
  · rfl
  · rw [List.append_assoc]
    rfl

/-- One unmasked close frame and nothing behind it, with the status code and the reason
for its payload, which is no larger than that of a control frame may be. -/
def IsCloseFrame (statusCode : UInt16) (reasonDesc bts : Bytes) : Prop :=
  ∃ h, readWsFrame bts = .ok (.ok (h, putBigEndian 2 statusCode.toNat ++ reasonDesc), []) ∧
    h.fin = true ∧ h.opCode = opClose ∧ h.masked = false ∧
    (putBigEndian 2 statusCode.toNat ++ reasonDesc).length ≤ 125

theorem toInt_length_closeHead {reasonDesc : Bytes} (hshort : reasonDesc.length ≤ 123) :
    (closeHead reasonDesc).length.toInt = (2 + reasonDesc.length : Nat) :=
  Int64.toInt_ofNat_of_lt (by omega)

theorem encodable_closeHead {reasonDesc : Bytes} (hshort : reasonDesc.length ≤ 123) :
    (closeHead reasonDesc).Encodable where
  rsv := show (0 : UInt8) < 8 by decide
  opCode := show opClose < 16 by decide
  length := by
    rw [Int64.le_iff_toInt_le, toInt_length_closeHead hshort]
    exact Int.natCast_nonneg _
  mask := fun _ => rfl

/-- **What is read of a reply with a short reason**: the status code and zeros for the
payload, and the reason itself behind the frame. -/
theorem readWsFrame_replyWsError (statusCode : UInt16) (reason : Option Bytes)
    (hshort : (reason.getD []).length ≤ 123) :
    readWsFrame (replyWsError (fun _ => false) [] statusCode reason).flatten =
      .ok (.ok (closeHead (reason.getD []),
        putBigEndian 2 statusCode.toNat ++ List.replicate (reason.getD []).length 0),
        reason.getD []) := by
  generalize hdesc : reason.getD [] = reasonDesc at hshort ⊢
  obtain ⟨b0, b1, tail, begun, hbuff, hbegin, hfinish⟩ :=
    makeWsHeadBuff_spec (encodable_closeHead hshort)
  have hwritten : (replyWsError (fun _ => false) [] statusCode reason).flatten =
      headBuff (closeHead reasonDesc) ++
        (putBigEndian 2 statusCode.toNat ++ List.replicate reasonDesc.length 0 ++
          reasonDesc) := by
    simp [replyWsError, hdesc, makeWsClosePayload, Nat.not_lt.mpr hshort]
  have hhead : headBuff (closeHead reasonDesc) = b0 :: b1 :: tail := by
    rw [headBuff, hbuff]
  have hlength : (closeHead reasonDesc).length.toInt =
      (putBigEndian 2 statusCode.toNat ++ List.replicate reasonDesc.length 0).length := by
    rw [toInt_length_closeHead hshort, List.length_append, length_putBigEndian,
      List.length_replicate]
  have hread := readWsFrame_of_header
    (HeadAt.intro (_ ++ reasonDesc) hbegin hfinish).readWsHeader_eq hlength
  rw [show (closeHead reasonDesc).mask = Vector.replicate 4 0 from rfl,
    maskWsPayload_zero] at hread
  rw [hwritten, hhead]
  exact hread

/-- A long reason leaves a header with nothing behind it. -/
theorem length_replyWsError_le (statusCode : UInt16) {reason : Option Bytes}
    (hlong : 123 < (reason.getD []).length) :
    (replyWsError (fun _ => false) [] statusCode reason).flatten.length ≤ 14 := by
  have hbound : ∀ h : WsHead, (headBuff h).length ≤ 14 := by
    intro h
    unfold headBuff
    cases hbuff : makeWsHeadBuff h with
    | error err => exact Nat.zero_le _
    | ok buff => exact (length_of_makeWsHeadBuff hbuff).trans_le h.size_le
  simpa [replyWsError, makeWsClosePayload, hlong] using hbound _

theorem not_isCloseFrame_replyWsError (statusCode : UInt16) (reason : Option Bytes)
    (htext : reason.getD [] ≠ []) :
    ¬ IsCloseFrame statusCode (reason.getD [])
      (replyWsError (fun _ => false) [] statusCode reason).flatten := by
  rintro ⟨h, hread, -⟩
  rcases Nat.lt_or_ge 123 (reason.getD []).length with hlong | hshort
  · have hsize := size_le_of_readWsFrame hread
    have htotal := length_replyWsError_le statusCode hlong
    rw [List.length_append] at hsize
    omega
  · have heq := hread.symm.trans (readWsFrame_replyWsError statusCode reason hshort)
    exact htext (congrArg Prod.snd (Except.ok.inj heq)).symm

/-- No reply of the gateway to a protocol error is a close frame: all of them have a
text. -/
theorem Conn.not_isCloseFrame_replyWsError (srv : Server) (conn : Conn) (statusCode : UInt16)
    {reason : WsError} (hreason : reason ≠ .writeFailed)
    (hwrites : srv.writeFails conn.written = false) :
    ∃ bts, (conn.replyWsError srv statusCode reason).written.flatten =
        conn.written.flatten ++ bts ∧
      ¬ IsCloseFrame statusCode reason.text.toUTF8.toList bts := by
  have htext : reason.text.toUTF8.toList ≠ [] := by
    cases reason with
    | writeFailed => exact absurd rfl hreason
    | errInvalidControlFrame => decide +kernel
    | errHeaderLengthUnexpected => decide +kernel
    | errHeaderLengthMSB => decide +kernel
    | errNotSupportTextData => decide +kernel
    | errPayloadTooLarge => decide +kernel
    | errClientClosed => decide +kernel
    | mustMasked => decide +kernel
  have hwritten := conn.written_replyWsError srv statusCode reason
  generalize reason.text.toUTF8.toList = reasonDesc at htext hwritten ⊢
  refine ⟨_, ?_, Wsg.not_isCloseFrame_replyWsError statusCode (some reasonDesc) htext⟩
  rw [hwritten]
  simp [Wsg.replyWsError, hwrites]

/-- **A reply is a close frame if and only if the reason has no text.** -/
theorem isCloseFrame_replyWsError_iff (statusCode : UInt16) (reason : Option Bytes) :
    IsCloseFrame statusCode (reason.getD [])
        (replyWsError (fun _ => false) [] statusCode reason).flatten ↔
      reason.getD [] = [] := by
  constructor
  · intro hframe
    by_contra htext
    exact not_isCloseFrame_replyWsError statusCode reason htext hframe
  · intro hnone
    have hread := readWsFrame_replyWsError statusCode reason (by simp [hnone])
    rw [hnone] at hread ⊢
    exact ⟨_, hread, rfl, rfl, rfl, by simp⟩

/-- `ReplyWsError(w, 1002, errors.New("x"))`. -/
theorem replyWsError_one_byte :
    ¬ IsCloseFrame 1002 [0x78]
      (replyWsError (fun _ => false) [] 1002 (some [0x78])).flatten :=
  not_isCloseFrame_replyWsError 1002 (some [0x78]) (List.cons_ne_nil _ _)

end Gokit.Wsg
