/-
# Headers on the wire

`MakeWsHeadBuff` and the header half of the reader are inverse to one another:
a header that was encoded is begun by its first two bytes and finished by the
bytes behind them, whichever of the three length forms it uses.  Masking is its
own inverse.
-/

import Gokit.Wsg.Stream
import Gokit.Math.MachineInt
import Mathlib.Data.Fintype.Basic

namespace Gokit.Wsg

open Gokit.Math

/-! ## Masking -/

@[simp]
theorem length_maskWsPayload (mask : Vector UInt8 4) (payload : Bytes) :
    (maskWsPayload mask payload).length = payload.length := by
  simp [maskWsPayload]

/-- **Masking twice with one key restores the payload.** -/
theorem maskWsPayload_maskWsPayload (mask : Vector UInt8 4) (payload : Bytes) :
    maskWsPayload mask (maskWsPayload mask payload) = payload := by
  have hself : ∀ (b k : UInt8), b ^^^ k ^^^ k = b := by
    intro b k
    rw [UInt8.xor_assoc, UInt8.xor_self, UInt8.xor_zero]
  apply List.ext_getElem
  · simp
  · intro i hi hi'
    simp [maskWsPayload, hself]

/-! ## The header codec -/

/-- A header that can be put on the wire. -/
structure WsHead.Encodable (h : WsHead) : Prop where
  rsv : h.rsv < 8
  opCode : h.opCode < 16
  length : 0 ≤ h.length
  mask : h.masked = false → h.mask = Vector.replicate 4 0

variable {h : WsHead}

namespace WsHead

/-- The first byte keeps the flag, the reserved bits and the opcode apart. -/
theorem firstByte_bits : ∀ (fin : Bool) (rsv : Fin 8) (op : Fin 16),
    let h : WsHead := { fin := fin, rsv := UInt8.ofNat rsv, opCode := UInt8.ofNat op }
    (h.firstByte &&& 0x80 != 0) = fin ∧ (h.firstByte &&& 0x70) >>> 4 = UInt8.ofNat rsv ∧
      h.firstByte &&& 0x0f = UInt8.ofNat op := by
  decide +kernel

/-- The second byte keeps the mask bit and the seven length bits apart. -/
theorem secondByte_bits : ∀ (masked : Bool) (size : Fin 128),
    let h : WsHead := { masked := masked }
    (h.secondByte (UInt8.ofNat size) &&& 0x80 != 0) = masked ∧
      h.secondByte (UInt8.ofNat size) &&& 0x7f = UInt8.ofNat size := by
  decide +kernel

theorem Encodable.firstByte_split (hh : h.Encodable) :
    (h.firstByte &&& 0x80 != 0) = h.fin ∧ (h.firstByte &&& 0x70) >>> 4 = h.rsv ∧
      h.firstByte &&& 0x0f = h.opCode := by
  have hbits := firstByte_bits h.fin ⟨h.rsv.toNat, UInt8.lt_iff_toNat_lt.mp hh.rsv⟩
    ⟨h.opCode.toNat, UInt8.lt_iff_toNat_lt.mp hh.opCode⟩
  simp only [UInt8.ofNat_toNat] at hbits
  exact hbits

theorem secondByte_split (h : WsHead) {size : UInt8} (hsize : size < 128) :
    (h.secondByte size &&& 0x80 != 0) = h.masked ∧ h.secondByte size &&& 0x7f = size := by
  have hbits := secondByte_bits h.masked ⟨size.toNat, UInt8.lt_iff_toNat_lt.mp hsize⟩
  simp only [UInt8.ofNat_toNat] at hbits
  exact hbits

/-- What the first byte and the mask bit tell of a header. -/
def bare (h : WsHead) : WsHead :=
  { fin := h.fin, rsv := h.rsv, opCode := h.opCode, masked := h.masked }

/-- A header of which only the key is missing is completed by the key. -/
theorem Encodable.copyMask_key (hh : h.Encodable) :
    (if h.masked then { h.bare with length := h.length }.copyMask h.key
      else { h.bare with length := h.length }) = h := by
  rcases h with ⟨fin, rsv, opCode, masked, length, mask⟩
  cases masked with
  | true => simp [bare, key, copyMask]
  | false => simpa [bare] using (hh.mask rfl).symm

end WsHead

namespace Conn

theorem beginHead_firstByte (hh : h.Encodable) {size : UInt8} (hsize : size < 128) :
    beginHead {} h.firstByte (h.secondByte size) =
      if size < 126 then .ok ({ h.bare with length := Int64.ofNat size.toNat }, h.key.length)
      else if size = 126 then .ok (h.bare, h.key.length + 2)
      else if size = 127 then .ok (h.bare, h.key.length + 8)
      else .error .errHeaderLengthUnexpected := by
  obtain ⟨hfin, hrsv, hop⟩ := hh.firstByte_split
  obtain ⟨hmask, hlen⟩ := h.secondByte_split hsize
  unfold beginHead
  simp only [hfin, hrsv, hop, hmask, hlen]
  cases hmasked : h.masked with
  | true => simp [WsHead.bare, WsHead.key, hmasked]
  | false => simp [WsHead.bare, WsHead.key, hmasked]

end Conn

/-- A length as the number that is written, and read back. -/
theorem ofNat_toNat_toUInt64 (n : Int64) : Int64.ofNat n.toUInt64.toNat = n := by
  apply Int64.toBitVec_inj.mp
  simp

theorem toNat_toUInt64 {n : Int64} (hn : 0 ≤ n) : (n.toUInt64.toNat : Int) = n.toInt := by
  have hnonneg : 0 ≤ n.toInt := Int64.le_iff_toInt_le.mp hn
  have hhigh := n.toInt_lt
  show (n.toBitVec.toNat : Int) = n.toInt
  rw [toNat_toBitVec, Int.emod_eq_of_lt hnonneg (by omega)]

theorem finishHead_two (hh : h.Encodable) {n : Nat} (hn : n < 65536)
    (hback : Int64.ofNat n = h.length) :
    Conn.finishHead h.bare 126 (putBigEndian 2 n ++ h.key) = .ok (.ok h) := by
  have hroom : 2 ≤ (putBigEndian 2 n ++ h.key).length := by simp
  have htake : (putBigEndian 2 n ++ h.key).take 2 = putBigEndian 2 n := List.take_left' (by simp)
  have hdrop : (putBigEndian 2 n ++ h.key).drop 2 = h.key := List.drop_left' (by simp)
  unfold Conn.finishHead
  rw [if_pos rfl, sliceTo_of_le hroom, htake, hdrop]
  simp only [Exec.ok_bind, bigEndian_putBigEndian (k := 2) hn, hback]
  exact congrArg (fun h => Except.ok (Except.ok h)) hh.copyMask_key

theorem finishHead_eight (hh : h.Encodable) {n : Nat} (hn : n < 2 ^ 63)
    (hback : Int64.ofNat n = h.length) :
    Conn.finishHead h.bare 127 (putBigEndian 8 n ++ h.key) = .ok (.ok h) := by
  have hroom : 8 ≤ (putBigEndian 8 n ++ h.key).length := by simp
  have htake : (putBigEndian 8 n ++ h.key).take 8 = putBigEndian 8 n := List.take_left' (by simp)
  have hdrop : (putBigEndian 8 n ++ h.key).drop 8 = h.key := List.drop_left' (by simp)
  have htop : byteAt (putBigEndian 8 n ++ h.key) 0 = .ok (UInt8.ofNat (n / 256 ^ 7)) := rfl
  have hbit : UInt8.ofNat (n / 256 ^ 7) &&& 0x80 = 0 := by
    have hsmall : n / 256 ^ 7 < 128 := by
      apply Nat.div_lt_of_lt_mul
      omega
    have hbits : ∀ top : Fin 128, UInt8.ofNat top &&& 0x80 = 0 := by decide
    exact hbits ⟨n / 256 ^ 7, hsmall⟩
  unfold Conn.finishHead
  rw [if_neg (by decide), if_pos rfl, htop]
  simp only [Exec.ok_bind, hbit, bne_self_eq_false, Bool.false_eq_true, if_false,
    sliceTo_of_le hroom, htake, hdrop, bigEndian_putBigEndian (k := 8) (n := n) (by omega), hback]
  exact congrArg (fun h => Except.ok (Except.ok h)) hh.copyMask_key

/-- **An encoded header is read back**: its first two bytes begin it, the bytes
behind them finish it. -/
theorem makeWsHeadBuff_spec (hh : h.Encodable) :
    ∃ b0 b1 tail begun, makeWsHeadBuff h = .ok (b0 :: b1 :: tail) ∧
      Conn.beginHead {} b0 b1 = .ok (begun, tail.length) ∧
      Conn.finishHead begun (b1 &&& 0x7f) tail = .ok (.ok h) := by
  have hmax : h.length ≤ 9223372036854775807 := Int64.le_maxValue _
  have hback := ofNat_toNat_toUInt64 h.length
  have hvalue := toNat_toUInt64 hh.length
  have hkey := hh.copyMask_key
  unfold makeWsHeadBuff
  generalize h.length.toUInt64.toNat = n at hback hvalue ⊢
  by_cases hone : h.length ≤ 125
  · have hn : n < 126 := by
      have hle : h.length.toInt ≤ 125 := Int64.le_iff_toInt_le.mp hone
      omega
    have hsize : (UInt8.ofNat n).toNat = n := UInt8.toNat_ofNat_of_lt (Nat.lt_trans hn (by decide))
    have hlt : UInt8.ofNat n < 126 := by
      rw [UInt8.lt_iff_toNat_lt, hsize]
      exact hn
    have hlt' : UInt8.ofNat n < 128 := by
      rw [UInt8.lt_iff_toNat_lt, hsize]
      exact Nat.lt_trans hn (by decide)
    have hne : UInt8.ofNat n ≠ 126 ∧ UInt8.ofNat n ≠ 127 := by
      constructor <;> intro heq <;> rw [heq] at hlt <;> exact absurd hlt (by decide)
    refine ⟨_, _, h.key, { h.bare with length := h.length }, if_pos hone, ?_, ?_⟩
    · rw [Conn.beginHead_firstByte hh hlt', if_pos hlt, hsize, hback]
    · rw [(h.secondByte_split hlt').2]
      unfold Conn.finishHead
      rw [if_neg hne.1, if_neg hne.2]
      exact congrArg (fun h => Except.ok (Except.ok h)) hkey
  · by_cases htwo : h.length ≤ 65535
    · have hn : n < 65536 := by
        have hle : h.length.toInt ≤ 65535 := Int64.le_iff_toInt_le.mp htwo
        omega
      refine ⟨_, _, _, h.bare, by rw [if_neg hone, if_pos htwo], ?_, ?_⟩
      · rw [Conn.beginHead_firstByte hh (by decide)]
        simp [Nat.add_comm]
      · rw [(h.secondByte_split (by decide)).2]
        exact finishHead_two hh hn hback
    · have hn : n < 2 ^ 63 := by
        have hhigh := h.length.toInt_lt
        omega
      refine ⟨_, _, _, h.bare, by rw [if_neg hone, if_neg htwo, if_pos hmax], ?_, ?_⟩
      · rw [Conn.beginHead_firstByte hh (by decide)]
        simp [Nat.add_comm]
      · rw [(h.secondByte_split (by decide)).2]
        exact finishHead_eight hh hn hback

theorem headBuff_cons (h : WsHead) : ∃ tail, headBuff h = h.firstByte :: tail := by
  have hmax : h.length ≤ 9223372036854775807 := Int64.le_maxValue _
  have hmake : ∃ tail, makeWsHeadBuff h = .ok (h.firstByte :: tail) := by
    unfold makeWsHeadBuff
    by_cases hone : h.length ≤ 125
    · exact ⟨_, if_pos hone⟩
    · by_cases htwo : h.length ≤ 65535
      · exact ⟨_, by rw [if_neg hone, if_pos htwo]⟩
      · exact ⟨_, by rw [if_neg hone, if_neg htwo, if_pos hmax]⟩
  obtain ⟨tail, htail⟩ := hmake
  exact ⟨tail, by rw [headBuff, htail]⟩

/-- A header of which nothing is missing after two bytes. -/
theorem finishHead_nil {begun : WsHead} {payloadLen : UInt8}
    (hfinish : Conn.finishHead begun payloadLen [] = .ok (.ok h)) : begun = h := by
  unfold Conn.finishHead at hfinish
  by_cases h126 : payloadLen = 126
  · rw [if_pos h126] at hfinish
    cases hfinish
  · by_cases h127 : payloadLen = 127
    · rw [if_neg h126, if_pos h127] at hfinish
      cases hfinish
    · rw [if_neg h126, if_neg h127] at hfinish
      have hcopy : begun.copyMask [] = begun := by
        simp [WsHead.copyMask]
      simpa [hcopy] using hfinish

/-- **`ReadWsHeader` on an encoded header** consumes exactly the header and
returns it. -/
theorem Conn.readWsHeader_headBuff (pool : WsHeadPool) {conn : Conn} {rest : Bytes}
    (hh : h.Encodable) (hlen : conn.wsHeadLen = 0) (hinbound : conn.inbound = headBuff h ++ rest) :
    conn.readWsHeader pool =
      .ok ({ conn with
              wsHead := some h
              wsHeadLen := (headBuff h).length
              inbound := rest
              consumed := conn.consumed ++ headBuff h }, .ok true) := by
  obtain ⟨b0, b1, tail, begun, hbuff, hbegin, hfinish⟩ := makeWsHeadBuff_spec hh
  have hhead : headBuff h = b0 :: b1 :: tail := by
    rw [headBuff, hbuff]
  have hwhole : 2 + tail.length = (headBuff h).length := by
    rw [hhead, List.length_cons, List.length_cons]
    omega
  have hfront : conn.inbound = b0 :: b1 :: (tail ++ rest) := by
    rw [hinbound, hhead]
    rfl
  have hdiscard : (conn.withHead begun tail.length).discard (headBuff h).length =
      { conn with
        wsHead := some begun
        wsHeadLen := (headBuff h).length
        inbound := rest
        consumed := conn.consumed ++ headBuff h } := by
    simp [withHead, discard, hinbound, hwhole]
  rw [readWsHeader_begin pool conn hlen hfront hbegin]
  by_cases hnone : tail.length = 0
  · have hnil : tail = [] := List.eq_nil_of_length_eq_zero hnone
    rw [hnil] at hfinish
    have htwo : 2 = (headBuff h).length := by omega
    rw [if_pos hnone, htwo, hdiscard, finishHead_nil hfinish]
  · rw [if_neg hnone]
    have henough : (headBuff h).length ≤ (conn.withHead begun tail.length).inbound.length := by
      simp [withHead, hinbound]
    have hbytes : (conn.withHead begun tail.length).inbound.take (headBuff h).length =
        b0 :: b1 :: tail := by
      simp [withHead, hinbound, ← hhead]
    have hneeded : (conn.withHead begun tail.length).wsHeadLen = (headBuff h).length := hwhole
    unfold readRest
    rw [hneeded, next_of_le henough, hbytes, hdiscard]
    simp only [byteAt_cons_one, Exec.ok_bind, List.drop_succ_cons, List.drop_zero, hfinish]

end Gokit.Wsg
