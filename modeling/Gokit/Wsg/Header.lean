/-
# The header codec

The package has two decoders of a frame header.  `ReadWsHeader` reads from a blocking
reader, two bytes first and then as many as those announce; clients and tests use it.
`Conn.ReadWsHeader` is called again and again on a buffer that grows, consumes nothing
until the whole header is there, and remembers in between how long it will be.  They
agree on every byte string, however it is delivered.

The encoder writes into a buffer that comes out of a pool with whatever it was used for
before.  Nothing of that is left in the part that is returned, which is the shortest
header there is for the given fields, and which `ReadWsHeader` reads back.
-/

import Gokit.Wsg.Codec

namespace Gokit.Wsg

open Gokit.Math

/-! ## The blocking decoder -/

/-- Why there is no header: the reader ended, before the first byte or behind it, or the
header is refused. -/
inductive ReadError
  | eof
  | unexpectedEOF
  | refused (err : WsError)
  deriving DecidableEq, Repr

/-- `io.ReadFull` of `n` bytes from a reader that holds `r`, and what is left in it. -/
def readFull (r : Bytes) (n : Nat) : Except ReadError Bytes × Bytes :=
  if n ≤ r.length then (.ok (r.take n), r.drop n)
  else (.error (if r.length = 0 then .eof else .unexpectedEOF), [])

/-- The part of `ReadWsHeader` behind the second `io.ReadFull`. -/
def parseExtra (h : WsHead) (length : UInt8) (bts : Bytes) : Exec (Except ReadError WsHead) := do
  let sized : Except ReadError (WsHead × Bytes) ←
    if length = 126 then do
      let size ← sliceTo bts 2
      .ok (.ok ({ h with length := Int64.ofNat (bigEndian size) }, bts.drop 2))
    else if length = 127 then do
      let top ← byteAt bts 0
      if top &&& 0x80 != 0 then .ok (.error (.refused .errHeaderLengthMSB))
      else do
        let size ← sliceTo bts 8
        .ok (.ok ({ h with length := Int64.ofNat (bigEndian size) }, bts.drop 8))
    else .ok (.ok (h, bts))
  .ok (sized.map fun (h, bts) => if h.masked then h.copyMask bts else h)

/-- `ReadWsHeader` from the second `io.ReadFull` on. -/
def readExtra (h : WsHead) (length : UInt8) (extra : Nat) (r : Bytes) :
    Exec (Except ReadError WsHead × Bytes) :=
  match readFull r extra with
  | (.error err, r) => .ok (.error err, r)
  | (.ok bts, r) => do .ok (← parseExtra h length bts, r)

/-- `ReadWsHeader` on a reader that holds `r`: the header or the error, and what is left
in the reader. -/
def readWsHeader (r : Bytes) : Exec (Except ReadError WsHead × Bytes) :=
  match readFull r 2 with
  | (.error err, r) => .ok (.error err, r)
  | (.ok bts, r) => do
    let b0 ← byteAt bts 0
    let b1 ← byteAt bts 1
    let masked := b1 &&& 0x80 != 0
    let length := b1 &&& 0x7f
    let h : WsHead :=
      { fin := b0 &&& 0x80 != 0, rsv := (b0 &&& 0x70) >>> 4, opCode := b0 &&& 0x0f,
        masked := masked, length := if length < 126 then Int64.ofNat length.toNat else 0 }
    let extra := (if masked then 4 else 0) +
      (if length < 126 then 0 else if length = 126 then 2 else 8)
    if 127 < length then .ok (.error (.refused .errHeaderLengthUnexpected), r)
    else if extra = 0 then .ok (.ok h, r)
    else readExtra h length extra r

variable {r : Bytes} {n : Nat}

theorem readFull_of_le (henough : n ≤ r.length) :
    readFull r n = (.ok (r.take n), r.drop n) := if_pos henough

theorem readFull_of_lt (hshort : r.length < n) :
    readFull r n = (.error (if r.length = 0 then .eof else .unexpectedEOF), []) :=
  if_neg (Nat.not_le.mpr hshort)

/-- The two decoders make the same of the bytes behind the first two. -/
theorem parseExtra_eq_finishHead (h : WsHead) (length : UInt8) (bts : Bytes) :
    parseExtra h length bts =
      (Conn.finishHead h length bts).map (Except.mapError ReadError.refused) := by
  unfold parseExtra Conn.finishHead
  by_cases h126 : length = 126
  · simp only [h126, if_true]
    cases sliceTo bts 2 with
    | error fault => rfl
    | ok size => rfl
  · by_cases h127 : length = 127
    · simp only [h127, if_true, if_false, show ¬ (127 : UInt8) = 126 by decide]
      cases byteAt bts 0 with
      | error fault => rfl
      | ok top =>
        by_cases hmsb : top &&& 0x80 != 0
        · simp only [Exec.ok_bind, hmsb, if_true]
          rfl
        · simp only [Exec.ok_bind, hmsb]
          cases sliceTo bts 8 with
          | error fault => rfl
          | ok size => rfl
    · simp only [h126, h127, if_false]
      rfl

variable {extra : Nat}

theorem readExtra_of_le (h : WsHead) (length : UInt8) (henough : extra ≤ r.length) :
    readExtra h length extra r =
      (Conn.finishHead h length (r.take extra)).map
        fun read => (read.mapError ReadError.refused, r.drop extra) := by
  unfold readExtra
  rw [readFull_of_le henough]
  simp only [parseExtra_eq_finishHead]
  cases Conn.finishHead h length (r.take extra) with
  | error fault => rfl
  | ok read => rfl

theorem readExtra_of_lt (h : WsHead) (length : UInt8) (hshort : r.length < extra) :
    readExtra h length extra r =
      .ok (.error (if r.length = 0 then .eof else .unexpectedEOF), []) := by
  unfold readExtra
  rw [readFull_of_lt hshort]

variable {h : WsHead} {b0 b1 : UInt8}

/-- **What the two decoders have in common**: they begin with the same head, and want
the same number of bytes behind the first two. -/
theorem readWsHeader_cons_cons (rest : Bytes) (hbegin : Conn.beginHead {} b0 b1 = .ok (h, extra)) :
    readWsHeader (b0 :: b1 :: rest) =
      if extra = 0 then .ok (.ok h, rest) else readExtra h (b1 &&& 0x7f) extra rest := by
  have hfront : readFull (b0 :: b1 :: rest) 2 = (.ok [b0, b1], rest) := readFull_of_le (by simp)
  unfold Conn.beginHead at hbegin
  unfold readWsHeader
  rw [hfront]
  simp only [byteAt_cons_zero, byteAt_cons_one, Exec.ok_bind]
  generalize b1 &&& 0x7f = length at hbegin ⊢
  generalize (b1 &&& 0x80 != 0) = masked at hbegin ⊢
  by_cases hsmall : length < 126
  · have hno : ¬ 127 < length := by
      intro hlarge
      exact absurd (UInt8.lt_trans hlarge hsmall) (by decide)
    cases masked with
    | true =>
      simp only [hsmall, if_true, Except.ok.injEq, Prod.mk.injEq] at hbegin
      obtain ⟨rfl, rfl⟩ := hbegin
      simp [hsmall, hno]
    | false =>
      simp only [hsmall, if_true, Bool.false_eq_true, if_false, Except.ok.injEq,
        Prod.mk.injEq] at hbegin
      obtain ⟨rfl, rfl⟩ := hbegin
      simp [hsmall, hno]
  · by_cases hlong : length = 126 ∨ length = 127
    · rcases hlong with rfl | rfl
      all_goals
        cases masked with
        | true => cases hbegin; rfl
        | false => cases hbegin; rfl
    · rw [not_or] at hlong
      simp [hsmall, hlong.1, hlong.2] at hbegin

/-! ## The shape of a header -/

namespace Conn

variable {h : WsHead}

/-- The three forms a header can be begun in. -/
theorem beginHead_form (hbegin : beginHead {} b0 b1 = .ok (h, extra)) :
    (b1 &&& 0x7f ≠ 126 ∧ b1 &&& 0x7f ≠ 127 ∧ h.length ≤ 125 ∧
        extra = if h.masked then 4 else 0) ∨
      (b1 &&& 0x7f = 126 ∧ extra = 2 + if h.masked then 4 else 0) ∨
      (b1 &&& 0x7f = 127 ∧ extra = 8 + if h.masked then 4 else 0) := by
  unfold beginHead at hbegin
  generalize b1 &&& 0x7f = length at hbegin ⊢
  generalize (b1 &&& 0x80 != 0) = masked at hbegin
  by_cases hsmall : length < 126
  · have hne : length ≠ 126 ∧ length ≠ 127 := by
      constructor <;> rintro rfl <;> exact absurd hsmall (by decide)
    have hbound : Int64.ofNat length.toNat ≤ 125 := by
      have hlt : length.toNat < 126 := UInt8.lt_iff_toNat_lt.mp hsmall
      rw [Int64.le_iff_toInt_le, Int64.toInt_ofNat_of_lt (by omega)]
      show (length.toNat : Int) ≤ 125
      omega
    left
    cases masked with
    | true =>
      simp only [hsmall, if_true] at hbegin
      cases hbegin
      exact ⟨hne.1, hne.2, hbound, rfl⟩
    | false =>
      simp only [hsmall, if_true, Bool.false_eq_true, if_false] at hbegin
      cases hbegin
      exact ⟨hne.1, hne.2, hbound, rfl⟩
  · right
    by_cases hlong : length = 126 ∨ length = 127
    · rcases hlong with rfl | rfl
      · left
        cases masked with
        | true => cases hbegin; exact ⟨rfl, rfl⟩
        | false => cases hbegin; exact ⟨rfl, rfl⟩
      · right
        cases masked with
        | true => cases hbegin; exact ⟨rfl, rfl⟩
        | false => cases hbegin; exact ⟨rfl, rfl⟩
    · rw [not_or] at hlong
      simp [hsmall, hlong.1, hlong.2] at hbegin

theorem finishHead_fields {h' : WsHead} {payloadLen : UInt8} {bts : Bytes}
    (hfinish : finishHead h payloadLen bts = .ok (.ok h')) :
    h'.masked = h.masked ∧ (payloadLen = 126 → h'.length ≤ 65535) ∧
      (payloadLen ≠ 126 → payloadLen ≠ 127 → h'.length = h.length) := by
  have hkeyed : ∀ (h : WsHead) (bts : Bytes),
      (if h.masked then h.copyMask bts else h).masked = h.masked ∧
        (if h.masked then h.copyMask bts else h).length = h.length := by
    intro h bts
    split <;> exact ⟨rfl, rfl⟩
  unfold finishHead at hfinish
  by_cases h126 : payloadLen = 126
  · rw [if_pos h126] at hfinish
    obtain ⟨size, hsize, heq⟩ := Exec.bind_eq_ok_iff.mp hfinish
    cases heq
    obtain ⟨hmasked, hlength⟩ :=
      hkeyed { h with length := Int64.ofNat (bigEndian size) } (bts.drop 2)
    refine ⟨hmasked, fun _ => ?_, fun hne => absurd h126 hne⟩
    rw [hlength]
    have htwo : size.length ≤ 2 := by
      unfold sliceTo at hsize
      split at hsize
      · cases hsize
        exact List.length_take_le _ _
      · cases hsize
    have hlt : bigEndian size < 256 ^ 2 :=
      Nat.lt_of_lt_of_le (bigEndian_lt size) (Nat.pow_le_pow_right (by decide) htwo)
    rw [Int64.le_iff_toInt_le, Int64.toInt_ofNat_of_lt (by omega)]
    show (bigEndian size : Int) ≤ 65535
    omega
  · rw [if_neg h126] at hfinish
    by_cases h127 : payloadLen = 127
    · rw [if_pos h127] at hfinish
      obtain ⟨top, -, hrest⟩ := Exec.bind_eq_ok_iff.mp hfinish
      split at hrest
      · cases hrest
      · obtain ⟨size, -, heq⟩ := Exec.bind_eq_ok_iff.mp hrest
        cases heq
        exact ⟨(hkeyed _ _).1, fun h => absurd h h126, fun _ hne => absurd h127 hne⟩
    · rw [if_neg h127] at hfinish
      cases hfinish
      exact ⟨(hkeyed _ _).1, fun h => absurd h h126, fun _ _ => (hkeyed _ _).2⟩

/-- Nothing is left to finish in a header of two bytes. -/
theorem finishHead_of_two (hbegin : beginHead {} b0 b1 = .ok (h, 0)) :
    finishHead h (b1 &&& 0x7f) [] = .ok (.ok h) := by
  rcases beginHead_form hbegin with ⟨h126, h127, -, hextra⟩ | ⟨-, hextra⟩ | ⟨-, hextra⟩
  · have hmasked : h.masked = false := by
      cases hm : h.masked with
      | true => simp [hm] at hextra
      | false => rfl
    simp [finishHead, h126, h127, hmasked]
  · omega
  · omega

/-- An extended length is refused for its sign only. -/
theorem finishHead_error {payloadLen : UInt8} {bts : Bytes} {err : WsError}
    (hfinish : finishHead h payloadLen bts = .ok (.error err)) : err = .errHeaderLengthMSB := by
  unfold finishHead at hfinish
  split at hfinish
  · obtain ⟨size, -, heq⟩ := Exec.bind_eq_ok_iff.mp hfinish
    cases heq
  · split at hfinish
    · obtain ⟨top, -, hrest⟩ := Exec.bind_eq_ok_iff.mp hfinish
      split at hrest
      · cases hrest
        rfl
      · obtain ⟨size, -, heq⟩ := Exec.bind_eq_ok_iff.mp hrest
        cases heq
    · cases hfinish

end Conn

/-- A complete header is in front of the bytes; `read` is what becomes of it. -/
inductive HeadAt : Bytes → Except WsError WsHead → Bytes → Prop
  | intro {b0 b1 : UInt8} {tail : Bytes} (rest : Bytes) {begun : WsHead}
      {read : Except WsError WsHead} (hbegin : Conn.beginHead {} b0 b1 = .ok (begun, tail.length))
      (hfinish : Conn.finishHead begun (b1 &&& 0x7f) tail = .ok read) :
      HeadAt (b0 :: b1 :: (tail ++ rest)) read rest

/-- The bytes end inside a header. -/
inductive HeadShort : Bytes → Prop
  | nil : HeadShort []
  | one (b0 : UInt8) : HeadShort [b0]
  | begun {b0 b1 : UInt8} {rest : Bytes} {begun : WsHead} {extra : Nat}
      (hbegin : Conn.beginHead {} b0 b1 = .ok (begun, extra)) (hshort : rest.length < extra) :
      HeadShort (b0 :: b1 :: rest)

/-- Behind its first two bytes a header is finished by as many bytes as they announce. -/
theorem headAt_of_length {tail : Bytes} {begun : WsHead} (rest : Bytes)
    (hbegin : Conn.beginHead {} b0 b1 = .ok (begun, tail.length)) :
    ∃ read, HeadAt (b0 :: b1 :: (tail ++ rest)) read rest := by
  obtain ⟨begun', extra, hbegin', hshort, hlong⟩ := Conn.beginHead_spec b0 b1
  cases hbegin.symm.trans hbegin'
  obtain ⟨read, hfinish⟩ := Conn.finishHead_ok begun (b1 &&& 0x7f) tail hshort hlong
  exact ⟨read, .intro rest hbegin hfinish⟩

theorem headShort_or_headAt (r : Bytes) : HeadShort r ∨ ∃ read rest, HeadAt r read rest := by
  match r with
  | [] => exact .inl .nil
  | [b] => exact .inl (.one b)
  | b0 :: b1 :: behind =>
    obtain ⟨begun, extra, hbegin, -, -⟩ := Conn.beginHead_spec b0 b1
    rcases Nat.lt_or_ge behind.length extra with hshort | henough
    · exact .inl (.begun hbegin hshort)
    · right
      have hlength : (behind.take extra).length = extra := List.length_take_of_le henough
      rw [← hlength] at hbegin
      obtain ⟨read, hat⟩ := headAt_of_length (behind.drop extra) hbegin
      rw [List.take_append_drop] at hat
      exact ⟨read, _, hat⟩

variable {rest : Bytes}

theorem HeadAt.readWsHeader_eq {read : Except WsError WsHead} (hat : HeadAt r read rest) :
    readWsHeader r = .ok (read.mapError .refused, rest) := by
  cases hat with
  | @intro b0 b1 tail _ begun _ hbegin hfinish =>
    rw [readWsHeader_cons_cons _ hbegin]
    by_cases hnone : tail.length = 0
    · rw [List.eq_nil_of_length_eq_zero hnone] at hbegin hfinish ⊢
      cases (Conn.finishHead_of_two hbegin).symm.trans hfinish
      rfl
    · rw [if_neg hnone, readExtra_of_le _ _ (by simp), List.take_left, List.drop_left, hfinish]
      rfl

theorem HeadShort.readWsHeader_eq (hshort : HeadShort r) :
    ∃ err, readWsHeader r = .ok (.error err, []) ∧ (err = .eof ∨ err = .unexpectedEOF) := by
  cases hshort with
  | nil => exact ⟨_, rfl, .inl rfl⟩
  | one b0 => exact ⟨_, rfl, .inr rfl⟩
  | @begun b0 b1 rest begun extra hbegin hless =>
    have hsome : extra ≠ 0 := Nat.ne_of_gt (Nat.lt_of_le_of_lt (Nat.zero_le _) hless)
    rw [readWsHeader_cons_cons _ hbegin, if_neg hsome, readExtra_of_lt _ _ hless]
    refine ⟨_, rfl, ?_⟩
    split
    · exact .inl rfl
    · exact .inr rfl

/-- What is read of a complete header determines its shape. -/
theorem headAt_of_readWsHeader (hread : readWsHeader r = .ok (.ok h, rest)) :
    HeadAt r (.ok h) rest := by
  rcases headShort_or_headAt r with hshort | ⟨read, rest', hat⟩
  · obtain ⟨err, herr, -⟩ := hshort.readWsHeader_eq
    cases hread.symm.trans herr
  · have heq := hread.symm.trans hat.readWsHeader_eq
    cases read with
    | error err => cases heq
    | ok h' =>
      cases heq
      exact hat

/-- A whole frame, as `readWsReply` of the client and the loop of the server read one: the
header, as many bytes as it declares, and the key taken off them. -/
def readWsFrame (r : Bytes) : Exec (Except ReadError (WsHead × Bytes) × Bytes) := do
  match ← readWsHeader r with
  | (.error err, r) => .ok (.error err, r)
  | (.ok h, r) =>
    match readFull r h.length.toInt.toNat with
    | (.error err, r) => .ok (.error err, r)
    | (.ok payload, r) => .ok (.ok (h, maskWsPayload h.mask payload), r)

variable {payload : Bytes}

theorem readWsFrame_of_header {suffix : Bytes}
    (hread : readWsHeader r = .ok (.ok h, payload ++ suffix))
    (hlength : h.length.toInt = payload.length) :
    readWsFrame r = .ok (.ok (h, maskWsPayload h.mask payload), suffix) := by
  have hsize : h.length.toInt.toNat = payload.length := by
    rw [hlength, Int.toNat_natCast]
  have henough : payload.length ≤ (payload ++ suffix).length := by
    simp
  unfold readWsFrame
  rw [hread, Exec.ok_bind]
  simp only [hsize, readFull_of_le henough]
  rw [List.take_left, List.drop_left]

/-! ## The size of a header -/

/-- The size of the shortest of the three length forms, and of the key. -/
def WsHead.size (h : WsHead) : Nat :=
  2 + (if h.length ≤ 125 then 0 else if h.length ≤ 65535 then 2 else 8) +
    (if h.masked then 4 else 0)

theorem WsHead.length_key (h : WsHead) : h.key.length = if h.masked then 4 else 0 := by
  unfold WsHead.key
  cases h.masked with
  | true => simp
  | false => simp

theorem length_of_makeWsHeadBuff {buff : Bytes} (hbuff : makeWsHeadBuff h = .ok buff) :
    buff.length = h.size := by
  unfold makeWsHeadBuff at hbuff
  unfold WsHead.size
  have hkey := h.length_key
  by_cases hone : h.length ≤ 125
  · simp only [hone, if_true, Except.ok.injEq] at hbuff ⊢
    subst hbuff
    simp only [List.length_cons]
    omega
  · by_cases htwo : h.length ≤ 65535
    · simp only [hone, htwo, if_true, if_false, Except.ok.injEq] at hbuff ⊢
      subst hbuff
      simp only [List.length_cons, List.length_append, length_putBigEndian]
      omega
    · have hmax : h.length ≤ 9223372036854775807 := Int64.le_maxValue _
      simp only [hone, htwo, hmax, if_true, if_false, Except.ok.injEq] at hbuff ⊢
      subst hbuff
      simp only [List.length_cons, List.length_append, length_putBigEndian]
      omega

theorem WsHead.size_le (h : WsHead) : h.size ≤ 14 := by
  unfold WsHead.size
  split_ifs <;> omega

/-- **No header is shorter than the shortest form for its fields.** -/
theorem size_le_of_readWsHeader (hread : readWsHeader r = .ok (.ok h, rest)) :
    h.size + rest.length ≤ r.length := by
  cases headAt_of_readWsHeader hread with
  | @intro b0 b1 tail _ begun _ hbegin hfinish =>
    obtain ⟨hmasked, hshort, hsame⟩ := Conn.finishHead_fields hfinish
    have htail : h.size ≤ 2 + tail.length := by
      unfold WsHead.size
      rw [hmasked]
      rcases Conn.beginHead_form hbegin with
        ⟨h126, h127, hle, hextra⟩ | ⟨h126, hextra⟩ | ⟨-, hextra⟩
      · rw [if_pos (hsame h126 h127 ▸ hle)]
        omega
      · have hle := hshort h126
        split_ifs at hextra ⊢ <;> omega
      · split_ifs at hextra ⊢ <;> omega
    simp only [List.length_cons, List.length_append]
    omega

/-- A frame takes the bytes of its header and of its payload. -/
theorem size_le_of_readWsFrame (hread : readWsFrame r = .ok (.ok (h, payload), rest)) :
    h.size + payload.length + rest.length ≤ r.length := by
  unfold readWsFrame at hread
  obtain ⟨⟨read, behind⟩, hheader, hrest⟩ := Exec.bind_eq_ok_iff.mp hread
  cases read with
  | error err => cases hrest
  | ok h' =>
    have hsize := size_le_of_readWsHeader hheader
    rcases Nat.lt_or_ge behind.length h'.length.toInt.toNat with hshort | henough
    · simp only [readFull_of_lt hshort] at hrest
      cases hrest
    · simp only [readFull_of_le henough] at hrest
      cases hrest
      simp only [length_maskWsPayload, List.length_take, List.length_drop]
      omega

/-! ## The encoder and its buffer -/

def copyAt (bts : Bytes) (n : Nat) (src : Bytes) : Bytes :=
  bts.take n ++ src.take (bts.length - n) ++ bts.drop (n + src.length)

/-- What is in front of the copy, and the copy itself. -/
theorem take_copyAt {bts src : Bytes} (hroom : n + src.length ≤ bts.length) :
    (copyAt bts n src).take (n + src.length) = bts.take n ++ src := by
  have hall : src.take (bts.length - n) = src := List.take_of_length_le (by omega)
  have hfront : (bts.take n ++ src).length = n + src.length := by
    simp only [List.length_append, List.length_take]
    omega
  rw [copyAt, hall]
  exact List.take_left' hfront

/-- The assignments to the first byte. -/
def putFirstByte (h : WsHead) (bts : Bytes) : Bytes :=
  let bts := bts.set 0 0
  let bts := if h.fin then bts.modify 0 (· ||| 0x80) else bts
  let bts := bts.modify 0 (· ||| (h.rsv <<< 4))
  bts.modify 0 (· ||| h.opCode)

/-- The end of `MakeWsHeadBuff`, when the first `n` bytes are written. -/
def appendKey (h : WsHead) (bts : Bytes) (n : Nat) : Bytes :=
  if h.masked then
    let bts := bts.modify 1 (· ||| 0x80)
    (copyAt bts n h.mask.toList).take (n + min 4 (bts.length - n))
  else bts.take n

/-- `MakeWsHeadBuff`, on the buffer that comes out of the pool. -/
def makeWsHeadBuffIn (pooled : Vector UInt8 14) (h : WsHead) : Except WsError Bytes :=
  let bts := putFirstByte h pooled.toList
  let n := h.length.toUInt64.toNat
  if h.length ≤ 125 then
    .ok (appendKey h (bts.set 1 (UInt8.ofNat n)) 2)
  else if h.length ≤ 65535 then
    .ok (appendKey h (copyAt (bts.set 1 126) 2 (putBigEndian 2 n)) 4)
  else if h.length ≤ 9223372036854775807 then
    .ok (appendKey h (copyAt (bts.set 1 127) 2 (putBigEndian 8 n)) 10)
  else
    .error .errHeaderLengthUnexpected

theorem putFirstByte_cons (h : WsHead) (x : UInt8) (tail : Bytes) :
    putFirstByte h (x :: tail) = h.firstByte :: tail := by
  unfold putFirstByte WsHead.firstByte
  cases h.fin with
  | true => simp
  | false => simp

theorem copyAt_two (b0 b1 : UInt8) {src tail : Bytes} (hroom : src.length ≤ tail.length) :
    copyAt (b0 :: b1 :: tail) 2 src = b0 :: b1 :: (src ++ tail.drop src.length) := by
  have hall : src.take ((b0 :: b1 :: tail).length - 2) = src :=
    List.take_of_length_le (by simpa using hroom)
  rw [copyAt, hall, Nat.add_comm]
  rfl

theorem appendKey_eq (h : WsHead) (b0 b1 : UInt8) {src behind : Bytes} (hn : n = 2 + src.length)
    (hroom : 4 ≤ behind.length) :
    appendKey h (b0 :: b1 :: (src ++ behind)) n =
      b0 :: (b1 ||| if h.masked then 0x80 else 0) :: (src ++ h.key) := by
  have hfront : ∀ b : UInt8, (b0 :: b :: (src ++ behind)).take n = b0 :: b :: src := by
    intro b
    rw [hn, Nat.add_comm]
    simp only [List.take_succ_cons, List.take_left]
  unfold appendKey WsHead.key
  cases hmasked : h.masked with
  | false => simp [hfront]
  | true =>
    have hkey : h.mask.toList.length = 4 := Vector.length_toList
    have hlength : ∀ b : UInt8, n + h.mask.toList.length ≤ (b0 :: b :: (src ++ behind)).length := by
      intro b
      simp only [List.length_cons, List.length_append]
      omega
    have hmin : min 4 ((b0 :: (b1 ||| 0x80) :: (src ++ behind)).length - n) = 4 := by
      have := hlength (b1 ||| 0x80)
      omega
    show (copyAt (b0 :: (b1 ||| 0x80) :: (src ++ behind)) n h.mask.toList).take
      (n + min 4 ((b0 :: (b1 ||| 0x80) :: (src ++ behind)).length - n)) = _
    have htake := take_copyAt (hlength (b1 ||| 0x80))
    rw [hkey, hfront] at htake
    rw [hmin, htake]
    rfl

/-- **Nothing of the pooled buffer is left in a header.** -/
theorem makeWsHeadBuffIn_eq (pooled : Vector UInt8 14) (h : WsHead) :
    makeWsHeadBuffIn pooled h = makeWsHeadBuff h := by
  have hlength : pooled.toList.length = 14 := Vector.length_toList
  match hbytes : pooled.toList with
  | [] => simp [hbytes] at hlength
  | [x0] => simp [hbytes] at hlength
  | x0 :: x1 :: tail =>
    have htail : tail.length = 12 := by
      simpa [hbytes] using hlength
    have hshort : ∀ b1, appendKey h (h.firstByte :: b1 :: tail) 2 =
        h.firstByte :: h.secondByte b1 :: h.key :=
      fun b1 => @appendKey_eq 2 h h.firstByte b1 [] tail rfl (by omega)
    have hlong : ∀ (k : Nat) (b1 : UInt8), k ≤ 8 →
        appendKey h (copyAt (h.firstByte :: b1 :: tail) 2
          (putBigEndian k h.length.toUInt64.toNat)) (2 + k) =
        h.firstByte :: h.secondByte b1 ::
          (putBigEndian k h.length.toUInt64.toNat ++ h.key) := by
      intro k b1 hk
      have hroom : (putBigEndian k h.length.toUInt64.toNat).length ≤ tail.length := by
        rw [length_putBigEndian]
        omega
      rw [copyAt_two _ _ hroom]
      apply appendKey_eq
      · rw [length_putBigEndian]
      · rw [List.length_drop, length_putBigEndian]
        omega
    unfold makeWsHeadBuffIn makeWsHeadBuff
    simp only [hbytes, putFirstByte_cons, List.set_cons_succ, List.set_cons_zero, hshort]
    rw [hlong 2 126 (by decide), hlong 8 127 (by decide)]

/-! ## Round trip -/

/-- The head that `Conn.Send` encodes. -/
def binaryHead (content : Bytes) : WsHead :=
  { fin := true, opCode := opBinary, length := Int64.ofNat content.length }

/-- The buffers that `Conn.Send` hands to `AsyncWritev`; empty content sends nothing. -/
def sendBuffs (pooled : Vector UInt8 14) (content : Bytes) : Except WsError (List Bytes) :=
  if content.length = 0 then .ok []
  else do
    let hbuff ← makeWsHeadBuffIn pooled (binaryHead content)
    .ok [hbuff, content]

/-- The head of a client, which has to mask. -/
def maskedHead (mask : Vector UInt8 4) (content : Bytes) : WsHead :=
  { binaryHead content with masked := true, mask := mask }

/-- What a client writes: the content masked with the key in the header. -/
def clientBuffs (pooled : Vector UInt8 14) (mask : Vector UInt8 4) (content : Bytes) :
    Except WsError (List Bytes) := do
  let hbuff ← makeWsHeadBuffIn pooled (maskedHead mask content)
  .ok [hbuff, maskWsPayload mask content]

section Heads

variable {content : Bytes} (hlt : content.length < 2 ^ 63)
include hlt

theorem toInt_length_binaryHead : (binaryHead content).length.toInt = content.length :=
  Int64.toInt_ofNat_of_lt hlt

theorem encodable_binaryHead : (binaryHead content).Encodable where
  rsv := show (0 : UInt8) < 8 by decide
  opCode := show opBinary < 16 by decide
  length := by
    rw [Int64.le_iff_toInt_le, toInt_length_binaryHead hlt]
    exact Int.natCast_nonneg _
  mask := fun _ => rfl

theorem encodable_maskedHead (mask : Vector UInt8 4) : (maskedHead mask content).Encodable where
  rsv := (encodable_binaryHead hlt).rsv
  opCode := (encodable_binaryHead hlt).opCode
  length := (encodable_binaryHead hlt).length
  mask := fun hmasked => absurd hmasked Bool.noConfusion

end Heads

/-- The zero key is no key. -/
theorem maskWsPayload_zero (payload : Bytes) :
    maskWsPayload (Vector.replicate 4 0) payload = payload := by
  apply List.ext_getElem
  · simp
  · intro i hi hi'
    simp [maskWsPayload]

/-- A header that is encoded is read back, whatever the buffer held and whatever follows. -/
theorem readWsHeader_makeWsHeadBuffIn (pooled : Vector UInt8 14) (hh : h.Encodable) :
    ∃ buff, makeWsHeadBuffIn pooled h = .ok buff ∧ buff.length = h.size ∧
      ∀ suffix, readWsHeader (buff ++ suffix) = .ok (.ok h, suffix) := by
  obtain ⟨b0, b1, tail, begun, hbuff, hbegin, hfinish⟩ := makeWsHeadBuff_spec hh
  refine ⟨_, (makeWsHeadBuffIn_eq pooled h).trans hbuff, length_of_makeWsHeadBuff hbuff, ?_⟩
  intro suffix
  exact (HeadAt.intro suffix hbegin hfinish).readWsHeader_eq

theorem readWsFrame_makeWsHeadBuffIn (pooled : Vector UInt8 14) (hh : h.Encodable)
    (hlength : h.length.toInt = payload.length) :
    ∃ buff, makeWsHeadBuffIn pooled h = .ok buff ∧
      ∀ suffix, readWsFrame (buff ++ (maskWsPayload h.mask payload ++ suffix)) =
        .ok (.ok (h, payload), suffix) := by
  obtain ⟨buff, hbuff, -, hread⟩ := readWsHeader_makeWsHeadBuffIn pooled hh
  refine ⟨buff, hbuff, fun suffix => ?_⟩
  rw [readWsFrame_of_header (hread _) (by rw [hlength, length_maskWsPayload]),
    maskWsPayload_maskWsPayload]

/-- **The header codec**: whatever the pooled buffer held, a header that can be encoded
takes the shortest form, fits in the buffer, and is read back with any bytes behind it;
masking twice restores a payload, and what `Conn.Send` or a masking client writes is read
back as the content. -/
theorem makeWsHeadBuff_readWsHeader (pooled : Vector UInt8 14) :
    (∀ h : WsHead, h.Encodable → ∃ buff, makeWsHeadBuffIn pooled h = .ok buff ∧
      buff.length ≤ 14 ∧
      (∀ other, readWsHeader other = .ok (.ok h, []) → buff.length ≤ other.length) ∧
      ∀ suffix, readWsHeader (buff ++ suffix) = .ok (.ok h, suffix)) ∧
    (∀ mask payload, maskWsPayload mask (maskWsPayload mask payload) = payload) ∧
    (∀ content : Bytes, 0 < content.length → content.length < 2 ^ 63 →
      ∃ buffs, sendBuffs pooled content = .ok buffs ∧ ∀ suffix,
        readWsFrame (buffs.flatten ++ suffix) = .ok (.ok (binaryHead content, content), suffix)) ∧
    ∀ mask (content : Bytes), content.length < 2 ^ 63 →
      ∃ buffs, clientBuffs pooled mask content = .ok buffs ∧ ∀ suffix,
        readWsFrame (buffs.flatten ++ suffix) =
          .ok (.ok (maskedHead mask content, content), suffix) := by
  refine ⟨?_, maskWsPayload_maskWsPayload, ?_, ?_⟩
  · intro h hh
    obtain ⟨buff, hbuff, hlength, hread⟩ := readWsHeader_makeWsHeadBuffIn pooled hh
    refine ⟨buff, hbuff, hlength ▸ h.size_le, ?_, hread⟩
    intro other hother
    simpa [hlength] using size_le_of_readWsHeader hother
  · intro content hpos hlt
    obtain ⟨buff, hbuff, hframe⟩ :=
      readWsFrame_makeWsHeadBuffIn pooled (encodable_binaryHead hlt) (toInt_length_binaryHead hlt)
    refine ⟨[buff, content], ?_, fun suffix => ?_⟩
    · unfold sendBuffs
      rw [if_neg (Nat.ne_of_gt hpos), hbuff]
      rfl
    · have hread := hframe suffix
      rw [show (binaryHead content).mask = Vector.replicate 4 0 from rfl,
        maskWsPayload_zero] at hread
      simpa using hread
  · intro mask content hlt
    obtain ⟨buff, hbuff, hframe⟩ :=
      readWsFrame_makeWsHeadBuffIn pooled (encodable_maskedHead hlt mask)
        (toInt_length_binaryHead hlt)
    refine ⟨[buff, maskWsPayload mask content], ?_, fun suffix => ?_⟩
    · unfold clientBuffs
      rw [hbuff]
      rfl
    · have hread := hframe suffix
      rw [show (maskedHead mask content).mask = mask from rfl] at hread
      simpa using hread

/-- A masked frame of 126 bytes, the first length that takes the middle form. -/
theorem makeWsHeadBuff_readWsHeader_middle :
    ∃ buffs, clientBuffs (Vector.replicate 14 0xff) #v[1, 2, 3, 4] (List.replicate 126 7) =
        .ok buffs ∧
      ∀ suffix, readWsFrame (buffs.flatten ++ suffix) =
        .ok (.ok (maskedHead #v[1, 2, 3, 4] (List.replicate 126 7), List.replicate 126 7),
          suffix) :=
  (makeWsHeadBuff_readWsHeader (Vector.replicate 14 0xff)).2.2.2 #v[1, 2, 3, 4]
    (List.replicate 126 7) (by simp)

end Gokit.Wsg
