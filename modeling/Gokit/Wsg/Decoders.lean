/-
# The two header decoders agree

`Conn.ReadWsHeader` is called after every delivery until it reports a header or an
error.  However the bytes are cut, it comes to what `ReadWsHeader` makes of all of them:
the same head and the same number of bytes consumed, or the same refusal.  It reports
that the header is not there yet exactly while the bytes end inside one.
-/

import Gokit.Wsg.Header

namespace Gokit.Wsg

open Gokit.Math

variable {read : Except WsError WsHead} {rest : Bytes}

namespace Conn

/-! ## One call -/

variable {conn : Conn}

/-- A header that has been begun, or is begun now, is read by the second half. -/
theorem readWsHeader_eq_readRest (pool : WsHeadPool) (hconn : conn.Consistent)
    (hok : conn.wsHeadOk = false) {b0 b1 : UInt8} {behind : Bytes} {begun : WsHead} {extra : Nat}
    (hinbound : conn.inbound = b0 :: b1 :: behind)
    (hbegin : beginHead {} b0 b1 = .ok (begun, extra)) :
    conn.readWsHeader pool = (conn.withHead begun extra).readRest begun := by
  by_cases hlen : conn.wsHeadLen = 0
  · rw [readWsHeader_begin pool conn hlen hinbound hbegin]
    by_cases hextra : extra = 0
    · subst hextra
      have henough : 2 ≤ (conn.withHead begun 0).inbound.length := by
        simp [withHead, hinbound]
      have hbytes : (conn.withHead begun 0).inbound.take 2 = [b0, b1] := by
        simp [withHead, hinbound]
      unfold readRest
      rw [if_pos rfl, show (conn.withHead begun 0).wsHeadLen = 2 from rfl, next_of_le henough,
        hbytes]
      simp only [byteAt_cons_one, Exec.ok_bind, List.drop_succ_cons, List.drop_zero,
        finishHead_of_two hbegin]
      rfl
    · rw [if_neg hextra]
  · obtain ⟨c0, c1, rest, h, extra', hfront, hbegin', hhead, hhlen⟩ := hconn.begun hok hlen
    cases hinbound.symm.trans hfront
    cases hbegin.symm.trans hbegin'
    have hsame : conn.withHead begun extra = conn := by
      rw [withHead, ← hhead, ← hhlen]
    rw [readWsHeader_resume pool conn hlen hhead, hsame]

/-- **A complete header is consumed**, and the connection remembers it. -/
theorem readWsHeader_of_headAt (pool : WsHeadPool) (hconn : conn.Consistent)
    (hok : conn.wsHeadOk = false) (hat : HeadAt conn.inbound read rest) :
    ∃ h front, conn.inbound = front ++ rest ∧ (∀ h', read = .ok h' → h' = h) ∧
      conn.readWsHeader pool =
        .ok ({ conn with
                wsHead := some h
                wsHeadLen := front.length
                inbound := rest
                consumed := conn.consumed ++ front }, read.map fun _ => true) := by
  generalize hinbound : conn.inbound = inbound at hat
  cases hat with
  | @intro b0 b1 tail _ begun _ hbegin hfinish =>
    have hlength : (b0 :: b1 :: tail).length = 2 + tail.length := Nat.add_comm tail.length 2
    have hsplit : conn.inbound = (b0 :: b1 :: tail) ++ rest := hinbound
    have henough : 2 + tail.length ≤ (conn.withHead begun tail.length).inbound.length := by
      simp only [withHead, hsplit, List.length_append, hlength]
      omega
    have htake : conn.inbound.take (2 + tail.length) = b0 :: b1 :: tail := by
      rw [hsplit, ← hlength, List.take_left]
    have hdrop : conn.inbound.drop (2 + tail.length) = rest := by
      rw [hsplit, ← hlength, List.drop_left]
    rw [readWsHeader_eq_readRest pool hconn hok hinbound hbegin]
    unfold readRest
    rw [show (conn.withHead begun tail.length).wsHeadLen = 2 + tail.length from rfl,
      next_of_le henough]
    simp only [withHead, discard, htake, hdrop, byteAt_cons_one, Exec.ok_bind,
      List.drop_succ_cons, List.drop_zero, hfinish]
    cases read with
    | error err => exact ⟨begun, _, rfl, by simp, by rw [hlength]; rfl⟩
    | ok h => exact ⟨h, _, rfl, fun _ heq => (Except.ok.inj heq).symm, by rw [hlength]; rfl⟩

/-- Inside a header nothing is consumed. -/
theorem readWsHeader_of_headShort (pool : WsHeadPool) (hconn : conn.Consistent)
    (hok : conn.wsHeadOk = false) (hshort : HeadShort conn.inbound) :
    ∃ wsHead wsHeadLen, conn.readWsHeader pool =
      .ok ({ conn with wsHead := wsHead, wsHeadLen := wsHeadLen }, .ok false) := by
  have hfew : conn.inbound.length < 2 → conn.readWsHeader pool = .ok (conn, .ok false) := by
    intro hlt
    have hlen : conn.wsHeadLen = 0 := by
      by_contra hbegun
      obtain ⟨b0, b1, rest, h, extra, hfront, -⟩ := hconn.begun hok hbegun
      rw [hfront, List.length_cons, List.length_cons] at hlt
      omega
    unfold readWsHeader peek
    rw [if_pos hlen, if_neg (Nat.not_le.mpr hlt)]
  have hcases : ∀ inbound, conn.inbound = inbound → HeadShort inbound →
      ∃ wsHead wsHeadLen, conn.readWsHeader pool =
        .ok ({ conn with wsHead := wsHead, wsHeadLen := wsHeadLen }, .ok false) := by
    intro inbound hinbound hshort
    cases hshort with
    | nil => exact ⟨conn.wsHead, conn.wsHeadLen, hfew (by simp [hinbound])⟩
    | one b0 => exact ⟨conn.wsHead, conn.wsHeadLen, hfew (by simp [hinbound])⟩
    | @begun b0 b1 rest begun extra hbegin hless =>
      refine ⟨some begun, 2 + extra, ?_⟩
      rw [readWsHeader_eq_readRest pool hconn hok hinbound hbegin]
      unfold readRest
      rw [next_of_lt]
      · rfl
      · simp only [withHead, hinbound, List.length_cons]
        omega
  exact hcases _ rfl hshort

/-! ## Every cutting -/

/-- `Conn.ReadWsHeader`, called after each delivery until it reports a header or an error. -/
def pollWsHeader (pool : WsHeadPool) : List Bytes → Conn → Exec (Conn × Except WsError Bool)
  | [], conn => .ok (conn, .ok false)
  | piece :: rest, conn => do
    let (conn, result) ← (conn.receive piece).readWsHeader pool
    if result = .ok false then pollWsHeader pool rest conn else .ok (conn, result)

/-- The calls come to what one call on all the bytes comes to. -/
theorem pollWsHeader_spec (pool : WsHeadPool) (pieces : List Bytes) (hconn : conn.Consistent)
    (hok : conn.wsHeadOk = false) (hsettled : conn.readWsHeader pool = .ok (conn, .ok false)) :
    ∃ conn' result unread, conn.pollWsHeader pool pieces = .ok (conn', result) ∧
      (conn.receive pieces.flatten).readWsHeader pool = .ok (conn'.receive unread, result) := by
  have hreceive : ∀ (conn : Conn) (xs ys : Bytes),
      conn.receive (xs ++ ys) = (conn.receive xs).receive ys := by
    intro conn xs ys
    simp [receive]
  have hnil : ∀ conn : Conn, conn.receive [] = conn := by
    intro conn
    simp [receive]
  induction pieces generalizing conn with
  | nil =>
    refine ⟨conn, .ok false, [], rfl, ?_⟩
    rw [List.flatten_nil, hnil, hsettled]
  | cons piece rest ih =>
    have hpushed : (conn.receive piece).wsHeadOk = false := hok
    unfold pollWsHeader
    rw [List.flatten_cons, hreceive]
    rcases readWsHeader_spec pool (hconn.receive piece) hpushed with
      ⟨conn', hwait, hconn', hok', hresume⟩ | ⟨conn', result, hread, hresult, hlater, -, -⟩
    · have hsettled' : conn'.readWsHeader pool = .ok (conn', .ok false) := by
        have hagain := hresume []
        rw [hnil, hnil] at hagain
        exact hagain.symm.trans hwait
      obtain ⟨last, result, unread, hpoll, hwhole⟩ := ih hconn' hok' hsettled'
      refine ⟨last, result, unread, ?_, (hresume _).trans hwhole⟩
      rw [hwait, Exec.ok_bind]
      exact (if_pos rfl).trans hpoll
    · refine ⟨conn', result, rest.flatten, ?_, hlater _⟩
      rw [hread, Exec.ok_bind]
      exact if_neg hresult

end Conn

/-! ## The comparison -/

/-- A header: the bytes that `ReadWsHeader` takes, to the last one, for a head or for
the one it refuses. -/
def IsHeader (bts : Bytes) : Prop :=
  (∃ h, readWsHeader bts = .ok (.ok h, [])) ∨
    readWsHeader bts = .ok (.error (.refused .errHeaderLengthMSB), [])

variable {bts : Bytes}

theorem HeadAt.error_eq {err : WsError} (hat : HeadAt bts (.error err) rest) :
    err = .errHeaderLengthMSB := by
  cases hat with
  | intro _ _ hfinish => exact Conn.finishHead_error hfinish

theorem HeadAt.not_headShort (hat : HeadAt bts read rest) : ¬ HeadShort bts := by
  intro hshort
  obtain ⟨err, hread, hkind⟩ := hshort.readWsHeader_eq
  have heq := congrArg Prod.fst (Except.ok.inj (hat.readWsHeader_eq.symm.trans hread))
  cases read with
  | ok h => cases heq
  | error err' =>
    cases heq
    rcases hkind with hkind | hkind <;> cases hkind

theorem HeadAt.isHeader (hat : HeadAt bts read []) : IsHeader bts := by
  cases read with
  | ok h => exact .inl ⟨h, hat.readWsHeader_eq⟩
  | error err =>
    cases hat.error_eq
    exact .inr hat.readWsHeader_eq

theorem IsHeader.headAt (hheader : IsHeader bts) : ∃ read, HeadAt bts read [] := by
  rcases headShort_or_headAt bts with hshort | ⟨read, rest, hat⟩
  · obtain ⟨err, hread, herr⟩ := hshort.readWsHeader_eq
    rcases hheader with ⟨h, hok⟩ | hmsb
    · cases hread.symm.trans hok
    · cases hread.symm.trans hmsb
      rcases herr with herr | herr <;> cases herr
  · have hread := hat.readWsHeader_eq
    have hrest : rest = [] := by
      rcases hheader with ⟨h, hok⟩ | hmsb
      · exact congrArg Prod.snd (Except.ok.inj (hread.symm.trans hok))
      · exact congrArg Prod.snd (Except.ok.inj (hread.symm.trans hmsb))
    exact ⟨read, hrest ▸ hat⟩

/-- Zeros complete a header. -/
theorem isHeader_fill {b0 b1 : UInt8} {begun : WsHead} {extra : Nat}
    (hbegin : Conn.beginHead {} b0 b1 = .ok (begun, extra)) (hle : rest.length ≤ extra) :
    IsHeader (b0 :: b1 :: (rest ++ List.replicate (extra - rest.length) 0)) := by
  have hlength : (rest ++ List.replicate (extra - rest.length) 0).length = extra := by
    rw [List.length_append, List.length_replicate]
    omega
  rw [← hlength] at hbegin
  obtain ⟨read, hat⟩ := headAt_of_length [] hbegin
  rw [List.append_nil] at hat
  exact hat.isHeader

/-- **To end inside a header is to be the beginning of one**, and not all of it. -/
theorem headShort_iff (bts : Bytes) :
    HeadShort bts ↔ ∃ more, more ≠ [] ∧ IsHeader (bts ++ more) := by
  constructor
  · intro hshort
    cases hshort with
    | nil =>
      obtain ⟨begun, extra, hbegin, -, -⟩ := Conn.beginHead_spec 0 0
      have hheader := isHeader_fill hbegin (List.length_nil.trans_le (Nat.zero_le _))
      exact ⟨_, List.cons_ne_nil _ _, hheader⟩
    | one b0 =>
      obtain ⟨begun, extra, hbegin, -, -⟩ := Conn.beginHead_spec b0 0
      have hheader := isHeader_fill hbegin (List.length_nil.trans_le (Nat.zero_le _))
      exact ⟨_, List.cons_ne_nil _ _, hheader⟩
    | @begun b0 b1 rest begun extra hbegin hless =>
      refine ⟨List.replicate (extra - rest.length) 0, ?_, isHeader_fill hbegin hless.le⟩
      intro hnil
      rw [List.replicate_eq_nil_iff] at hnil
      omega
  · rintro ⟨more, hmore, hheader⟩
    obtain ⟨read, hat⟩ := hheader.headAt
    generalize hwhole : bts ++ more = whole at hat
    cases hat with
    | @intro b0 b1 tail _ begun _ hbegin hfinish =>
      match bts with
      | [] => exact .nil
      | [x] => exact .one x
      | x :: y :: rest =>
        simp only [List.cons_append, List.append_nil, List.cons.injEq] at hwhole
        obtain ⟨rfl, rfl, htail⟩ := hwhole
        apply HeadShort.begun hbegin
        rw [← htail, List.length_append]
        exact Nat.lt_add_of_pos_right (List.length_pos_iff.mpr hmore)

/-- **The two decoders agree.** `Conn.ReadWsHeader`, called after each delivery of a
connection that is at the beginning of a frame, reports the header that `ReadWsHeader`
returns for all the bytes, having consumed as many of them, or the same error, and it
reports that there is none yet exactly on the beginnings of headers. -/
theorem pollWsHeader_agrees (pool : WsHeadPool) (pieces : List Bytes) (conn : Conn)
    (hok : conn.wsHeadOk = false) (hlen : conn.wsHeadLen = 0) (hinbound : conn.inbound = []) :
    ∃ conn' result read rest, conn.pollWsHeader pool pieces = .ok (conn', result) ∧
      readWsHeader pieces.flatten = .ok (read, rest) ∧
      (∀ h, read = .ok h ↔ result = .ok true ∧ conn'.wsHead = some h) ∧
      (∀ err, read = .error (.refused err) ↔ result = .error err) ∧
      (∀ err, result = .error err → err = .errHeaderLengthMSB) ∧
      (result = .ok true → ∃ front, pieces.flatten = front ++ rest ∧
        conn'.consumed = conn.consumed ++ front) ∧
      (result = .ok false ↔ ∃ more, more ≠ [] ∧ IsHeader (pieces.flatten ++ more)) := by
  have hconn : conn.Consistent := .idle hok hlen
  have hsettled : conn.readWsHeader pool = .ok (conn, .ok false) := by
    simp [Conn.readWsHeader, Conn.peek, hlen, hinbound]
  have hall : (conn.receive pieces.flatten).inbound = pieces.flatten := by
    simp [Conn.receive, hinbound]
  obtain ⟨conn', result, unread, hpoll, hwhole⟩ :=
    Conn.pollWsHeader_spec pool pieces hconn hok hsettled
  have hready := hconn.receive pieces.flatten
  rw [← headShort_iff]
  rcases headShort_or_headAt pieces.flatten with hshort | ⟨read, rest, hat⟩
  · obtain ⟨wsHead, wsHeadLen, hread⟩ :=
      Conn.readWsHeader_of_headShort pool hready hok (hall.symm ▸ hshort)
    have hresult : result = .ok false := congrArg Prod.snd (Except.ok.inj (hwhole.symm.trans hread))
    obtain ⟨err, herror, hkind⟩ := hshort.readWsHeader_eq
    subst hresult
    refine ⟨conn', _, _, _, hpoll, herror, by simp, ?_, by simp, by simp, by simp [hshort]⟩
    rcases hkind with rfl | rfl <;> simp
  · obtain ⟨h, front, hfront, hhead, hread⟩ :=
      Conn.readWsHeader_of_headAt pool hready hok (hall.symm ▸ hat)
    obtain ⟨hconn', hresult⟩ := Prod.mk.inj (Except.ok.inj (hwhole.symm.trans hread))
    have hwsHead : conn'.wsHead = some h := congrArg Conn.wsHead hconn'
    have hconsumed : conn'.consumed = conn.consumed ++ front := congrArg Conn.consumed hconn'
    subst hresult
    refine ⟨conn', _, _, rest, hpoll, hat.readWsHeader_eq, ?_⟩
    cases read with
    | error err =>
      refine ⟨?_, ?_, ?_, ?_, ?_⟩
      · intro h'
        simp [Except.map, Except.mapError]
      · intro err'
        simp [Except.map, Except.mapError]
      · intro err' heq
        cases heq
        exact hat.error_eq
      · intro heq
        cases heq
      · simp [Except.map, hat.not_headShort]
    | ok h' =>
      cases hhead h' rfl
      refine ⟨?_, ?_, ?_, ?_, ?_⟩
      · intro h'
        simp [Except.map, Except.mapError, hwsHead]
      · intro err
        simp [Except.map, Except.mapError]
      · intro err heq
        cases heq
      · intro _
        exact ⟨front, hall.symm.trans hfront, hconsumed⟩
      · simp [Except.map, hat.not_headShort]

/-- A masked header whose length takes the middle form without need, cut twice. -/
theorem pollWsHeader_agrees_nonminimal :
    ∃ conn' result read rest,
      ({} : Conn).pollWsHeader (fun _ => none) [[0x82], [0xfe, 0, 5], [1, 2, 3, 4, 9]] =
        .ok (conn', result) ∧
      readWsHeader [0x82, 0xfe, 0, 5, 1, 2, 3, 4, 9] = .ok (read, rest) ∧
      ∀ h, read = .ok h ↔ result = .ok true ∧ conn'.wsHead = some h := by
  obtain ⟨conn', result, read, rest, hpoll, hread, hhead, -⟩ :=
    pollWsHeader_agrees (fun _ => none) [[0x82], [0xfe, 0, 5], [1, 2, 3, 4, 9]] {} rfl rfl rfl
  exact ⟨conn', result, read, rest, hpoll, hread, hhead⟩

end Gokit.Wsg
