/-
# What a session sends

`Session.Send` checks the length of the data in the goroutine of its caller, and puts the data
on the channel `outputCh`.  The `kcpLoop` of the session takes it from there and gives it to
`kcp.Send`, which cuts it into segments of at most `mss` bytes.  The `mss` comes from the option
`KcpMtu`, but each segment is kept in a buffer of the pool, and these have 1500 bytes whatever
the option says.

What happens between the check and the cut does not matter: `mss`, the window and the mode do
not change after `newSession`.  We let the callers check and put independently of one another,
and `kcpLoop` do anything else to the queues that `Input`, `Update` and `flush` can do.
-/

import Gokit.Kcp.Reading
import Gokit.Kcp.Server
import Gokit.Math.MachineInt

namespace Gokit.Kcp

open Gokit.Math

/-! ## A session that sends -/

/-- `KcpOptions`, with the sizes and the mode. -/
structure KcpOptions where
  kcpSendWnd : Int64
  kcpRecvWnd : Int64
  kcpMtu : Int64
  kcpStreamMode : Bool
  deriving DecidableEq

namespace KCP

def newSession (alloc : Int64 → Bool) (convId : UInt32) (opt : KcpOptions) : Except Panic KCP := do
  let result ← (newKCP convId).setMtu alloc opt.kcpMtu
  .ok { result.2.wndSize opt.kcpSendWnd opt.kcpRecvWnd with stream := opt.kcpStreamMode }

/-- The checks of `Session.Send`: its error, or none if it goes on to the channel. -/
def check (kcp : KCP) (data : Bytes) : Except Panic (Option String) :=
  if data.length = 0 then .ok (some "data is empty")
  else if kcp.dead then .ok (some "dead link")
  else if kcp.mss = 0 then .error .divideByZero
  else if kcp.sndWnd.toNat ≤ fragments kcp.mss.toNat data.length ∨
      255 ≤ fragments kcp.mss.toNat data.length then .ok (some "data is too large")
  else if kcp.sndWnd.toNat ≤ kcp.waitSnd then .ok (some "EAGAIN")
  else .ok none

/-- What `Input`, `Recv`, `Update` and `flush` leave alone: the sizes, the window and the mode.
They only take segments from the front of `snd_queue`. -/
structure Keeps (kcp kcp' : KCP) : Prop where
  mss : kcp'.mss = kcp.mss
  sndWnd : kcp'.sndWnd = kcp.sndWnd
  stream : kcp'.stream = kcp.stream
  sndQueue : kcp'.sndQueue <:+ kcp.sndQueue

end KCP

/-- A session with the callers of `Send` that have passed the checks.  `results` is what the
calls of `kcp.Send` have returned, and `panic` what has brought `kcpLoop` down. -/
structure Sender where
  kcp : KCP
  callers : List Bytes := []
  outputCh : List Bytes := []
  results : List Int := []
  panic : Option Panic := none

namespace Sender

/-- `select` in `Session.Send`: the data is put on the channel and `nil` returned, or the error
`EAGAIN`. -/
def put (s : Sender) (data : Bytes) : Sender :=
  if s.outputCh.length < chanSize then
    { s with callers := s.callers.erase data, outputCh := s.outputCh ++ [data] }
  else { s with callers := s.callers.erase data }

def recvOutput (s : Sender) : Sender :=
  match s.outputCh with
  | [] => s
  | data :: rest =>
    match s.kcp.send data with
    | .ok result => { s with kcp := result.2, outputCh := rest, results := s.results ++ [result.1] }
    | .error panic => { s with outputCh := rest, panic := some panic }

/-- No call of `kcp.Send` has panicked, and all have succeeded. -/
structure Sound (s : Sender) : Prop where
  panic : s.panic = none
  results : ∀ n ∈ s.results, n = 0

end Sender

/-- The steps of the callers and of `kcpLoop`. -/
inductive SendAction
  | check (data : Bytes)
  | put (data : Bytes)
  | recvOutput
  | work (kcp : KCP)

/-- A session that starts with a `KCP`, up to the first panic. -/
def sending (kcp : KCP) : System Sender SendAction where
  init := { kcp := kcp }
  Enabled s a := s.panic = none ∧
    match a with
    | .check data => s.kcp.check data = .ok none
    | .put data => data ∈ s.callers
    | .recvOutput => s.outputCh ≠ []
    | .work kcp => s.kcp.Keeps kcp
  next s
    | .check data => { s with callers := data :: s.callers }
    | .put data => s.put data
    | .recvOutput => s.recvOutput
    | .work kcp => { s with kcp := kcp }

/-! ## One call of `kcp.Send` -/

/-- The segments that wait to be sent have at most `mss` bytes. -/
def Bounded (mss : Nat) (segs : List Segment) : Prop := ∀ seg ∈ segs, seg.data.bts.length ≤ mss

theorem Bounded.append {mss : Nat} {segs others : List Segment} (hsegs : Bounded mss segs)
    (hothers : Bounded mss others) : Bounded mss (segs ++ others) :=
  List.forall_mem_append.mpr ⟨hsegs, hothers⟩

namespace KCP

variable {kcp : KCP} {mss : Nat}

/-- The bytes of `count + 1` segments are those of the first and of the others. -/
theorem take_succ_mul (buffer : Bytes) (count : Nat) :
    buffer.take (min buffer.length mss) ++
        (buffer.drop (min buffer.length mss)).take (count * mss) =
      buffer.take ((count + 1) * mss) := by
  rw [← List.take_add]
  rcases Nat.le_total buffer.length mss with hle | hle
  · rw [Nat.min_eq_left hle, List.take_of_length_le (Nat.le_add_right _ _),
      List.take_of_length_le (Nat.le_trans hle (Nat.le_mul_of_pos_left mss (Nat.succ_pos _)))]
  · rw [Nat.min_eq_right hle, Nat.succ_mul, Nat.add_comm]

/-- Segments of at most 1500 bytes can be cut from any buffer. -/
theorem cut_spec (hmss : mss ≤ mtuLimit) (stream : Bool) (count : Nat) (buffer : Bytes) :
    ∃ segs, cut mss stream count buffer = .ok segs ∧ Bounded mss segs ∧
      content segs = buffer.take (count * mss) ∧ (stream = false → Numbered count segs) := by
  induction count generalizing buffer with
  | zero =>
    refine ⟨[], rfl, fun _ h => absurd h List.not_mem_nil, ?_, fun _ => rfl⟩
    rw [Nat.zero_mul, List.take_zero]
    rfl
  | succ count ih =>
    have hlength : (buffer.take (min buffer.length mss)).length ≤ mss := by simp
    obtain ⟨segs, hcut, hbounded, hcontent, hnumbered⟩ := ih (buffer.drop (min buffer.length mss))
    obtain ⟨data, hget, hdata⟩ := Buffer.get_of_le (Nat.le_trans hlength hmss)
    refine ⟨{ frg := if stream then 0 else UInt8.ofNat count, data := data } :: segs, ?_, ?_, ?_,
      fun hstream => ⟨_, segs, rfl, ?_, hnumbered hstream⟩⟩
    · rw [cut, hget, hcut]
      rfl
    · intro seg hseg
      rcases List.mem_cons.mp hseg with rfl | hseg
      · exact hdata ▸ hlength
      · exact hbounded seg hseg
    · rw [← take_succ_mul, ← hcontent, ← hdata]
      rfl
    · rw [hstream]
      rfl

/-- The segments have room for the buffer. -/
theorem le_fragments_mul (hpos : 0 < mss) (length : Nat) : length ≤ fragments mss length * mss := by
  have hdivide := Nat.div_add_mod (length + mss - 1) mss
  have hrest := Nat.mod_lt (length + mss - 1) hpos
  rw [fragments, Nat.mul_comm]
  omega

variable {length : Nat}

theorem fragments_pos (hpos : 0 < mss) (hlength : length ≠ 0) : 0 < fragments mss length :=
  Nat.div_pos (by omega) hpos

theorem fragments_mono {length' : Nat} (hle : length ≤ length') :
    fragments mss length ≤ fragments mss length' :=
  Nat.div_le_div_right (by omega)

theorem fragments_of_le (hpos : 0 < length) (hle : length ≤ mss) : fragments mss length = 1 := by
  rw [fragments]
  exact Nat.div_eq_of_lt_le (by omega) (by omega)

theorem toNat_mss_pos (hpos : kcp.mss ≠ 0) : 0 < kcp.mss.toNat :=
  Nat.pos_of_ne_zero fun hzero => hpos (UInt32.toNat_inj.mp hzero)

/-- A buffer that is not empty is cut into segments that hold exactly its bytes. -/
theorem push_spec (hpos : kcp.mss ≠ 0) (hmss : kcp.mss.toNat ≤ mtuLimit) {buffer : Bytes}
    (hbuffer : buffer.length ≠ 0) (hfew : fragments kcp.mss.toNat buffer.length ≤ 255) :
    ∃ segs, kcp.push buffer = .ok (0, kcp.enqueue segs) ∧
      Bounded kcp.mss.toNat segs ∧ content segs = buffer ∧
      (kcp.stream = false → Numbered (fragments kcp.mss.toNat buffer.length) segs) := by
  have hmany := fragments_pos (toNat_mss_pos hpos) hbuffer
  obtain ⟨segs, hcut, hbounded, hcontent, hnumbered⟩ := cut_spec hmss kcp.stream
    (fragments kcp.mss.toNat buffer.length) buffer
  refine ⟨segs, ?_, hbounded, ?_, hnumbered⟩
  · have hcount : (if buffer.length ≤ kcp.mss.toNat then 1
        else fragments kcp.mss.toNat buffer.length) = fragments kcp.mss.toNat buffer.length := by
      split_ifs with hle
      · exact (fragments_of_le (Nat.pos_of_ne_zero hbuffer) hle).symm
      · rfl
    simp only [push, hpos, and_false, if_false, hcount, if_neg (Nat.not_lt_of_le hfew),
      if_neg (Nat.ne_of_gt hmany), hcut]
    rfl
  · rw [hcontent]
    exact List.take_of_length_le (le_fragments_mul (toNat_mss_pos hpos) _)

theorem fillLast_spec (hmss : kcp.mss.toNat ≤ mtuLimit)
    (hqueue : Bounded kcp.mss.toNat kcp.sndQueue) (buffer : Bytes) :
    ∃ rest queue, kcp.fillLast buffer = .ok (rest, { kcp with sndQueue := queue }) ∧
      rest.length ≤ buffer.length ∧ Bounded kcp.mss.toNat queue := by
  cases hlast : kcp.sndQueue.reverse with
  | nil =>
    refine ⟨buffer, kcp.sndQueue, ?_, Nat.le_refl _, hqueue⟩
    rw [fillLast, hlast]
  | cons seg before =>
    have hmem : ∀ other ∈ seg :: before, other ∈ kcp.sndQueue := by
      intro other hother
      rw [← List.mem_reverse, hlast]
      exact hother
    rw [fillLast, hlast]
    simp only
    split_ifs with hroom
    · have hgrown : (seg.data.bts ++ buffer.take
          (min buffer.length (kcp.mss.toNat - seg.data.bts.length))).length ≤
            kcp.mss.toNat := by
        simp only [List.length_append, List.length_take]
        omega
      obtain ⟨data, hget, hdata⟩ := Buffer.get_of_le (Nat.le_trans hgrown hmss)
      refine ⟨buffer.drop (min buffer.length (kcp.mss.toNat - seg.data.bts.length)),
        ({ seg with data := data } :: before).reverse, ?_, ?_, ?_⟩
      · rw [Buffer.grow, hget]
        rfl
      · simp
      · intro other hother
        rcases List.mem_cons.mp (List.mem_reverse.mp hother) with rfl | hother
        · exact hdata ▸ hgrown
        · exact hqueue other (hmem other (List.mem_cons_of_mem _ hother))
    · exact ⟨buffer, kcp.sndQueue, rfl, Nat.le_refl _, hqueue⟩

/-- **One call.**  Where a segment fits into a buffer, data of at most 255 segments is
queued. -/
theorem send_spec (hpos : kcp.mss ≠ 0) (hmss : kcp.mss.toNat ≤ mtuLimit)
    (hqueue : Bounded kcp.mss.toNat kcp.sndQueue) {data : Bytes} (hdata : data.length ≠ 0)
    (hcount : fragments kcp.mss.toNat data.length ≤ 255) :
    ∃ queue, kcp.send data = .ok (0, { kcp with sndQueue := queue }) ∧
      Bounded kcp.mss.toNat queue := by
  rw [send, if_neg hdata]
  split_ifs with hstream
  · obtain ⟨rest, queue, hfill, hle, hbounded⟩ := fillLast_spec hmss hqueue data
    rw [hfill]
    show ∃ queue', (if rest.length = 0 then _ else _) = _ ∧ _
    split_ifs with hrest
    · exact ⟨queue, rfl, hbounded⟩
    · obtain ⟨segs, hpush, hsegs, -⟩ := @push_spec { kcp with sndQueue := queue } hpos hmss rest
        hrest (Nat.le_trans (fragments_mono hle) hcount)
      exact ⟨queue ++ segs, hpush, hbounded.append hsegs⟩
  · obtain ⟨segs, hpush, hsegs, -⟩ := push_spec hpos hmss hdata hcount
    exact ⟨kcp.sndQueue ++ segs, hpush, hqueue.append hsegs⟩

end KCP

/-! ## Runs of a session -/

namespace KcpOptions

/-- The MTU that comes out of an option: small values leave the default, and large ones are
reduced to 32 bits. -/
def mtu (opt : KcpOptions) : Int :=
  if opt.kcpMtu.toInt < 50 then 1400 else opt.kcpMtu.toInt % 2 ^ 32

/-- The send window that comes out of an option. -/
def window (opt : KcpOptions) : Int :=
  if 0 < opt.kcpSendWnd.toInt then opt.kcpSendWnd.toInt % 2 ^ 32 else 32

/-- A segment with its head has at most 1524 bytes, or the window is so small that `Send`
accepts nothing. -/
def SegmentsFit (opt : KcpOptions) : Prop := (24 ≤ opt.mtu ∧ opt.mtu ≤ 1524) ∨ opt.window ≤ 1

instance (opt : KcpOptions) : Decidable opt.SegmentsFit :=
  inferInstanceAs (Decidable ((24 ≤ opt.mtu ∧ opt.mtu ≤ 1524) ∨ opt.window ≤ 1))

end KcpOptions

theorem toNat_uint32 (n : Int64) : ((uint32 n).toNat : Int) = n.toInt % 2 ^ 32 := by
  have hbits := toNat_toBitVec n
  have hlow : (uint32 n).toNat = n.toBitVec.toNat % 2 ^ 32 := UInt64.toNat_toUInt32 _
  rw [hlow]
  push_cast
  rw [hbits]
  exact Int.emod_emod_of_dvd _ (by decide)

namespace KCP

section Options

variable {alloc : Int64 → Bool} {convId : UInt32} {opt : KcpOptions} {kcp : KCP}

/-- A segment fits into a buffer exactly if it has at most 1524 bytes with its head. A smaller
MTU than the head makes the difference wrap around. -/
theorem toNat_uint32_sub_le_iff (n : Int64) :
    (uint32 n - 24).toNat ≤ mtuLimit ↔ 24 ≤ n.toInt % 2 ^ 32 ∧ n.toInt % 2 ^ 32 ≤ 1524 := by
  rw [← toNat_uint32, UInt32.toNat_sub, mtuLimit, show (24 : UInt32).toNat = 24 from rfl]
  have hlt := (uint32 n).toNat_lt
  omega

/-- The window that `WndSize` sets, where the default is 32. -/
theorem toNat_wndSize (n : Int64) :
    ((if 0 < n then uint32 n else 32 : UInt32).toNat : Int) =
      if 0 < n.toInt then n.toInt % 2 ^ 32 else 32 := by
  have hiff : 0 < n ↔ 0 < n.toInt := Int64.lt_iff_toInt_lt
  by_cases hpos : 0 < n
  · rw [if_pos hpos, if_pos (hiff.mp hpos)]
    exact toNat_uint32 n
  · rw [if_neg hpos, if_neg (mt hiff.mpr hpos)]
    rfl

theorem setMtu_spec {mtu : Int64} {result : Int × KCP}
    (hset : (newKCP convId).setMtu alloc mtu = .ok result) :
    ∃ mtu' mss', result.2 = { newKCP convId with mtu := mtu', mss := mss' } ∧
      mss' = if mtu.toInt < 50 then 1376 else uint32 mtu - 24 := by
  rw [setMtu] at hset
  by_cases hsmall : mtu.toInt < 50
  · have hreject : mtu < 50 ∨ mtu < 24 := Or.inl (Int64.lt_iff_toInt_lt.mpr hsmall)
    rw [if_pos hreject] at hset
    refine ⟨1400, 1376, ?_, (if_pos hsmall).symm⟩
    rw [← Except.ok.inj hset]
    rfl
  · have haccept : ¬ (mtu < 50 ∨ mtu < 24) := by
      rw [Int64.lt_iff_toInt_lt, Int64.lt_iff_toInt_lt]
      exact not_or.mpr ⟨hsmall, fun h => hsmall (Int.lt_trans h (by decide))⟩
    rw [if_neg haccept] at hset
    split_ifs at hset
    refine ⟨uint32 mtu, uint32 mtu - 24, ?_, (if_neg hsmall).symm⟩
    rw [← Except.ok.inj hset]

theorem newSession_spec (hnew : newSession alloc convId opt = .ok kcp) :
    (kcp.mss.toNat ≤ mtuLimit ↔ 24 ≤ opt.mtu ∧ opt.mtu ≤ 1524) ∧
      (kcp.sndWnd.toNat : Int) = opt.window ∧ kcp.sndQueue = [] ∧ kcp.sndBuf = [] ∧
      kcp.dead = false := by
  cases hset : (newKCP convId).setMtu alloc opt.kcpMtu with
  | error panic =>
    rw [newSession, hset] at hnew
    cases hnew
  | ok result =>
    obtain ⟨mtu, mss, hresult, hmss⟩ := setMtu_spec hset
    rw [newSession, hset] at hnew
    have hkcp := Except.ok.inj hnew
    rw [hresult] at hkcp
    refine ⟨?_, ?_, by rw [← hkcp]; rfl, by rw [← hkcp]; rfl, by rw [← hkcp]; rfl⟩
    · rw [show kcp.mss = mss by rw [← hkcp]; rfl, hmss, KcpOptions.mtu]
      split_ifs
      · decide
      · exact toNat_uint32_sub_le_iff opt.kcpMtu
    · have hwindow : kcp.sndWnd = if 0 < opt.kcpSendWnd then uint32 opt.kcpSendWnd else 32 := by
        rw [← hkcp]
        rfl
      rw [hwindow]
      exact toNat_wndSize opt.kcpSendWnd

end Options

/-- Data that has passed the checks of `Session.Send`. -/
structure Accepted (kcp : KCP) (data : Bytes) : Prop where
  nonempty : data.length ≠ 0
  mss : kcp.mss ≠ 0
  window : fragments kcp.mss.toNat data.length < kcp.sndWnd.toNat
  few : fragments kcp.mss.toNat data.length < 255

section Accepted

variable {kcp : KCP} {data : Bytes}

theorem accepted_of_check (hcheck : kcp.check data = .ok none) : kcp.Accepted data := by
  unfold check at hcheck
  split_ifs at hcheck with hempty hdead hmss hlarge hfull <;> cases hcheck
  obtain ⟨hwindow, hfew⟩ := not_or.mp hlarge
  exact ⟨hempty, hmss, Nat.lt_of_not_le hwindow, Nat.lt_of_not_le hfew⟩

theorem Accepted.check (h : kcp.Accepted data) (hdead : kcp.dead = false)
    (hwait : kcp.waitSnd < kcp.sndWnd.toNat) : kcp.check data = .ok none := by
  have hfits : ¬ (kcp.sndWnd.toNat ≤ fragments kcp.mss.toNat data.length ∨
      255 ≤ fragments kcp.mss.toNat data.length) :=
    not_or.mpr ⟨Nat.not_le_of_lt h.window, Nat.not_le_of_lt h.few⟩
  rw [KCP.check, if_neg h.nonempty, if_neg (by simp [hdead]), if_neg h.mss, if_neg hfits,
    if_neg (Nat.not_le_of_lt hwait)]

/-- Only the sizes matter. -/
theorem Accepted.congr {kcp' : KCP} (h : kcp.Accepted data) (hmss : kcp'.mss = kcp.mss)
    (hwindow : kcp'.sndWnd = kcp.sndWnd) : kcp'.Accepted data where
  nonempty := h.nonempty
  mss := hmss ▸ h.mss
  window := by
    rw [hmss, hwindow]
    exact h.window
  few := by
    rw [hmss]
    exact h.few

/-- Data that is accepted makes a segment at least, so that the window is larger than one. -/
theorem Accepted.one_lt_sndWnd (h : kcp.Accepted data) : 1 < kcp.sndWnd.toNat := by
  have hpos := fragments_pos (toNat_mss_pos h.mss) h.nonempty
  exact Nat.lt_of_le_of_lt hpos h.window

end Accepted

end KCP

/-- What holds in a session whose segments fit: nothing changes the sizes, all data on the way
has passed the checks, and `kcp.Send` has always succeeded. -/
structure Flows (kcp : KCP) (s : Sender) : Prop where
  mss : s.kcp.mss = kcp.mss
  sndWnd : s.kcp.sndWnd = kcp.sndWnd
  queue : Bounded kcp.mss.toNat s.kcp.sndQueue
  callers : ∀ data ∈ s.callers, kcp.Accepted data
  outputCh : ∀ data ∈ s.outputCh, kcp.Accepted data
  panic : s.panic = none
  results : ∀ n ∈ s.results, n = 0

section Flows

variable {kcp : KCP} {s : Sender}

theorem flows_init (hqueue : kcp.sndQueue = []) : Flows kcp { kcp := kcp } where
  mss := rfl
  sndWnd := rfl
  queue seg hseg := by
    rw [hqueue] at hseg
    cases hseg
  callers _ h := absurd h List.not_mem_nil
  outputCh _ h := absurd h List.not_mem_nil
  panic := rfl
  results _ h := absurd h List.not_mem_nil

theorem Flows.put (h : Flows kcp s) {data : Bytes} (hdata : data ∈ s.callers) :
    Flows kcp (s.put data) := by
  have hcallers : ∀ other ∈ s.callers.erase data, kcp.Accepted other := fun other hother =>
    h.callers other (List.mem_of_mem_erase hother)
  unfold Sender.put
  split_ifs
  · refine { h with callers := hcallers, outputCh := List.forall_mem_append.mpr ⟨h.outputCh, ?_⟩ }
    exact List.forall_mem_singleton.mpr (h.callers data hdata)
  · exact { h with callers := hcallers }

theorem Flows.recvOutput (h : Flows kcp s)
    (hfits : kcp.mss.toNat ≤ mtuLimit ∨ kcp.sndWnd.toNat ≤ 1) : Flows kcp s.recvOutput := by
  cases houtput : s.outputCh with
  | nil =>
    rw [Sender.recvOutput, houtput]
    exact h
  | cons data rest =>
    have haccepted : kcp.Accepted data := h.outputCh data (houtput ▸ List.mem_cons_self)
    have hmss : kcp.mss.toNat ≤ mtuLimit := hfits.resolve_right
      (Nat.not_le_of_lt haccepted.one_lt_sndWnd)
    have hqueue := h.queue
    rw [← h.mss] at hmss hqueue
    have hchecked := haccepted.congr h.mss h.sndWnd
    obtain ⟨queue, hsend, hbounded⟩ := KCP.send_spec hchecked.mss hmss hqueue
      hchecked.nonempty (Nat.le_of_lt hchecked.few)
    rw [h.mss] at hbounded
    have hnext : s.recvOutput =
        { s with
          kcp := { s.kcp with sndQueue := queue }
          outputCh := rest
          results := s.results ++ [0] } := by
      simp only [Sender.recvOutput, houtput, hsend]
    rw [hnext]
    refine { h with queue := hbounded, outputCh := ?_, results := ?_ }
    · intro other hother
      exact h.outputCh other (houtput ▸ List.mem_cons_of_mem data hother)
    · exact List.forall_mem_append.mpr ⟨h.results, List.forall_mem_singleton.mpr rfl⟩

theorem Flows.step (h : Flows kcp s) (hfits : kcp.mss.toNat ≤ mtuLimit ∨ kcp.sndWnd.toNat ≤ 1)
    {a : SendAction} (henabled : (sending kcp).Enabled s a) :
    Flows kcp ((sending kcp).next s a) := by
  obtain ⟨-, henabled⟩ := henabled
  cases a with
  | check data =>
    have haccepted := (KCP.accepted_of_check henabled).congr h.mss.symm h.sndWnd.symm
    exact { h with callers := List.forall_mem_cons.mpr ⟨haccepted, h.callers⟩ }
  | put data => exact h.put henabled
  | recvOutput => exact h.recvOutput hfits
  | work kcp' =>
    have hkeeps : s.kcp.Keeps kcp' := henabled
    exact
      { h with
        mss := hkeeps.mss.trans h.mss
        sndWnd := hkeeps.sndWnd.trans h.sndWnd
        queue := fun seg hseg => h.queue seg (hkeeps.sndQueue.subset hseg) }

end Flows

/-! ## Segments that do not fit -/

section Long

variable {kcp : KCP} {data : Bytes}

/-- Data that is cut into one segment, but is longer than a buffer of the pool. -/
theorem KCP.send_of_long (hqueue : kcp.sndQueue = []) (hlong : mtuLimit < data.length)
    (hmss : data.length ≤ kcp.mss.toNat) : kcp.send data = .error .sliceBounds := by
  have hdata : data.length ≠ 0 := Nat.ne_of_gt (Nat.zero_lt_of_lt hlong)
  have hpush : kcp.push data = .error .sliceBounds := by
    have hone : ¬ (kcp.mss.toNat < data.length ∧ kcp.mss = 0) := fun h =>
      absurd h.1 (Nat.not_lt_of_le hmss)
    have hget : Buffer.get (data.take (min data.length kcp.mss.toNat)) = .error .sliceBounds := by
      rw [Nat.min_eq_left hmss, List.take_length]
      exact Buffer.get_of_lt hlong
    simp only [push, if_neg hone, if_pos hmss]
    rw [if_neg (by decide), if_neg (by decide), cut, hget]
    rfl
  have hfill : kcp.fillLast data = .ok (data, kcp) := by
    rw [fillLast, hqueue]
    rfl
  rw [send, if_neg hdata, hpush, hfill]
  split_ifs
  · show (if data.length = 0 then _ else kcp.push data) = _
    rw [if_neg hdata, hpush]
  · rfl

theorem KCP.accepted_of_le (hpos : 0 < data.length) (hmss : data.length ≤ kcp.mss.toNat)
    (hwindow : 1 < kcp.sndWnd.toNat) : kcp.Accepted data := by
  have hone := KCP.fragments_of_le hpos hmss
  refine ⟨Nat.ne_of_gt hpos, fun hzero => ?_, hone ▸ hwindow, hone ▸ by decide⟩
  rw [hzero] at hmss
  exact absurd (Nat.lt_of_lt_of_le hpos hmss) (by decide)

/-- If a segment can be longer than a buffer, a single call of `Send` is enough. -/
theorem run_panic_of_long (hqueue : kcp.sndQueue = []) (hbuf : kcp.sndBuf = [])
    (hdead : kcp.dead = false) (hmss : mtuLimit < kcp.mss.toNat) (hwindow : 1 < kcp.sndWnd.toNat) :
    ∃ s, (sending kcp).Run (fun _ _ => True) s ∧ ¬ s.Sound := by
  obtain ⟨data, hlength⟩ : ∃ data : Bytes, data.length = mtuLimit + 1 :=
    ⟨List.replicate (mtuLimit + 1) 0, List.length_replicate⟩
  have hlong : mtuLimit < data.length := hlength ▸ Nat.lt_succ_self mtuLimit
  have hmss : data.length ≤ kcp.mss.toNat := hlength ▸ hmss
  have haccepted := KCP.accepted_of_le (Nat.zero_lt_of_lt hlong) hmss hwindow
  have hwait : kcp.waitSnd < kcp.sndWnd.toNat := by
    rw [KCP.waitSnd, hqueue, hbuf]
    exact Nat.zero_lt_of_lt hwindow
  have hadmits : (sending kcp).Admits (fun _ _ => True)
      [.check data, .put data, .recvOutput] (sending kcp).init :=
    ⟨⟨rfl, haccepted.check hdead hwait⟩, trivial, ⟨rfl, List.mem_cons_self⟩, trivial,
      ⟨rfl, List.cons_ne_nil _ _⟩, trivial, trivial⟩
  refine ⟨_, .of_admits .start hadmits, fun hsound => ?_⟩
  have hpanic : (Sender.recvOutput
      { kcp := kcp, callers := [data].erase data, outputCh := [data] }).panic =
        some .sliceBounds := by
    simp only [Sender.recvOutput, KCP.send_of_long hqueue hlong hmss]
  exact absurd (hpanic.symm.trans hsound.panic) (by simp)

end Long

/-- **Which options are safe.**  Take a session made with any options that `newSession` accepts.
In every run of its callers and of its `kcpLoop`, each `kcp.Send` for data that `Session.Send`
has accepted returns 0 and stays within the buffers, if and only if the MTU lies between 24 and
1524, or the send window accepts nothing at all. -/
theorem run_sound_iff {alloc : Int64 → Bool} {convId : UInt32} {opt : KcpOptions} {kcp : KCP}
    (hnew : KCP.newSession alloc convId opt = .ok kcp) :
    (∀ s, (sending kcp).Run (fun _ _ => True) s → s.Sound) ↔ opt.SegmentsFit := by
  obtain ⟨hmss, hwindow, hqueue, hbuf, hdead⟩ := KCP.newSession_spec hnew
  have hfits : opt.SegmentsFit ↔ kcp.mss.toNat ≤ mtuLimit ∨ kcp.sndWnd.toNat ≤ 1 := by
    rw [KcpOptions.SegmentsFit, ← hmss, ← hwindow]
    norm_cast
  rw [hfits]
  constructor
  · intro hsound
    by_contra hlong
    obtain ⟨hmss, hwindow⟩ := not_or.mp hlong
    obtain ⟨s, hrun, hunsound⟩ := run_panic_of_long hqueue hbuf hdead (Nat.lt_of_not_le hmss)
      (Nat.lt_of_not_le hwindow)
    exact hunsound (hsound s hrun)
  · intro hfits s hrun
    have hflows : Flows kcp s := hrun.invariant (flows_init hqueue)
      fun _ _ h henabled _ => h.step hfits henabled
    exact ⟨hflows.panic, hflows.results⟩

/-- The default MTU. -/
def usualOptions : KcpOptions where
  kcpSendWnd := 128
  kcpRecvWnd := 128
  kcpMtu := 1400
  kcpStreamMode := true

def usualKCP : KCP := { KCP.newKCP 7 with sndWnd := 128, rcvWnd := 128, stream := true }

def shortSend : List SendAction := [.check [1, 2, 3], .put [1, 2, 3], .recvOutput]

/-- The theorem after a call. -/
theorem run_sound_usual :
    ((sending usualKCP).after shortSend (sending usualKCP).init).results = [0] ∧
      ((sending usualKCP).after shortSend (sending usualKCP).init).Sound := by
  have hadmits : (sending usualKCP).Admits (fun _ _ => True) shortSend (sending usualKCP).init :=
    ⟨⟨rfl, by decide +kernel⟩, trivial, ⟨rfl, List.mem_cons_self⟩, trivial,
      ⟨rfl, List.cons_ne_nil _ _⟩, trivial, trivial⟩
  have hnew : KCP.newSession (fun _ => true) 7 usualOptions = .ok usualKCP := by decide +kernel
  exact ⟨by decide +kernel, (run_sound_iff hnew).mpr (by decide) _ (.of_admits .start hadmits)⟩

/-- With an MTU of 2000 a message of 1501 bytes brings the session down. -/
theorem run_panic_mtu_2000 :
    ∃ kcp, KCP.newSession (fun _ => true) 7 { usualOptions with kcpMtu := 2000 } = .ok kcp ∧
      ∃ s, (sending kcp).Run (fun _ _ => True) s ∧ ¬ s.Sound := by
  refine ⟨{ usualKCP with mtu := 2000, mss := 1976 }, by decide +kernel, ?_⟩
  exact run_panic_of_long rfl rfl rfl (by decide) (by decide)

end Gokit.Kcp
