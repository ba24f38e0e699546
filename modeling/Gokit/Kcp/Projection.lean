/-
# What a session sees of its end

A session reads and sends through `KCP`, which has only the part of the state that this needs.
`Endpoint` has all of it.  Here the two are compared: a session begins with the same `KCP`, and
whatever comes in is received in the same way, with the same result.
-/

import Gokit.Kcp.Datagram

namespace Gokit.Kcp

open Gokit.Math

/-- Two computations panic together, or return values that are related. -/
def Agree {σ τ : Type} (R : σ → τ → Prop) : Except Panic σ → Except Panic τ → Prop
  | .ok s, .ok t => R s t
  | .error panic, .error panic' => panic = panic'
  | _, _ => False

section Loop

variable {σ τ : Type} {R : σ → τ → Prop}

/-- The loop of `Input` keeps what every segment keeps. -/
theorem inputLoop_agree {conv : UInt32} {read : Head → Bytes → σ → Except Panic σ}
    {read' : Head → Bytes → τ → Except Panic τ}
    (hread : ∀ head bts s t, R s t → Agree R (read head bts s) (read' head bts t))
    (rounds : Nat) {s : σ} {t : τ} (h : R s t) (data : Bytes) :
    Agree (fun r r' => r.1 = r'.1 ∧ r.1 ≤ 0 ∧ R r.2 r'.2) (inputLoop conv read rounds s data)
      (inputLoop conv read' rounds t data) := by
  induction rounds generalizing s t data with
  | zero => exact ⟨rfl, Int.le_refl 0, h⟩
  | succ rounds ih =>
    simp only [inputLoop]
    split_ifs
    case neg =>
      have hnext := hread (decode data).1 ((data.drop overhead).take (decode data).2) s t h
      revert hnext
      cases read (decode data).1 ((data.drop overhead).take (decode data).2) s with
      | ok s' =>
        cases read' (decode data).1 ((data.drop overhead).take (decode data).2) t with
        | ok t' => exact fun hnext => ih hnext _
        | error panic => exact False.elim
      | error panic =>
        cases read' (decode data).1 ((data.drop overhead).take (decode data).2) t with
        | ok t' => exact False.elim
        | error panic' => exact fun hnext => hnext
    all_goals exact ⟨rfl, by simp, h⟩

end Loop

namespace Endpoint

/-- The end has received what the `KCP` has. -/
structure Mirrors (e : Endpoint) (kcp : KCP) : Prop where
  rcvNxt : e.rcvNxt = kcp.rcvNxt
  rcvWnd : e.rcvWnd = kcp.rcvWnd
  rcvQueue : e.rcvQueue = kcp.rcvQueue
  rcvBuf : e.rcvBuf = kcp.rcvBuf

/-- A session begins with the same `KCP`. -/
theorem base_newSession (alloc : Int64 → Bool) (convId : UInt32) (opt : Options) :
    (newSession alloc convId opt).map base = KCP.newSession alloc convId opt.toKcpOptions := by
  rw [newSession, setMtu, KCP.newSession, show (newKCP convId).base = KCP.newKCP convId from rfl]
  cases hset : (KCP.newKCP convId).setMtu alloc opt.kcpMtu with
  | error panic => rfl
  | ok result =>
    obtain ⟨mtu, mss, hresult, -⟩ := KCP.setMtu_spec hset
    obtain ⟨code, kcp⟩ := result
    cases hresult
    rfl

section Input

variable {e e' : Endpoint} {kcp : KCP} {acc : Arrival}

theorem parseData_mirrors (h : e.Mirrors kcp) (frg : UInt8) (sn : UInt32) (bts : Bytes) :
    Agree (fun k k' => k.rcvNxt = k'.rcvNxt ∧ kcp.rcvWnd = k'.rcvWnd ∧
        k.rcvQueue = k'.rcvQueue ∧ k.rcvBuf = k'.rcvBuf)
      (e.base.parseData frg sn bts) (kcp.parseData frg sn bts) := by
  have hnxt : e.base.rcvNxt = kcp.rcvNxt := h.rcvNxt
  have hwnd : e.base.rcvWnd = kcp.rcvWnd := h.rcvWnd
  have hqueue : e.base.rcvQueue = kcp.rcvQueue := h.rcvQueue
  have hbuf : e.base.rcvBuf = kcp.rcvBuf := h.rcvBuf
  unfold KCP.parseData
  rw [hnxt, hwnd, hbuf]
  split_ifs
  · exact ⟨hnxt, rfl, hqueue, hbuf⟩
  · simp only [Agree, KCP.moveAll, hnxt, hwnd, hqueue, hbuf, and_self]
  · cases Buffer.get bts with
    | error panic => rfl
    | ok data =>
      show _ ∧ _ ∧ _ ∧ _
      simp only [KCP.moveAll, hqueue, and_self]

theorem parseAck_mirrors (h : e.Mirrors kcp) (sn ts : UInt32) :
    ((e.parseAck sn).parseFastack sn ts).1.Mirrors kcp := by
  have hack : (e.parseAck sn).Mirrors kcp := by
    unfold parseAck
    split_ifs
    · exact h
    · exact { h with }
  unfold parseFastack
  split_ifs
  · exact hack
  · exact { hack with }

theorem obey_mirrors (h : e.Mirrors kcp) (head : Head) (bts : Bytes) :
    Agree (fun s k => s.1.Mirrors k) (obey e acc head bts) (kcp.receive head bts) := by
  -- only a segment that is pushed into the window changes anything
  have hother : ¬ (head.cmd = 81 ∧ itimediff head.sn (e.rcvNxt + e.rcvWnd) < 0 ∧
      itimediff head.sn e.rcvNxt ≥ 0) → kcp.receive head bts = .ok kcp := by
    rw [h.rcvNxt, h.rcvWnd]
    exact fun hnot => if_neg hnot
  unfold obey
  split_ifs with hack hpush hbelow habove
  · rw [hother fun hall => absurd (hack.symm.trans hall.1) (by decide)]
    exact parseAck_mirrors h head.sn head.ts
  · have hreceive : kcp.receive head bts = kcp.parseData head.frg head.sn bts := by
      rw [h.rcvNxt, h.rcvWnd] at hbelow
      rw [h.rcvNxt] at habove
      exact if_pos ⟨hpush, hbelow, habove⟩
    have hparse := parseData_mirrors h head.frg head.sn bts
    rw [hreceive]
    revert hparse
    cases e.base.parseData head.frg head.sn bts with
    | error panic => cases kcp.parseData head.frg head.sn bts <;> exact id
    | ok received =>
      cases kcp.parseData head.frg head.sn bts with
      | error panic => exact id
      | ok received' =>
        exact fun ⟨hnxt, hwnd, hqueue, hbuf⟩ => ⟨hnxt, h.rcvWnd.trans hwnd, hqueue, hbuf⟩
  · rw [hother fun hall => habove hall.2.2]
    exact { h with }
  · rw [hother fun hall => hbelow hall.2.1]
    exact h
  all_goals
    rw [hother fun hall => hpush hall.1]
    exact { h with }

theorem receive_mirrors (regular : Bool) (head : Head) (bts : Bytes) (h : e.Mirrors kcp) :
    Agree (fun s k => s.1.Mirrors k) (receive regular e acc head bts) (kcp.receive head bts) := by
  apply obey_mirrors
  cases regular <;> exact { h with }

variable {clock : Nat → UInt32} {out : List Bytes}

theorem flush_mirrors {full : Bool} {n : UInt32} (h : e.Mirrors kcp)
    (hflush : e.flush full clock = .ok (n, out, e')) : e'.Mirrors kcp := by
  obtain ⟨next, slots, planned, moved, hplan, hflushed, -⟩ := flushPlan_spec e full clock
  rw [flush, hplan] at hflush
  obtain ⟨r, -, hrest⟩ := bind_eq_ok_iff.mp hflush
  obtain rfl : planned = e' := (Prod.mk.inj (Prod.mk.inj (Except.ok.inj hrest)).2).2
  exact ⟨hflushed.rcvNxt.trans h.rcvNxt, hflushed.config.rcvWnd.trans h.rcvWnd,
    hflushed.rcvQueue.trans h.rcvQueue, hflushed.rcvBuf.trans h.rcvBuf⟩

theorem growCwnd_mirrors {before : UInt32} (h : e.Mirrors kcp)
    (hgrow : e.growCwnd before = .ok e') : e'.Mirrors kcp := by
  have hcap : ∀ cwnd incr : UInt32, Endpoint.Mirrors (if cwnd > e.rmtWnd then
      { e with cwnd := e.rmtWnd, incr := e.rmtWnd * e.mss } else { e with cwnd, incr }) kcp := by
    intro cwnd incr
    split_ifs <;> exact { h with }
  unfold growCwnd at hgrow
  split_ifs at hgrow
  · exact Except.ok.inj hgrow ▸ hcap _ _
  · dsimp only at hgrow
    by_cases hzero : (if e.incr < e.mss then e.mss else e.incr) = 0
    · rw [if_pos hzero] at hgrow
      cases hgrow
    · rw [if_neg hzero] at hgrow
      exact Except.ok.inj hgrow ▸ hcap _ _
  · exact Except.ok.inj hgrow ▸ h

theorem respond_mirrors {flushSegments ackNoDelay : Bool} (h : e.Mirrors kcp)
    (hrespond : e.respond flushSegments ackNoDelay clock = .ok (out, e')) : e'.Mirrors kcp := by
  unfold respond at hrespond
  split_ifs at hrespond
  case neg => exact (Prod.mk.inj (Except.ok.inj hrespond)).2 ▸ h
  all_goals
    obtain ⟨⟨n, out', flushed⟩, hflush, hrest⟩ := bind_eq_ok_iff.mp hrespond
    exact (Prod.mk.inj (Except.ok.inj hrest)).2 ▸ flush_mirrors h hflush

/-- **What comes in is received as `KCP` says.** -/
theorem input_mirrors {data : Bytes} {regular ackNoDelay : Bool} {now : UInt32} {code : Int}
    (hinput : e.input data regular ackNoDelay now clock = .ok (code, out, e')) :
    ∃ kcp, e.base.input data = .ok (code, kcp) ∧ e'.Mirrors kcp := by
  unfold input at hinput
  by_cases hshort : data.length < overhead
  · rw [if_pos hshort] at hinput
    cases hinput
    exact ⟨e.base, if_pos hshort, rfl, rfl, rfl, rfl⟩
  rw [if_neg hshort] at hinput
  obtain ⟨⟨code', received, acc⟩, hloop, hrest⟩ := bind_eq_ok_iff.mp hinput
  have hagree := @inputLoop_agree _ _ (fun s k => s.1.Mirrors k) e.conv _ _
    (fun head bts s k hs => @receive_mirrors s.1 k s.2 regular head bts hs) data.length
    (e, {}) e.base ⟨rfl, rfl, rfl, rfl⟩ data
  rw [hloop] at hagree
  rw [KCP.input, if_neg hshort]
  show ∃ kcp, inputLoop e.conv KCP.receive data.length e.base data = _ ∧ _
  revert hagree
  cases inputLoop e.conv KCP.receive data.length e.base data with
  | error panic => exact False.elim
  | ok r =>
    obtain ⟨code'', kcp⟩ := r
    rintro ⟨rfl, hcode, hmirrors⟩
    replace hrest : (if code' < 0 then _ else _) = _ := hrest
    by_cases hneg : code' < 0
    · rw [if_pos hneg] at hrest
      cases hrest
      exact ⟨kcp, rfl, hmirrors⟩
    · rw [if_neg hneg] at hrest
      obtain ⟨grown, hgrow, hrest⟩ := bind_eq_ok_iff.mp hrest
      obtain ⟨⟨out', replied⟩, hrespond, hrest⟩ := bind_eq_ok_iff.mp hrest
      cases hrest
      refine ⟨kcp, ?_, respond_mirrors (growCwnd_mirrors ?_ hgrow) hrespond⟩
      · rw [Int.le_antisymm hcode (Int.not_lt.mp hneg)]
      · split_ifs
        · exact { hmirrors with }
        · exact hmirrors

end Input

end Endpoint

end Gokit.Kcp
