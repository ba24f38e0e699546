/-
# What a session delivers

`onRead` gives a datagram to `kcp.Input` and then takes the messages that are complete, one
after the other, and hands each to the handler.  It does this ten times at most.  A datagram
that fills a gap in the sequence can complete more messages than that, and nothing looks at
the queue again before the next datagram comes in.

The messages of a `KCP` are what `Recv` returns when it is called until nothing is left.  One
call of `Recv` removes the first of them, so that the loop delivers the first ten.
-/

import Gokit.Kcp.Protocol
import Mathlib.Data.List.TakeDrop

namespace Gokit.Kcp

open Gokit.Math

namespace KCP

/-! ## The loop of a session -/

def maxProcess : Nat := 10

/-- `Recv` into a slice of the length that `PeekSize` has returned. -/
def received (kcp : KCP) : Int × Bytes × KCP := kcp.recv kcp.peekSize.toNat

/-- The loop of `onRead`, with what was handed to the handler before. -/
def process (handler : List Bytes → Bytes → Bool) : Nat → List Bytes → KCP → List Bytes × KCP
  | 0, seen, kcp => (seen, kcp)
  | rounds + 1, seen, kcp =>
    if kcp.peekSize < 0 then (seen, kcp)
    else if handler seen kcp.received.2.1 then
      process handler rounds (seen ++ [kcp.received.2.1]) kcp.received.2.2
    else (seen ++ [kcp.received.2.1], kcp.received.2.2)

/-- `onRead`: what is handed to the handler, and the state it leaves behind. -/
def onRead (handler : List Bytes → Bytes → Bool) (kcp : KCP) (data : Bytes) :
    Except Panic (List Bytes × KCP) := do
  let result ← kcp.input data
  .ok (if result.1 < 0 then ([], result.2) else process handler maxProcess [] result.2)

/-! ## The messages that can be received -/

/-- What `Recv` returns when it is called as often as is granted. -/
def messagesFrom : Nat → KCP → List Bytes
  | 0, _ => []
  | calls + 1, kcp =>
    if kcp.peekSize < 0 then []
    else kcp.received.2.1 :: messagesFrom calls kcp.received.2.2

/-- The number of segments that were received. -/
def held (kcp : KCP) : Nat := kcp.rcvQueue.length + kcp.rcvBuf.length

/-- The messages that can be received, one after the other. -/
def messages (kcp : KCP) : List Bytes := messagesFrom kcp.held kcp

/-- The handler has been given every message that `received` holds, in order and once each, and
no complete message is left. -/
def Delivered (received : KCP) (result : Except Panic (List Bytes × KCP)) : Prop :=
  ∃ kcp, result = .ok (received.messages, kcp) ∧ kcp.peekSize < 0

section Messages

variable {kcp : KCP}

theorem length_moveAvailable (wnd : Nat) (queue buf : List Segment) (nxt : UInt32) :
    (moveAvailable wnd queue nxt buf).1.length + (moveAvailable wnd queue nxt buf).2.2.length =
      queue.length + buf.length := by
  induction buf generalizing queue nxt with
  | nil => rfl
  | cons seg buf ih =>
    rw [moveAvailable]
    split_ifs with h
    · rw [ih, List.length_append, List.length_cons, List.length_cons]
      simp +arith
    · rfl

@[simp]
theorem held_moveAll (kcp : KCP) : kcp.moveAll.held = kcp.held := length_moveAvailable ..

theorem length_popMessage (segs : List Segment) :
    (popMessage segs).1.length + (popMessage segs).2.length = segs.length := by
  induction segs with
  | nil => rfl
  | cons seg rest ih =>
    rw [popMessage]
    split_ifs
    · simp [Nat.add_comm]
    · simp only [List.length_cons]
      omega

theorem popMessage_ne_nil (seg : Segment) (rest : List Segment) :
    (popMessage (seg :: rest)).1 ≠ [] := by
  rw [popMessage]
  split_ifs <;> simp

theorem peekSize_of_nil (hqueue : kcp.rcvQueue = []) : kcp.peekSize = -1 := by
  rw [peekSize, hqueue]

theorem peekSize_of_cons {seg : Segment} {rest : List Segment}
    (hqueue : kcp.rcvQueue = seg :: rest) :
    kcp.peekSize =
      if seg.frg = 0 then (seg.data.bts.length : Int)
      else if (seg :: rest).length < (seg.frg + 1).toNat then -1
      else ((content (popMessage (seg :: rest)).1).length : Int) := by
  rw [peekSize, hqueue]

theorem rcvQueue_ne_nil (hpeek : 0 ≤ kcp.peekSize) : kcp.rcvQueue ≠ [] := by
  intro hnil
  rw [peekSize_of_nil hnil] at hpeek
  exact absurd hpeek (by decide)

theorem received_of_nonneg (hpeek : 0 ≤ kcp.peekSize) :
    kcp.received =
      (((content (popMessage kcp.rcvQueue).1).length : Int), content (popMessage kcp.rcvQueue).1,
        { kcp with rcvQueue := (popMessage kcp.rcvQueue).2 }.moveAll) := by
  have hfits : ¬ kcp.peekSize > (kcp.peekSize.toNat : Int) := by omega
  rw [received, recv, if_neg (Int.not_lt.mpr hpeek), if_neg hfits]

/-- `Recv` takes at least one segment away. -/
theorem held_received (hpeek : 0 ≤ kcp.peekSize) : kcp.received.2.2.held < kcp.held := by
  obtain ⟨seg, rest, hqueue⟩ := List.exists_cons_of_ne_nil (rcvQueue_ne_nil hpeek)
  have hsum := length_popMessage kcp.rcvQueue
  have hpos : 0 < (popMessage kcp.rcvQueue).1.length := by
    rw [hqueue]
    exact List.length_pos_of_ne_nil (popMessage_ne_nil seg rest)
  rw [received_of_nonneg hpeek, held_moveAll, held, held]
  show (popMessage kcp.rcvQueue).2.length + kcp.rcvBuf.length < _
  omega

theorem messages_of_neg (hpeek : kcp.peekSize < 0) : kcp.messages = [] := by
  rw [messages]
  cases kcp.held with
  | zero => rfl
  | succ n => rw [messagesFrom, if_pos hpeek]

/-- It does not matter how many calls are granted beyond those that can succeed. -/
theorem messagesFrom_of_le {calls : Nat} (hcalls : kcp.held ≤ calls) :
    messagesFrom calls kcp = kcp.messages := by
  induction calls using Nat.strong_induction_on generalizing kcp with
  | _ calls ih =>
    by_cases hpeek : kcp.peekSize < 0
    · rw [messages_of_neg hpeek]
      cases calls with
      | zero => rfl
      | succ n => rw [messagesFrom, if_pos hpeek]
    · have hheld := held_received (Int.not_lt.mp hpeek)
      obtain ⟨n, rfl⟩ := Nat.exists_eq_add_of_lt (Nat.lt_of_lt_of_le hheld hcalls)
      obtain ⟨k, hk⟩ := Nat.exists_eq_add_of_lt hheld
      rw [messages, hk, messagesFrom, messagesFrom, if_neg hpeek, if_neg hpeek,
        ih _ (Nat.lt_succ_self _) (Nat.le_add_right _ _),
        ih (kcp.received.2.2.held + k) (by omega) (Nat.le_add_right _ _)]

/-- `Recv` returns the first message and leaves the others. -/
theorem messages_of_nonneg (hpeek : 0 ≤ kcp.peekSize) :
    kcp.messages = kcp.received.2.1 :: kcp.received.2.2.messages := by
  obtain ⟨n, hn⟩ := Nat.exists_eq_add_of_lt (held_received hpeek)
  rw [messages, hn, messagesFrom, if_neg (Int.not_lt.mpr hpeek),
    messagesFrom_of_le (Nat.le_add_right _ _)]

theorem messages_eq_nil_iff : kcp.messages = [] ↔ kcp.peekSize < 0 := by
  constructor
  · intro hnil
    by_contra hpeek
    rw [messages_of_nonneg (Int.not_lt.mp hpeek)] at hnil
    cases hnil
  · exact messages_of_neg

end Messages

/-! ## Messages and segments -/

/-- The segments of one message: their numbers count down to zero. -/
def Numbered : Nat → List Segment → Prop
  | 0, segs => segs = []
  | count + 1, segs => ∃ seg rest, segs = seg :: rest ∧ seg.frg = UInt8.ofNat count ∧
      Numbered count rest

/-! ## Ten messages -/

section Process

variable {handler : List Bytes → Bytes → Bool} (hhandler : ∀ seen message, handler seen message)
include hhandler

/-- The loop delivers as many messages as it has rounds, and leaves the others. -/
theorem process_spec (rounds : Nat) (seen : List Bytes) (kcp : KCP) :
    ∃ kcp', process handler rounds seen kcp = (seen ++ kcp.messages.take rounds, kcp') ∧
      kcp'.messages = kcp.messages.drop rounds := by
  induction rounds generalizing seen kcp with
  | zero => exact ⟨kcp, by simp [process], rfl⟩
  | succ rounds ih =>
    by_cases hpeek : kcp.peekSize < 0
    · refine ⟨kcp, ?_, ?_⟩
      · rw [process, if_pos hpeek, messages_of_neg hpeek]
        simp
      · rw [messages_of_neg hpeek]
        rfl
    · have hmessages := messages_of_nonneg (Int.not_lt.mp hpeek)
      obtain ⟨kcp', hprocess, hrest⟩ := ih (seen ++ [kcp.received.2.1]) kcp.received.2.2
      refine ⟨kcp', ?_, ?_⟩
      · rw [process, if_neg hpeek, if_pos (hhandler ..), hprocess, hmessages]
        simp
      · rw [hrest, hmessages, List.drop_succ_cons]

end Process

/-- **When a session delivers everything.**  Take any state of a session, and any datagram that
`kcp.Input` accepts.  If the handler always answers `true`, then `onRead` hands every complete
message to it, in order and once each, and leaves none behind, if and only if there are at most
ten of them. -/
theorem onRead_delivered_iff {handler : List Bytes → Bytes → Bool} {kcp received : KCP}
    {data : Bytes} {ok : Int} (hinput : kcp.input data = .ok (ok, received)) (hok : 0 ≤ ok)
    (hhandler : ∀ seen message, handler seen message) :
    Delivered received (kcp.onRead handler data) ↔ received.messages.length ≤ 10 := by
  obtain ⟨kcp', hprocess, hrest⟩ := process_spec hhandler maxProcess [] received
  have honRead : kcp.onRead handler data = .ok (received.messages.take 10, kcp') := by
    rw [onRead, hinput]
    show Except.ok (if ok < 0 then _ else _) = _
    rw [if_neg (Int.not_lt.mpr hok), hprocess]
    rfl
  rw [Delivered, honRead]
  constructor
  · rintro ⟨final, hfinal, -⟩
    have hall : received.messages.take 10 = received.messages :=
      (Prod.mk.inj (Except.ok.inj hfinal)).1
    exact (List.take_eq_self_iff _).mp hall
  · intro hfew
    refine ⟨kcp', by rw [List.take_of_length_le hfew], ?_⟩
    rw [← messages_eq_nil_iff, hrest]
    exact List.drop_of_length_le hfew

/-- A message of one byte, in a segment of its own. -/
def oneByte (n : Nat) : Segment where
  sn := UInt32.ofNat n
  data := ⟨[UInt8.ofNat n], Nat.le_of_ble_eq_true rfl⟩

/-- A first message comes in. -/
theorem onRead_delivered_one :
    Delivered { newKCP 7 with rcvNxt := 1, rcvQueue := [oneByte 0] }
      ((newKCP 7).onRead (fun _ _ => true) (datagram 7 32 0 0 [oneByte 0])) :=
  (onRead_delivered_iff (by decide +kernel) (Int.le_refl 0) fun _ _ => rfl).mpr
    (by decide +kernel)

/-- The segments with the numbers from 1 to 10 have come in, and 0 is missing. -/
def waiting : KCP := { newKCP 7 with rcvBuf := (List.range' 1 10).map oneByte }

/-- What has come in when 0 follows. -/
def complete : KCP := { newKCP 7 with rcvNxt := 11, rcvQueue := (List.range 11).map oneByte }

/-- Ten messages wait for the segment that comes first.  When it comes, the loop delivers ten of
the eleven. -/
theorem onRead_leaves_eleventh :
    (newKCP 7).onRead (fun _ _ => true) (datagram 7 32 0 0 ((List.range' 1 10).map oneByte)) =
        .ok ([], waiting) ∧
      waiting.input (datagram 7 32 0 0 [oneByte 0]) = .ok (0, complete) ∧
      ¬ Delivered complete (waiting.onRead (fun _ _ => true) (datagram 7 32 0 0 [oneByte 0])) := by
  refine ⟨by decide +kernel, by decide +kernel, ?_⟩
  rintro ⟨left, hleft, -⟩
  have hseen : waiting.onRead (fun _ _ => true) (datagram 7 32 0 0 [oneByte 0]) =
      .ok ((List.range 10).map fun n => [UInt8.ofNat n],
        { newKCP 7 with rcvNxt := 11, rcvQueue := [oneByte 10] }) := by
    decide +kernel
  have hall : complete.messages = (List.range 11).map fun n => [UInt8.ofNat n] := by
    decide +kernel
  rw [hseen, hall] at hleft
  have hsame := (Prod.mk.inj (Except.ok.inj hleft)).1
  exact absurd hsame (by decide)

end KCP

end Gokit.Kcp
