/-
# Shutting down the writer of a connection

When the loop of a writer leaves, `beforeClose` waits for the write lock while handlers
that have the read lock may wait for room in the channel, which nobody empties any more.
The two then wait for each other for ever.  This happens iff the loop asks for the lock
when the channel has too little room for the handlers that are inside.

A call of `stop` uses the cancel function that the goroutine of the loop stores when it
is scheduled.  Before that it finds nothing, and its request is lost.
-/

import Gokit.Rpc.Writer

namespace Gokit.Rpc

open Gokit.Math

namespace SvrWriter

variable {B : Type}

/-! ## The loop and the handlers -/

section Deadlock

variable [DecidableEq B] {cap : Nat} {w : SvrWriter B}

/-- The loop waits for the write lock, and a handler that has the read lock waits for room
in the channel. -/
def Deadlocked (cap : Nat) (w : SvrWriter B) : Prop :=
  w.loop = .locking ∧ w.sending ≠ [] ∧ cap ≤ w.writeChan.length

instance (cap : Nat) (w : SvrWriter B) : Decidable (Deadlocked cap w) :=
  inferInstanceAs (Decidable (_ ∧ _ ∧ _))

/-- While the loop waits for the write lock and the writer is open, only handlers that
have the read lock can change what is in the channel. -/
theorem Deadlocked.next (hdead : Deadlocked cap w) (hinv : Inv cap w) (a : Action B)
    (henabled : (system cap).Enabled w a) : Deadlocked cap ((system cap).next w a) := by
  obtain ⟨hloop, hsending, hfull⟩ := hdead
  have hopen : w.closed = false := hinv.isOpen (congrArg Loop.pastClose hloop)
  have hdead : Deadlocked cap w := ⟨hloop, hsending, hfull⟩
  cases a with
  | rlock buffer => exact hdead
  | checkClosed buffer =>
    show Deadlocked cap (w.checkClosed buffer)
    rw [checkClosed_of_open hopen]
    exact ⟨hloop, List.cons_ne_nil _ _, hfull⟩
  | send buffer =>
    rcases henabled.2 with hroom | hclosed
    · omega
    · rw [hinv.chan, hopen] at hclosed
      cases hclosed
  | runlock => exact hdead
  | locked => exact absurd henabled.2.2.1 hsending
  | stop =>
    show Deadlocked cap w.stop
    unfold SvrWriter.stop
    split
    all_goals exact hdead
  | cancel => exact hdead
  | serverCancel => exact hdead
  | connClosed => exact hdead
  | leave => simp [system, hloop, Loop.isSelecting] at henabled
  | receive => simp [system, hloop, Loop.isSelecting] at henabled
  | append => simp [system, hloop, Loop.isAppending] at henabled
  | look => simp [system, hloop, Loop.isLooking] at henabled
  | flush ok => simp [system, hloop, Loop.isFlushing] at henabled
  | start => exact absurd (hloop.symm.trans henabled) (by simp)
  | closeConn => exact absurd (hloop.symm.trans henabled) (by simp)
  | lock => exact absurd (hloop.symm.trans henabled) (by simp)
  | close => exact absurd (hloop.symm.trans henabled) (by simp)
  | drain => exact absurd (hloop.symm.trans henabled) (by simp)
  | lastFlush ok => exact absurd (hloop.symm.trans henabled) (by simp)

/-- Nobody resolves a deadlock: it is there in all later states. -/
theorem Deadlocked.forever (hdead : Deadlocked cap w) (hinv : Inv cap w) {later : SvrWriter B}
    {ok : SvrWriter B → Action B → Prop}
    (hrun : ({ system cap with init := w } : System (SvrWriter B) (Action B)).Run ok later) :
    Inv cap later ∧ Deadlocked cap later := by
  induction hrun with
  | start => exact ⟨hinv, hdead⟩
  | @step s a _ henabled _ ih => exact ⟨ih.1.next a henabled, ih.2.next ih.1 a henabled⟩

/-- When `beforeClose` calls `Lock`, the channel has room for every handler that has the
read lock and has not sent. -/
def HasRoom (cap : Nat) (w : SvrWriter B) (a : Action B) : Prop :=
  a = .lock → w.entered.length + w.sending.length + w.writeChan.length ≤ cap

instance (cap : Nat) (w : SvrWriter B) (a : Action B) : Decidable (HasRoom cap w a) :=
  inferInstanceAs (Decidable (_ → _))

/-- The room is still there while the loop waits, since it keeps new readers out. -/
def KeepsRoom (cap : Nat) (w : SvrWriter B) : Prop :=
  w.loop = .locking → w.entered.length + w.sending.length + w.writeChan.length ≤ cap

theorem KeepsRoom.checkClosed (hroom : KeepsRoom cap w) {buffer : B}
    (hmem : buffer ∈ w.entered) : KeepsRoom cap (w.checkClosed buffer) := by
  have hpos : 0 < w.entered.length := List.length_pos_of_mem hmem
  have herase : (w.entered.erase buffer).length = w.entered.length - 1 :=
    List.length_erase_of_mem hmem
  unfold SvrWriter.checkClosed KeepsRoom
  split
  all_goals
    intro hloop
    have := hroom hloop
    simp only [List.length_cons]
    omega

theorem KeepsRoom.send (hroom : KeepsRoom cap w) {buffer : B} (hmem : buffer ∈ w.sending) :
    KeepsRoom cap (w.send buffer) := by
  have hpos : 0 < w.sending.length := List.length_pos_of_mem hmem
  have herase : (w.sending.erase buffer).length = w.sending.length - 1 :=
    List.length_erase_of_mem hmem
  unfold SvrWriter.send
  split
  case isTrue => exact hroom
  case isFalse =>
    intro hloop
    have := hroom hloop
    simp only [List.length_append, List.length_singleton]
    omega

theorem KeepsRoom.next (hroom : KeepsRoom cap w) (a : Action B)
    (henabled : (system cap).Enabled w a) (hok : HasRoom cap w a) :
    KeepsRoom cap ((system cap).next w a) := by
  cases hloop : a.ofLoop with
  | true =>
    rcases next_of_ofLoop hloop henabled with rfl | rfl | ⟨ok, rfl⟩ | ⟨hlocking, -⟩
    · exact fun _ => hok rfl
    · show KeepsRoom cap w.close
      unfold SvrWriter.close
      split
      · exact fun h => nomatch h
      · cases hactive : w.active <;> exact fun h => nomatch h
    · exact fun h => nomatch h
    · exact fun h => absurd h hlocking
  | false =>
    cases a with
    | rlock buffer =>
      intro hlocking
      have hfree : w.loop.locksOut = false := henabled
      rw [show w.loop = .locking from hlocking] at hfree
      cases hfree
    | checkClosed buffer => exact hroom.checkClosed henabled
    | send buffer => exact hroom.send henabled.1
    | runlock => exact hroom
    | cancel => exact hroom
    | serverCancel => exact hroom
    | connClosed => exact hroom
    | stop =>
      show KeepsRoom cap w.stop
      unfold SvrWriter.stop
      split
      all_goals exact hroom
    | _ => cases hloop

/-- **With room in the channel shutting down does not deadlock.** -/
theorem not_deadlocked (hrun : (system cap).Run (HasRoom cap) w) : ¬ Deadlocked cap w := by
  intro ⟨hloop, hsending, hfull⟩
  have hroom : KeepsRoom cap w :=
    hrun.invariant (fun h => nomatch h) fun _ a h henabled hok => h.next a henabled hok
  have := hroom hloop
  have := List.length_pos_of_ne_nil hsending
  omega

/-- Too many handlers for the room in the channel fill it while the loop waits, and one
of them is left over. -/
theorem deadlock_of_locking {n : Nat} (hrun : (system cap).Run (fun _ _ => True) w)
    (hloop : w.loop = .locking)
    (htoo : cap < w.entered.length + w.sending.length + w.writeChan.length)
    (hn : 2 * w.entered.length + w.sending.length = n) :
    ∃ w' : SvrWriter B, (system cap).Run (fun _ _ => True) w' ∧ Deadlocked cap w' := by
  -- every step of a handler towards its send lowers `n`
  induction n using Nat.strong_induction_on generalizing w with
  | _ n ih =>
    have hinv : Inv cap w := run_inv hrun
    have hopen : w.closed = false := hinv.isOpen (congrArg Loop.pastClose hloop)
    cases hsending : w.sending with
    | cons buffer rest =>
      by_cases hfull : cap ≤ w.writeChan.length
      · exact ⟨w, hrun, hloop, hsending ▸ List.cons_ne_nil _ _, hfull⟩
      have hmem : buffer ∈ w.sending := hsending ▸ List.mem_cons_self
      have hrun' : (system cap).Run (fun _ _ => True) (w.send buffer) :=
        hrun.step (a := Action.send buffer) ⟨hmem, .inl (Nat.lt_of_not_le hfull)⟩ trivial
      have hpos : 0 < w.sending.length := List.length_pos_of_mem hmem
      have herase : (w.sending.erase buffer).length = w.sending.length - 1 :=
        List.length_erase_of_mem hmem
      rw [send_of_open (hinv.chan.trans hopen)] at hrun'
      refine ih _ ?_ hrun' hloop ?_ rfl
      · show 2 * w.entered.length + (w.sending.erase buffer).length < n
        omega
      · show cap < w.entered.length + (w.sending.erase buffer).length +
          (w.writeChan ++ [buffer]).length
        rw [List.length_append, List.length_singleton]
        omega
    | nil =>
      -- the channel alone is not too full, so somebody has entered
      have hpos : 0 < w.entered.length := by
        have := hinv.bounded
        rw [hsending, List.length_nil] at htoo
        omega
      obtain ⟨buffer, hmem⟩ := List.exists_mem_of_length_pos hpos
      have hrun' : (system cap).Run (fun _ _ => True) (w.checkClosed buffer) :=
        hrun.step (a := Action.checkClosed buffer) hmem trivial
      have herase : (w.entered.erase buffer).length = w.entered.length - 1 :=
        List.length_erase_of_mem hmem
      rw [checkClosed_of_open hopen] at hrun'
      refine ih _ ?_ hrun' hloop ?_ rfl
      · show 2 * (w.entered.erase buffer).length + (w.sending.length + 1) < n
        omega
      · show cap < (w.entered.erase buffer).length + (w.sending.length + 1) + w.writeChan.length
        omega

/-- The condition cannot be weakened: without room when `Lock` is called, a deadlock can
follow. -/
theorem deadlock_of_not_hasRoom (hrun : (system cap).Run (fun _ _ => True) w)
    (hlock : (system cap).Enabled w .lock) (hroom : ¬ HasRoom cap w .lock) :
    ∃ w' : SvrWriter B, (system cap).Run (fun _ _ => True) w' ∧ Deadlocked cap w' := by
  have htoo : cap < w.entered.length + w.sending.length + w.writeChan.length :=
    Nat.lt_of_not_le fun h => hroom fun _ => h
  exact deadlock_of_locking (hrun.step hlock trivial) rfl htoo rfl

end Deadlock

/-- A handler that has the read lock finds room although the loop waits already. -/
theorem not_deadlocked_with_room :
    ∃ w, (system (B := Nat) 2).Run (HasRoom 2) w ∧ w.loop = .locking ∧ w.sending = [8] ∧
      w.writeChan = [7] ∧ ¬ Deadlocked 2 w := by
  let actions : List (Action Nat) :=
    [.start, .rlock 7, .checkClosed 7, .send 7, .rlock 8, .stop, .cancel, .leave, .lock,
      .checkClosed 8]
  have hrun : (system (B := Nat) 2).Run (HasRoom 2) ((system 2).after actions (system 2).init) :=
    System.Run.start.of_admits (by decide +kernel)
  exact ⟨_, hrun, by decide +kernel, by decide +kernel, by decide +kernel, not_deadlocked hrun⟩

/-- The channel is full when the loop is stopped, and a second handler is in its send:
the loop and the handler wait for each other for ever. -/
theorem stop_deadlocks :
    ∃ w, (system (B := Nat) 1).Run (fun _ _ => True) w ∧ w.loop = .locking ∧ w.sending = [8] ∧
      w.writeChan = [7] ∧
      ∀ later, ({ system 1 with init := w } : System (SvrWriter Nat) (Action Nat)).Run
        (fun _ _ => True) later → Deadlocked 1 later := by
  let actions : List (Action Nat) :=
    [.start, .rlock 7, .checkClosed 7, .send 7, .runlock, .rlock 8, .checkClosed 8, .stop, .cancel,
      .leave, .lock]
  have hrun : (system (B := Nat) 1).Run (fun _ _ => True)
      ((system 1).after actions (system 1).init) :=
    System.Run.start.of_admits (by decide +kernel)
  have hdead : Deadlocked 1 ((system 1).after actions (system 1).init) := by decide +kernel
  exact ⟨_, hrun, by decide +kernel, by decide +kernel, by decide +kernel,
    fun _ hlater => (hdead.forever (run_inv hrun) hlater).2⟩

/-! ## Calls of `stop` -/

section Stop

variable [DecidableEq B] {cap : Nat} {w : SvrWriter B}

/-- A call of `stop` has returned, and the loop runs on with a context that the call has
not cancelled. -/
def StopLost (w : SvrWriter B) : Prop := 0 < w.stopped ∧ w.loop.running = true ∧ w.cancelled = false

/-- `stop` is called when the loop has stored its cancel function. -/
def StopsStored (w : SvrWriter B) (a : Action B) : Prop := a = .stop → w.stored = true

instance (w : SvrWriter B) (a : Action B) : Decidable (StopsStored w a) :=
  inferInstanceAs (Decidable (_ → _))

/-- Every call of `stop` that has returned has cancelled the context. -/
def StopsReach (w : SvrWriter B) : Prop := 0 < w.stopped → w.cancelled = true

theorem StopsReach.next (hreach : StopsReach w) (a : Action B) (hok : StopsStored w a) :
    StopsReach ((system cap).next w a) := by
  by_cases hstop : a = .stop
  · subst hstop
    show StopsReach w.stop
    rw [SvrWriter.stop, if_pos (hok rfl)]
    exact hreach
  by_cases hcancel : a = .cancel
  · subst hcancel
    exact fun _ => rfl
  obtain ⟨hstopped, hcancelled⟩ := (next_frame cap w a).stops hstop hcancel
  intro h
  rw [hcancelled]
  exact hreach (hstopped ▸ h)

/-- **A call of `stop` that finds the cancel function is not lost.**  Its return leaves
the context cancelled, and a loop that waits can leave. -/
theorem stop_reaches (hrun : (system cap).Run StopsStored w) :
    ¬ StopLost w ∧
      (0 < w.stopped → w.loop.isSelecting = true → (system cap).Enabled w .leave) := by
  have hreach : StopsReach w := hrun.invariant (fun h => nomatch h) fun _ a h _ hok => h.next a hok
  refine ⟨fun ⟨hstopped, _, hcancelled⟩ => ?_, fun hstopped hselecting => ⟨hselecting, ?_⟩⟩
  · rw [hreach hstopped] at hcancelled
    cases hcancelled
  · rw [ctxDone, hreach hstopped, Bool.or_true]

end Stop

/-- The connection is closed while the loop waits: the call of `stop` lets it leave. -/
theorem stop_reaches_waiting :
    ∃ w, (system (B := Nat) 1).Run StopsStored w ∧ w.active = false ∧ w.stopped = 1 ∧
      w.loop = .selecting 0 ∧ ¬ StopLost w ∧ (system 1).Enabled w .leave := by
  let actions : List (Action Nat) := [.start, .connClosed, .stop, .cancel]
  have hrun : (system (B := Nat) 1).Run StopsStored ((system 1).after actions (system 1).init) :=
    System.Run.start.of_admits (by decide +kernel)
  have hreach := stop_reaches hrun
  exact ⟨_, hrun, by decide +kernel, by decide +kernel, by decide +kernel, hreach.1,
    hreach.2 (by decide +kernel) (by decide +kernel)⟩

/-- The connection is closed before the goroutine of the loop has been scheduled: `stop`
finds nothing to call, and the loop waits with a context nobody has cancelled. -/
theorem stop_lost :
    ∃ w, (system (B := Nat) 1).Run (fun _ _ => True) w ∧ w.active = false ∧ StopLost w ∧
      w.loop = .selecting 0 ∧ w.writeChan = [] ∧ w.stopping = 0 ∧ w.ctxDone = false := by
  let actions : List (Action Nat) := [.connClosed, .stop, .start]
  have hrun : (system (B := Nat) 1).Run (fun _ _ => True)
      ((system 1).after actions (system 1).init) :=
    System.Run.start.of_admits (by decide +kernel)
  exact ⟨_, hrun, by decide +kernel, ⟨by decide +kernel, by decide +kernel, by decide +kernel⟩,
    by decide +kernel, by decide +kernel, by decide +kernel, by decide +kernel⟩

end SvrWriter

end Gokit.Rpc
