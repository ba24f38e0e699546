/-
# Synchronous calls and the lock

`onRecvMsg` sends the response of a synchronous call with `mtx` held, and may have to wait
there for room in the channel.  `syncCallWait` takes its call out of `waitRsps` under `mtx`
and closes the channel after that.

In the system of `Defs` the lookup and the send are one step.  Here they are two, the lock
is held in between, and a send on a closed channel is a step like any other, which panics.
Every run of this system is a run of the other one, no send finds its channel closed, and
what a call returns has its number.
-/

import Gokit.Rpc.Delivery

namespace Gokit.Rpc

open Gokit.Math

/-! ## The system -/

/-- `syncCallWait` has closed its channel. -/
def Pc.closedRet : Pc → Bool
  | .done _ => true
  | _ => false

/-- The steps that are made with `mtx` held. -/
def Action.usesMtx (opts : CallId → CallOption) : Action → Bool
  | .register c _ => (opts c).kind ≠ .asyncNoResp
  | .deregister _ | .recv _ | .sweepKey _ => true
  | _ => false

structure LockedClient where
  conn : Client := {}
  /-- the receiver that holds `mtx`, about to send a response to a synchronous call -/
  sending : Option (CallInfo × Response) := none
  /-- a response was sent on a closed channel -/
  panicked : Bool := false

inductive LockedAction
  /-- a step of `Client`, but not a response for a synchronous call -/
  | step (a : Action)
  /-- `onRecvMsg` takes `mtx` and finds a synchronous call -/
  | lookUp (msg : Response)
  /-- it sends the response and releases `mtx` -/
  | send
  deriving DecidableEq, Repr

namespace LockedClient

variable (opts : CallId → CallOption)

def Enabled (s : LockedClient) : LockedAction → Prop
  | .step a => s.conn.Enabled a ∧ (a.usesMtx opts = true → s.sending = none) ∧
      ∀ msg, a = .recv msg → ∀ info, s.conn.waitRsps msg.seq = some info → info.sync = false
  | .lookUp msg => s.sending = none ∧
      ∃ info, s.conn.waitRsps msg.seq = some info ∧ info.sync = true
  | .send => ∃ info msg, s.sending = some (info, msg) ∧
      (s.conn.syncRet info.owner = none ∨ (s.conn.pc info.owner).closedRet = true)

def send (s : LockedClient) (info : CallInfo) (msg : Response) : LockedClient :=
  if (s.conn.pc info.owner).closedRet then { s with panicked := true }
  else
    { s with
      conn := { s.conn.noteArrival msg with
        syncRet := Function.update s.conn.syncRet info.owner (some msg) }
      sending := none }

def next (s : LockedClient) : LockedAction → LockedClient
  | .step a => { s with conn := s.conn.next opts a }
  | .lookUp msg => { s with sending := (s.conn.waitRsps msg.seq).map (·, msg) }
  | .send =>
    match s.sending with
    | some (info, msg) => s.send info msg
    | none => s

/-- No number is reused while a call with it is pending. -/
def NoReuse (s : LockedClient) : LockedAction → Prop
  | .step a => s.conn.NoReuse a
  | _ => True

end LockedClient

/-- A connection whose receivers take the lock and send in two steps. -/
def lockedClient (opts : CallId → CallOption) : System LockedClient LockedAction where
  init := {}
  Enabled := LockedClient.Enabled opts
  next := LockedClient.next opts

/-! ## Refinement -/

namespace Client

variable {opts : CallId → CallOption} {st st' : Client} {c : CallId} {msg : Response}

/-- Without `mtx` the table is not changed. -/
theorem waitRsps_next {a : Action} (hmtx : a.usesMtx opts = false) :
    (st.next opts a).waitRsps = st.waitRsps := by
  cases a with
  | register c nowMs =>
    have hkind : (opts c).kind = .asyncNoResp := by simpa [Action.usesMtx] using hmtx
    simp only [next, Client.register, hkind]
    rfl
  | swap c =>
    simp only [next, Client.swap]
    split <;> rfl
  | closeRet c =>
    simp only [next, Client.closeRet]
    split <;> rfl
  | startRead =>
    obtain ⟨_, _, h⟩ := st.timerStep_startRead
    simp only [next, h]
  | takeSignal =>
    obtain ⟨_, _, h⟩ := st.timerStep_takeSignal
    simp only [next, h]
  | readLeft =>
    obtain ⟨_, _, h⟩ := st.timerStep_readLeft
    simp only [next, h]
  | rearm =>
    obtain ⟨_, _, h⟩ := st.timerStep_rearm
    simp only [next, h]
  | sweepEnd nowMs =>
    simp only [next, Client.sweepEnd]
    split <;> rfl
  | sendTimeout =>
    simp only [next, Client.sendTimeout]
    split
    · split <;> rfl
    · rfl
  | deregister c => cases hmtx
  | recv msg => cases hmtx
  | sweepKey order => cases hmtx
  | _ => rfl

/-- The channel of a call that lies in `waitRsps` is open. -/
theorem Books.closedRet_eq_false (hst : Books opts st) {x : UInt32} {info : CallInfo}
    (hentry : st.waitRsps x = some info) (hsync : info.sync = true) :
    (st.pc info.owner).closedRet = false := by
  have hwait := (hst.entry x info hentry).2.2 hsync
  cases hpc : st.pc info.owner with
  | done ret =>
    rw [hpc] at hwait
    cases hwait
  | _ => rfl

end Client

namespace LockedClient

variable {opts : CallId → CallOption} {s : LockedClient}

/-- What the lock protects: the call that a receiver has found stays in the table. -/
structure Refines (opts : CallId → CallOption) (s : LockedClient) : Prop where
  run : (client opts).Run Client.NoReuse s.conn
  found : ∀ info msg, s.sending = some (info, msg) →
    s.conn.waitRsps msg.seq = some info ∧ info.sync = true
  panicked : s.panicked = false

theorem Refines.step (hs : Refines opts s) {a : Action} (henabled : s.Enabled opts (.step a))
    (hok : s.conn.NoReuse a) : Refines opts { s with conn := s.conn.next opts a } where
  run := hs.run.step henabled.1 hok
  found := by
    intro info msg hsending
    have hmtx : a.usesMtx opts = false := by
      refine eq_false_of_ne_true fun hmtx => ?_
      rw [henabled.2.1 hmtx] at hsending
      cases hsending
    show (s.conn.next opts a).waitRsps msg.seq = some info ∧ _
    rw [Client.waitRsps_next hmtx]
    exact hs.found info msg hsending
  panicked := hs.panicked

theorem Refines.lookUp (hs : Refines opts s) {msg : Response}
    (henabled : s.Enabled opts (.lookUp msg)) : Refines opts (s.next opts (.lookUp msg)) where
  run := hs.run
  found := by
    obtain ⟨_, info, hentry, hsync⟩ := henabled
    intro info' msg' hsending
    have hsending : (s.conn.waitRsps msg.seq).map (·, msg) = some (info', msg') := hsending
    rw [hentry] at hsending
    cases hsending
    exact ⟨hentry, hsync⟩
  panicked := hs.panicked

/-- The send is the step in which the other system handles the response. -/
theorem Refines.send (hs : Refines opts s) (henabled : s.Enabled opts .send) :
    Refines opts (s.next opts .send) := by
  obtain ⟨info, msg, hsending, hready⟩ := henabled
  obtain ⟨hentry, hsync⟩ := hs.found info msg hsending
  have hbooks : Client.Books opts s.conn := Client.run_books (fun _ _ h => h) hs.run
  have hopen := hbooks.closedRet_eq_false hentry hsync
  have hnext : s.next opts .send = { s with conn := s.conn.recv msg, sending := none } := by
    simp only [next, hsending, LockedClient.send, hopen, Client.recv_eq_of_sync hentry hsync]
    rfl
  have henabled : (client opts).Enabled s.conn (.recv msg) := by
    intro info' hentry' _
    rw [hentry] at hentry'
    rw [← Option.some.inj hentry']
    exact hready.resolve_right (ne_true_of_eq_false hopen)
  rw [hnext]
  exact ⟨hs.run.step henabled trivial, nofun, hs.panicked⟩

theorem run_refines (hrun : (lockedClient opts).Run NoReuse s) : Refines opts s := by
  refine hrun.invariant ⟨.start, nofun, rfl⟩ fun s a hs henabled hok => ?_
  cases a with
  | step a => exact hs.step henabled hok
  | lookUp msg => exact hs.lookUp henabled
  | send => exact hs.send henabled

end LockedClient

/-! ## Which response a call returns -/

namespace Client

variable {opts : CallId → CallOption} {st st' : Client} {c : CallId} {msg : Response}

/-- Whatever has got to a synchronous call has its number. -/
structure SyncSeq (st : Client) : Prop where
  slot : ∀ c msg, st.syncRet c = some msg → st.pc c ≠ .idle ∧ msg.seq = st.seq c
  taken : ∀ c msg, (st.pc c).taken = some msg → msg.seq = st.seq c

theorem syncSeq_init : ({} : Client).SyncSeq := ⟨nofun, nofun⟩

/-- A step of `Invoke` after which the call has what it had, or a response with its number. -/
theorem SyncSeq.caller (hst : st.SyncSeq) {pc : Pc} (hpc : st'.pc = Function.update st.pc c pc)
    (hseq : st'.seq = st.seq) (hsync : st'.syncRet = st.syncRet) (hidle : pc ≠ .idle)
    (htaken : ∀ msg, pc.taken = some msg → msg.seq = st.seq c) : st'.SyncSeq := by
  constructor
  · rw [hpc, hseq, hsync]
    intro d msg hslot
    refine ⟨?_, (hst.slot d msg hslot).2⟩
    by_cases hd : d = c
    · rw [hd, Function.update_self]
      exact hidle
    · rw [Function.update_of_ne hd]
      exact (hst.slot d msg hslot).1
  · rw [hpc, hseq]
    exact (Function.forall_update_iff st.pc
      (fun c pc => ∀ msg, pc.taken = some msg → msg.seq = st.seq c)).mpr
      ⟨htaken, fun d _ => hst.taken d⟩

theorem SyncSeq.other (hst : st.SyncSeq) (hpc : st'.pc = st.pc) (hseq : st'.seq = st.seq)
    (hsync : st'.syncRet = st.syncRet) : st'.SyncSeq := by
  constructor
  · rw [hpc, hseq, hsync]
    exact hst.slot
  · rw [hpc, hseq]
    exact hst.taken

theorem SyncSeq.timerStep (hst : st.SyncSeq) (hstep : st.TimerStep st') : st'.SyncSeq := by
  obtain ⟨trig, proc, rfl⟩ := hstep
  exact hst.other rfl rfl rfl

/-- A call that gets its number has received nothing yet. -/
theorem SyncSeq.begin (hst : st.SyncSeq) (hpc : st.pc c = .idle) : (st.begin c).SyncSeq := by
  have hother : ∀ d, d ≠ c → (st.begin c).pc d = st.pc d ∧ (st.begin c).seq d = st.seq d :=
    fun d hd => ⟨Function.update_of_ne hd .., Function.update_of_ne hd ..⟩
  constructor
  · intro d msg hslot
    have hd : d ≠ c := by
      rintro rfl
      exact (hst.slot d msg hslot).1 hpc
    rw [(hother d hd).1, (hother d hd).2]
    exact hst.slot d msg hslot
  · intro d msg htaken
    by_cases hd : d = c
    · have hbegun : (st.begin c).pc d = .begun := by
        rw [hd]
        exact Function.update_self ..
      rw [hbegun] at htaken
      cases htaken
    · rw [(hother d hd).2]
      rw [(hother d hd).1] at htaken
      exact hst.taken d msg htaken

theorem SyncSeq.takeRet (hst : st.SyncSeq) (c : CallId) : (st.takeRet c).SyncSeq := by
  constructor
  · intro d msg hslot
    by_cases hd : d = c
    · have hempty : (st.takeRet c).syncRet d = none := by
        rw [hd]
        exact Function.update_self ..
      rw [hempty] at hslot
      cases hslot
    · have hold : (st.takeRet c).syncRet d = st.syncRet d := Function.update_of_ne hd ..
      have hpc : (st.takeRet c).pc d = st.pc d := Function.update_of_ne hd ..
      rw [hold] at hslot
      rw [hpc]
      exact hst.slot d msg hslot
  · exact (Function.forall_update_iff st.pc
      (fun c pc => ∀ msg, pc.taken = some msg → msg.seq = st.seq c)).mpr
      ⟨fun msg hslot => (hst.slot c msg hslot).2, fun d _ => hst.taken d⟩

/-- A response goes to the call that is entered under its number. -/
theorem SyncSeq.recv (hst : st.SyncSeq) (hbooks : Books opts st) : (st.recv msg).SyncSeq := by
  cases hentry : st.waitRsps msg.seq with
  | none =>
    simp only [Client.recv, hentry]
    exact hst.other rfl rfl rfl
  | some info =>
    cases hsync : info.sync with
    | false =>
      rw [recv_eq_of_async hentry hsync]
      exact hst.other rfl rfl rfl
    | true =>
      obtain ⟨hseq, hvalid, _⟩ := hbooks.entry _ _ hentry
      rw [recv_eq_of_sync hentry hsync]
      refine ⟨?_, hst.taken⟩
      apply (Function.forall_update_iff st.syncRet
        (fun c ret => ∀ msg, ret = some msg → st.pc c ≠ .idle ∧ msg.seq = st.seq c)).mpr
      refine ⟨fun msg' hmsg' => ⟨?_, ?_⟩, fun d _ => hst.slot d⟩
      · intro hidle
        have hregistered := hvalid.registered
        rw [hidle] at hregistered
        cases hregistered
      · rw [← Option.some.inj hmsg']
        exact hseq.symm

theorem SyncSeq.step (hst : st.SyncSeq) (hbooks : Books opts st) {a : Action}
    (henabled : st.Enabled a) : (st.next opts a).SyncSeq := by
  cases a with
  | begin c => exact hst.begin henabled
  | write c => exact hst.caller rfl rfl rfl nofun nofun
  | writeFails c => exact hst.caller rfl rfl rfl nofun nofun
  | register c nowMs =>
    show (st.register opts c nowMs).SyncSeq
    unfold Client.register
    split
    · exact hst.caller rfl rfl rfl nofun nofun
    · refine hst.caller rfl rfl rfl ?_ ?_ <;> split <;> nofun
    · exact hst.caller rfl rfl rfl nofun nofun
  | insert c => exact hst.caller rfl rfl rfl nofun nofun
  | swap c =>
    show (st.swap c).SyncSeq
    unfold Client.swap
    split <;> exact hst.caller rfl rfl rfl nofun nofun
  | post c => exact hst.caller rfl rfl rfl nofun nofun
  | takeRet c => exact hst.takeRet c
  | ctxDone c => exact hst.caller rfl rfl rfl nofun nofun
  | lastLook c => exact hst.caller rfl rfl rfl nofun nofun
  | deregister c =>
    obtain ⟨ret, hpc⟩ := henabled
    show (st.deregister c).SyncSeq
    rw [deregister_of_leaving hpc]
    refine hst.caller rfl rfl rfl nofun fun msg hmsg => hst.taken c msg ?_
    rw [hpc]
    exact hmsg
  | closeRet c =>
    obtain ⟨ret, hpc⟩ := henabled
    show (st.closeRet c).SyncSeq
    rw [closeRet_of_closing hpc]
    refine hst.caller rfl rfl rfl nofun fun msg hmsg => hst.taken c msg ?_
    rw [hpc]
    exact hmsg
  | recv msg => exact hst.recv hbooks
  | startRead => exact hst.timerStep timerStep_startRead
  | takeSignal => exact hst.timerStep timerStep_takeSignal
  | readLeft => exact hst.timerStep timerStep_readLeft
  | rearm => exact hst.timerStep timerStep_rearm
  | sweepKey order =>
    show (st.sweepKey order).SyncSeq
    unfold Client.sweepKey
    split <;> exact hst.other rfl rfl rfl
  | sweepEnd nowMs =>
    show (st.sweepEnd nowMs).SyncSeq
    unfold Client.sweepEnd
    split <;> exact hst.other rfl rfl rfl
  | sendTimeout =>
    show st.sendTimeout.SyncSeq
    unfold Client.sendTimeout
    split
    · split <;> exact hst.other rfl rfl rfl
    · exact hst
  | tidy held => exact hst.other rfl rfl rfl
  | deliver held => exact hst.other rfl rfl rfl
  | fire nowMs => exact hst.other rfl rfl rfl
  | close => exact hst.other rfl rfl rfl
  | quit => exact hst.other rfl rfl rfl

theorem run_syncSeq (hrun : (client opts).Run NoReuse st) : st.SyncSeq :=
  hrun.invariant_of (fun _ h => run_books (fun _ _ h => h) h) syncSeq_init
    fun _ _ hbooks hs henabled _ => hs.step hbooks henabled

/-- A call that has returned is not in the table. -/
theorem Books.owner_ne_of_done (hst : Books opts st) {ret : Option Response}
    (hdone : st.pc c = .done ret) {x : UInt32} {info : CallInfo}
    (hentry : st.waitRsps x = some info) : info.owner ≠ c := by
  rintro rfl
  have hopen := (hst.entry_pending hentry).1
  rw [hdone] at hopen
  cases hopen

end Client

/-- **Synchronous calls are safe**, in every run that reuses no number while a call with it is
pending: no response is sent on a closed channel, and none is about to be; what a call returns
has its number; a call that has returned is not in `waitRsps`, not even under a number that
is in use again; and when all calls are over, `waitRsps` is empty. -/
theorem run_sync_calls (opts : CallId → CallOption) {s : LockedClient}
    (hrun : (lockedClient opts).Run LockedClient.NoReuse s) :
    s.panicked = false ∧
    (∀ info msg, s.sending = some (info, msg) → (s.conn.pc info.owner).closedRet = false) ∧
    (∀ c msg, s.conn.pc c = .done (some msg) → msg.seq = s.conn.seq c) ∧
    (∀ c ret, s.conn.pc c = .done ret →
      ∀ info, s.conn.waitRsps (s.conn.seq c) = some info → info.owner ≠ c) ∧
    ((∀ c, (s.conn.pc c).isOpen = false) → ∀ x, s.conn.waitRsps x = none) := by
  have hs := LockedClient.run_refines hrun
  have hbooks : Client.Books opts s.conn := Client.run_books (fun _ _ h => h) hs.run
  have hseq := Client.run_syncSeq hs.run
  refine ⟨hs.panicked, ?_, ?_, ?_, ?_⟩
  · intro info msg hsending
    obtain ⟨hentry, hsync⟩ := hs.found info msg hsending
    exact hbooks.closedRet_eq_false hentry hsync
  · intro c msg hdone
    apply hseq.taken c msg
    rw [hdone]
    rfl
  · exact fun c ret hdone info hentry => hbooks.owner_ne_of_done hdone hentry
  · intro hclosed x
    cases hentry : s.conn.waitRsps x with
    | none => rfl
    | some info =>
      have hopen := (hbooks.entry_pending hentry).1
      rw [hclosed info.owner] at hopen
      cases hopen

/-- The response comes twice.  The second receiver waits with `mtx` held until the call has
taken the first one, and the call is deregistered after that. -/
theorem run_sync_calls_twice :
    ∃ s, (lockedClient Client.allSync).Run LockedClient.NoReuse s ∧
      s.conn.pc 0 = .done (some ⟨1, 0⟩) ∧ s.panicked = false ∧ s.conn.waitRsps 1 = none := by
  let actions : List LockedAction :=
    [.step (.begin 0), .step (.write 0), .step (.register 0 1), .lookUp ⟨1, 0⟩, .send,
      .lookUp ⟨1, 0⟩, .step (.takeRet 0), .send, .step (.deregister 0), .step (.closeRet 0)]
  have hrun : (lockedClient Client.allSync).Run LockedClient.NoReuse
      ((lockedClient Client.allSync).after actions {}) := by
    refine System.Run.of_admits .start ?_
    exact ⟨⟨rfl, fun _ => rfl, nofun⟩, fun d hd => (nomatch hd.1),
      ⟨⟨rfl, rfl⟩, fun _ => rfl, nofun⟩, trivial,
      ⟨⟨rfl, by decide⟩, fun _ => rfl, nofun⟩, trivial,
      ⟨rfl, _, rfl, rfl⟩, trivial, ⟨_, _, rfl, .inl rfl⟩, trivial,
      ⟨rfl, _, rfl, rfl⟩, trivial,
      ⟨⟨.inl rfl, nofun⟩, nofun, nofun⟩, trivial, ⟨_, _, rfl, .inl rfl⟩, trivial,
      ⟨⟨_, rfl⟩, fun _ => rfl, nofun⟩, trivial, ⟨⟨_, rfl⟩, nofun, nofun⟩, trivial, trivial⟩
  exact ⟨_, hrun, rfl, (run_sync_calls _ hrun).1, rfl⟩

end Gokit.Rpc
