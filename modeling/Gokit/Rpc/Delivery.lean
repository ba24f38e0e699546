/-
# Which responses reach their call

`Invoke` writes the request first and enters the call into `waitRsps` afterwards.
A response that arrives in between finds nobody and is dropped; the call then
waits in vain.  This module has that run, and shows that it is the only way to
lose a response: if every response arrives after its call has registered, every
response that is in time reaches its call.

Two conditions on the reuse of numbers are needed besides.  A response must not
find a later call under its number, and a number must not be given out while a
deadline of an earlier call still names it, for the sweep of that deadline would
take the new call out of `waitRsps`.
-/

import Gokit.Rpc.Tracking

namespace Gokit.Rpc

open Gokit.Math

namespace Pc

/-- `syncCallWait` is in one of its two `select` statements. -/
def inSelect : Pc → Bool
  | .waiting | .givingUp => true
  | _ => false

/-- What `syncCallWait` has received from its channel. -/
def taken : Pc → Option Response
  | .leaving ret | .closing ret | .done ret => ret
  | _ => none

def isWritten : Pc → Bool
  | .idle | .begun | .failed => false
  | _ => true

variable {pc : Pc} {kind : CallKind}

theorem isOpen_of_inSelect (hselect : pc.inSelect = true) : pc.isOpen = true := by
  cases pc <;> simp_all [inSelect, isOpen]

theorem kind_sync_of_inSelect (hsuits : pc.suits kind) (hselect : pc.inSelect = true) :
    kind = .sync := by
  cases pc <;> simp_all [inSelect, suits]

/-- A registered synchronous call is in its `select` or has left it. -/
theorem sync_cases (hsuits : pc.suits .sync) (hregistered : pc.isRegistered = true) :
    pc.inSelect = true ∨ pc ∈ [.leaving none, .closing none, .done none] ∨
      ∃ msg, pc.taken = some msg := by
  cases pc with
  | leaving ret | closing ret | done ret => cases ret <;> simp [taken]
  | _ => simp_all [suits, isRegistered, inSelect]

end Pc

namespace Client

variable {opts : CallId → CallOption} {st st' : Client} {c d : CallId} {msg : Response}

/-! ## The assumptions -/

/-- The server answers requests that have been written, under their number. -/
def Answers (st : Client) : Action → Prop
  | .recv msg => (st.pc msg.origin).isWritten = true ∧ st.seq msg.origin = msg.seq
  | _ => True

/-- A deadline names the number, or is about to be entered for it. -/
def Marked (st : Client) (x : UInt32) : Prop :=
  (∃ key, st.timeouts.Has key x) ∨ ∃ d, st.pc d = .registered ∧ st.seq d = x

/-- A response arrives after its call has registered or timed out, and while no
other pending call has its number; a number is given out only if no pending call
and no deadline has it. -/
def Orderly (opts : CallId → CallOption) (st : Client) : Action → Prop
  | .begin c => st.NoReuse (.begin c) ∧ ¬ st.Marked (st.genMsgId + 1)
  | .recv msg =>
    st.seq msg.origin = msg.seq ∧ (∀ d, st.Pending d → st.seq d = msg.seq → d = msg.origin) ∧
      ((opts msg.origin).kind ≠ .asyncNoResp → ¬ st.TimedOut msg.origin →
        (st.pc msg.origin).isRegistered = true)
  | _ => True

variable {a : Action}

theorem Orderly.noReuse (horderly : Orderly opts st a) : st.NoReuse a := by
  cases a with
  | begin c => exact horderly.1
  | _ => trivial

/-! ## A response that has reached a call -/

/-- The steps of `processTimeout` outside a sweep that send nothing. -/
def TimerStep (st st' : Client) : Prop := ∃ trig proc, st' = { st with trig := trig, proc := proc }

theorem timerStep_startRead : st.TimerStep st.startRead := by
  unfold Client.startRead
  split <;> exact ⟨_, _, rfl⟩

theorem timerStep_takeSignal : st.TimerStep st.takeSignal := by
  unfold Client.takeSignal
  split <;> exact ⟨_, _, rfl⟩

theorem timerStep_readLeft : st.TimerStep st.readLeft := by
  unfold Client.readLeft
  split
  · split <;> exact ⟨_, _, rfl⟩
  · exact ⟨_, _, rfl⟩

theorem timerStep_rearm : st.TimerStep st.rearm := by
  unfold Client.rearm
  split <;> exact ⟨_, _, rfl⟩

/-- The response has reached the call: it lies in the channel the call reads
from, or has been received from it; for an asynchronous call, a receiver is about
to send it, or has. -/
def Reached (st : Client) (c : CallId) (msg : Response) : Prop :=
  (st.syncRet c = some msg ∧ (st.pc c).inSelect = true) ∨ (st.pc c).taken = some msg ∨
    (∃ held ∈ st.tidying, held.info.owner = c ∧ held.msg = msg) ∨
    (∃ held ∈ st.delivering, held.info.owner = c ∧ held.msg = msg) ∨
    ∃ result ∈ st.results c, result.verdict = .response msg

/-- The call has been given the response the server sent to it. -/
def Delivered (st : Client) (c : CallId) : Prop := ∃ msg, msg.origin = c ∧ st.Reached c msg

/-- A step of `Invoke` does not lose what the call has received. -/
theorem Reached.setPc (hreached : st.Reached c msg) {old : Pc} (hpc : st.pc d = old) (pc : Pc)
    (hselect : old.inSelect = true → st.syncRet d = some msg → pc.inSelect = true)
    (htaken : old.taken = some msg → pc.taken = some msg) : (st.setPc d pc).Reached c msg := by
  subst hpc
  by_cases hd : c = d
  · subst hd
    have hself : (st.setPc c pc).pc c = pc := Function.update_self ..
    unfold Reached
    rw [hself]
    rcases hreached with ⟨hsync, h⟩ | h | h
    · exact .inl ⟨hsync, hselect h hsync⟩
    · exact .inr (.inl (htaken h))
    · exact .inr (.inr h)
  · have hother : (st.setPc d pc).pc c = st.pc c := Function.update_of_ne hd ..
    unfold Reached
    rw [hother]
    exact hreached

theorem Reached.takeRet (hreached : st.Reached c msg) (hselect : (st.pc d).inSelect = true) :
    (st.takeRet d).Reached c msg := by
  by_cases hd : c = d
  · subst hd
    have hself : (st.takeRet c).pc c = .leaving (st.syncRet c) := Function.update_self ..
    unfold Reached
    rw [hself]
    rcases hreached with ⟨hsync, -⟩ | h | h
    · exact .inr (.inl hsync)
    · cases hpc : st.pc c <;> simp_all [Pc.inSelect, Pc.taken]
    · exact .inr (.inr h)
  · have hother : (st.takeRet d).pc c = st.pc c := Function.update_of_ne hd ..
    have hsync : (st.takeRet d).syncRet c = st.syncRet c := Function.update_of_ne hd ..
    unfold Reached
    rw [hother, hsync]
    exact hreached

theorem Reached.recv (hreached : st.Reached c msg) {arriving : Response}
    (henabled : st.Enabled (.recv arriving)) : (st.recv arriving).Reached c msg := by
  unfold Client.recv
  cases hentry : st.waitRsps arriving.seq with
  | none => exact hreached
  | some info =>
    by_cases hsync : info.sync = true
    · simp only [hsync, if_true]
      have hfree := henabled info hentry hsync
      rcases hreached with ⟨h, hselect⟩ | h
      · left
        refine ⟨?_, hselect⟩
        have hne : c ≠ info.owner := by
          intro hc
          rw [hc, hfree] at h
          cases h
        rw [← h]
        exact Function.update_of_ne hne ..
      · exact .inr h
    · simp only [hsync]
      rcases hreached with h | h | ⟨held, hheld, h⟩ | h
      · exact .inl h
      · exact .inr (.inl h)
      · exact .inr (.inr (.inl ⟨held, List.mem_cons_of_mem _ hheld, h⟩))
      · exact .inr (.inr (.inr h))

theorem mem_erase_or_eq (held : Held) {other : Held} {list : List Held} (hmem : other ∈ list) :
    other ∈ list.erase held ∨ other = held := by
  by_cases hsame : other = held
  · exact .inr hsame
  · exact .inl ((List.mem_erase_of_ne hsame).mpr hmem)

theorem Reached.tidy (hreached : st.Reached c msg) (held : Held) :
    (st.tidy held).Reached c msg := by
  rcases hreached with h | h | ⟨other, hother, h⟩ | ⟨other, hother, h⟩ | h
  · exact .inl h
  · exact .inr (.inl h)
  · rcases mem_erase_or_eq held hother with hleft | rfl
    · exact .inr (.inr (.inl ⟨other, hleft, h⟩))
    · exact .inr (.inr (.inr (.inl ⟨other, List.mem_cons_self, h⟩)))
  · exact .inr (.inr (.inr (.inl ⟨other, List.mem_cons_of_mem _ hother, h⟩)))
  · exact .inr (.inr (.inr (.inr h)))

variable {info : CallInfo}

theorem mem_sendResult_of_mem {verdict : Verdict} {result : AsyncCallResult}
    (hmem : result ∈ st.results c) : result ∈ st.sendResult info verdict c := by
  rw [sendResult_apply]
  exact List.mem_append_left _ hmem

theorem Reached.deliver (hreached : st.Reached c msg) (held : Held) :
    (st.deliver held).Reached c msg := by
  rcases hreached with h | h | h | ⟨other, hother, howner, hmsg⟩ | ⟨result, hresult, h⟩
  · exact .inl h
  · exact .inr (.inl h)
  · exact .inr (.inr (.inl h))
  · rcases mem_erase_or_eq held hother with hleft | rfl
    · exact .inr (.inr (.inr (.inl ⟨other, hleft, howner, hmsg⟩)))
    · refine .inr (.inr (.inr (.inr
        ⟨⟨.response other.msg, other.info.passThrough⟩, ?_, by rw [hmsg]⟩)))
      show _ ∈ st.sendResult other.info (.response other.msg) c
      rw [sendResult_apply, if_pos howner]
      exact List.mem_append_right _ List.mem_cons_self
  · exact .inr (.inr (.inr (.inr ⟨result, mem_sendResult_of_mem hresult, h⟩)))

theorem Reached.sendTimeout (hreached : st.Reached c msg) : st.sendTimeout.Reached c msg := by
  unfold Client.sendTimeout
  split
  · split
    · exact hreached
    · rcases hreached with h | h | h | h | ⟨result, hresult, h⟩
      · exact .inl h
      · exact .inr (.inl h)
      · exact .inr (.inr (.inl h))
      · exact .inr (.inr (.inr (.inl h)))
      · exact .inr (.inr (.inr (.inr ⟨result, mem_sendResult_of_mem hresult, h⟩)))
  · exact hreached

theorem Reached.timerStep (hreached : st.Reached c msg) (hstep : st.TimerStep st') :
    st'.Reached c msg := by
  obtain ⟨trig, proc, rfl⟩ := hstep
  exact hreached

/-- **What has reached a call is not lost again.** -/
theorem Reached.step (hreached : st.Reached c msg) (henabled : st.Enabled a) :
    (st.next opts a).Reached c msg := by
  cases a with
  | begin d => exact hreached.setPc henabled .begun nofun nofun
  | write d => exact hreached.setPc henabled.1 .written nofun nofun
  | writeFails d => exact hreached.setPc henabled .failed nofun nofun
  | register d nowMs =>
    show (st.register opts d nowMs).Reached c msg
    unfold Client.register
    split
    all_goals exact hreached.setPc henabled.1 _ nofun nofun
  | insert d => exact hreached.setPc henabled.1 .inserted nofun nofun
  | swap d =>
    show (st.swap d).Reached c msg
    unfold Client.swap
    split
    all_goals exact hreached.setPc henabled _ nofun nofun
  | post d => exact hreached.setPc henabled .returned nofun nofun
  | takeRet d =>
    apply hreached.takeRet
    rcases henabled.1 with hpc | hpc
    all_goals
      rw [hpc]
      rfl
  | ctxDone d => exact hreached.setPc henabled .givingUp (fun _ _ => rfl) nofun
  | lastLook d =>
    refine hreached.setPc henabled.1 (.leaving none) (fun _ hsync => ?_) nofun
    rw [henabled.2] at hsync
    cases hsync
  | deregister d =>
    obtain ⟨ret, hpc⟩ := henabled
    show (st.deregister d).Reached c msg
    rw [deregister_of_leaving hpc]
    exact hreached.setPc hpc (.closing ret) nofun fun h => h
  | closeRet d =>
    obtain ⟨ret, hpc⟩ := henabled
    show (st.closeRet d).Reached c msg
    rw [closeRet_of_closing hpc]
    exact hreached.setPc hpc (.done ret) nofun fun h => h
  | recv arriving => exact hreached.recv henabled
  | tidy held => exact hreached.tidy held
  | deliver held => exact hreached.deliver held
  | startRead => exact hreached.timerStep timerStep_startRead
  | takeSignal => exact hreached.timerStep timerStep_takeSignal
  | readLeft => exact hreached.timerStep timerStep_readLeft
  | fire nowMs => exact hreached
  | sweepKey order =>
    show (st.sweepKey order).Reached c msg
    unfold Client.sweepKey
    split <;> exact hreached
  | sweepEnd nowMs =>
    show (st.sweepEnd nowMs).Reached c msg
    unfold Client.sweepEnd
    split <;> exact hreached
  | sendTimeout => exact hreached.sendTimeout
  | rearm => exact hreached.timerStep timerStep_rearm
  | close => exact hreached
  | quit => exact hreached

/-! ## A call is given its own response only -/

/-- Whatever is under way to a call, or has got there, is its own response. -/
structure Own (st : Client) : Prop where
  syncRet : ∀ c msg, st.syncRet c = some msg → msg.origin = c
  taken : ∀ c msg, (st.pc c).taken = some msg → msg.origin = c
  tidying : ∀ held ∈ st.tidying, held.msg.origin = held.info.owner
  delivering : ∀ held ∈ st.delivering, held.msg.origin = held.info.owner
  results : ∀ c, ∀ result ∈ st.results c, ∀ msg, result.verdict = .response msg → msg.origin = c

theorem own_init : ({} : Client).Own where
  syncRet := nofun
  taken := nofun
  tidying := nofun
  delivering := nofun
  results := nofun

theorem Own.origin_eq (hst : st.Own) (hreached : st.Reached c msg) : msg.origin = c := by
  rcases hreached with ⟨h, -⟩ | h | ⟨held, hheld, howner, hmsg⟩ | ⟨held, hheld, howner, hmsg⟩ |
    ⟨result, hresult, h⟩
  · exact hst.syncRet c msg h
  · exact hst.taken c msg h
  · rw [← hmsg, ← howner]
    exact hst.tidying held hheld
  · rw [← hmsg, ← howner]
    exact hst.delivering held hheld
  · exact hst.results c result hresult msg h

/-- A step of `Invoke` after which the call has received its own response, if any. -/
theorem Own.caller (hst : st.Own) {pc : Pc} (hpc : st'.pc = Function.update st.pc c pc)
    (hsync : st'.syncRet = st.syncRet) (htidying : st'.tidying = st.tidying)
    (hdelivering : st'.delivering = st.delivering) (hresults : st'.results = st.results)
    (htaken : ∀ msg, pc.taken = some msg → msg.origin = c) : st'.Own where
  syncRet := hsync ▸ hst.syncRet
  taken := by
    rw [hpc]
    exact (Function.forall_update_iff st.pc
      (fun c pc => ∀ msg, pc.taken = some msg → msg.origin = c)).mpr
      ⟨htaken, fun d _ => hst.taken d⟩
  tidying := htidying ▸ hst.tidying
  delivering := hdelivering ▸ hst.delivering
  results := hresults ▸ hst.results

/-- A step that no response is part of. -/
theorem Own.other (hst : st.Own) (hpc : st'.pc = st.pc) (hsync : st'.syncRet = st.syncRet)
    (htidying : st'.tidying = st.tidying) (hdelivering : st'.delivering = st.delivering)
    (hresults : st'.results = st.results) : st'.Own where
  syncRet := hsync ▸ hst.syncRet
  taken := hpc ▸ hst.taken
  tidying := htidying ▸ hst.tidying
  delivering := hdelivering ▸ hst.delivering
  results := hresults ▸ hst.results

theorem Own.takeRet (hst : st.Own) (c : CallId) : (st.takeRet c).Own where
  syncRet := (Function.forall_update_iff st.syncRet
    (fun c ret => ∀ msg, ret = some msg → msg.origin = c)).mpr ⟨nofun, fun d _ => hst.syncRet d⟩
  taken := (Function.forall_update_iff st.pc
    (fun c pc => ∀ msg, pc.taken = some msg → msg.origin = c)).mpr
      ⟨hst.syncRet c, fun d _ => hst.taken d⟩
  tidying := hst.tidying
  delivering := hst.delivering
  results := hst.results

/-- A result that is the call's own response, or no response. -/
theorem Own.results_sendResult (hst : st.Own) {verdict : Verdict}
    (hown : ∀ msg, verdict = .response msg → msg.origin = info.owner) :
    ∀ c, ∀ result ∈ st.sendResult info verdict c, ∀ msg,
      result.verdict = .response msg → msg.origin = c := by
  intro c result hresult msg hmsg
  rw [sendResult_apply, List.mem_append] at hresult
  rcases hresult with hold | hnew
  · exact hst.results c result hold msg hmsg
  · by_cases hc : info.owner = c
    · rw [if_pos hc, List.mem_singleton] at hnew
      rw [hnew] at hmsg
      rw [← hc]
      exact hown msg hmsg
    · rw [if_neg hc] at hnew
      cases hnew

/-- A response is handed to the call it is for: the entry under its number is
that of a pending call. -/
theorem Own.recv (hst : st.Own) (hbooks : Books opts st)
    (hfresh : ∀ d, st.Pending d → st.seq d = msg.seq → d = msg.origin) : (st.recv msg).Own := by
  unfold Client.recv
  cases hentry : st.waitRsps msg.seq with
  | none => exact hst.other rfl rfl rfl rfl rfl
  | some info =>
    have howner : info.owner = msg.origin :=
      hfresh _ (hbooks.entry_pending hentry) (hbooks.entry _ _ hentry).1
    by_cases hsync : info.sync = true
    · simp only [hsync, if_true]
      refine ⟨?_, hst.taken, hst.tidying, hst.delivering, hst.results⟩
      apply (Function.forall_update_iff st.syncRet
        (fun c ret => ∀ msg, ret = some msg → msg.origin = c)).mpr
      exact ⟨fun _ h => by rw [howner, ← Option.some.inj h], fun d _ => hst.syncRet d⟩
    · simp only [hsync]
      refine ⟨hst.syncRet, hst.taken, fun held hheld => ?_, hst.delivering, hst.results⟩
      rcases List.mem_cons.mp hheld with rfl | hold
      · exact howner.symm
      · exact hst.tidying held hold

theorem Own.tidy (hst : st.Own) {held : Held} (hmem : held ∈ st.tidying) : (st.tidy held).Own where
  syncRet := hst.syncRet
  taken := hst.taken
  tidying other hother := hst.tidying other (List.mem_of_mem_erase hother)
  delivering other hother := by
    rcases List.mem_cons.mp hother with rfl | hold
    · exact hst.tidying other hmem
    · exact hst.delivering other hold
  results := hst.results

theorem Own.deliver (hst : st.Own) {held : Held} (hmem : held ∈ st.delivering) :
    (st.deliver held).Own where
  syncRet := hst.syncRet
  taken := hst.taken
  tidying := hst.tidying
  delivering other hother := hst.delivering other (List.mem_of_mem_erase hother)
  results := hst.results_sendResult fun msg hmsg => by
    rw [← Verdict.response.inj hmsg]
    exact hst.delivering held hmem

theorem Own.timerStep (hst : st.Own) (hstep : st.TimerStep st') : st'.Own := by
  obtain ⟨trig, proc, rfl⟩ := hstep
  exact hst.other rfl rfl rfl rfl rfl

theorem Own.step (hst : st.Own) (hbooks : Books opts st) (henabled : st.Enabled a)
    (horderly : Orderly opts st a) : (st.next opts a).Own := by
  cases a with
  | begin c => exact hst.caller rfl rfl rfl rfl rfl nofun
  | write c => exact hst.caller rfl rfl rfl rfl rfl nofun
  | writeFails c => exact hst.caller rfl rfl rfl rfl rfl nofun
  | register c nowMs =>
    show (st.register opts c nowMs).Own
    unfold Client.register
    split
    · exact hst.caller rfl rfl rfl rfl rfl nofun
    · refine hst.caller rfl rfl rfl rfl rfl ?_
      split <;> nofun
    · exact hst.caller rfl rfl rfl rfl rfl nofun
  | insert c => exact hst.caller rfl rfl rfl rfl rfl nofun
  | swap c =>
    show (st.swap c).Own
    unfold Client.swap
    split <;> exact hst.caller rfl rfl rfl rfl rfl nofun
  | post c => exact hst.caller rfl rfl rfl rfl rfl nofun
  | takeRet c => exact hst.takeRet c
  | ctxDone c => exact hst.caller rfl rfl rfl rfl rfl nofun
  | lastLook c => exact hst.caller rfl rfl rfl rfl rfl nofun
  | deregister c =>
    obtain ⟨ret, hpc⟩ := henabled
    show (st.deregister c).Own
    rw [deregister_of_leaving hpc]
    refine hst.caller rfl rfl rfl rfl rfl fun msg hmsg => hst.taken c msg ?_
    rw [hpc]
    exact hmsg
  | closeRet c =>
    obtain ⟨ret, hpc⟩ := henabled
    show (st.closeRet c).Own
    rw [closeRet_of_closing hpc]
    refine hst.caller rfl rfl rfl rfl rfl fun msg hmsg => hst.taken c msg ?_
    rw [hpc]
    exact hmsg
  | recv msg => exact hst.recv hbooks horderly.2.1
  | tidy held => exact hst.tidy henabled.1
  | deliver held => exact hst.deliver henabled
  | startRead => exact hst.timerStep timerStep_startRead
  | takeSignal => exact hst.timerStep timerStep_takeSignal
  | readLeft => exact hst.timerStep timerStep_readLeft
  | fire nowMs => exact hst.other rfl rfl rfl rfl rfl
  | sweepKey order =>
    show (st.sweepKey order).Own
    unfold Client.sweepKey
    split <;> exact hst.other rfl rfl rfl rfl rfl
  | sweepEnd nowMs =>
    show (st.sweepEnd nowMs).Own
    unfold Client.sweepEnd
    split <;> exact hst.other rfl rfl rfl rfl rfl
  | sendTimeout =>
    show st.sendTimeout.Own
    unfold Client.sendTimeout
    split
    · split
      · exact hst.other rfl rfl rfl rfl rfl
      · exact ⟨hst.syncRet, hst.taken, hst.tidying, hst.delivering, hst.results_sendResult nofun⟩
    · exact hst
  | rearm => exact hst.timerStep timerStep_rearm
  | close => exact hst.other rfl rfl rfl rfl rfl
  | quit => exact hst.other rfl rfl rfl rfl rfl

/-! ## A synchronous call stays in the table -/

/-- A synchronous call in its `select` lies in `waitRsps`, and no deadline will
take it out. -/
structure Awaited (opts : CallId → CallOption) (st : Client) : Prop where
  inMap : ∀ c, (st.pc c).inSelect = true → st.InMap c
  unmarked : ∀ c, (opts c).kind = .sync → st.Pending c → ¬ st.Marked (st.seq c)

theorem awaited_init : Awaited opts {} where
  inMap := nofun
  unmarked _ _ hpending := nomatch hpending.1

/-- A step that takes nothing out of `waitRsps` and gives out no number. -/
theorem Awaited.keep (hst : Awaited opts st) (hwaits : st'.waitRsps = st.waitRsps)
    (hseq : st'.seq = st.seq)
    (hselect : ∀ c, (st'.pc c).inSelect = true → (st.pc c).inSelect = true)
    (hpending : ∀ c, (opts c).kind = .sync → st'.Pending c → st.Pending c)
    (hmarked : ∀ x, st'.Marked x → st.Marked x) : Awaited opts st' where
  inMap c hc := by
    unfold InMap
    rw [hwaits, hseq]
    exact hst.inMap c (hselect c hc)
  unmarked c hkind hc hmark := by
    rw [hseq] at hmark
    exact hst.unmarked c hkind (hpending c hkind hc) (hmarked _ hmark)

/-- A step of `Invoke` that does not touch the tables. -/
theorem Awaited.setPc (hst : Awaited opts st) {old : Pc} (hold : st.pc c = old) {pc : Pc}
    (hpc : st'.pc = Function.update st.pc c pc) (hwaits : st'.waitRsps = st.waitRsps)
    (hseq : st'.seq = st.seq) (hresults : st'.results = st.results)
    (htimeouts : st'.timeouts = st.timeouts) (hselect : pc.inSelect = true → old.inSelect = true)
    (hopen : pc.isOpen = true → old.isOpen = true) (hregistered : pc ≠ .registered) :
    Awaited opts st' := by
  subst hold
  apply hst.keep hwaits hseq
  · rw [hpc]
    exact (Function.forall_update_iff st.pc
      (fun c pc => pc.inSelect = true → (st.pc c).inSelect = true)).mpr ⟨hselect, fun _ _ h => h⟩
  · intro d _ hd
    unfold Pending at hd
    rw [hresults, hpc] at hd
    refine ⟨?_, hd.2⟩
    by_cases hdc : d = c
    · rw [hdc, Function.update_self] at hd
      rw [hdc]
      exact hopen hd.1
    · rw [Function.update_of_ne hdc] at hd
      exact hd.1
  · intro x hx
    unfold Marked at hx
    rw [htimeouts, hpc, hseq] at hx
    refine hx.imp_right fun ⟨d, hd, hdx⟩ => ⟨d, ?_, hdx⟩
    by_cases hdc : d = c
    · rw [hdc, Function.update_self] at hd
      exact absurd hd hregistered
    · rwa [Function.update_of_ne hdc] at hd

theorem Books.select_pending (hst : Books opts st) (hselect : (st.pc c).inSelect = true) :
    (opts c).kind = .sync ∧ st.Pending c := by
  have hkind := Pc.kind_sync_of_inSelect (hst.suits c) hselect
  refine ⟨hkind, Pc.isOpen_of_inSelect hselect, hst.results_of_not_async ?_⟩
  rw [hkind]
  nofun

/-- A step that takes one number out of `waitRsps`, which no call in its
`select` has. -/
theorem Awaited.erase (hst : Awaited opts st) {x : UInt32}
    (hfree : ∀ c, (st.pc c).inSelect = true → st.seq c ≠ x) :
    Awaited opts { st with waitRsps := Function.update st.waitRsps x none } where
  inMap c hc := by
    have hkept : Function.update st.waitRsps x none (st.seq c) = st.waitRsps (st.seq c) :=
      Function.update_of_ne (hfree c hc) ..
    simp only [InMap, hkept]
    exact hst.inMap c hc
  unmarked := hst.unmarked

theorem Awaited.begin (hst : Awaited opts st) (c : CallId)
    (hunmarked : ¬ st.Marked (st.genMsgId + 1)) : Awaited opts (st.begin c) := by
  have hpcs : (st.begin c).pc c = .begun := Function.update_self ..
  have hother : ∀ d, d ≠ c → (st.begin c).pc d = st.pc d ∧ (st.begin c).seq d = st.seq d :=
    fun d hd => ⟨Function.update_of_ne hd .., Function.update_of_ne hd ..⟩
  have hmarked : ∀ x, (st.begin c).Marked x → st.Marked x := by
    intro x hx
    refine hx.imp_right fun ⟨d, hd, hdx⟩ => ?_
    have hdc : d ≠ c := by
      intro hdc
      rw [hdc, hpcs] at hd
      cases hd
    rw [(hother d hdc).1] at hd
    rw [(hother d hdc).2] at hdx
    exact ⟨d, hd, hdx⟩
  constructor
  · intro d hd
    have hdc : d ≠ c := by
      intro hdc
      rw [hdc, hpcs] at hd
      cases hd
    rw [(hother d hdc).1] at hd
    rw [InMap, (hother d hdc).2]
    exact hst.inMap d hd
  · intro d hkind hd hmark
    by_cases hdc : d = c
    · rw [hdc, show (st.begin c).seq c = st.genMsgId + 1 from Function.update_self ..] at hmark
      exact hunmarked (hmarked _ hmark)
    · rw [Pending, (hother d hdc).1] at hd
      rw [(hother d hdc).2] at hmark
      exact hst.unmarked d hkind hd (hmarked _ hmark)

/-- Registering does not disturb the calls that are in their `select`: nobody
waits under the number of the call. -/
theorem Awaited.enter (hst : Awaited opts st) (hbooks : Books opts st) (hpc : st.pc c = .written)
    {pc : Pc} (hpcs : st'.pc = Function.update st.pc c pc)
    (hwaits : st'.waitRsps = Function.update st.waitRsps (st.seq c) (some info))
    (hseq : st'.seq = st.seq) (hresults : st'.results = st.results)
    (htimeouts : st'.timeouts = st.timeouts) (howner : info.owner = c)
    (hkind : pc = .registered → (opts c).kind = .async) : Awaited opts st' := by
  have hvacant := hbooks.vacant hpc
  have hself : st'.pc c = pc := by rw [hpcs, Function.update_self]
  have hother : ∀ d, d ≠ c → st'.pc d = st.pc d := fun d hd => by
    rw [hpcs, Function.update_of_ne hd]
  constructor
  · intro d hd
    rw [InMap, hseq, hwaits]
    by_cases hdc : d = c
    · rw [hdc, Function.update_self, Option.map_some, howner]
    · rw [hother d hdc] at hd
      have hmap := hst.inMap d hd
      have hne : st.seq d ≠ st.seq c := by
        intro heq
        rw [InMap, heq, hvacant] at hmap
        cases hmap
      rwa [Function.update_of_ne hne]
  · intro d hsync hd hmark
    have hpending : st.Pending d := by
      by_cases hdc : d = c
      · rw [hdc]
        exact hbooks.written_pending hpc
      · rwa [Pending, hother d hdc, hresults] at hd
    apply hst.unmarked d hsync hpending
    unfold Marked at hmark
    rw [htimeouts, hseq] at hmark
    refine hmark.imp_right ?_
    rintro ⟨e, he, hed⟩
    refine ⟨e, ?_, hed⟩
    by_cases hec : e = c
    · -- two calls with one number, of different kinds
      rw [hec] at he hed
      have hcd := hbooks.seqs c d (hbooks.written_pending hpc) hpending hed
      rw [← hcd, hkind (hself ▸ he)] at hsync
      cases hsync
    · rwa [hother e hec] at he

theorem Awaited.register (hst : Awaited opts st) (hbooks : Books opts st)
    (hpc : st.pc c = .written) (nowMs : Int) : Awaited opts (st.register opts c nowMs) := by
  unfold Client.register
  cases hkind : (opts c).kind with
  | sync => exact hst.enter hbooks hpc rfl rfl rfl rfl rfl rfl nofun
  | async => exact hst.enter hbooks hpc rfl rfl rfl rfl rfl rfl fun _ => hkind
  | asyncNoResp => exact hst.setPc hpc rfl rfl rfl rfl rfl nofun nofun nofun

theorem Awaited.insert (hst : Awaited opts st) (hpc : st.pc c = .registered) :
    Awaited opts (st.insert c) := by
  have hadded : Awaited opts
      { st with timeouts := st.timeouts.add (st.expireAt c) (st.seq c) } := by
    refine hst.keep rfl rfl (fun _ h => h) (fun _ _ h => h) ?_
    rintro x (⟨key, hkey⟩ | hx)
    · rcases (Timeouts.has_add ..).mp hkey with h | ⟨-, h⟩
      · exact .inl ⟨key, h⟩
      · exact .inr ⟨c, hpc, h.symm⟩
    · exact .inr hx
  exact hadded.setPc hpc rfl rfl rfl rfl rfl nofun (fun _ => rfl) nofun

theorem Awaited.deregister (hst : Awaited opts st) (hbooks : Books opts st)
    {ret : Option Response} (hpc : st.pc c = .leaving ret) : Awaited opts (st.deregister c) := by
  rw [deregister_of_leaving hpc]
  have herased := hst.erase (x := st.seq c) fun d hd hseq => by
    have hdc := hbooks.seqs d c (hbooks.select_pending hd).2 (hbooks.leaving_pending hpc).2 hseq
    rw [hdc, hpc] at hd
    cases hd
  exact herased.setPc hpc rfl rfl rfl rfl rfl nofun (fun _ => rfl) nofun

theorem Awaited.recv (hst : Awaited opts st) (hbooks : Books opts st) (msg : Response) :
    Awaited opts (st.recv msg) := by
  unfold Client.recv
  cases hentry : st.waitRsps msg.seq with
  | none => exact hst.keep rfl rfl (fun _ h => h) (fun _ _ h => h) fun _ h => h
  | some info =>
    by_cases hsync : info.sync = true
    · simp only [hsync, if_true]
      exact hst.keep rfl rfl (fun _ h => h) (fun _ _ h => h) fun _ h => h
    · simp only [hsync]
      have herased := hst.erase (x := msg.seq) fun c hc hseq => by
        -- the entry would be that of a synchronous call
        have hmap := hst.inMap c hc
        rw [InMap, hseq, hentry, Option.map_some, Option.some.injEq] at hmap
        have hkind := (hbooks.select_pending hc).1
        rw [← hmap] at hkind
        exact hsync ((hbooks.entry _ _ hentry).2.1.sync.mpr hkind)
      exact herased.keep rfl rfl (fun _ h => h) (fun _ _ h => h) fun _ h => h

theorem Awaited.tidy (hst : Awaited opts st) (held : Held) : Awaited opts (st.tidy held) := by
  refine hst.keep rfl rfl (fun _ h => h) (fun _ _ h => h) ?_
  rintro x (⟨key, hkey⟩ | hx)
  · left
    refine ⟨key, ?_⟩
    simp only [Client.tidy] at hkey
    split at hkey
    · exact ((Timeouts.has_drop ..).mp hkey).1
    · exact hkey
  · exact .inr hx

/-- A result that is sent leaves fewer calls pending. -/
theorem Awaited.deliver (hst : Awaited opts st) (held : Held) : Awaited opts (st.deliver held) :=
  hst.keep rfl rfl (fun _ h => h) (fun _ _ h => ⟨h.1, results_nil_of_sendResult h.2⟩) fun _ h => h

theorem Awaited.sendTimeout (hst : Awaited opts st) : Awaited opts st.sendTimeout := by
  unfold Client.sendTimeout
  split
  · split
    · exact hst.keep rfl rfl (fun _ h => h) (fun _ _ h => h) fun _ h => h
    · exact hst.keep rfl rfl (fun _ h => h)
        (fun _ _ h => ⟨h.1, results_nil_of_sendResult h.2⟩) fun _ h => h
  · exact hst

/-- The sweep finds no number of a synchronous call. -/
theorem Awaited.sweepKey (hst : Awaited opts st) (hbooks : Books opts st) {order : List UInt32}
    (henabled : st.Enabled (.sweepKey order)) : Awaited opts (st.sweepKey order) := by
  obtain ⟨key, left, swept, callInfos, hproc, horder⟩ := henabled
  rw [sweepKey_of_sweeping hproc]
  refine ⟨fun c hc => ?_, hst.unmarked⟩
  obtain ⟨hkind, hpending⟩ := hbooks.select_pending hc
  have hspared : st.seq c ∉ order := by
    intro hmem
    rw [horder.mem_iff] at hmem
    apply hst.unmarked c hkind hpending (.inl ⟨key, _⟩)
    cases hset : st.timeouts[key]? with
    | none =>
      rw [hset] at hmem
      cases hmem
    | some set =>
      rw [hset] at hmem
      exact ⟨set, hset, hmem⟩
  simp only [InMap, takeAll_fst, hspared, if_false]
  exact hst.inMap c hc

theorem Awaited.sweepEnd (hst : Awaited opts st) (nowMs : Int) :
    Awaited opts (st.sweepEnd nowMs) := by
  unfold Client.sweepEnd
  split
  · refine hst.keep rfl rfl (fun _ h => h) (fun _ _ h => h) ?_
    rintro x (⟨key, hkey⟩ | hx)
    · exact .inl ⟨key, ((Timeouts.has_removeAll ..).mp hkey).1⟩
    · exact .inr hx
  · exact hst

theorem Awaited.timerStep (hst : Awaited opts st) (hstep : st.TimerStep st') :
    Awaited opts st' := by
  obtain ⟨trig, proc, rfl⟩ := hstep
  exact hst.keep rfl rfl (fun _ h => h) (fun _ _ h => h) fun _ h => h

theorem Awaited.step (hst : Awaited opts st) (hbooks : Books opts st) (henabled : st.Enabled a)
    (horderly : Orderly opts st a) : Awaited opts (st.next opts a) := by
  cases a with
  | begin c => exact hst.begin c horderly.2
  | write c => exact hst.setPc henabled.1 rfl rfl rfl rfl rfl nofun (fun _ => rfl) nofun
  | writeFails c => exact hst.setPc henabled rfl rfl rfl rfl rfl nofun nofun nofun
  | register c nowMs => exact hst.register hbooks henabled.1 nowMs
  | insert c => exact hst.insert henabled.1
  | swap c =>
    show Awaited opts (st.swap c)
    unfold Client.swap
    split <;> exact hst.setPc henabled rfl rfl rfl rfl rfl nofun (fun _ => rfl) nofun
  | post c => exact hst.setPc henabled rfl rfl rfl rfl rfl nofun (fun _ => rfl) nofun
  | takeRet c =>
    rcases henabled.1 with hpc | hpc
    all_goals exact hst.setPc hpc rfl rfl rfl rfl rfl nofun (fun _ => rfl) nofun
  | ctxDone c => exact hst.setPc henabled rfl rfl rfl rfl rfl (fun _ => rfl) (fun _ => rfl) nofun
  | lastLook c => exact hst.setPc henabled.1 rfl rfl rfl rfl rfl nofun (fun _ => rfl) nofun
  | deregister c =>
    obtain ⟨ret, hpc⟩ := henabled
    exact hst.deregister hbooks hpc
  | closeRet c =>
    obtain ⟨ret, hpc⟩ := henabled
    show Awaited opts (st.closeRet c)
    rw [closeRet_of_closing hpc]
    exact hst.setPc hpc rfl rfl rfl rfl rfl nofun nofun nofun
  | recv msg => exact hst.recv hbooks msg
  | tidy held => exact hst.tidy held
  | deliver held => exact hst.deliver held
  | startRead => exact hst.timerStep timerStep_startRead
  | takeSignal => exact hst.timerStep timerStep_takeSignal
  | readLeft => exact hst.timerStep timerStep_readLeft
  | fire nowMs => exact hst.timerStep ⟨_, _, rfl⟩
  | sweepKey order => exact hst.sweepKey hbooks henabled
  | sweepEnd nowMs => exact hst.sweepEnd nowMs
  | sendTimeout => exact hst.sendTimeout
  | rearm => exact hst.timerStep timerStep_rearm
  | close => exact hst.keep rfl rfl (fun _ h => h) (fun _ _ h => h) fun _ h => h
  | quit => exact hst.timerStep ⟨_, _, rfl⟩

/-! ## Every response that is in time reaches its call -/

theorem recv_eq_of_sync (hentry : st.waitRsps msg.seq = some info) (hsync : info.sync = true) :
    st.recv msg = { st.noteArrival msg with
      syncRet := Function.update st.syncRet info.owner (some msg) } := by
  simp only [Client.recv, hentry, hsync, if_true]

theorem recv_eq_of_async (hentry : st.waitRsps msg.seq = some info) (hsync : info.sync = false) :
    st.recv msg = { st.noteArrival msg with
      waitRsps := Function.update st.waitRsps msg.seq none
      tidying := ⟨info, msg⟩ :: st.tidying } := by
  simp [Client.recv, hentry, hsync]

/-- A synchronous call that has not given up has received its response, or is
found by it. -/
theorem reached_recv_sync (hbooks : Books opts st) (hst : Awaited opts st)
    (hkind : (opts c).kind = .sync) (hregistered : (st.pc c).isRegistered = true)
    (hseq : st.seq c = msg.seq) (htime : ¬ st.TimedOut c) :
    (st.recv msg).Reached c msg ∨ ∃ earlier, st.Reached c earlier := by
  have hsuits := hbooks.suits c
  rw [hkind] at hsuits
  rcases Pc.sync_cases hsuits hregistered with hselect | hgone | ⟨earlier, htaken⟩
  · left
    obtain ⟨info, hentry, howner⟩ := Option.map_eq_some_iff.mp (hst.inMap c hselect)
    rw [hseq] at hentry
    have hsync : info.sync = true := by
      rw [(hbooks.entry _ _ hentry).2.1.sync, howner]
      exact hkind
    rw [recv_eq_of_sync hentry hsync]
    left
    refine ⟨?_, hselect⟩
    rw [← howner]
    exact Function.update_self ..
  · exact absurd (.inr (.inr hgone)) htime
  · exact .inr ⟨earlier, .inr (.inl htaken)⟩

/-- An asynchronous call that has not timed out has got its response, or is found
by it. -/
theorem reached_recv_async (hbooks : Books opts st) (hkind : (opts c).kind = .async)
    (hregistered : (st.pc c).isRegistered = true) (hseq : st.seq c = msg.seq)
    (htime : ¬ st.TimedOut c) : (st.recv msg).Reached c msg ∨ ∃ earlier, st.Reached c earlier := by
  by_cases hmap : st.InMap c
  · left
    obtain ⟨info, hentry, howner⟩ := Option.map_eq_some_iff.mp hmap
    rw [hseq] at hentry
    have hsync : info.sync = false := by
      apply eq_false_of_ne_true
      intro hsync
      rw [(hbooks.entry _ _ hentry).2.1.sync, howner, hkind] at hsync
      cases hsync
    rw [recv_eq_of_async hentry hsync]
    exact .inr (.inr (.inl ⟨_, List.mem_cons_self, howner, rfl⟩))
  · right
    -- its token is with a receiver or has been spent, for `processTimeout` has not got it
    have hnot : (st.proc.callInfos.map (·.owner)).count c = 0 := by
      apply List.count_eq_zero_of_not_mem
      intro hmem
      obtain ⟨info, hinfo, howner⟩ := List.mem_map.mp hmem
      exact htime (.inl ⟨info, hinfo, howner⟩)
    have htoken := hbooks.token c hkind
    rw [hregistered, if_pos rfl, tokens, if_neg hmap, holders, hnot] at htoken
    cases hresults : st.results c with
    | cons result rest =>
      have hmem : result ∈ st.results c := by simp [hresults]
      cases hverdict : result.verdict with
      | response earlier => exact ⟨earlier, .inr (.inr (.inr (.inr ⟨result, hmem, hverdict⟩)))⟩
      | errRpcCallTimeout => exact absurd (.inr (.inl ⟨result, hmem, hverdict⟩)) htime
    | nil =>
      rw [hresults, List.length_nil] at htoken
      have hheld : c ∈ st.tidying.map (·.info.owner) ∨ c ∈ st.delivering.map (·.info.owner) := by
        rw [← List.count_pos_iff, ← List.count_pos_iff]
        omega
      rcases hheld with h | h
      · obtain ⟨held, hheld, howner⟩ := List.mem_map.mp h
        exact ⟨held.msg, .inr (.inr (.inl ⟨held, hheld, howner, rfl⟩))⟩
      · obtain ⟨held, hheld, howner⟩ := List.mem_map.mp h
        exact ⟨held.msg, .inr (.inr (.inr (.inl ⟨held, hheld, howner, rfl⟩)))⟩

/-- Only an arrival that is in time is noted as one. -/
theorem inTime_recv (htime : (st.recv msg).inTime c = true) :
    st.inTime c = true ∨ (c = msg.origin ∧ ¬ st.TimedOut c) := by
  have hnoted : (st.recv msg).inTime = (st.noteArrival msg).inTime := by
    unfold Client.recv
    repeat' split
    all_goals rfl
  rw [hnoted, noteArrival] at htime
  by_cases hout : st.TimedOut msg.origin
  · simp only [hout, if_true] at htime
    exact .inl htime
  · simp only [hout, if_false] at htime
    by_cases hc : c = msg.origin
    · rw [hc]
      exact .inr ⟨rfl, hout⟩
    · rw [Function.update_of_ne hc] at htime
      exact .inl htime

theorem inTime_next (hnot : ∀ msg, a ≠ .recv msg) : (st.next opts a).inTime = st.inTime := by
  have htimer : ∀ {st' : Client}, st.TimerStep st' → st'.inTime = st.inTime := by
    rintro _ ⟨trig, proc, rfl⟩
    rfl
  cases a with
  | recv msg => exact absurd rfl (hnot msg)
  | register c nowMs =>
    show (st.register opts c nowMs).inTime = st.inTime
    unfold Client.register
    split <;> rfl
  | swap c =>
    show (st.swap c).inTime = st.inTime
    unfold Client.swap
    split <;> rfl
  | deregister c =>
    show (st.deregister c).inTime = st.inTime
    unfold Client.deregister
    split <;> rfl
  | closeRet c =>
    show (st.closeRet c).inTime = st.inTime
    unfold Client.closeRet
    split <;> rfl
  | startRead => exact htimer timerStep_startRead
  | takeSignal => exact htimer timerStep_takeSignal
  | readLeft => exact htimer timerStep_readLeft
  | sweepKey order =>
    show (st.sweepKey order).inTime = st.inTime
    unfold Client.sweepKey
    split <;> rfl
  | sweepEnd nowMs =>
    show (st.sweepEnd nowMs).inTime = st.inTime
    unfold Client.sweepEnd
    split <;> rfl
  | sendTimeout =>
    show st.sendTimeout.inTime = st.inTime
    unfold Client.sendTimeout
    repeat' split
    all_goals rfl
  | rearm => exact htimer timerStep_rearm
  | _ => rfl

/-- What holds in every state of an orderly run. -/
structure Served (opts : CallId → CallOption) (st : Client) : Prop where
  awaited : Awaited opts st
  own : st.Own
  inTime : ∀ c, (opts c).kind ≠ .asyncNoResp → st.inTime c = true → st.Delivered c

theorem served_init : Served opts {} := ⟨awaited_init, own_init, nofun⟩

/-- A response that is in time reaches its call, or another has before. -/
theorem Served.delivered_recv (hst : Served opts st) (hbooks : Books opts st)
    (henabled : st.Enabled (.recv msg)) (horderly : Orderly opts st (.recv msg))
    (hkind : (opts msg.origin).kind ≠ .asyncNoResp) (htime : ¬ st.TimedOut msg.origin) :
    (st.recv msg).Delivered msg.origin := by
  obtain ⟨hseq, -, hregistered⟩ := horderly
  have hreached : (st.recv msg).Reached msg.origin msg ∨
      ∃ earlier, st.Reached msg.origin earlier := by
    cases hcall : (opts msg.origin).kind with
    | sync => exact reached_recv_sync hbooks hst.awaited hcall (hregistered hkind htime) hseq htime
    | async => exact reached_recv_async hbooks hcall (hregistered hkind htime) hseq htime
    | asyncNoResp => exact absurd hcall hkind
  rcases hreached with h | ⟨earlier, h⟩
  · exact ⟨msg, rfl, h⟩
  · exact ⟨earlier, hst.own.origin_eq h, h.recv henabled⟩

theorem Served.step (hst : Served opts st) (hbooks : Books opts st) (henabled : st.Enabled a)
    (horderly : Orderly opts st a) : Served opts (st.next opts a) where
  awaited := hst.awaited.step hbooks henabled horderly
  own := hst.own.step hbooks henabled horderly
  inTime c hkind htime := by
    have hold : st.inTime c = true → (st.next opts a).Delivered c := by
      intro h
      obtain ⟨msg, horigin, hreached⟩ := hst.inTime c hkind h
      exact ⟨msg, horigin, hreached.step henabled⟩
    by_cases hrecv : ∃ msg, a = .recv msg
    · obtain ⟨msg, rfl⟩ := hrecv
      rcases inTime_recv htime with h | ⟨rfl, hout⟩
      · exact hold h
      · exact hst.delivered_recv hbooks henabled horderly hkind hout
    · rw [inTime_next fun msg h => hrecv ⟨msg, h⟩] at htime
      exact hold htime

/-- **Every response that arrives in time is delivered**, in every orderly run:
if the response to a call that wants one has arrived before the call timed out
or was cancelled, the call has received it or will find it in its channel. -/
theorem run_delivered (opts : CallId → CallOption) {st : Client}
    (hrun : (client opts).Run (Orderly opts) st) {c : CallId}
    (hkind : (opts c).kind ≠ .asyncNoResp) (htime : st.inTime c = true) : st.Delivered c := by
  have hst : Served opts st := hrun.invariant_of
    (fun _ h => run_books (fun _ _ => Orderly.noReuse) h) served_init
    fun _ _ hbooks hs henabled horderly => hs.step hbooks henabled horderly
  exact hst.inTime c hkind htime

def allSync : CallId → CallOption := fun _ =>
  { kind := .sync, timeout := none, passThrough := 0 }

/-- A response that arrives while its call waits. -/
theorem run_delivered_waiting :
    ((client allSync).after [.begin 0, .write 0, .register 0 1, .recv ⟨1, 0⟩] {}).Delivered 0 := by
  refine run_delivered allSync (System.Run.of_admits .start ?_) nofun rfl
  refine ⟨rfl, ⟨fun d hd => (nomatch hd.1), ?_⟩, ⟨rfl, rfl⟩, trivial, ⟨rfl, by decide⟩, trivial,
    fun _ _ _ => rfl, ⟨rfl, ?_, fun _ _ => rfl⟩, trivial⟩
  · rintro (⟨key, set, hset, -⟩ | ⟨d, hd, -⟩)
    · cases hset
    · cases hd
  · intro d _ hseq
    by_contra hne
    have hzero : ((client allSync).after [.begin 0, .write 0, .register 0 1] {}).seq d = 0 :=
      Function.update_of_ne hne ..
    exact absurd (hzero.symm.trans hseq) (by decide)

/-- The response arrives between the write and the registration, and is dropped:
its call waits until it is cancelled and returns without it. -/
theorem response_before_registration :
    ∃ st, (client allSync).Run (fun st a => st.NoReuse a ∧ st.Answers a) st ∧
      st.inTime 0 = true ∧ st.pc 0 = .done none ∧ ¬ st.Delivered 0 := by
  refine ⟨(client allSync).after [.begin 0, .write 0, .recv ⟨1, 0⟩, .register 0 1, .ctxDone 0,
    .lastLook 0, .deregister 0, .closeRet 0] {}, System.Run.of_admits .start ?_, rfl, rfl, ?_⟩
  · exact ⟨rfl, ⟨fun d hd => (nomatch hd.1), trivial⟩, ⟨rfl, rfl⟩, ⟨trivial, trivial⟩,
      nofun, ⟨trivial, rfl, rfl⟩, ⟨rfl, by decide⟩, ⟨trivial, trivial⟩, rfl, ⟨trivial, trivial⟩,
      ⟨rfl, rfl⟩, ⟨trivial, trivial⟩, ⟨_, rfl⟩, ⟨trivial, trivial⟩, ⟨_, rfl⟩, ⟨trivial, trivial⟩,
      trivial⟩
  · rintro ⟨msg, -, ⟨-, h⟩ | h | ⟨held, h, -⟩ | ⟨held, h, -⟩ | ⟨result, h, -⟩⟩
    all_goals cases h

end Client

end Gokit.Rpc
