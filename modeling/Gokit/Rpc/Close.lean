/-
# What `Close` leaves behind

`Close` makes `processTimeout` return and closes the socket.  Nobody goes through the
calls that are still registered: an asynchronous call with a timeout that has no result
by then never gets one, neither a response nor `ErrRpcCallTimeout`.

So callers are safe as long as `processTimeout` is made to return only when no such call
lies in `waitRsps` or is on its way there.  By the law of conservation a receiver has then
taken every one of them that has no result.
-/

import Gokit.Rpc.Tracking

namespace Gokit.Rpc

open Gokit.Math

namespace Client

/-- An asynchronous call that is to end by a result or by a timeout. -/
def HasTimeout (opts : CallId → CallOption) (c : CallId) : Prop :=
  (opts c).kind = .async ∧ (opts c).timeout ≠ none

def Registered (st : Client) (c : CallId) : Prop := (st.pc c).isRegistered = true

/-- The call has a result, or a receiver is about to send it one. -/
def Provided (st : Client) (c : CallId) : Prop :=
  st.results c ≠ [] ∨ ∃ held, (held ∈ st.tidying ∨ held ∈ st.delivering) ∧ held.info.owner = c

/-- No asynchronous call with a deadline lies in `waitRsps`, and none is between its write
and its registration. -/
structure Drained (opts : CallId → CallOption) (st : Client) : Prop where
  entry : ∀ x info, st.waitRsps x = some info → info.sync = false → info.expireAt ≤ 0
  written : ∀ c, HasTimeout opts c → st.pc c ≠ .written

/-- `processTimeout` sees `quit` only when nothing is left for it, and no number is reused
while a call with it is pending. -/
def QuitsDrained (opts : CallId → CallOption) (st : Client) (a : Action) : Prop :=
  st.NoReuse a ∧ (a = .quit → st.Drained opts)

variable {opts : CallId → CallOption} {st st' : Client}

/-! ## What is not in the table is provided for -/

variable {c : CallId}

theorem not_inMap_of_drained (hst : Books opts st) (hdrained : st.Drained opts)
    (htimeout : HasTimeout opts c) (hregistered : st.Registered c) : ¬ st.InMap c := by
  intro hmap
  obtain ⟨info, hentry, howner⟩ := Option.map_eq_some_iff.mp hmap
  obtain ⟨-, hvalid, -⟩ := hst.entry _ _ hentry
  have hsync : info.sync = false := by
    rw [← Bool.not_eq_true, hvalid.sync, howner, htimeout.1]
    nofun
  have hpositive := hst.timeout c htimeout.1 hregistered (Option.isSome_iff_ne_none.mpr htimeout.2)
  have hnone := hdrained.entry _ _ hentry hsync
  rw [hvalid.expireAt hsync, howner] at hnone
  exact absurd hpositive (Int.not_lt.mpr hnone)

/-- By the token law, as `processTimeout` has not taken the call either. -/
theorem Books.provided (hst : Books opts st) (hinfos : st.proc.callInfos = [])
    (hkind : (opts c).kind = .async) (hregistered : st.Registered c) (hmap : ¬ st.InMap c) :
    st.Provided c := by
  have htoken := hst.token c hkind
  have hone : (st.pc c).isRegistered = true := hregistered
  rw [if_pos hone, tokens, if_neg hmap, holders, hinfos, List.map_nil, List.count_nil] at htoken
  by_cases hresults : st.results c = []
  · rw [hresults, List.length_nil] at htoken
    have hheld : c ∈ st.tidying.map (·.info.owner) ∨ c ∈ st.delivering.map (·.info.owner) := by
      rw [← List.count_pos_iff, ← List.count_pos_iff]
      omega
    obtain ⟨held, hmem, howner⟩ | ⟨held, hmem, howner⟩ := hheld.imp List.mem_map.mp List.mem_map.mp
    · exact .inr ⟨held, .inl hmem, howner⟩
    · exact .inr ⟨held, .inr hmem, howner⟩
  · exact .inl hresults

/-! ## Nothing comes in any more -/

/-- Once `processTimeout` has returned nothing is written, and the table stays drained. -/
structure Closed (opts : CallId → CallOption) (st : Client) : Prop where
  started : st.proc = .off ∨ st.runTimeout = true
  closed : st.proc = .stopped → st.closed = true
  drained : st.proc = .stopped → st.Drained opts

/-- A step of a caller or a receiver.  It must not bring a call with a deadline nearer to the
table once `processTimeout` has returned. -/
theorem Closed.caller (hst : st.Closed opts) (hproc : st'.proc = st.proc)
    (hclosed : st'.closed = st.closed) (hrunTimeout : st'.runTimeout = st.runTimeout)
    (hentry : st.proc = .stopped → ∀ x info, st'.waitRsps x = some info →
      st.waitRsps x = some info ∨ (info.sync = false → info.expireAt ≤ 0))
    (hwritten : st.proc = .stopped → ∀ c, st'.pc c = .written → st.pc c = .written) :
    st'.Closed opts where
  started := by
    rw [hproc, hrunTimeout]
    exact hst.started
  closed := by
    rw [hproc, hclosed]
    exact hst.closed
  drained := by
    rw [hproc]
    intro hstopped
    have hdrained := hst.drained hstopped
    constructor
    · intro x info hinfo
      exact (hentry hstopped x info hinfo).elim (hdrained.entry x info) id
    · exact fun c hc h => hdrained.written c hc (hwritten hstopped c h)

theorem Closed.move (hst : st.Closed opts) {pc : Pc} (hpc : st'.pc = Function.update st.pc c pc)
    (hproc : st'.proc = st.proc) (hclosed : st'.closed = st.closed)
    (hrunTimeout : st'.runTimeout = st.runTimeout)
    (hentry : ∀ x info, st'.waitRsps x = some info → st.waitRsps x = some info)
    (hc : st.proc = .stopped → pc ≠ .written) : st'.Closed opts := by
  refine hst.caller hproc hclosed hrunTimeout (fun _ x info h => .inl (hentry x info h)) ?_
  intro hstopped d hd
  rw [hpc] at hd
  by_cases heq : d = c
  · rw [heq, Function.update_self] at hd
    exact absurd hd (hc hstopped)
  · rwa [Function.update_of_ne heq] at hd

/-- Taking an entry out of the table. -/
theorem entry_of_update_none {x y : UInt32} {info : CallInfo}
    (hentry : Function.update st.waitRsps y none x = some info) : st.waitRsps x = some info := by
  by_cases heq : x = y
  · rw [heq, Function.update_self] at hentry
    cases hentry
  · rwa [Function.update_of_ne heq] at hentry

theorem Closed.proc (hst : st.Closed opts) (hstarted : st.proc ≠ .off) (hproc : st'.proc ≠ .stopped)
    (hrunTimeout : st'.runTimeout = st.runTimeout) : st'.Closed opts where
  started := .inr (hrunTimeout.trans (hst.started.resolve_left hstarted))
  closed := fun h => absurd h hproc
  drained := fun h => absurd h hproc

/-- A call that registers once `processTimeout` has returned has no deadline. -/
theorem Closed.register (hst : st.Closed opts) (hpc : st.pc c = .written) (nowMs : Int) :
    (st.register opts c nowMs).Closed opts := by
  have hother : ∀ {pc : Pc}, st.proc = .stopped → ∀ d,
      Function.update st.pc c pc d = .written → st.pc d = .written := by
    intro pc _ d hd
    by_cases heq : d = c
    · exact heq ▸ hpc
    · rwa [Function.update_of_ne heq] at hd
  have hnew : ∀ {info : CallInfo}, (st.proc = .stopped → info.sync = false → info.expireAt ≤ 0) →
      st.proc = .stopped → ∀ x other,
        Function.update st.waitRsps (st.seq c) (some info) x = some other →
          st.waitRsps x = some other ∨ (other.sync = false → other.expireAt ≤ 0) := by
    intro info hinfo hstopped x other hentry
    by_cases heq : x = st.seq c
    · rw [heq, Function.update_self] at hentry
      exact .inr (Option.some.inj hentry ▸ hinfo hstopped)
    · rw [Function.update_of_ne heq] at hentry
      exact .inl hentry
  unfold Client.register
  split
  case h_1 => exact hst.caller rfl rfl rfl (hnew fun _ => nofun) hother
  case h_2 hkind =>
    refine hst.caller rfl rfl rfl (hnew fun hstopped _ => ?_) hother
    have hnone : (opts c).timeout = none := by
      by_contra htimeout
      exact (hst.drained hstopped).written c ⟨hkind, htimeout⟩ hpc
    have hzero : deadline (opts c) nowMs = 0 := by rw [deadline, hnone]
    exact Int.le_of_eq hzero
  case h_3 => exact hst.caller rfl rfl rfl (fun _ _ _ h => .inl h) hother

theorem Closed.step (hst : st.Closed opts) {a : Action} (henabled : st.Enabled a)
    (hok : QuitsDrained opts st a) : (st.next opts a).Closed opts := by
  cases a with
  | begin c => exact hst.move rfl rfl rfl rfl (fun _ _ h => h) fun _ => nofun
  | write c =>
    refine hst.move rfl rfl rfl rfl (fun _ _ h => h) fun hstopped => ?_
    exact absurd (henabled.2.symm.trans (hst.closed hstopped)) Bool.false_ne_true
  | writeFails c => exact hst.move rfl rfl rfl rfl (fun _ _ h => h) fun _ => nofun
  | register c nowMs => exact hst.register henabled.1 nowMs
  | insert c => exact hst.move rfl rfl rfl rfl (fun _ _ h => h) fun _ => nofun
  | swap c =>
    show (st.swap c).Closed opts
    unfold swap
    split
    · exact hst.move rfl rfl rfl rfl (fun _ _ h => h) fun _ => nofun
    · exact ⟨.inr rfl, nofun, nofun⟩
  | post c => exact hst.move rfl rfl rfl rfl (fun _ _ h => h) fun _ => nofun
  | takeRet c => exact hst.move rfl rfl rfl rfl (fun _ _ h => h) fun _ => nofun
  | ctxDone c => exact hst.move rfl rfl rfl rfl (fun _ _ h => h) fun _ => nofun
  | lastLook c => exact hst.move rfl rfl rfl rfl (fun _ _ h => h) fun _ => nofun
  | deregister c =>
    obtain ⟨ret, hpc⟩ := henabled
    show (st.deregister c).Closed opts
    rw [deregister_of_leaving hpc]
    exact hst.move rfl rfl rfl rfl (fun _ _ => entry_of_update_none) fun _ => nofun
  | closeRet c =>
    obtain ⟨ret, hpc⟩ := henabled
    show (st.closeRet c).Closed opts
    rw [closeRet_of_closing hpc]
    exact hst.move rfl rfl rfl rfl (fun _ _ h => h) fun _ => nofun
  | recv msg =>
    show (st.recv msg).Closed opts
    unfold recv
    split
    · exact hst.caller rfl rfl rfl (fun _ _ _ h => .inl h) fun _ _ h => h
    · split
      · exact hst.caller rfl rfl rfl (fun _ _ _ h => .inl h) fun _ _ h => h
      · exact hst.caller rfl rfl rfl (fun _ _ _ h => .inl (entry_of_update_none h))
          fun _ _ h => h
  | tidy held => exact hst.caller rfl rfl rfl (fun _ _ _ h => .inl h) fun _ _ h => h
  | deliver held => exact hst.caller rfl rfl rfl (fun _ _ _ h => .inl h) fun _ _ h => h
  | startRead =>
    have hstarted : st.proc ≠ .off := fun h => nomatch h.symm.trans henabled
    show st.startRead.Closed opts
    unfold startRead
    split
    all_goals exact hst.proc hstarted nofun rfl
  | takeSignal =>
    obtain ⟨⟨expireAt, hproc⟩, -⟩ := henabled
    show st.takeSignal.Closed opts
    rw [takeSignal_of_waiting hproc]
    exact hst.proc (hproc ▸ nofun) nofun rfl
  | readLeft =>
    obtain ⟨expireAt, hproc⟩ := henabled
    show st.readLeft.Closed opts
    unfold readLeft
    simp only [hproc]
    split
    all_goals exact hst.proc (hproc ▸ nofun) nofun rfl
  | fire nowMs =>
    obtain ⟨expireAt, hproc⟩ := henabled
    exact hst.proc (hproc ▸ nofun) nofun rfl
  | sweepKey order =>
    obtain ⟨key, left, swept, callInfos, hproc, -⟩ := henabled
    show (st.sweepKey order).Closed opts
    rw [sweepKey_of_sweeping hproc]
    exact hst.proc (hproc ▸ nofun) nofun rfl
  | sweepEnd nowMs =>
    obtain ⟨swept, callInfos, hproc⟩ := henabled
    show (st.sweepEnd nowMs).Closed opts
    rw [sweepEnd_of_sweeping hproc]
    exact hst.proc (hproc ▸ nofun) nofun rfl
  | sendTimeout =>
    obtain ⟨expireAt, info, rest, hproc⟩ := henabled
    show st.sendTimeout.Closed opts
    rw [sendTimeout_of_sending hproc]
    split
    all_goals exact hst.proc (hproc ▸ nofun) nofun rfl
  | rearm =>
    obtain ⟨expireAt, hproc⟩ := henabled
    show st.rearm.Closed opts
    rw [rearm_of_sending hproc]
    exact hst.proc (hproc ▸ nofun) nofun rfl
  | close => exact ⟨hst.started, fun _ => rfl, fun h => ⟨(hst.drained h).1, (hst.drained h).2⟩⟩
  | quit =>
    obtain ⟨⟨expireAt, hproc⟩, hclosed⟩ := henabled
    exact ⟨.inr (hst.started.resolve_left (hproc ▸ nofun)), fun _ => hclosed,
      fun _ => ⟨(hok.2 rfl).1, (hok.2 rfl).2⟩⟩

/-- **No asynchronous call is left without a result by `Close`**, in every run in which
`processTimeout` returns only when no call with a deadline lies in `waitRsps` or is about to
be entered there. -/
theorem run_close_provides (opts : CallId → CallOption) {st : Client}
    (hrun : (client opts).Run (QuitsDrained opts) st) (hstopped : st.proc = .stopped) (c : CallId)
    (htimeout : HasTimeout opts c) (hregistered : st.Registered c) : st.Provided c := by
  have hbooks : Books opts st := run_books (fun _ _ hok => hok.1) hrun
  have hinit : Closed opts {} := ⟨.inl rfl, nofun, nofun⟩
  have hst : st.Closed opts := hrun.invariant hinit
    fun _ _ hs henabled hok => hs.step henabled hok
  have hmap := not_inMap_of_drained hbooks (hst.drained hstopped) htimeout hregistered
  exact hbooks.provided (hstopped ▸ rfl) htimeout.1 hregistered hmap

/-- The response of a call has been taken when the connection is closed, and not sent yet. -/
theorem run_close_provides_answered :
    ∃ st, (client tenMillis).Run (QuitsDrained tenMillis) st ∧ st.proc = .stopped ∧
      st.Registered 0 ∧ st.results 0 = [] ∧ st.Provided 0 := by
  let msg : Response := { seq := 1, origin := 0 }
  let actions : List Action :=
    [.begin 0, .write 0, .register 0 1, .insert 0, .swap 0, .startRead, .recv msg, .close, .quit]
  have hdrained : ((client tenMillis).after (actions.take 8) {}).Drained tenMillis := by
    constructor
    · intro x info hentry
      by_cases hx : x = 1
      · subst hx
        cases hentry
      · have hold : Function.update (fun _ => none) 1 _ x = some info := entry_of_update_none hentry
        rw [Function.update_of_ne hx] at hold
        cases hold
    · rintro (_ | c) _ hpc
      · cases hpc
      · cases hpc
  have hrun : (client tenMillis).Run (QuitsDrained tenMillis)
      ((client tenMillis).after actions {}) := by
    apply System.Run.of_admits .start
    exact ⟨rfl, ⟨fun d hd => (nomatch hd.1), nofun⟩, ⟨rfl, rfl⟩, ⟨trivial, nofun⟩,
      ⟨rfl, by decide⟩, ⟨trivial, nofun⟩, ⟨rfl, rfl⟩, ⟨trivial, nofun⟩, rfl, ⟨trivial, nofun⟩,
      rfl, ⟨trivial, nofun⟩, by rintro _ ⟨⟩ ⟨⟩, ⟨trivial, nofun⟩, rfl, ⟨trivial, nofun⟩,
      ⟨⟨_, rfl⟩, rfl⟩, ⟨trivial, fun _ => hdrained⟩, trivial⟩
  exact ⟨_, hrun, rfl, rfl, rfl, run_close_provides tenMillis hrun rfl 0 ⟨rfl, nofun⟩ rfl⟩

/-- The connection is closed while a call waits for its response: `processTimeout` has
returned, the call is still in `waitRsps`, and nobody has a result for it. -/
theorem close_strands :
    ∃ st, (client tenMillis).Run (fun _ _ => True) st ∧ st.proc = .stopped ∧ st.Registered 0 ∧
      st.waitRsps 1 ≠ none ∧ ¬ st.Provided 0 := by
  let actions : List Action :=
    [.begin 0, .write 0, .register 0 1, .insert 0, .swap 0, .startRead, .close, .quit]
  have hrun : (client tenMillis).Run (fun _ _ => True) ((client tenMillis).after actions {}) := by
    apply System.Run.of_admits .start
    exact ⟨rfl, trivial, ⟨rfl, rfl⟩, trivial, ⟨rfl, by decide⟩, trivial, ⟨rfl, rfl⟩, trivial, rfl,
      trivial, rfl, trivial, rfl, trivial, ⟨⟨_, rfl⟩, rfl⟩, trivial, trivial⟩
  have hprovided : ¬ ((client tenMillis).after actions {}).Provided 0 := by
    rintro (hresults | ⟨_, h | h, _⟩)
    · exact hresults rfl
    · exact absurd h List.not_mem_nil
    · exact absurd h List.not_mem_nil
  exact ⟨_, hrun, rfl, rfl, nofun, hprovided⟩

end Client

end Gokit.Rpc
