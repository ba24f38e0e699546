/-
# The timer of the deadlines is armed early enough

`processTimeout` arms one timer for the first deadline it knows of.  A caller that
inserts a deadline tells it by a signal, and drops the signal if one is there already.
We show that no deadline is forgotten in this way: whenever `processTimeout` waits, its
timer is armed for the first deadline or an earlier time, or it is going to be told.

A sweep that leaves the tree empty arms the timer for two minutes later.  Deadlines that
are inserted while its results are being sent are announced like all others.
-/

import Gokit.Rpc.Timeouts

namespace Gokit.Rpc

open Gokit.Math

namespace Timeouts

variable {tree : Timeouts} {first key : Int}

theorem left_le (hleft : tree.left = some first) (hkey : key ∈ tree) : first ≤ key := by
  have hkeys : key ∈ tree.keys := Std.TreeMap.mem_keys.mpr hkey
  have hordered : tree.keys.Pairwise fun a b => compare a b = .lt := Std.TreeMap.ordered_keys
  obtain ⟨rest, hcons⟩ := List.head?_eq_some_iff.mp hleft
  rw [hcons] at hkeys hordered
  rcases List.mem_cons.mp hkeys with rfl | hrest
  · exact Int.le_refl _
  · exact Int.le_of_lt (Int.compare_eq_lt.mp ((List.pairwise_cons.mp hordered).1 key hrest))

theorem mem_of_left (hleft : tree.left = some first) : first ∈ tree :=
  Std.TreeMap.mem_keys.mp (List.mem_of_mem_head? hleft)

end Timeouts

/-- What the timer is armed for, or will be when the results have been sent. -/
def Proc.armed : Proc → Option Int
  | .waiting expireAt | .sending expireAt _ => some expireAt
  | _ => none

namespace Client

/-- The timer is early enough for all deadlines, or there is a signal, or one is coming. -/
def Covers (st : Client) (expireAt : Int) : Prop :=
  (∀ key ∈ st.timeouts, expireAt ≤ key) ∨ st.trig = true ∨ ∃ c, st.Announces c

/-- The invariant of the timer. -/
def Wakeful (st : Client) : Prop := ∀ expireAt, st.proc.armed = some expireAt → st.Covers expireAt

variable {opts : CallId → CallOption} {st st' : Client}

/-- A step that inserts no deadline, takes no signal and withdraws no announcement. -/
theorem Covers.mono {expireAt : Int} (hcovers : st.Covers expireAt)
    (htimeouts : ∀ key ∈ st'.timeouts, key ∈ st.timeouts) (htrig : st.trig = true → st'.trig = true)
    (hannounces : ∀ c, st.Announces c → st'.Announces c) : st'.Covers expireAt := by
  rcases hcovers with hkeys | hsignal | ⟨c, hc⟩
  · exact .inl fun key hkey => hkeys key (htimeouts key hkey)
  · exact .inr (.inl (htrig hsignal))
  · exact .inr (.inr ⟨c, hannounces c hc⟩)

theorem Wakeful.of_announces (hst : st.Wakeful) (hproc : st'.proc.armed = st.proc.armed)
    (htrig : st'.trig = st.trig) (htimeouts : st'.timeouts = st.timeouts)
    (hannounces : ∀ c, st.Announces c → st'.Announces c) : st'.Wakeful := by
  intro expireAt harmed
  rw [hproc] at harmed
  exact (hst expireAt harmed).mono (fun key hkey => htimeouts ▸ hkey)
    (fun hsignal => htrig ▸ hsignal) hannounces

/-- A step of a caller that had nothing to announce. -/
theorem Wakeful.caller (hst : st.Wakeful) {c : CallId} {pc : Pc}
    (hpc : st'.pc = Function.update st.pc c pc) (hquiet : ¬ st.Announces c)
    (hproc : st'.proc = st.proc) (htrig : st'.trig = st.trig)
    (htimeouts : st'.timeouts = st.timeouts) : st'.Wakeful := by
  refine hst.of_announces (congrArg _ hproc) htrig htimeouts fun d hd => ?_
  have hne : d ≠ c := fun h => hquiet (h ▸ hd)
  unfold Announces
  rw [hpc, Function.update_of_ne hne]
  exact hd

theorem Wakeful.unarmed (hproc : st'.proc.armed = none) : st'.Wakeful := by
  intro expireAt harmed
  rw [hproc] at harmed
  cases harmed

/-- A step of `processTimeout` that neither arms the timer nor takes a signal. -/
theorem Wakeful.proc (hst : st.Wakeful) (hproc : st'.proc.armed = st.proc.armed)
    (hpc : st'.pc = st.pc) (htrig : st'.trig = st.trig) (htimeouts : st'.timeouts = st.timeouts) :
    st'.Wakeful := by
  refine hst.of_announces hproc htrig htimeouts fun c hc => ?_
  unfold Announces
  rwa [hpc]

theorem not_announces_of_eq {c : CallId} {pc : Pc} (hpc : st.pc c = pc) (hinserted : pc ≠ .inserted)
    (hposting : pc ≠ .posting) : ¬ st.Announces c := by
  unfold Announces
  rw [hpc]
  exact fun h => h.elim hinserted hposting

theorem Wakeful.arm {first : Int} (hproc : st'.proc.armed = some first)
    (hleft : ∀ key ∈ st'.timeouts, first ≤ key) : st'.Wakeful := by
  intro expireAt harmed
  rw [hproc] at harmed
  cases harmed
  exact .inl hleft

theorem Wakeful.step (hst : st.Wakeful) {a : Action} (henabled : st.Enabled a) :
    (st.next opts a).Wakeful := by
  cases a with
  | begin c => exact hst.caller rfl (not_announces_of_eq henabled nofun nofun) rfl rfl rfl
  | write c => exact hst.caller rfl (not_announces_of_eq henabled.1 nofun nofun) rfl rfl rfl
  | writeFails c => exact hst.caller rfl (not_announces_of_eq henabled nofun nofun) rfl rfl rfl
  | register c nowMs =>
    have hquiet := not_announces_of_eq henabled.1 nofun nofun
    show (st.register opts c nowMs).Wakeful
    unfold register
    split
    all_goals exact hst.caller rfl hquiet rfl rfl rfl
  | insert c =>
    intro _ _
    exact .inr (.inr ⟨c, .inl (Function.update_self ..)⟩)
  | swap c =>
    show (st.swap c).Wakeful
    unfold swap
    split
    · intro _ _
      exact .inr (.inr ⟨c, .inr (Function.update_self ..)⟩)
    · exact .unarmed rfl
  | post c =>
    intro _ _
    exact .inr (.inl rfl)
  | takeRet c =>
    have hquiet : ¬ st.Announces c := henabled.1.elim
      (fun h => not_announces_of_eq h nofun nofun) (fun h => not_announces_of_eq h nofun nofun)
    exact hst.caller rfl hquiet rfl rfl rfl
  | ctxDone c => exact hst.caller rfl (not_announces_of_eq henabled nofun nofun) rfl rfl rfl
  | lastLook c => exact hst.caller rfl (not_announces_of_eq henabled.1 nofun nofun) rfl rfl rfl
  | deregister c =>
    obtain ⟨ret, hpc⟩ := henabled
    show (st.deregister c).Wakeful
    rw [deregister_of_leaving hpc]
    exact hst.caller rfl (not_announces_of_eq hpc nofun nofun) rfl rfl rfl
  | closeRet c =>
    obtain ⟨ret, hpc⟩ := henabled
    show (st.closeRet c).Wakeful
    rw [closeRet_of_closing hpc]
    exact hst.caller rfl (not_announces_of_eq hpc nofun nofun) rfl rfl rfl
  | recv msg =>
    show (st.recv msg).Wakeful
    unfold recv
    repeat' split
    all_goals exact hst.proc rfl rfl rfl rfl
  | tidy held =>
    intro expireAt harmed
    apply (hst expireAt harmed).mono
    · intro key hkey
      change key ∈ (st.tidy held).timeouts at hkey
      unfold tidy at hkey
      split at hkey
      · exact (Timeouts.mem_drop ..).mp hkey
      · exact hkey
    · exact id
    · exact fun _ => id
  | deliver held => exact hst.proc rfl rfl rfl rfl
  | startRead =>
    show st.startRead.Wakeful
    cases hleft : st.timeouts.left with
    | none =>
      simp only [startRead, hleft]
      exact .unarmed rfl
    | some first =>
      rw [startRead_of_left hleft]
      exact .arm rfl fun key => Timeouts.left_le hleft
  | takeSignal =>
    obtain ⟨⟨expireAt, hproc⟩, -⟩ := henabled
    show st.takeSignal.Wakeful
    rw [takeSignal_of_waiting hproc]
    exact .unarmed rfl
  | readLeft =>
    obtain ⟨expireAt, hproc⟩ := henabled
    show st.readLeft.Wakeful
    cases hleft : st.timeouts.left with
    | none =>
      simp only [readLeft, hproc, hleft]
      exact .unarmed rfl
    | some first =>
      rw [readLeft_of_left hproc hleft]
      apply Wakeful.arm rfl
      intro key hkey
      have hfirst : first ≤ key := Timeouts.left_le hleft hkey
      split
      · exact hfirst
      · omega
  | fire nowMs => exact .unarmed rfl
  | sweepKey order =>
    obtain ⟨key, left, swept, callInfos, hproc, -⟩ := henabled
    show (st.sweepKey order).Wakeful
    rw [sweepKey_of_sweeping hproc]
    exact .unarmed rfl
  | sweepEnd nowMs =>
    obtain ⟨swept, callInfos, hproc⟩ := henabled
    show (st.sweepEnd nowMs).Wakeful
    rw [sweepEnd_of_sweeping hproc]
    apply Wakeful.arm rfl
    intro key hkey
    cases hleft : (st.timeouts.removeAll swept).left with
    | some first => exact Timeouts.left_le hleft hkey
    | none =>
      -- the timer is armed for two minutes later, and there is no deadline
      have hempty := (Timeouts.left_eq_none_iff _).mp hleft
      exact absurd hkey (Std.TreeMap.not_mem_of_isEmpty hempty)
  | sendTimeout =>
    obtain ⟨expireAt, info, rest, hproc⟩ := henabled
    have harmed : st.proc.armed = some expireAt := congrArg Proc.armed hproc
    show st.sendTimeout.Wakeful
    rw [sendTimeout_of_sending hproc]
    split
    all_goals exact hst.proc harmed.symm rfl rfl rfl
  | rearm =>
    obtain ⟨expireAt, hproc⟩ := henabled
    have harmed : st.proc.armed = some expireAt := congrArg Proc.armed hproc
    show st.rearm.Wakeful
    rw [rearm_of_sending hproc]
    exact hst.proc harmed.symm rfl rfl rfl
  | close => exact hst.proc rfl rfl rfl rfl
  | quit => exact .unarmed rfl

/-- **No wake-up of `processTimeout` is lost.**  Whenever it waits, its timer is armed for
the first deadline or an earlier time, or there is no deadline, or a signal is pending, or
a caller that has inserted its deadline is about to send one. -/
theorem run_wakeful (opts : CallId → CallOption) {st : Client} {expireAt : Int}
    (hrun : (client opts).Run (fun _ _ => True) st) (hproc : st.proc = .waiting expireAt) :
    (∃ first, st.timeouts.left = some first ∧ expireAt ≤ first) ∨ st.timeouts.isEmpty = true ∨
      st.trig = true ∨ ∃ c, st.Announces c := by
  have hst : st.Wakeful := hrun.invariant nofun fun _ _ hs henabled _ => hs.step henabled
  rcases hst expireAt (congrArg Proc.armed hproc) with hkeys | hcoming
  · cases hleft : st.timeouts.left with
    | none => exact .inr (.inl ((Timeouts.left_eq_none_iff _).mp hleft))
    | some first => exact .inl ⟨first, rfl, hkeys first (Timeouts.mem_of_left hleft)⟩
  · exact .inr (.inr hcoming)

/-- The second call has the earlier deadline: it has inserted it, and `processTimeout`
still waits for the deadline of the first. -/
theorem run_wakeful_earlier :
    ∃ st, (client fun c => { kind := .async, timeout := some (10 - 5 * c), passThrough := 0 }).Run
        (fun _ _ => True) st ∧
      st.proc = .waiting 11 ∧ st.timeouts.left = some 6 ∧
      ((∃ first, st.timeouts.left = some first ∧ 11 ≤ first) ∨ st.timeouts.isEmpty = true ∨
        st.trig = true ∨ ∃ c, st.Announces c) := by
  let opts : CallId → CallOption :=
    fun c => { kind := .async, timeout := some (10 - 5 * c), passThrough := 0 }
  let actions : List Action :=
    [.begin 0, .write 0, .register 0 1, .insert 0, .swap 0, .startRead, .begin 1, .write 1,
      .register 1 1, .insert 1]
  have hrun : (client opts).Run (fun _ _ => True) ((client opts).after actions {}) := by
    apply System.Run.of_admits .start
    exact ⟨rfl, trivial, ⟨rfl, rfl⟩, trivial, ⟨rfl, by decide⟩, trivial, ⟨rfl, rfl⟩, trivial,
      rfl, trivial, rfl, trivial, rfl, trivial, ⟨rfl, rfl⟩, trivial, ⟨rfl, by decide⟩, trivial,
      ⟨rfl, rfl⟩, trivial, trivial⟩
  exact ⟨_, hrun, rfl, by decide +kernel, run_wakeful opts hrun rfl⟩

end Client

end Gokit.Rpc
