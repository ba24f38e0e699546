/-
# Unique registration

`RegisterService` with `unique` set looks into the cache of its node and registers the
service only if the cache has no instance of it.  The caches follow etcd through the
watch, each at its own pace, and the registration is a separate put under a fresh
key; so two calls can both find no instance, and both succeed.

The system has any number of nodes and calls.  At most one call succeeds if no
call makes its check while another one is under way, or before its node has seen the
keys put so far.
-/

import Gokit.Discovery.Lookup
import Gokit.Math.Transition

namespace Gokit.Rpc.Registration

open Gokit.Math Gokit.Discovery

/-! ## The system -/

/-- Where a call of `RpcImp.RegisterService` is. -/
inductive Call
  | fresh
  /-- the check has passed, in `etcdImp.RegisterService` -/
  | registering (node : Nat) (serviceName : Str)
  /-- the key is put, `KeepAlive` is to come -/
  | keeping (serviceName : Str)
  /-- about to call `cb` -/
  | callback (serviceName : Str)
  | succeeded (serviceName : Str)
  | failed
  deriving DecidableEq, Repr

structure Cluster where
  /-- the history of etcd -/
  log : List (Change Str Str) := []
  /-- the cache of each node, and the number of changes it has seen -/
  allServices : Nat → ServiceContainer
  seen : Nat → Nat := fun _ => 0
  call : Nat → Call := fun _ => .fresh

inductive Action
  /-- the call is made at a node, and looks at the cache -/
  | check (c node : Nat) (serviceName : Str)
  /-- `Grant` and `Put`, under a new identifier -/
  | put (c : Nat) (uuid : Str)
  | putFails (c : Nat)
  | keepAlive (c : Nat)
  | keepAliveFails (c : Nat)
  /-- `cb` returns nil -/
  | succeed (c : Nat)
  /-- `cb` returns an error -/
  | fail (c : Nat)
  /-- a node handles the next event of its watch -/
  | deliver (node : Nat)
  /-- a node loads its cache again -/
  | reload (node r : Nat) (kvs : List (Str × Str))
  /-- any other change of etcd -/
  | other (change : Change Str Str)

section System

variable (cm : CaseMap) (pfx : Str) (rpcAddr : Nat → Str)

def Cluster.setCall (st : Cluster) (c : Nat) (pc : Call) : Cluster :=
  { st with call := Function.update st.call c pc }

/-- `len(allService) > 0`. -/
def existsService (allServices : ServiceContainer) (serviceName : Str) : Bool :=
  match getAllService cm allServices serviceName with
  | some rpcAddrs => decide (0 < rpcAddrs.keys.length)
  | none => false

def Cluster.check (st : Cluster) (c node : Nat) (serviceName : Str) : Cluster :=
  if existsService cm (st.allServices node) serviceName then st.setCall c .failed
  else st.setCall c (.registering node serviceName)

def Cluster.put (st : Cluster) (c : Nat) (uuid : Str) : Cluster :=
  match st.call c with
  | .registering node serviceName =>
    { st.setCall c (.keeping serviceName) with
      log := st.log ++ [.put (serviceKey pfx (cm.lower serviceName) uuid) (rpcAddr node)] }
  | _ => st

def Cluster.keepAlive (st : Cluster) (c : Nat) : Cluster :=
  match st.call c with
  | .keeping serviceName => st.setCall c (.callback serviceName)
  | _ => st

def Cluster.succeed (st : Cluster) (c : Nat) : Cluster :=
  match st.call c with
  | .callback serviceName => st.setCall c (.succeeded serviceName)
  | _ => st

def Cluster.deliver (st : Cluster) (node : Nat) : Cluster :=
  match st.log[st.seen node]? with
  | some change =>
    { st with
      allServices := Function.update st.allServices node
        (cacheEvent pfx (st.allServices node) change)
      seen := Function.update st.seen node (st.seen node + 1) }
  | none => st

def Cluster.reload (st : Cluster) (node r : Nat) (kvs : List (Str × Str)) : Cluster :=
  { st with
    allServices := Function.update st.allServices node
      (loadAndWatch pfx (st.allServices node) kvs)
    seen := Function.update st.seen node r }

/-- When a step can be made.  An identifier is one that no key has had before. -/
def Cluster.Enabled (st : Cluster) : Action → Prop
  | .check c _ _ => st.call c = .fresh
  | .put c uuid => (∃ node serviceName, st.call c = .registering node serviceName) ∧
      ':' ∉ uuid ∧ ∀ name addr, .put (serviceKey pfx name uuid) addr ∉ st.log
  | .putFails c => ∃ node serviceName, st.call c = .registering node serviceName
  | .keepAlive c | .keepAliveFails c => ∃ serviceName, st.call c = .keeping serviceName
  | .succeed c | .fail c => ∃ serviceName, st.call c = .callback serviceName
  | .deliver node => st.seen node < st.log.length
  | .reload _ r kvs => r ≤ st.log.length ∧ Snapshot pfx st.log r kvs
  | .other _ => True

def Cluster.next (st : Cluster) : Action → Cluster
  | .check c node serviceName => st.check cm c node serviceName
  | .put c uuid => st.put cm pfx rpcAddr c uuid
  | .putFails c | .keepAliveFails c | .fail c => st.setCall c .failed
  | .keepAlive c => st.keepAlive c
  | .succeed c => st.succeed c
  | .deliver node => st.deliver pfx node
  | .reload node r kvs => st.reload pfx node r kvs
  | .other change => { st with log := st.log ++ [change] }

def cluster : System Cluster Action where
  init := { allServices := fun _ => loadAndWatch pfx (fun _ => none) [] }
  Enabled := Cluster.Enabled pfx
  next := Cluster.next cm pfx rpcAddr

/-! ## The condition on the steps -/

/-- The name of a call between its check and its end. -/
def Call.underway : Call → Option Str
  | registering _ serviceName | keeping serviceName | callback serviceName => some serviceName
  | _ => none

/-- A call for the service passes its check only when no other one is under way and its node has
seen all the keys of the service; and no instance of the service is deregistered. -/
def Undisturbed (name : Str) (st : Cluster) : Action → Prop
  | .check _ node serviceName => cm.lower serviceName = name →
      existsService cm (st.allServices node) serviceName = false →
      (∀ c other, (st.call c).underway = some other → cm.lower other ≠ name) ∧
      ∀ id addr, .put (serviceKey pfx name id) addr ∉ st.log.drop (st.seen node)
  | .other change => ∀ id, change ≠ .delete (serviceKey pfx name id)
  | _ => True

end System

/-! ## The invariant -/

/-- The name of a call that has passed its check and has not failed. -/
def Call.holding : Call → Option Str
  | registering _ serviceName | keeping serviceName | callback serviceName => some serviceName
  | succeeded serviceName => some serviceName
  | _ => none

/-- The name of a call that has put its key and has not failed. -/
def Call.holder : Call → Option Str
  | keeping serviceName | callback serviceName | succeeded serviceName => some serviceName
  | _ => none

/-- An instance of the service is in etcd. -/
def Present (pfx name : Str) (log : List (Change Str Str)) : Prop :=
  ∃ id, ':' ∉ id ∧ contentAt log log.length (serviceKey pfx name id) ≠ none

structure Inv (cm : CaseMap) (pfx name : Str) (st : Cluster) : Prop where
  follows : ∀ node, ∃ r, Follows pfx st.log (st.allServices node) r (st.seen node)
  /-- one call at most is on its way to success, or there -/
  one : ∀ c d n n', (st.call c).holding = some n → (st.call d).holding = some n' →
    cm.lower n = name → cm.lower n' = name → c = d
  present : ∀ c n, (st.call c).holder = some n → cm.lower n = name → Present pfx name st.log

variable {c : Nat}

section Invariant

variable {cm : CaseMap} {pfx name : Str} {st : Cluster}

/-- No step but the deletion of its key removes an instance. -/
theorem Present.append {log : List (Change Str Str)} (hpresent : Present pfx name log)
    {c : Change Str Str} (hc : ∀ id, c ≠ .delete (serviceKey pfx name id)) :
    Present pfx name (log ++ [c]) := by
  obtain ⟨id, hid, halive⟩ := hpresent
  refine ⟨id, hid, ?_⟩
  rw [List.length_append, List.length_singleton, contentAt_append_singleton]
  cases c with
  | put key addr =>
    by_cases hkey : serviceKey pfx name id = key
    · rw [← hkey]
      exact ne_of_eq_of_ne (Function.update_self ..) nofun
    · exact ne_of_eq_of_ne (Function.update_of_ne hkey ..) halive
  | delete key =>
    have hkey : serviceKey pfx name id ≠ key := fun heq => hc id (heq ▸ rfl)
    exact ne_of_eq_of_ne (Function.update_of_ne hkey ..) halive

theorem present_put {log : List (Change Str Str)} {id : Str} (hid : ':' ∉ id) (addr : Str) :
    Present pfx name (log ++ [.put (serviceKey pfx name id) addr]) := by
  refine ⟨id, hid, ?_⟩
  rw [List.length_append, List.length_singleton, contentAt_append_singleton]
  exact ne_of_eq_of_ne (Function.update_self ..) nofun

/-- A check that passes has seen no instance. -/
theorem addr_eq_none_of_not_exists {services : ServiceContainer} {serviceName id : Str}
    (hcolon : ':' ∉ cm.lower serviceName) (hnot : existsService cm services serviceName = false) :
    services.addr (cm.lower serviceName) id = none := by
  rw [existsService, getAllService_of_not_mem hcolon] at hnot
  rw [ServiceContainer.addr]
  cases hset : services (cm.lower serviceName) with
  | none => rfl
  | some set =>
    rw [hset] at hnot
    have hempty : set.id2addr.keys = [] :=
      List.length_eq_zero_iff.mp (Nat.eq_zero_of_not_pos (of_decide_eq_false hnot))
    refine AList.lookup_eq_none.mpr fun hmem => ?_
    rw [AList.mem_keys, hempty] at hmem
    exact absurd hmem List.not_mem_nil

/-- The calls go on without a new one passing its check. -/
theorem Inv.setCall (hinv : Inv cm pfx name st) {pc : Call}
    (hholding : ∀ n, pc.holding = some n → (st.call c).holding = some n)
    (hholder : ∀ n, pc.holder = some n → cm.lower n = name → Present pfx name st.log) :
    Inv cm pfx name (st.setCall c pc) where
  follows := hinv.follows
  one := by
    have hold : ∀ d n, (Function.update st.call c pc d).holding = some n →
        (st.call d).holding = some n := by
      intro d n h
      by_cases heq : d = c
      · rw [heq, Function.update_self] at h
        rw [heq]
        exact hholding n h
      · rwa [Function.update_of_ne heq] at h
    exact fun d e n n' hd he => hinv.one d e n n' (hold d n hd) (hold e n' he)
  present := by
    intro d n h hn
    have h : (Function.update st.call c pc d).holder = some n := h
    by_cases heq : d = c
    · rw [heq, Function.update_self] at h
      exact hholder n h hn
    · rw [Function.update_of_ne heq] at h
      exact hinv.present d n h hn

theorem Inv.append (hinv : Inv cm pfx name st) {c : Change Str Str}
    (hc : ∀ id, c ≠ .delete (serviceKey pfx name id)) :
    Inv cm pfx name { st with log := st.log ++ [c] } where
  follows := fun node =>
    have ⟨r, hfollows⟩ := hinv.follows node
    ⟨r, hfollows.append [c]⟩
  one := hinv.one
  present := fun d n h hn => (hinv.present d n h hn).append hc

/-- A call makes its check. -/
theorem Inv.check (hinv : Inv cm pfx name st) (hcolon : ':' ∉ name) {node : Nat} {serviceName : Str}
    (hok : Undisturbed cm pfx name st (.check c node serviceName)) :
    Inv cm pfx name (st.check cm c node serviceName) := by
  unfold Cluster.check
  split
  · exact hinv.setCall nofun nofun
  · rename_i hnot
    have hnot := eq_false_of_ne_true hnot
    refine ⟨hinv.follows, ?_, ?_⟩
    · -- if the call is for the service, then no other call holds it
      have hnone : cm.lower serviceName = name → ∀ d n, (st.call d).holding = some n →
          cm.lower n ≠ name := by
        intro hname d n hd hn
        obtain ⟨hunderway, hseen⟩ := hok hname hnot
        have hholder : (st.call d).holder = some n := by
          cases hpc : st.call d with
          | succeeded n' =>
            rw [hpc] at hd
            exact hd
          | fresh | failed =>
            rw [hpc] at hd
            exact nomatch hd
          | registering _ n' | keeping n' | callback n' =>
            rw [hpc] at hd
            exact absurd hn (hunderway d n (by rw [hpc]; exact hd))
        obtain ⟨id, hid, halive⟩ := hinv.present d n hholder hn
        obtain ⟨r, hfollows⟩ := hinv.follows node
        have hthere := contentAt_ne_none_of_not_put halive (hseen id)
        refine (hfollows.addr_ne_none_iff ⟨hcolon, hid⟩).mpr hthere ?_
        rw [← hname]
        exact addr_eq_none_of_not_exists (hname ▸ hcolon) hnot
      intro d e n n' hd he hn hn'
      have hd : (Function.update st.call c (.registering node serviceName) d).holding = some n := hd
      have he : (Function.update st.call c (.registering node serviceName) e).holding =
        some n' := he
      by_cases hdc : d = c
      · by_cases hec : e = c
        · rw [hdc, hec]
        · rw [hdc, Function.update_self] at hd
          rw [Function.update_of_ne hec] at he
          obtain rfl := Option.some.inj hd
          exact absurd hn' (hnone hn e n' he)
      · rw [Function.update_of_ne hdc] at hd
        by_cases hec : e = c
        · rw [hec, Function.update_self] at he
          obtain rfl := Option.some.inj he
          exact absurd hn (hnone hn' d n hd)
        · rw [Function.update_of_ne hec] at he
          exact hinv.one d e n n' hd he hn hn'
    · intro d n hd hn
      have hd : (Function.update st.call c (.registering node serviceName) d).holder = some n := hd
      by_cases hdc : d = c
      · rw [hdc, Function.update_self] at hd
        exact nomatch hd
      · rw [Function.update_of_ne hdc] at hd
        exact hinv.present d n hd hn

/-- A call puts its key. -/
theorem Inv.put (hinv : Inv cm pfx name st) (rpcAddr : Nat → Str) {uuid : Str}
    (huuid : ':' ∉ uuid) : Inv cm pfx name (st.put cm pfx rpcAddr c uuid) := by
  unfold Cluster.put
  split
  · rename_i node serviceName hcall
    have hlog : Inv cm pfx name { st with
        log := st.log ++ [.put (serviceKey pfx (cm.lower serviceName) uuid) (rpcAddr node)] } :=
      hinv.append nofun
    refine hlog.setCall ?_ ?_
    · intro n h
      show (st.call c).holding = some n
      rw [hcall]
      exact h
    · intro n h hn
      obtain rfl := Option.some.inj h
      rw [← hn]
      exact present_put huuid (rpcAddr node)
  · exact hinv

/-- A node changes its cache. -/
theorem Inv.cache (hinv : Inv cm pfx name st) {node : Nat} {services : ServiceContainer}
    {r seen : Nat} (hfollows : Follows pfx st.log services r seen) :
    Inv cm pfx name { st with
      allServices := Function.update st.allServices node services
      seen := Function.update st.seen node seen } where
  follows := by
    intro other
    show ∃ r, Follows pfx st.log (Function.update st.allServices node services other) r
      (Function.update st.seen node seen other)
    by_cases heq : other = node
    · rw [heq, Function.update_self, Function.update_self]
      exact ⟨r, hfollows⟩
    · rw [Function.update_of_ne heq, Function.update_of_ne heq]
      exact hinv.follows other
  one := hinv.one
  present := hinv.present

/-- **Every undisturbed step keeps the invariant.** -/
theorem Inv.next (hinv : Inv cm pfx name st) (hcolon : ':' ∉ name) (rpcAddr : Nat → Str)
    {a : Action} (henabled : st.Enabled pfx a) (hok : Undisturbed cm pfx name st a) :
    Inv cm pfx name (st.next cm pfx rpcAddr a) := by
  cases a with
  | check c node serviceName => exact hinv.check hcolon hok
  | put c uuid => exact hinv.put rpcAddr henabled.2.1
  | putFails c | keepAliveFails c | fail c => exact hinv.setCall nofun nofun
  | keepAlive c =>
    obtain ⟨serviceName, hcall⟩ := henabled
    have hnext : st.next cm pfx rpcAddr (.keepAlive c) =
        st.setCall c (.callback serviceName) := by
      simp only [Cluster.next, Cluster.keepAlive, hcall]
    rw [hnext]
    exact hinv.setCall (fun n h => by rw [hcall]; exact h)
      fun n h => hinv.present c n (by rw [hcall]; exact h)
  | succeed c =>
    obtain ⟨serviceName, hcall⟩ := henabled
    have hnext : st.next cm pfx rpcAddr (.succeed c) = st.setCall c (.succeeded serviceName) := by
      simp only [Cluster.next, Cluster.succeed, hcall]
    rw [hnext]
    exact hinv.setCall (fun n h => by rw [hcall]; exact h)
      fun n h => hinv.present c n (by rw [hcall]; exact h)
  | deliver node =>
    obtain ⟨r, hfollows⟩ := hinv.follows node
    have hchange : st.log[st.seen node]? = some (st.log.get ⟨st.seen node, henabled⟩) :=
      List.getElem?_eq_getElem henabled
    simp only [Cluster.next, Cluster.deliver, hchange]
    exact hinv.cache (hfollows.event hchange)
  | reload node r kvs =>
    obtain ⟨_, hfollows⟩ := hinv.follows node
    exact hinv.cache (hfollows.reload henabled.1 henabled.2)
  | other change => exact hinv.append hok

theorem inv_init (rpcAddr : Nat → Str) : Inv cm pfx name (cluster cm pfx rpcAddr).init where
  follows := fun _ => ⟨0, .load (Nat.zero_le _)
    fun _ _ => iff_of_false List.not_mem_nil fun h => nomatch h.2⟩
  one := nofun
  present := nofun

end Invariant

/-- **At most one unique registration succeeds**, in every undisturbed run.  The name is any
without a colon, and names that differ in case only are the same. -/
theorem run_unique {cm : CaseMap} {pfx name : Str} {rpcAddr : Nat → Str} {st : Cluster}
    (hcolon : ':' ∉ name) (hrun : (cluster cm pfx rpcAddr).Run (Undisturbed cm pfx name) st)
    {d : Nat} {n n' : Str} (hc : st.call c = .succeeded n) (hd : st.call d = .succeeded n')
    (hn : cm.lower n = name) (hn' : cm.lower n' = name) : c = d := by
  have hinv : Inv cm pfx name st := hrun.invariant (inv_init rpcAddr)
    fun s a hs henabled hok => hs.next hcolon rpcAddr henabled hok
  exact hinv.one c d n n' (by rw [hc]; rfl) (by rw [hd]; rfl) hn hn'

/-- The first node registers the service; when the second one has seen it, its call fails. -/
theorem run_unique_second :
    ∃ st, (cluster .onlyA "g:".toList fun _ => "x".toList).Run
        (Undisturbed .onlyA "g:".toList "a".toList) st ∧
      st.call 1 = .failed ∧
      ∀ c n, st.call c = .succeeded n → CaseMap.onlyA.lower n = "a".toList → c = 0 := by
  let S := cluster .onlyA "g:".toList fun _ => "x".toList
  let actions : List Action :=
    [.check 0 0 "A".toList, .put 0 "1".toList, .keepAlive 0, .succeed 0, .deliver 1,
      .check 1 1 "a".toList]
  have hrun : S.Run (Undisturbed .onlyA "g:".toList "a".toList) (S.after actions S.init) := by
    refine System.Run.start.of_admits ?_
    refine ⟨rfl, fun _ _ => ⟨nofun, fun _ _ => List.not_mem_nil⟩, ⟨⟨_, _, rfl⟩, by decide,
      fun _ _ => List.not_mem_nil⟩, trivial, ⟨_, rfl⟩, trivial, ⟨_, rfl⟩, trivial,
      Nat.zero_lt_one, trivial, rfl, fun _ hpasses => ?_, trivial⟩
    exact absurd hpasses (by decide +kernel)
  refine ⟨_, hrun, by decide +kernel, fun c n hc hn => ?_⟩
  have hfirst : (S.after actions S.init).call 0 = .succeeded "A".toList := by decide +kernel
  exact run_unique (by decide) hrun hc hfirst hn (by decide)

/-- Two nodes make their checks before either has put its key, and both calls succeed. -/
theorem both_succeed :
    ∃ st, (cluster .onlyA "g:".toList fun _ => "x".toList).Run (fun _ _ => True) st ∧
      st.call 0 = .succeeded "a".toList ∧ st.call 1 = .succeeded "a".toList := by
  let S := cluster .onlyA "g:".toList fun _ => "x".toList
  let actions : List Action :=
    [.check 0 0 "a".toList, .check 1 1 "a".toList, .put 0 "1".toList, .put 1 "2".toList,
      .keepAlive 0, .keepAlive 1, .succeed 0, .succeed 1]
  have hrun : S.Run (fun _ _ => True) (S.after actions S.init) := by
    refine System.Run.start.of_admits ?_
    refine ⟨rfl, trivial, rfl, trivial, ⟨⟨_, _, rfl⟩, by decide, fun _ _ => List.not_mem_nil⟩,
      trivial, ⟨⟨_, _, rfl⟩, by decide, ?_⟩, trivial, ⟨_, rfl⟩, trivial, ⟨_, rfl⟩, trivial,
      ⟨_, rfl⟩, trivial, ⟨_, rfl⟩, trivial, trivial⟩
    intro name addr hmem
    have hkey := (Change.put.inj (List.mem_singleton.mp hmem)).1
    have hlast := congrArg (fun key => key.reverse.head?) hkey
    simp [serviceKey] at hlast
  exact ⟨_, hrun, by decide +kernel, by decide +kernel⟩

end Gokit.Rpc.Registration
