/-
# The client connections of a node

`Call` and `CallAll` keep one connection for each address in `clients`.  The lookup and
the store are two critical sections with a dial between them, and the store overwrites:
two first calls to an address can both dial, and then the connection of one of them is
in nobody's hands.  `Stop` closes what is in `clients`.

The system has any number of callers; each of the lookups of a `CallAll` is one of the
calls below.  As long as no call misses an address that another one is dialing, there
is one connection for each address, and `Stop` closes them all.
-/

import Gokit.Math.Transition
import Mathlib.Data.List.AList

namespace Gokit.Rpc.Connections

open Gokit.Math

/-! ## The system -/

abbrev ConnId : Type := Nat

inductive Caller (Addr : Type)
  | idle
  /-- in `connectTo`, about to dial -/
  | missed (addr : Addr)
  /-- about to store the connection -/
  | dialed (addr : Addr) (cli : ConnId)
  /-- in the callback -/
  | using (cli : ConnId)
  deriving DecidableEq, Repr

/-- Where `Stop` is; `todo` are the connections that are still to be closed. -/
inductive Stop
  | running
  | stopping (todo : List ConnId)
  | stopped
  deriving DecidableEq, Repr

structure RpcImp (Addr : Type) where
  clients : AList fun _ : Addr => ConnId
  caller : Nat → Caller Addr := fun _ => .idle
  stop : Stop := .running
  /-- history: the connections `NewClientConn` has returned, with their addresses -/
  opened : List (ConnId × Addr) := []
  /-- history: the connections that are closed -/
  closed : List ConnId := []

inductive Action (Addr : Type)
  | lookup (t : Nat) (addr : Addr)
  /-- `NewClientConn` returns a connection -/
  | dial (t : Nat) (cli : ConnId)
  | dialFails (t : Nat)
  | store (t : Nat)
  /-- the callback returns -/
  | finish (t : Nat)
  | stop
  | close
  | stopped
  deriving DecidableEq, Repr

section System

variable {Addr : Type} [DecidableEq Addr]

namespace RpcImp

def setCaller (imp : RpcImp Addr) (t : Nat) (pc : Caller Addr) : RpcImp Addr :=
  { imp with caller := Function.update imp.caller t pc }

def lookup (imp : RpcImp Addr) (t : Nat) (addr : Addr) : RpcImp Addr :=
  match imp.clients.lookup addr with
  | some cli => imp.setCaller t (.using cli)
  | none => imp.setCaller t (.missed addr)

def dial (imp : RpcImp Addr) (t : Nat) (cli : ConnId) : RpcImp Addr :=
  match imp.caller t with
  | .missed addr => { imp.setCaller t (.dialed addr cli) with opened := (cli, addr) :: imp.opened }
  | _ => imp

def store (imp : RpcImp Addr) (t : Nat) : RpcImp Addr :=
  match imp.caller t with
  | .dialed addr cli => { imp.setCaller t (.using cli) with clients := imp.clients.insert addr cli }
  | _ => imp

def close (imp : RpcImp Addr) : RpcImp Addr :=
  match imp.stop with
  | .stopping (cli :: todo) => { imp with stop := .stopping todo, closed := cli :: imp.closed }
  | _ => imp

/-- When a step can be made; a connection is a new object. -/
def Enabled (imp : RpcImp Addr) : Action Addr → Prop
  | .lookup t _ => imp.caller t = .idle
  | .dial t cli => (∃ addr, imp.caller t = .missed addr) ∧ ∀ addr, (cli, addr) ∉ imp.opened
  | .dialFails t => ∃ addr, imp.caller t = .missed addr
  | .store t => ∃ addr cli, imp.caller t = .dialed addr cli
  | .finish t => ∃ cli, imp.caller t = .using cli
  | .stop => imp.stop = .running
  | .close => ∃ cli todo, imp.stop = .stopping (cli :: todo)
  | .stopped => imp.stop = .stopping []

def next (imp : RpcImp Addr) : Action Addr → RpcImp Addr
  | .lookup t addr => imp.lookup t addr
  | .dial t cli => imp.dial t cli
  | .dialFails t | .finish t => imp.setCaller t .idle
  | .store t => imp.store t
  | .stop => { imp with stop := .stopping (imp.clients.entries.map Sigma.snd) }
  | .close => imp.close
  | .stopped => { imp with stop := .stopped }

end RpcImp

variable (Addr) in
def rpcImp : System (RpcImp Addr) (Action Addr) where
  init := { clients := ∅ }
  Enabled := RpcImp.Enabled
  next := RpcImp.next

/-! ## The condition on the steps -/

/-- The address a caller has missed and not yet stored. -/
def Caller.connecting : Caller Addr → Option Addr
  | missed addr | dialed addr _ => some addr
  | _ => none

/-- A caller misses an address only when nobody else is connecting to it and `Stop` has not
begun, and `Stop` begins when nobody is connecting. -/
def Undisturbed (imp : RpcImp Addr) : Action Addr → Prop
  | .lookup _ addr => imp.clients.lookup addr = none →
      imp.stop = .running ∧ ∀ t, (imp.caller t).connecting ≠ some addr
  | .stop => ∀ t, (imp.caller t).connecting = none
  | _ => True

/-! ## The invariant -/

/-- What `Stop` has closed so far. -/
def Stop.Covers (stop : Stop) (closed : List ConnId) (cli : ConnId) : Prop :=
  match stop with
  | running => True
  | stopping todo => cli ∈ closed ∨ cli ∈ todo
  | stopped => cli ∈ closed

structure Inv (imp : RpcImp Addr) : Prop where
  /-- a connection is stored, or in the hands of the `connectTo` that has dialed it -/
  held : ∀ cli addr, (cli, addr) ∈ imp.opened →
    imp.clients.lookup addr = some cli ∨ ∃ t, imp.caller t = .dialed addr cli
  /-- nobody connects to an address that is stored -/
  absent : ∀ t addr, (imp.caller t).connecting = some addr → imp.clients.lookup addr = none
  /-- at most one caller connects to an address -/
  one : ∀ t t' addr, (imp.caller t).connecting = some addr →
    (imp.caller t').connecting = some addr → t = t'
  /-- after `Stop` nobody connects -/
  quiet : imp.stop ≠ .running → ∀ t, (imp.caller t).connecting = none
  covers : ∀ cli addr, (cli, addr) ∈ imp.opened → imp.stop.Covers imp.closed cli

namespace Inv

variable {imp : RpcImp Addr} {t : Nat}

/-- A caller that does not connect goes on, without connecting. -/
theorem setCaller (hinv : Inv imp) {pc : Caller Addr} (hpc : pc.connecting = none)
    (hdialed : ∀ addr cli, imp.caller t ≠ .dialed addr cli) : Inv (imp.setCaller t pc) := by
  have hold : ∀ t' addr, (Function.update imp.caller t pc t').connecting = some addr →
      (imp.caller t').connecting = some addr := by
    intro t' addr h
    by_cases heq : t' = t
    · rw [heq, Function.update_self, hpc] at h
      exact nomatch h
    · rwa [Function.update_of_ne heq] at h
  refine ⟨?_, ?_, ?_, ?_, hinv.covers⟩
  · intro cli addr hmem
    refine (hinv.held cli addr hmem).imp_right fun ⟨t', ht'⟩ => ⟨t', ?_⟩
    have hne : t' ≠ t := by
      rintro rfl
      exact hdialed addr cli ht'
    exact (Function.update_of_ne hne ..).trans ht'
  · exact fun t' addr h => hinv.absent t' addr (hold t' addr h)
  · exact fun t' t'' addr h h' => hinv.one t' t'' addr (hold t' addr h) (hold t'' addr h')
  · intro hstop t'
    show (Function.update imp.caller t pc t').connecting = none
    by_cases heq : t' = t
    · rw [heq, Function.update_self, hpc]
    · rw [Function.update_of_ne heq]
      exact hinv.quiet hstop t'

theorem lookup (hinv : Inv imp) {addr : Addr} (hidle : imp.caller t = .idle)
    (hok : Undisturbed imp (.lookup t addr)) : Inv (imp.lookup t addr) := by
  unfold RpcImp.lookup
  split
  · exact hinv.setCaller rfl fun _ _ h => nomatch hidle.symm.trans h
  · rename_i hnone
    obtain ⟨hrunning, hnobody⟩ := hok hnone
    have hcases : ∀ t' addr', (Function.update imp.caller t (.missed addr) t').connecting =
        some addr' → t' = t ∧ addr = addr' ∨ (imp.caller t').connecting = some addr' := by
      intro t' addr' h
      by_cases heq : t' = t
      · rw [heq, Function.update_self] at h
        exact .inl ⟨heq, Option.some.inj h⟩
      · rw [Function.update_of_ne heq] at h
        exact .inr h
    refine ⟨?_, ?_, ?_, fun hstop => absurd hrunning hstop, hinv.covers⟩
    · intro cli addr' hmem
      refine (hinv.held cli addr' hmem).imp_right fun ⟨t', ht'⟩ => ⟨t', ?_⟩
      have hne : t' ≠ t := by
        rintro rfl
        exact nomatch hidle.symm.trans ht'
      exact (Function.update_of_ne hne ..).trans ht'
    · intro t' addr' h
      rcases hcases t' addr' h with ⟨_, rfl⟩ | h
      · exact hnone
      · exact hinv.absent t' addr' h
    · intro t' t'' addr' h h'
      rcases hcases t' addr' h with ⟨rfl, rfl⟩ | h
      · rcases hcases t'' addr h' with ⟨rfl, _⟩ | h'
        · rfl
        · exact absurd h' (hnobody t'')
      · rcases hcases t'' addr' h' with ⟨_, rfl⟩ | h'
        · exact absurd h (hnobody t')
        · exact hinv.one t' t'' addr' h h'

theorem dial (hinv : Inv imp) (cli : ConnId) : Inv (imp.dial t cli) := by
  unfold RpcImp.dial
  split
  · rename_i addr hcaller
    have hmissed : (imp.caller t).connecting = some addr := by rw [hcaller]; rfl
    have hsame : ∀ t', (Function.update imp.caller t (.dialed addr cli) t').connecting =
        (imp.caller t').connecting := by
      intro t'
      by_cases heq : t' = t
      · rw [heq, Function.update_self, hmissed]
        rfl
      · rw [Function.update_of_ne heq]
    have hrunning : imp.stop = .running := by
      by_contra hstop
      exact nomatch (hinv.quiet hstop t).symm.trans hmissed
    refine ⟨?_, ?_, ?_, fun hstop => absurd hrunning hstop, ?_⟩
    · intro cli' addr' hmem
      rcases List.mem_cons.mp hmem with heq | hmem
      · obtain ⟨rfl, rfl⟩ := Prod.mk.inj heq
        exact .inr ⟨t, Function.update_self ..⟩
      · refine (hinv.held cli' addr' hmem).imp_right fun ⟨t', ht'⟩ => ⟨t', ?_⟩
        have hne : t' ≠ t := by
          rintro rfl
          exact nomatch hcaller.symm.trans ht'
        exact (Function.update_of_ne hne ..).trans ht'
    · exact fun t' addr' h => hinv.absent t' addr' ((hsame t').symm.trans h)
    · exact fun t' t'' addr' h h' =>
        hinv.one t' t'' addr' ((hsame t').symm.trans h) ((hsame t'').symm.trans h')
    · intro cli' addr' _
      show imp.stop.Covers imp.closed cli'
      rw [hrunning]
      trivial
  · exact hinv

theorem store (hinv : Inv imp) : Inv (imp.store t) := by
  unfold RpcImp.store
  split
  · rename_i addr cli hcaller
    have hdialed : (imp.caller t).connecting = some addr := by rw [hcaller]; rfl
    have hrunning : imp.stop = .running := by
      by_contra hstop
      exact nomatch (hinv.quiet hstop t).symm.trans hdialed
    have hold : ∀ t' addr', (Function.update imp.caller t (.using cli) t').connecting =
        some addr' → t' ≠ t ∧ (imp.caller t').connecting = some addr' := by
      intro t' addr' h
      by_cases heq : t' = t
      · rw [heq, Function.update_self] at h
        exact nomatch h
      · rw [Function.update_of_ne heq] at h
        exact ⟨heq, h⟩
    refine ⟨?_, ?_, ?_, fun hstop => absurd hrunning hstop, hinv.covers⟩
    · intro cli' addr' hmem
      show (imp.clients.insert addr cli).lookup addr' = some cli' ∨ _
      rcases hinv.held cli' addr' hmem with hstored | ⟨t', ht'⟩
      · left
        have hne : addr' ≠ addr := by
          rintro rfl
          exact nomatch (hinv.absent t addr' hdialed).symm.trans hstored
        rw [AList.lookup_insert_ne hne]
        exact hstored
      · by_cases heq : t' = t
        · left
          rw [heq, hcaller] at ht'
          obtain ⟨rfl, rfl⟩ := Caller.dialed.inj ht'
          exact AList.lookup_insert _
        · exact .inr ⟨t', (Function.update_of_ne heq ..).trans ht'⟩
    · intro t' addr' h
      obtain ⟨hne, hconnecting⟩ := hold t' addr' h
      show (imp.clients.insert addr cli).lookup addr' = none
      rw [AList.lookup_insert_ne]
      · exact hinv.absent t' addr' hconnecting
      · rintro rfl
        exact hne (hinv.one t' t addr' hconnecting hdialed)
    · exact fun t' t'' addr' h h' =>
        hinv.one t' t'' addr' (hold t' addr' h).2 (hold t'' addr' h').2
  · exact hinv

/-- When `Stop` begins, every connection is stored. -/
theorem stop (hinv : Inv imp) (hnobody : ∀ t, (imp.caller t).connecting = none) :
    Inv { imp with stop := .stopping (imp.clients.entries.map Sigma.snd) } := by
  refine ⟨hinv.held, hinv.absent, hinv.one, fun _ => hnobody, ?_⟩
  intro cli addr hmem
  right
  rcases hinv.held cli addr hmem with hstored | ⟨t, ht⟩
  · exact List.mem_map.mpr ⟨⟨addr, cli⟩, AList.mem_lookup_iff.mp hstored, rfl⟩
  · have hnone := hnobody t
    rw [ht] at hnone
    exact nomatch hnone

theorem close (hinv : Inv imp) {cli : ConnId} {todo : List ConnId}
    (hstop : imp.stop = .stopping (cli :: todo)) :
    Inv { imp with stop := .stopping todo, closed := cli :: imp.closed } := by
  refine ⟨hinv.held, hinv.absent, hinv.one, ?_, ?_⟩
  · exact fun _ => hinv.quiet (by rw [hstop]; nofun)
  · intro cli' addr hmem
    have hcovers := hinv.covers cli' addr hmem
    rw [hstop] at hcovers
    rcases hcovers with hclosed | htodo
    · exact .inl (List.mem_cons_of_mem _ hclosed)
    · rcases List.mem_cons.mp htodo with rfl | htodo
      · exact .inl List.mem_cons_self
      · exact .inr htodo

theorem stopped (hinv : Inv imp) (hstop : imp.stop = .stopping []) :
    Inv { imp with stop := .stopped } := by
  refine ⟨hinv.held, hinv.absent, hinv.one, fun _ => hinv.quiet (by rw [hstop]; nofun), ?_⟩
  intro cli addr hmem
  have hcovers := hinv.covers cli addr hmem
  rw [hstop] at hcovers
  exact hcovers.resolve_right List.not_mem_nil

/-- **Every undisturbed step keeps the invariant.** -/
theorem next (hinv : Inv imp) {a : Action Addr} (henabled : imp.Enabled a)
    (hok : Undisturbed imp a) : Inv (imp.next a) := by
  cases a with
  | lookup t addr => exact hinv.lookup henabled hok
  | dial t cli => exact hinv.dial cli
  | dialFails t =>
    obtain ⟨addr, hcaller⟩ := henabled
    exact hinv.setCaller rfl fun _ _ h => nomatch hcaller.symm.trans h
  | finish t =>
    obtain ⟨cli, hcaller⟩ := henabled
    exact hinv.setCaller rfl fun _ _ h => nomatch hcaller.symm.trans h
  | store t => exact hinv.store
  | stop => exact hinv.stop hok
  | close =>
    obtain ⟨cli, todo, hstop⟩ := henabled
    simp only [RpcImp.next, RpcImp.close, hstop]
    exact hinv.close hstop
  | stopped => exact hinv.stopped henabled

/-- Two connections to one address are the same. -/
theorem unique (hinv : Inv imp) {cli cli' : ConnId} {addr : Addr} (hcli : (cli, addr) ∈ imp.opened)
    (hcli' : (cli', addr) ∈ imp.opened) : cli = cli' := by
  have hdialed : ∀ {t cli}, imp.caller t = .dialed addr cli →
      (imp.caller t).connecting = some addr := by
    intro t cli h
    rw [h]
    rfl
  rcases hinv.held cli addr hcli with hs | ⟨t, ht⟩
  · rcases hinv.held cli' addr hcli' with hs' | ⟨t', ht'⟩
    · exact Option.some.inj (hs.symm.trans hs')
    · exact nomatch (hinv.absent t' addr (hdialed ht')).symm.trans hs
  · rcases hinv.held cli' addr hcli' with hs' | ⟨t', ht'⟩
    · exact nomatch (hinv.absent t addr (hdialed ht)).symm.trans hs'
    · obtain rfl := hinv.one t t' addr (hdialed ht) (hdialed ht')
      exact (Caller.dialed.inj (ht.symm.trans ht')).2

end Inv

theorem inv_init : Inv (rpcImp Addr).init where
  held := nofun
  absent := nofun
  one := nofun
  quiet := fun h => absurd rfl h
  covers := nofun

/-- **One connection per address, and none leaked**, in every undisturbed run.  A connection
that has been opened is stored under its address, from the time on that `connectTo`
has stored it; there are never two for one address; and when `Stop` has returned, all are
closed. -/
theorem run_connections {imp : RpcImp Addr} (hrun : (rpcImp Addr).Run Undisturbed imp) :
    (∀ cli addr, (cli, addr) ∈ imp.opened → (∀ t, imp.caller t ≠ .dialed addr cli) →
      imp.clients.lookup addr = some cli) ∧
    (∀ cli cli' addr, (cli, addr) ∈ imp.opened → (cli', addr) ∈ imp.opened → cli = cli') ∧
    (imp.stop = .stopped → ∀ cli addr, (cli, addr) ∈ imp.opened → cli ∈ imp.closed) := by
  have hinv : Inv imp := hrun.invariant inv_init fun s a hs henabled hok => hs.next henabled hok
  refine ⟨?_, fun _ _ _ => hinv.unique, ?_⟩
  · intro cli addr hmem hnobody
    exact (hinv.held cli addr hmem).resolve_right fun ⟨t, ht⟩ => hnobody t ht
  · intro hstop cli addr hmem
    have hcovers := hinv.covers cli addr hmem
    rw [hstop] at hcovers
    exact hcovers

end System

/-- Two callers use one connection, and it is closed. -/
theorem run_connections_shared :
    ∃ imp, (rpcImp String).Run Undisturbed imp ∧ imp.caller 0 = .using 7 ∧
      imp.caller 1 = .using 7 ∧ imp.opened = [(7, "x")] ∧ 7 ∈ imp.closed := by
  let actions : List (Action String) :=
    [.lookup 0 "x", .dial 0 7, .store 0, .lookup 1 "x", .stop, .close, .stopped]
  have hrun : (rpcImp String).Run Undisturbed ((rpcImp String).after actions
      (rpcImp String).init) := by
    refine System.Run.start.of_admits ?_
    refine ⟨rfl, fun _ => ⟨rfl, nofun⟩, ⟨⟨_, rfl⟩, nofun⟩, trivial, ⟨_, _, rfl⟩, trivial, rfl,
      nofun, rfl, ?_, ⟨_, _, rfl⟩, trivial, rfl, trivial, trivial⟩
    intro t
    rcases t with _ | _ | t <;> rfl
  refine ⟨_, hrun, by decide +kernel, by decide +kernel, by decide +kernel, ?_⟩
  exact (run_connections hrun).2.2 (by decide +kernel) 7 "x" (by decide +kernel)

/-- Two callers miss the same address and both dial; the connection of the first is
overwritten, and `Stop` does not close it. -/
theorem connection_leaked :
    ∃ imp, (rpcImp String).Run (fun _ _ => True) imp ∧
      imp.opened = [(8, "x"), (7, "x")] ∧ imp.clients.lookup "x" = some 8 ∧
      imp.stop = .stopped ∧ imp.closed = [8] := by
  let actions : List (Action String) :=
    [.lookup 0 "x", .lookup 1 "x", .dial 0 7, .dial 1 8, .store 0, .store 1, .stop, .close,
      .stopped]
  have hrun : (rpcImp String).Run (fun _ _ => True) ((rpcImp String).after actions
      (rpcImp String).init) := by
    refine System.Run.start.of_admits ?_
    refine ⟨rfl, trivial, rfl, trivial, ⟨⟨_, rfl⟩, nofun⟩, trivial, ⟨⟨_, rfl⟩, ?_⟩, trivial,
      ⟨_, _, rfl⟩, trivial, ⟨_, _, rfl⟩, trivial, rfl, trivial, ⟨_, _, rfl⟩, trivial, rfl,
      trivial, trivial⟩
    intro addr hmem
    exact nomatch (Prod.mk.inj (List.mem_singleton.mp hmem)).1
  exact ⟨_, hrun, by decide +kernel, by decide +kernel, by decide +kernel, by decide +kernel⟩

end Gokit.Rpc.Connections
