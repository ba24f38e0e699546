/-
# Unregistering a service

A node keeps the keys it has registered in `regServs`.  When the watch reports that one
of them has been deleted, the node takes it that its lease has expired and puts the
key again.  `UnregisterService` deletes a key in etcd first and removes it from
`regServs` afterwards; if the watch goroutine handles the event in between, the key is
put again, and stays.

We give the interleavings of one call after the other of `UnregisterService` with
the watch goroutine, with the expiry of leases and with the changes of other nodes, and
show that this is the only race: if the watch goroutine does not get in between, a
service that is unregistered stays so, and a key whose lease expires is put back.  The watch is
not compacted, so nothing is loaded anew.
-/

import Gokit.Discovery.Mirror
import Gokit.Math.Transition

namespace Gokit.Discovery

open Gokit.Math

/-! ## The system -/

inductive Watcher
  | idle
  /-- in `onWatchEvent`, about to look the deleted key up in `regServs` -/
  | deleted (key : Str)
  /-- in `putServiceKey` -/
  | granting (key addr : Str)
  | putting (key addr : Str)
  | storing (key addr : Str)
  | keeping (key : Str)
  deriving DecidableEq, Repr

/-- Where the caller of `UnregisterService` is; `todo` are the keys that `Range` has still
to visit. -/
inductive Caller
  | idle
  | ranging (name : Str) (todo : List Str)
  /-- the name matches, about to delete the key in etcd -/
  | deleting (name key : Str) (todo : List Str)
  /-- about to remove the key from `regServs` -/
  | forgetting (name key : Str) (todo : List Str)
  deriving DecidableEq, Repr

structure Node where
  /-- the content of etcd -/
  etcd : Str → Option Str
  /-- the events that the watch has still to handle -/
  pending : List (Change Str Str) := []
  allServices : ServiceContainer
  regServs : AList fun _ : Str => Str
  watcher : Watcher := .idle
  caller : Caller := .idle
  /-- history: the names for which `UnregisterService` has returned nil -/
  returned : List Str := []
  /-- history: the keys that `UnregisterService` has deleted -/
  removed : List Str := []

/-- One step of one goroutine, or of etcd. -/
inductive NodeAction
  /-- `onWatchEvent`, up to the look at `regServs` -/
  | handle
  | load
  | grant
  | grantFails
  | put
  | putFails
  | store
  /-- `KeepAlive` returns, with an error or not -/
  | keepAlive
  | expire (key : Str)
  /-- a key of another node changes -/
  | other (change : Change Str Str)
  | unregister (name : Str)
  | visit (key : Str)
  | delete
  | deleteFails
  | forget
  | return
  deriving DecidableEq, Repr

/-- `UnregisterService` compares the name with the parts of the key. -/
def matchesName (pfx name key : Str) : Bool := name ∈ (key.drop pfx.length).splitOn ':'

def changedKey : Change Str Str → Str
  | .put key _ | .delete key => key

namespace Node

/-- A change of etcd is seen by the watch. -/
def change (st : Node) (c : Change Str Str) : Node :=
  { st with etcd := c.apply st.etcd, pending := st.pending ++ [c] }

def handle (pfx : Str) (st : Node) : Node :=
  match st.pending with
  | [] => st
  | c :: rest =>
    { st with
      pending := rest
      allServices := cacheEvent pfx st.allServices c
      watcher :=
        match c with
        | .put _ _ => .idle
        | .delete key => if (parseKey pfx key).isOk then .deleted key else .idle }

def load (st : Node) : Node :=
  match st.watcher with
  | .deleted key =>
    { st with
      watcher :=
        match st.regServs.lookup key with
        | some rpcAddr => .granting key rpcAddr
        | none => .idle }
  | _ => st

def grant (st : Node) : Node :=
  match st.watcher with
  | .granting key addr => { st with watcher := .putting key addr }
  | _ => st

def put (st : Node) : Node :=
  match st.watcher with
  | .putting key addr => { st.change (.put key addr) with watcher := .storing key addr }
  | _ => st

def store (st : Node) : Node :=
  match st.watcher with
  | .storing key addr =>
    { st with regServs := st.regServs.insert key addr, watcher := .keeping key }
  | _ => st

def visit (pfx : Str) (st : Node) (key : Str) : Node :=
  match st.caller with
  | .ranging name todo =>
    { st with
      caller :=
        if matchesName pfx name key then .deleting name key (todo.filter (· ≠ key))
        else .ranging name (todo.filter (· ≠ key)) }
  | _ => st

/-- etcd reports the deletion of a key that is there. -/
def delete (st : Node) : Node :=
  match st.caller with
  | .deleting name key todo =>
    { (if st.etcd key = none then st else st.change (.delete key)) with
      caller := .forgetting name key todo, removed := key :: st.removed }
  | _ => st

/-- `Range` stops, and the error is dropped. -/
def deleteFails (st : Node) : Node :=
  match st.caller with
  | .deleting name _ _ => { st with caller := .idle, returned := name :: st.returned }
  | _ => st

def forget (st : Node) : Node :=
  match st.caller with
  | .forgetting name key todo =>
    { st with regServs := st.regServs.erase key, caller := .ranging name todo }
  | _ => st

def return' (st : Node) : Node :=
  match st.caller with
  | .ranging name [] => { st with caller := .idle, returned := name :: st.returned }
  | _ => st

end Node

section System

variable (pfx : Str) (reg : AList fun _ : Str => Str) (foreign : Str → Option Str)
  (cache : ServiceContainer)

def Node.Enabled (st : Node) : NodeAction → Prop
  | .handle => st.watcher = .idle ∧ st.pending ≠ []
  | .load => ∃ key, st.watcher = .deleted key
  | .grant | .grantFails => ∃ key addr, st.watcher = .granting key addr
  | .put | .putFails => ∃ key addr, st.watcher = .putting key addr
  | .store => ∃ key addr, st.watcher = .storing key addr
  | .keepAlive => ∃ key, st.watcher = .keeping key
  | .expire key => st.etcd key ≠ none
  | .other c => changedKey c ∉ reg
  | .unregister _ => st.caller = .idle
  | .visit key => ∃ name todo, st.caller = .ranging name todo ∧ key ∈ todo
  | .delete | .deleteFails => ∃ name key todo, st.caller = .deleting name key todo
  | .forget => ∃ name key todo, st.caller = .forgetting name key todo
  | .return => ∃ name, st.caller = .ranging name []

def Node.next (st : Node) : NodeAction → Node
  | .handle => st.handle pfx
  | .load => st.load
  | .grant => st.grant
  | .grantFails | .putFails | .keepAlive => { st with watcher := .idle }
  | .put => st.put
  | .store => st.store
  | .expire key => st.change (.delete key)
  | .other c => st.change c
  | .unregister name => { st with caller := .ranging name st.regServs.keys }
  | .visit key => st.visit pfx key
  | .delete => st.delete
  | .deleteFails => st.deleteFails
  | .forget => st.forget
  | .return => st.return'

/-- A node that has registered the keys of `reg`, while etcd has the keys of `foreign`
besides; with any cache. -/
def registered : System Node NodeAction where
  init :=
    { etcd := fun key => (reg.lookup key).or (foreign key)
      allServices := cache
      regServs := reg }
  Enabled := Node.Enabled reg
  next := Node.next pfx

end System

/-! ## The condition on the steps -/

/-- The key that the watch goroutine is putting back, with its address. -/
def Watcher.restoring : Watcher → Option (Str × Str)
  | granting key addr | putting key addr | storing key addr => some (key, addr)
  | _ => none

/-- The key that is deleted in etcd, and still in `regServs`. -/
def Caller.halfway : Caller → Option Str
  | forgetting _ key _ => some key
  | _ => none

/-- The name is one that can match, the operations of etcd succeed, `UnregisterService`
does not delete a key that is being put back, and the watch goroutine does not look up
a key that is deleted and not yet removed. -/
def Undisturbed (cm : CaseMap) (st : Node) : NodeAction → Prop
  | .unregister name => cm.lower name = name ∧ ':' ∉ name
  | .deleteFails | .grantFails | .putFails => False
  | .delete => ∀ name key todo, st.caller = .deleting name key todo →
      ∀ addr, st.watcher.restoring ≠ some (key, addr)
  | .load => ∀ key, st.watcher = .deleted key → st.caller.halfway ≠ some key
  | _ => True

/-- The keys a node registers: the name in lower case, and no colon in it or in the
identifier. -/
def Registers (cm : CaseMap) (pfx : Str) (reg : AList fun _ : Str => Str) : Prop :=
  ∀ key ∈ reg, ∃ name id, WellFormed (cm.lower name) id ∧ key = serviceKey pfx (cm.lower name) id

/-! ## The invariant -/

/-- The watch goroutine has still to put the key back. -/
def Watcher.Owes (key : Str) : Watcher → Prop
  | deleted key' | granting key' _ | putting key' _ => key' = key
  | _ => False

/-- The keys that the caller has still to visit or to delete. -/
def Caller.remaining : Caller → List Str
  | idle => []
  | ranging _ todo => todo
  | deleting _ key todo => key :: todo
  | forgetting _ _ todo => todo

def Caller.name : Caller → Option Str
  | idle => none
  | ranging name _ | deleting name _ _ | forgetting name _ _ => some name

/-- What holds of the keys of the node. -/
structure Keys (reg : AList fun _ : Str => Str) (st : Node) : Prop where
  own : ∀ key ∈ st.regServs, key ∈ reg
  addr : ∀ key addr, st.watcher.restoring = some (key, addr) → reg.lookup key = some addr
  /-- a key that is removed is not there, and nobody will put it back -/
  gone : ∀ key ∈ st.removed, st.etcd key = none ∧
    (∀ addr, st.watcher.restoring ≠ some (key, addr)) ∧
    (st.regServs.lookup key = none ∨ st.caller.halfway = some key)
  /-- a key that is not is there, or will be put back -/
  kept : ∀ key ∈ reg, key ∉ st.removed → st.regServs.lookup key = reg.lookup key ∧
    (st.etcd key = reg.lookup key ∨ .delete key ∈ st.pending ∨ st.watcher.Owes key)

/-- What holds of the calls of `UnregisterService`. -/
structure Calls (pfx : Str) (reg : AList fun _ : Str => Str) (caller : Caller)
    (removed returned : List Str) : Prop where
  ours : ∀ key ∈ removed, key ∈ reg
  remaining : ∀ key ∈ caller.remaining, key ∈ reg
  halfway : ∀ key, caller.halfway = some key → key ∈ removed
  covers : ∀ name, caller.name = some name → ∀ key ∈ reg, matchesName pfx name key = true →
    key ∈ removed ∨ key ∈ caller.remaining
  done : ∀ name ∈ returned, ∀ key ∈ reg, matchesName pfx name key = true → key ∈ removed

section Invariant

variable {cm : CaseMap} {pfx : Str} {reg : AList fun _ : Str => Str} {st : Node}

theorem parseKey_isOk (hreg : Registers cm pfx reg) {key : Str} (hkey : key ∈ reg) :
    (parseKey pfx key).isOk = true := by
  obtain ⟨name, id, hwf, rfl⟩ := hreg key hkey
  rw [parseKey_eq_ok_iff.mpr ⟨rfl, hwf⟩]
  rfl

theorem apply_of_ne {content : Str → Option Str} {c : Change Str Str} {key : Str}
    (hne : changedKey c ≠ key) : c.apply content key = content key := by
  cases c with
  | put k v => exact Function.update_of_ne (Ne.symm hne) ..
  | delete k => exact Function.update_of_ne (Ne.symm hne) ..

namespace Keys

/-! ### The watch goroutine and etcd -/

/-- The watch goroutine goes on: it may put back only what is not removed, and it takes over
every key whose event it consumes. -/
theorem watch (hkeys : Keys reg st) {w : Watcher} {pending : List (Change Str Str)}
    {cache : ServiceContainer}
    (hrestoring : ∀ key addr, w.restoring = some (key, addr) →
      key ∉ st.removed ∧ reg.lookup key = some addr)
    (howes : ∀ key ∈ reg, key ∉ st.removed →
      st.etcd key = reg.lookup key ∨ .delete key ∈ st.pending ∨ st.watcher.Owes key →
      st.etcd key = reg.lookup key ∨ .delete key ∈ pending ∨ w.Owes key) :
    Keys reg { st with watcher := w, pending := pending, allServices := cache } where
  own := hkeys.own
  addr := fun key addr h => (hrestoring key addr h).2
  gone := fun key hkey =>
    have hgone := hkeys.gone key hkey
    ⟨hgone.1, fun addr h => (hrestoring key addr h).1 hkey, hgone.2.2⟩
  kept := fun key hkey hrem =>
    have hkept := hkeys.kept key hkey hrem
    ⟨hkept.1, howes key hkey hrem hkept.2⟩

/-- A change of etcd that the watch will report. -/
theorem change (hkeys : Keys reg st) {c : Change Str Str}
    (hgone : ∀ key ∈ st.removed, changedKey c = key → c.apply st.etcd key = none)
    (hkept : ∀ key ∈ reg, changedKey c = key → c.apply st.etcd key = reg.lookup key ∨
      c = .delete key) :
    Keys reg (st.change c) where
  own := hkeys.own
  addr := hkeys.addr
  gone := by
    intro key hkey
    refine ⟨?_, (hkeys.gone key hkey).2⟩
    show c.apply st.etcd key = none
    by_cases hchanged : changedKey c = key
    · exact hgone key hkey hchanged
    · rw [apply_of_ne hchanged]
      exact (hkeys.gone key hkey).1
  kept := by
    intro key hkey hrem
    obtain ⟨hserv, hthere⟩ := hkeys.kept key hkey hrem
    refine ⟨hserv, ?_⟩
    show c.apply st.etcd key = _ ∨ .delete key ∈ st.pending ++ [c] ∨ _
    by_cases hchanged : changedKey c = key
    · rcases hkept key hkey hchanged with hput | hdelete
      · exact .inl hput
      · exact .inr (.inl (List.mem_append_right _ (List.mem_singleton.mpr hdelete.symm)))
    · rw [apply_of_ne hchanged]
      exact hthere.imp_right (Or.imp_left (List.mem_append_left _))

theorem handle (hkeys : Keys reg st) (hreg : Registers cm pfx reg)
    (hidle : st.watcher = .idle) : Keys reg (st.handle pfx) := by
  unfold Node.handle
  split
  · exact hkeys
  · rename_i c rest hpending
    refine hkeys.watch ?_ ?_
    · intro key addr h
      cases c with
      | put k v => exact nomatch h
      | delete k =>
        dsimp only at h
        split at h <;> exact nomatch h
    · rintro key hkey _ (hthere | hevent | howes)
      · exact .inl hthere
      · rw [hpending, List.mem_cons] at hevent
        rcases hevent with rfl | hrest
        · refine .inr (.inr ?_)
          show Watcher.Owes key (if (parseKey pfx key).isOk = true then _ else _)
          rw [if_pos (parseKey_isOk hreg hkey)]
          rfl
        · exact .inr (.inl hrest)
      · rw [hidle] at howes
        exact absurd howes id

theorem load (hkeys : Keys reg st)
    (hok : ∀ key, st.watcher = .deleted key → st.caller.halfway ≠ some key) : Keys reg st.load := by
  unfold Node.load
  split
  · rename_i key hwatcher
    -- a key that is removed is not in `regServs` when it is looked up
    have hrem : key ∈ st.removed → st.regServs.lookup key = none := fun hrem =>
      (hkeys.gone key hrem).2.2.resolve_right (hok key hwatcher)
    have howes : ∀ key', st.watcher.Owes key' → key = key' := by
      intro key' h
      rw [hwatcher] at h
      exact h
    cases hserv : st.regServs.lookup key with
    | none =>
      refine hkeys.watch nofun ?_
      rintro key' hkey' hrem' (hthere | hevent | h)
      · exact .inl hthere
      · exact .inr (.inl hevent)
      · obtain rfl := howes key' h
        have hlookup := (hkeys.kept key hkey' hrem').1
        rw [hserv] at hlookup
        exact absurd hkey' (AList.lookup_eq_none.mp hlookup.symm)
    | some rpcAddr =>
      have hnot : key ∉ st.removed := by
        intro h
        rw [hrem h] at hserv
        exact nomatch hserv
      have hkey : key ∈ reg := by
        refine hkeys.own key (AList.lookup_isSome.mp ?_)
        rw [hserv]
        rfl
      refine hkeys.watch ?_ ?_
      · intro key' addr h
        obtain ⟨rfl, rfl⟩ := Prod.mk.inj (Option.some.inj h)
        exact ⟨hnot, (hkeys.kept key hkey hnot).1.symm.trans hserv⟩
      · rintro key' _ _ (hthere | hevent | h)
        · exact .inl hthere
        · exact .inr (.inl hevent)
        · exact .inr (.inr (howes key' h))
  · exact hkeys

/-- What is being put back is not removed. -/
theorem restoring (hkeys : Keys reg st) {key addr : Str}
    (hrestoring : st.watcher.restoring = some (key, addr)) :
    key ∉ st.removed ∧ reg.lookup key = some addr :=
  ⟨fun hrem => (hkeys.gone key hrem).2.1 addr hrestoring, hkeys.addr key addr hrestoring⟩

theorem grant (hkeys : Keys reg st) : Keys reg st.grant := by
  unfold Node.grant
  split
  · rename_i key addr hwatcher
    refine hkeys.watch ?_ ?_
    · intro key' addr' h
      refine hkeys.restoring ?_
      rw [hwatcher]
      exact h
    · rw [hwatcher]
      exact fun _ _ _ => id
  · exact hkeys

theorem put (hkeys : Keys reg st) : Keys reg st.put := by
  unfold Node.put
  split
  · rename_i key addr hwatcher
    have hrestoring : key ∉ st.removed ∧ reg.lookup key = some addr :=
      hkeys.restoring (by rw [hwatcher]; rfl)
    have hput : (Change.put key addr).apply st.etcd key = reg.lookup key := by
      rw [hrestoring.2]
      exact Function.update_self ..
    have hchange : Keys reg (st.change (.put key addr)) := by
      refine hkeys.change ?_ ?_
      · rintro key' hrem rfl
        exact absurd hrem hrestoring.1
      · rintro key' _ rfl
        exact .inl hput
    refine hchange.watch ?_ ?_
    · intro key' addr' h
      obtain ⟨rfl, rfl⟩ := Prod.mk.inj (Option.some.inj h)
      exact hrestoring
    · rintro key' _ _ (hthere | hevent | howes)
      · exact .inl hthere
      · exact .inr (.inl hevent)
      · have howes : st.watcher.Owes key' := howes
        rw [hwatcher] at howes
        obtain rfl : key = key' := howes
        exact .inl hput
  · exact hkeys

theorem store (hkeys : Keys reg st) : Keys reg st.store := by
  unfold Node.store
  split
  · rename_i key addr hwatcher
    obtain ⟨hrem, hlookup⟩ : key ∉ st.removed ∧ reg.lookup key = some addr :=
      hkeys.restoring (by rw [hwatcher]; rfl)
    have hkey : key ∈ reg := by
      refine AList.lookup_isSome.mp ?_
      rw [hlookup]
      rfl
    refine ⟨?_, nofun, ?_, ?_⟩
    · intro key' h
      rcases (AList.mem_insert _).mp h with rfl | h
      · exact hkey
      · exact hkeys.own key' h
    · intro key' hrem'
      have hne : key' ≠ key := by
        rintro rfl
        exact hrem hrem'
      obtain ⟨hnone, _, hserv⟩ := hkeys.gone key' hrem'
      refine ⟨hnone, nofun, ?_⟩
      show (st.regServs.insert key addr).lookup key' = none ∨ _
      rw [AList.lookup_insert_ne hne]
      exact hserv
    · intro key' hkey' hrem'
      obtain ⟨hserv, hthere⟩ := hkeys.kept key' hkey' hrem'
      refine ⟨?_, hthere.imp_right (Or.imp_right fun h => ?_)⟩
      · show (st.regServs.insert key addr).lookup key' = _
        by_cases heq : key' = key
        · rw [heq, AList.lookup_insert, hlookup]
        · rw [AList.lookup_insert_ne heq]
          exact hserv
      · rw [hwatcher] at h
        exact absurd h id
  · exact hkeys

theorem keepAlive (hkeys : Keys reg st) {key : Str} (hwatcher : st.watcher = .keeping key) :
    Keys reg { st with watcher := .idle } := by
  refine hkeys.watch nofun ?_
  rw [hwatcher]
  exact fun _ _ _ => id

theorem expire (hkeys : Keys reg st) (key : Str) : Keys reg (st.change (.delete key)) := by
  refine hkeys.change ?_ ?_
  · rintro key' _ rfl
    exact Function.update_self ..
  · rintro key' _ rfl
    exact .inr rfl

/-! ### The caller -/

/-- A step of the caller that neither deletes nor forgets a key. -/
theorem call (hkeys : Keys reg st) {caller : Caller} {returned : List Str}
    (hhalfway : st.caller.halfway = none) :
    Keys reg { st with caller := caller, returned := returned } where
  own := hkeys.own
  addr := hkeys.addr
  gone := by
    intro key hkey
    obtain ⟨hnone, hrestoring, hserv⟩ := hkeys.gone key hkey
    refine ⟨hnone, hrestoring, .inl (hserv.resolve_right ?_)⟩
    rw [hhalfway]
    nofun
  kept := hkeys.kept

theorem delete (hkeys : Keys reg st)
    (hok : ∀ name key todo, st.caller = .deleting name key todo →
      ∀ addr, st.watcher.restoring ≠ some (key, addr)) : Keys reg st.delete := by
  unfold Node.delete
  split
  · rename_i name key todo hcaller
    have hchange : Keys reg (if st.etcd key = none then st else st.change (.delete key)) := by
      split
      · exact hkeys
      · exact hkeys.expire key
    have hnone : (if st.etcd key = none then st else st.change (.delete key)).etcd key = none := by
      split
      · assumption
      · exact Function.update_self ..
    have hfields : (if st.etcd key = none then st else st.change (.delete key)).removed =
          st.removed ∧
        (if st.etcd key = none then st else st.change (.delete key)).watcher = st.watcher ∧
        (if st.etcd key = none then st else st.change (.delete key)).caller = st.caller := by
      split <;> exact ⟨rfl, rfl, rfl⟩
    refine ⟨hchange.own, hchange.addr, ?_, ?_⟩
    · intro key' hkey'
      rcases List.mem_cons.mp hkey' with rfl | hold
      · refine ⟨hnone, ?_, .inr rfl⟩
        show ∀ addr, (ite _ _ _ : Node).watcher.restoring ≠ _
        rw [hfields.2.1]
        exact hok name key' todo hcaller
      · obtain ⟨hnone', hrestoring, hserv⟩ := hchange.gone key' (hfields.1 ▸ hold)
        refine ⟨hnone', hrestoring, .inl (hserv.resolve_right ?_)⟩
        rw [hfields.2.2, hcaller]
        nofun
    · intro key' hkey' hrem'
      refine hchange.kept key' hkey' ?_
      rw [hfields.1]
      exact fun h => hrem' (List.mem_cons_of_mem _ h)
  · exact hkeys

theorem forget (hkeys : Keys reg st)
    (hremoved : ∀ key, st.caller.halfway = some key → key ∈ st.removed) : Keys reg st.forget := by
  unfold Node.forget
  split
  · rename_i name key todo hcaller
    have hhalfway : st.caller.halfway = some key := by rw [hcaller]; rfl
    refine ⟨?_, hkeys.addr, ?_, ?_⟩
    · exact fun key' h => hkeys.own key' (AList.mem_erase.mp h).2
    · intro key' hrem'
      obtain ⟨hnone, hrestoring, hserv⟩ := hkeys.gone key' hrem'
      refine ⟨hnone, hrestoring, .inl ?_⟩
      show (st.regServs.erase key).lookup key' = none
      by_cases heq : key' = key
      · rw [heq]
        exact AList.lookup_erase ..
      · rw [AList.lookup_erase_ne heq]
        refine hserv.resolve_right fun h => heq ?_
        exact Option.some.inj (h.symm.trans hhalfway)
    · intro key' hkey' hrem'
      obtain ⟨hserv, hthere⟩ := hkeys.kept key' hkey' hrem'
      refine ⟨?_, hthere⟩
      show (st.regServs.erase key).lookup key' = _
      rw [AList.lookup_erase_ne]
      · exact hserv
      · rintro rfl
        exact hrem' (hremoved key' hhalfway)
  · exact hkeys

end Keys

/-! ### The calls -/

namespace Calls

variable {removed returned : List Str} {caller : Caller}

/-- The node has all the keys that it has not removed in `regServs`. -/
theorem unregister (hcalls : Calls pfx reg .idle removed returned) {keys : List Str} (name : Str)
    (hown : ∀ key ∈ keys, key ∈ reg) (hall : ∀ key ∈ reg, key ∉ removed → key ∈ keys) :
    Calls pfx reg (.ranging name keys) removed returned where
  ours := hcalls.ours
  remaining := hown
  halfway := nofun
  covers := fun _ _ key hkey _ => or_iff_not_imp_left.mpr (hall key hkey)
  done := hcalls.done

variable {todo : List Str} {name : Str}

/-- `Range` visits a key. -/
theorem visit (hcalls : Calls pfx reg (.ranging name todo) removed returned) {key : Str}
    (hkey : key ∈ todo) :
    Calls pfx reg
      (if matchesName pfx name key then .deleting name key (todo.filter (· ≠ key))
        else .ranging name (todo.filter (· ≠ key))) removed returned := by
  split
  · refine ⟨hcalls.ours, ?_, nofun, ?_, hcalls.done⟩
    · intro key' h
      rcases List.mem_cons.mp h with rfl | h
      · exact hcalls.remaining key' hkey
      · exact hcalls.remaining key' (mem_filter_ne.mp h).1
    · rintro name' hname key' hkey' hmatch
      refine (hcalls.covers name' hname key' hkey' hmatch).imp_right fun h => ?_
      rw [Caller.remaining, List.mem_cons, mem_filter_ne]
      exact or_iff_not_imp_left.mpr fun hne => ⟨h, hne⟩
  · rename_i hother
    refine ⟨hcalls.ours, ?_, nofun, ?_, hcalls.done⟩
    · exact fun key' h => hcalls.remaining key' (mem_filter_ne.mp h).1
    · rintro name' hname key' hkey' hmatch
      refine (hcalls.covers name' hname key' hkey' hmatch).imp_right fun h => ?_
      rw [Caller.remaining, mem_filter_ne]
      refine ⟨h, ?_⟩
      rintro rfl
      obtain rfl := Option.some.inj hname
      exact hother hmatch

theorem delete {key : Str} (hcalls : Calls pfx reg (.deleting name key todo) removed returned) :
    Calls pfx reg (.forgetting name key todo) (key :: removed) returned where
  ours := List.forall_mem_cons.mpr
    ⟨hcalls.remaining key List.mem_cons_self, hcalls.ours⟩
  remaining := fun key' h => hcalls.remaining key' (List.mem_cons_of_mem _ h)
  halfway := fun key' h => Option.some.inj h ▸ List.mem_cons_self
  covers := by
    intro name' hname key' hkey' hmatch
    rcases hcalls.covers name' hname key' hkey' hmatch with h | h
    · exact .inl (List.mem_cons_of_mem _ h)
    · rcases List.mem_cons.mp h with rfl | h
      · exact .inl List.mem_cons_self
      · exact .inr h
  done := fun name' hname key' hkey' hmatch =>
    List.mem_cons_of_mem _ (hcalls.done name' hname key' hkey' hmatch)

theorem forget {key : Str} (hcalls : Calls pfx reg (.forgetting name key todo) removed returned) :
    Calls pfx reg (.ranging name todo) removed returned where
  ours := hcalls.ours
  remaining := hcalls.remaining
  halfway := nofun
  covers := hcalls.covers
  done := hcalls.done

theorem return' (hcalls : Calls pfx reg (.ranging name []) removed returned) :
    Calls pfx reg .idle removed (name :: returned) where
  ours := hcalls.ours
  remaining := nofun
  halfway := nofun
  covers := nofun
  done := by
    intro name' hname key hkey hmatch
    rcases List.mem_cons.mp hname with rfl | hold
    · exact (hcalls.covers name' rfl key hkey hmatch).resolve_right List.not_mem_nil
    · exact hcalls.done name' hold key hkey hmatch

end Calls

/-! ### Runs -/

/-- The invariant of a node, with what is known of the names of the calls that have
returned or are under way. -/
structure NodeInv (cm : CaseMap) (pfx : Str) (reg : AList fun _ : Str => Str) (st : Node) :
    Prop where
  keys : Keys reg st
  calls : Calls pfx reg st.caller st.removed st.returned
  called : ∀ name, st.caller.name = some name → cm.lower name = name ∧ ':' ∉ name
  returned : ∀ name ∈ st.returned, cm.lower name = name ∧ ':' ∉ name

/-- What the watch goroutine and etcd do is not seen by the caller. -/
theorem watcher_fields (pfx : Str) (st : Node) {a : NodeAction}
    (ha : a = .handle ∨ a = .load ∨ a = .grant ∨ a = .put ∨ a = .store ∨ a = .keepAlive ∨
      (∃ key, a = .expire key) ∨ ∃ c, a = .other c) :
    (st.next pfx a).caller = st.caller ∧ (st.next pfx a).removed = st.removed ∧
      (st.next pfx a).returned = st.returned := by
  rcases ha with rfl | rfl | rfl | rfl | rfl | rfl | ⟨_, rfl⟩ | ⟨_, rfl⟩
  · simp only [Node.next, Node.handle]
    split <;> exact ⟨rfl, rfl, rfl⟩
  · simp only [Node.next, Node.load]
    split <;> exact ⟨rfl, rfl, rfl⟩
  · simp only [Node.next, Node.grant]
    split <;> exact ⟨rfl, rfl, rfl⟩
  · simp only [Node.next, Node.put]
    split <;> exact ⟨rfl, rfl, rfl⟩
  · simp only [Node.next, Node.store]
    split <;> exact ⟨rfl, rfl, rfl⟩
  all_goals exact ⟨rfl, rfl, rfl⟩

namespace NodeInv

theorem of_keys (hinv : NodeInv cm pfx reg st) {st' : Node} (hkeys : Keys reg st')
    (hfields : st'.caller = st.caller ∧ st'.removed = st.removed ∧ st'.returned = st.returned) :
    NodeInv cm pfx reg st' := by
  obtain ⟨hcaller, hremoved, hreturned⟩ := hfields
  refine ⟨hkeys, ?_, ?_, ?_⟩
  · rw [hcaller, hremoved, hreturned]
    exact hinv.calls
  · rw [hcaller]
    exact hinv.called
  · rw [hreturned]
    exact hinv.returned

theorem next_unregister (hinv : NodeInv cm pfx reg st) {name : Str}
    (henabled : st.Enabled reg (.unregister name)) (hok : Undisturbed cm st (.unregister name)) :
    NodeInv cm pfx reg (st.next pfx (.unregister name)) := by
  have hkeys := hinv.keys
  have hcalls := hinv.calls
  have hidle : st.caller = .idle := henabled
  rw [hidle] at hcalls
  refine ⟨hkeys.call (by rw [hidle]; rfl), hcalls.unregister name ?_ ?_, ?_, hinv.returned⟩
  · exact fun key h => hkeys.own key (AList.mem_keys.mpr h)
  · intro key hkey hrem
    have hserv := (hkeys.kept key hkey hrem).1
    refine AList.mem_keys.mp (AList.lookup_isSome.mp ?_)
    rw [hserv]
    exact AList.lookup_isSome.mpr hkey
  · intro name' hname
    obtain rfl := Option.some.inj hname
    exact hok

theorem next_visit (hinv : NodeInv cm pfx reg st) {key : Str}
    (henabled : st.Enabled reg (.visit key)) : NodeInv cm pfx reg (st.next pfx (.visit key)) := by
  have hkeys := hinv.keys
  have hcalls := hinv.calls
  obtain ⟨name, todo, hcaller, hkey⟩ := henabled
  rw [hcaller] at hcalls
  have hcalled := hinv.called name (by rw [hcaller]; rfl)
  have hnext : st.next pfx (.visit key) = { st with
      caller :=
        if matchesName pfx name key then .deleting name key (todo.filter (· ≠ key))
        else .ranging name (todo.filter (· ≠ key)) } := by
    simp only [Node.next, Node.visit, hcaller]
  rw [hnext]
  refine ⟨hkeys.call (by rw [hcaller]; rfl), hcalls.visit hkey, ?_, hinv.returned⟩
  intro name' hname
  have heq : name' = name := by
    have hname : Caller.name (ite _ _ _) = some name' := hname
    split at hname <;> exact (Option.some.inj hname).symm
  rw [heq]
  exact hcalled

theorem next_delete (hinv : NodeInv cm pfx reg st) (henabled : st.Enabled reg .delete)
    (hok : Undisturbed cm st .delete) : NodeInv cm pfx reg (st.next pfx .delete) := by
  have hkeys := hinv.keys
  have hcalls := hinv.calls
  obtain ⟨name, key, todo, hcaller⟩ := henabled
  rw [hcaller] at hcalls
  have hcalled := hinv.called name (by rw [hcaller]; rfl)
  have hreturned : (if st.etcd key = none then st else st.change (.delete key)).returned =
      st.returned := by
    split <;> rfl
  have hkeys' := hkeys.delete hok
  simp only [Node.delete, hcaller] at hkeys'
  simp only [Node.next, Node.delete, hcaller]
  refine ⟨hkeys', ?_, ?_, ?_⟩
  · show Calls pfx reg _ _ (ite _ _ _ : Node).returned
    rw [hreturned]
    exact hcalls.delete
  · intro name' hname
    obtain rfl := Option.some.inj hname
    exact hcalled
  · show ∀ name ∈ (ite _ _ _ : Node).returned, _
    rw [hreturned]
    exact hinv.returned

theorem next_forget (hinv : NodeInv cm pfx reg st) (henabled : st.Enabled reg .forget) :
    NodeInv cm pfx reg (st.next pfx .forget) := by
  have hkeys := hinv.keys
  have hcalls := hinv.calls
  obtain ⟨name, key, todo, hcaller⟩ := henabled
  have hkeys' := hkeys.forget hcalls.halfway
  rw [hcaller] at hcalls
  have hcalled := hinv.called name (by rw [hcaller]; rfl)
  simp only [Node.forget, hcaller] at hkeys'
  simp only [Node.next, Node.forget, hcaller]
  refine ⟨hkeys', hcalls.forget, ?_, hinv.returned⟩
  intro name' hname
  obtain rfl := Option.some.inj hname
  exact hcalled

theorem next_return (hinv : NodeInv cm pfx reg st) (henabled : st.Enabled reg .return) :
    NodeInv cm pfx reg (st.next pfx .return) := by
  have hkeys := hinv.keys
  have hcalls := hinv.calls
  obtain ⟨name, hcaller⟩ := henabled
  rw [hcaller] at hcalls
  have hcalled := hinv.called name (by rw [hcaller]; rfl)
  simp only [Node.next, Node.return', hcaller]
  refine ⟨hkeys.call (by rw [hcaller]; rfl), hcalls.return', nofun, ?_⟩
  exact List.forall_mem_cons.mpr ⟨hcalled, hinv.returned⟩

/-- **Every undisturbed step keeps the invariant.** -/
theorem next (hreg : Registers cm pfx reg) (hinv : NodeInv cm pfx reg st) {a : NodeAction}
    (henabled : st.Enabled reg a) (hok : Undisturbed cm st a) :
    NodeInv cm pfx reg (st.next pfx a) := by
  have hkeys := hinv.keys
  cases a with
  | handle => exact hinv.of_keys (hkeys.handle hreg henabled.1) (watcher_fields pfx st (by simp))
  | load => exact hinv.of_keys (hkeys.load hok) (watcher_fields pfx st (by simp))
  | grant => exact hinv.of_keys hkeys.grant (watcher_fields pfx st (by simp))
  | put => exact hinv.of_keys hkeys.put (watcher_fields pfx st (by simp))
  | store => exact hinv.of_keys hkeys.store (watcher_fields pfx st (by simp))
  | keepAlive =>
    obtain ⟨key, hwatcher⟩ := henabled
    exact hinv.of_keys (hkeys.keepAlive hwatcher) (watcher_fields pfx st (by simp))
  | expire key => exact hinv.of_keys (hkeys.expire key) (watcher_fields pfx st (by simp))
  | other c =>
    have hne : ∀ key ∈ reg, changedKey c ≠ key := by
      rintro key hkey rfl
      exact henabled hkey
    refine hinv.of_keys (hkeys.change ?_ ?_) (watcher_fields pfx st (by simp))
    · exact fun key hrem heq => absurd heq (hne key (hinv.calls.ours key hrem))
    · exact fun key hkey heq => absurd heq (hne key hkey)
  | grantFails | putFails | deleteFails => exact absurd hok id
  | unregister name => exact hinv.next_unregister henabled hok
  | visit key => exact hinv.next_visit henabled
  | delete => exact hinv.next_delete henabled hok
  | forget => exact hinv.next_forget henabled
  | «return» => exact hinv.next_return henabled

end NodeInv

theorem nodeInv_init (foreign : Str → Option Str) (cache : ServiceContainer) :
    NodeInv cm pfx reg (registered pfx reg foreign cache).init where
  keys := by
    refine ⟨fun _ h => h, nofun, nofun, fun key hkey _ => ⟨rfl, .inl ?_⟩⟩
    show (reg.lookup key).or (foreign key) = reg.lookup key
    obtain ⟨addr, haddr⟩ := Option.isSome_iff_exists.mp (AList.lookup_isSome.mpr hkey)
    rw [haddr]
    rfl
  calls := ⟨nofun, nofun, nofun, nofun, nofun⟩
  called := nofun
  returned := nofun

/-- `UnregisterService` recognises the keys of a name without a colon. -/
theorem matchesName_serviceKey {name : Str} (hname : ':' ∉ name) (id : Str) :
    matchesName pfx name (serviceKey pfx name id) = true := by
  rw [matchesName, serviceKey, List.drop_left, List.splitOn_append_cons_self_of_not_mem hname]
  exact decide_eq_true List.mem_cons_self

end Invariant

/-- **An unregistered service stays unregistered, and an expired key is put back**, in every
undisturbed run.  Once `UnregisterService` has returned nil for a name, no key that the node
registered under it is in etcd; and when the watch has nothing to do, every key of the node
that `UnregisterService` did not delete is in etcd with its address. -/
theorem run_unregistered {cm : CaseMap} {pfx : Str} {reg : AList fun _ : Str => Str}
    {foreign : Str → Option Str} {cache : ServiceContainer} {st : Node}
    (hreg : Registers cm pfx reg)
    (hrun : (registered pfx reg foreign cache).Run (Undisturbed cm) st) :
    (∀ name ∈ st.returned, ∀ id, serviceKey pfx (cm.lower name) id ∈ reg →
      st.etcd (serviceKey pfx (cm.lower name) id) = none) ∧
    (st.watcher = .idle → st.pending = [] → ∀ key ∈ reg, key ∉ st.removed →
      st.etcd key = reg.lookup key) := by
  have hinv : NodeInv cm pfx reg st := hrun.invariant (nodeInv_init foreign cache)
    fun s a hs henabled hok => hs.next hreg henabled hok
  constructor
  · intro name hname id hkey
    obtain ⟨hlower, hcolon⟩ := hinv.returned name hname
    rw [hlower] at hkey ⊢
    have hrem := hinv.calls.done name hname _ hkey (matchesName_serviceKey hcolon id)
    exact (hinv.keys.gone _ hrem).1
  · intro hidle hpending key hkey hrem
    rcases (hinv.keys.kept key hkey hrem).2 with hthere | hevent | howes
    · exact hthere
    · rw [hpending] at hevent
      exact absurd hevent List.not_mem_nil
    · rw [hidle] at howes
      exact absurd howes id

/-- The key of an instance of the service `a`, at the address `x`. -/
def keyA : Str := "g:a:1".toList

def regA : AList fun _ : Str => Str := AList.singleton keyA "x".toList

theorem registers_regA : Registers .onlyA "g:".toList regA := by
  intro key hkey
  have hkey : key = keyA := by simpa [regA, AList.mem_keys] using hkey
  exact ⟨"A".toList, "1".toList, by decide, hkey⟩

/-- The event is handled after `UnregisterService` has returned. -/
theorem run_unregistered_after :
    ∃ st, (registered "g:".toList regA (fun _ => none) (fun _ => none)).Run
        (Undisturbed .onlyA) st ∧ st.returned = ["a".toList] ∧ st.pending = [] ∧
      st.etcd keyA = none := by
  let S := registered "g:".toList regA (fun _ => none) (fun _ => none)
  let actions : List NodeAction :=
    [.unregister "a".toList, .visit keyA, .delete, .forget, .return, .handle, .load]
  have hrun : S.Run (Undisturbed .onlyA) (S.after actions S.init) := by
    refine System.Run.start.of_admits ?_
    refine ⟨rfl, ⟨by decide, by decide⟩, ⟨_, _, rfl, by decide⟩, trivial, ⟨_, _, _, rfl⟩, nofun,
      ⟨_, _, _, rfl⟩, trivial, ⟨_, rfl⟩, trivial, ⟨rfl, nofun⟩, trivial, ⟨_, rfl⟩, nofun, trivial⟩
  refine ⟨_, hrun, by decide +kernel, by decide +kernel, ?_⟩
  exact (run_unregistered registers_regA hrun).1 "a".toList (by decide +kernel) "1".toList
    (by decide)

/-- The event is handled between the two deletions: the key is put again after
`UnregisterService` has returned nil, and stays when all events are handled. -/
theorem unregistered_put_again :
    ∃ st, (registered "g:".toList regA (fun _ => none) (fun _ => none)).Run
        (fun _ _ => True) st ∧
      st.returned = ["a".toList] ∧ st.watcher = .idle ∧ st.pending = [] ∧
      st.etcd keyA = some "x".toList := by
  let S := registered "g:".toList regA (fun _ => none) (fun _ => none)
  let actions : List NodeAction :=
    [.unregister "a".toList, .visit keyA, .delete, .handle, .load, .forget, .return, .grant,
      .put, .store, .keepAlive, .handle]
  have hrun : S.Run (fun _ _ => True) (S.after actions S.init) := by
    refine System.Run.start.of_admits ?_
    refine ⟨rfl, trivial, ⟨_, _, rfl, by decide⟩, trivial, ⟨_, _, _, rfl⟩, trivial,
      ⟨rfl, nofun⟩, trivial, ⟨_, rfl⟩, trivial, ⟨_, _, _, rfl⟩, trivial, ⟨_, rfl⟩, trivial,
      ⟨_, _, rfl⟩, trivial, ⟨_, _, rfl⟩, trivial, ⟨_, _, rfl⟩, trivial, ⟨_, rfl⟩, trivial,
      ⟨rfl, nofun⟩, trivial, trivial⟩
  exact ⟨_, hrun, by decide +kernel, by decide +kernel, by decide +kernel, by decide +kernel⟩

end Gokit.Discovery
