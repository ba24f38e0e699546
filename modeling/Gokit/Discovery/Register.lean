/-
# Registering and unregistering

`RegisterService` puts a key with the name in lower case and remembers it in `regServs`.
`UnregisterService` goes over `regServs` and deletes every key one of whose parts is its
argument, as it was given.  It stops at the first key that cannot be deleted, and returns
nil all the same.

So a call undoes the registrations of its name, and nothing else, iff its argument is the
name in lower case and without a colon, is no identifier and no part of another name, and
no deletion fails.  A service is found by the name under which it was registered iff that
name has no colon.
-/

import Gokit.Discovery.Lookup
import Gokit.Discovery.Unregister

namespace Gokit.Discovery

open Gokit.Math

/-! ## The functions -/

/-- How the calls of `putServiceKey` to etcd end; an error of `Put` does not tell whether the
key is there. -/
inductive PutOutcome (E : Type)
  | grantFails (err : E)
  | putFails (err : E) (applied : Bool)
  | keepAliveFails (err : E)
  | done
  deriving DecidableEq, Repr

inductive DeleteOutcome (E : Type)
  | fails (err : E) (applied : Bool)
  | done
  deriving DecidableEq, Repr

/-- The history of etcd and the keys that the node has registered. -/
structure Registrar where
  log : List (Change Str Str) := []
  regServs : AList fun _ : Str => Str := ∅

namespace Registrar

variable {E : Type}

def etcd (st : Registrar) : Str → Option Str := contentAt st.log st.log.length

def change (st : Registrar) (c : Change Str Str) : Registrar := { st with log := st.log ++ [c] }

/-- The key is put, and remembered. -/
def store (st : Registrar) (key rpcAddr : Str) : Registrar :=
  { st.change (.put key rpcAddr) with regServs := st.regServs.insert key rpcAddr }

/-- The key is deleted, and forgotten. -/
def remove (st : Registrar) (key : Str) : Registrar :=
  { st.change (.delete key) with regServs := st.regServs.erase key }

def putServiceKey (st : Registrar) (key rpcAddr : Str) : PutOutcome E → Option E × Registrar
  | .grantFails err => (some err, st)
  | .putFails err applied => (some err, if applied then st.change (.put key rpcAddr) else st)
  | .keepAliveFails err => (some err, st.store key rpcAddr)
  | .done => (none, st.store key rpcAddr)

/-- `RegisterService`, with the identifier that `uuid.New` has made: the name of the node and
the error. -/
def registerService (cm : CaseMap) (pfx : Str) (st : Registrar) (serviceName rpcAddr uuid : Str)
    (outcome : PutOutcome E) : Str × Option E × Registrar :=
  let nodeName := cm.lower serviceName ++ ':' :: uuid
  (nodeName, st.putServiceKey (pfx ++ nodeName) rpcAddr outcome)

/-- The keys that `Range` visits in `UnregisterService`, with the error of the last deletion. -/
def unregisterLoop (pfx serviceName : Str) (delete : Str → DeleteOutcome E) (st : Registrar) :
    List Str → Option E × Registrar
  | [] => (none, st)
  | key :: keys =>
    if matchesName pfx serviceName key then
      match delete key with
      | .fails err applied => (some err, if applied then st.change (.delete key) else st)
      | .done => unregisterLoop pfx serviceName delete (st.remove key) keys
    else unregisterLoop pfx serviceName delete st keys

/-- `UnregisterService`: the error is not returned. -/
def unregisterService (pfx : Str) (st : Registrar) (serviceName : Str) (order : List Str)
    (delete : Str → DeleteOutcome E) : Option E × Registrar :=
  (none, (unregisterLoop pfx serviceName delete st order).2)

end Registrar

/-! ## What unregistering is to do -/

structure Registration (E : Type) where
  serviceName : Str
  rpcAddr : Str
  uuid : Str
  outcome : PutOutcome E
  deriving DecidableEq, Repr

namespace Registration

variable {E : Type}

def key (cm : CaseMap) (pfx : Str) (reg : Registration E) : Str :=
  serviceKey pfx (cm.lower reg.serviceName) reg.uuid

/-- The registration is one of the service, whatever the case of the letters. -/
def Of (cm : CaseMap) (name : Str) (reg : Registration E) : Prop :=
  cm.lower reg.serviceName = cm.lower name

instance (cm : CaseMap) (name : Str) (reg : Registration E) : Decidable (reg.Of cm name) :=
  inferInstanceAs (Decidable (_ = _))

def run (cm : CaseMap) (pfx : Str) (regs : List (Registration E)) : Registrar :=
  regs.foldl (fun st reg =>
    (st.registerService cm pfx reg.serviceName reg.rpcAddr reg.uuid reg.outcome).2.2) {}

end Registration

section Undoes

variable {E : Type} (cm : CaseMap) (pfx : Str) (regs : List (Registration E)) (st : Registrar)
  (name : Str) (order : List Str) (delete : Str → DeleteOutcome E)

/-- The key was registered under the name. -/
def RegisteredAs (key : Str) : Prop := ∃ reg ∈ regs, reg.Of cm name ∧ key = reg.key cm pfx

instance (key : Str) : Decidable (RegisteredAs cm pfx regs name key) :=
  inferInstanceAs (Decidable (∃ reg ∈ regs, reg.Of cm name ∧ key = reg.key cm pfx))

/-- `UnregisterService` undoes the registrations of the name and no others, and reports a
deletion that fails. -/
structure Undoes : Prop where
  removed : (st.unregisterService pfx name order delete).1 = none →
    ∀ key ∈ st.regServs, RegisteredAs cm pfx regs name key →
      (st.unregisterService pfx name order delete).2.etcd key = none ∧
      key ∉ (st.unregisterService pfx name order delete).2.regServs
  others : ∀ key, ¬ RegisteredAs cm pfx regs name key →
    (st.unregisterService pfx name order delete).2.etcd key = st.etcd key ∧
    (st.unregisterService pfx name order delete).2.regServs.lookup key = st.regServs.lookup key
  reported : (Registrar.unregisterLoop pfx name delete st order).1 ≠ none →
    (st.unregisterService pfx name order delete).1 ≠ none

/-- The name is written as in the keys, it is not a part of a key of another service, and no
deletion fails. -/
structure Plain : Prop where
  written : ∀ reg ∈ regs, reg.key cm pfx ∈ st.regServs → reg.Of cm name →
    cm.lower name = name ∧ ':' ∉ name
  apart : ∀ reg ∈ regs, reg.key cm pfx ∈ st.regServs → ¬ reg.Of cm name →
    name ≠ reg.uuid ∧ name ∉ (cm.lower reg.serviceName).splitOn ':'
  deletes : ∀ reg ∈ regs, reg.key cm pfx ∈ st.regServs → reg.Of cm name →
    delete (reg.key cm pfx) = .done

end Undoes

/-! ## The loop -/

namespace Registrar

variable {E : Type} {pfx name : Str} {delete : Str → DeleteOutcome E} {order : List Str}

theorem etcd_remove (st : Registrar) (key : Str) :
    (st.remove key).etcd = Function.update st.etcd key none := by
  show contentAt (st.log ++ [_]) (st.log ++ [_]).length = _
  rw [List.length_append, List.length_singleton, contentAt_append_singleton]
  rfl

/-- No deletion fails: the matching keys are gone, the others are as before. -/
theorem unregisterLoop_of_done (st : Registrar)
    (hdone : ∀ key ∈ order, matchesName pfx name key = true → delete key = .done) (key : Str) :
    (unregisterLoop pfx name delete st order).2.etcd key =
        (if key ∈ order ∧ matchesName pfx name key = true then none else st.etcd key) ∧
      (unregisterLoop pfx name delete st order).2.regServs.lookup key =
        (if key ∈ order ∧ matchesName pfx name key = true then none
          else st.regServs.lookup key) := by
  induction order generalizing st with
  | nil => simp [unregisterLoop]
  | cons first order ih =>
    have htail := fun k hk => hdone k (List.mem_cons_of_mem first hk)
    by_cases hmatch : matchesName pfx name first = true
    · rw [unregisterLoop, if_pos hmatch, hdone first List.mem_cons_self hmatch]
      obtain ⟨hetcd, hreg⟩ := ih (st.remove first) htail
      rw [etcd_remove] at hetcd
      by_cases hkey : key = first
      · subst hkey
        have hgone : key ∈ key :: order ∧ matchesName pfx name key = true :=
          ⟨List.mem_cons_self, hmatch⟩
        rw [if_pos hgone, if_pos hgone]
        refine ⟨hetcd.trans ?_, hreg.trans ?_⟩
        · rw [Function.update_self, ite_self]
        · rw [remove, AList.lookup_erase, ite_self]
      · rw [Function.update_of_ne hkey] at hetcd
        rw [remove, AList.lookup_erase_ne hkey] at hreg
        simp only [List.mem_cons, hkey, false_or]
        exact ⟨hetcd, hreg⟩
    · rw [unregisterLoop, if_neg hmatch]
      have hmem : key ∈ first :: order ∧ matchesName pfx name key = true ↔
          key ∈ order ∧ matchesName pfx name key = true := by
        refine and_congr_left fun hkey => List.mem_cons.trans (or_iff_right ?_)
        rintro rfl
        exact hmatch hkey
      simp only [hmem]
      exact ih st htail

/-- The loop has no error iff no deletion that it makes fails. -/
theorem unregisterLoop_eq_none_iff (st : Registrar) :
    (unregisterLoop pfx name delete st order).1 = none ↔
      ∀ key ∈ order, matchesName pfx name key = true → delete key = .done := by
  induction order generalizing st with
  | nil => simp [unregisterLoop]
  | cons first order ih =>
    rw [List.forall_mem_cons]
    by_cases hmatch : matchesName pfx name first = true
    · rw [unregisterLoop, if_pos hmatch]
      cases hdelete : delete first with
      | fails err applied => simp [hmatch]
      | done => simp [ih]
    · rw [unregisterLoop, if_neg hmatch, ih]
      simp [hmatch]

end Registrar

/-! ## Which keys match -/

/-- A key matches a part of its name, and its identifier. -/
theorem matchesName_iff {pfx name other id : Str} (hid : ':' ∉ id) :
    matchesName pfx name (serviceKey pfx other id) = true ↔
      name = id ∨ name ∈ other.splitOn ':' := by
  rw [matchesName, serviceKey, List.drop_left, decide_eq_true_iff,
    List.splitOn_append_cons_self, List.splitOn_eq_singleton hid, List.mem_append,
    List.mem_singleton, or_comm]

section Keys

variable {E : Type} {cm : CaseMap} {pfx name : Str} {regs : List (Registration E)}
  {st : Registrar} {order : List Str} {delete : Str → DeleteOutcome E}

/-- Only the key that is put can be new. -/
theorem Registrar.mem_putServiceKey {key rpcAddr k : Str} {outcome : PutOutcome E}
    (hk : k ∈ (st.putServiceKey key rpcAddr outcome).2.regServs) : k = key ∨ k ∈ st.regServs := by
  cases outcome with
  | grantFails err => exact .inr hk
  | putFails err applied => cases applied <;> exact .inr hk
  | keepAliveFails err => exact (AList.mem_insert _).mp hk
  | done => exact (AList.mem_insert _).mp hk

/-- Every key that the node remembers was registered. -/
theorem Registration.exists_of_mem_run :
    ∀ key ∈ (Registration.run cm pfx regs).regServs, ∃ reg ∈ regs, key = reg.key cm pfx := by
  let remembered (st : Registrar) : Prop := ∀ key ∈ st.regServs, ∃ reg ∈ regs, key = reg.key cm pfx
  have hempty : remembered {} := fun key hkey => absurd hkey (AList.notMem_empty key)
  refine List.foldlRecOn regs _ hempty ?_
  intro st hst reg hreg key hkey
  rcases Registrar.mem_putServiceKey hkey with hnew | hold
  · exact ⟨reg, hreg, hnew⟩
  · exact hst key hold

/-- An identifier is written in lower case, and has no colon. -/
def Uuids (cm : CaseMap) (regs : List (Registration E)) : Prop :=
  ∀ reg ∈ regs, cm.lower reg.uuid = reg.uuid ∧ ':' ∉ reg.uuid

instance : Decidable (Uuids cm regs) :=
  inferInstanceAs (Decidable (∀ reg ∈ regs, cm.lower reg.uuid = reg.uuid ∧ ':' ∉ reg.uuid))

/-- What is registered under names without a colon is what the interleavings of
`UnregisterService` with the watch start from. -/
theorem Registration.registers_run (huuids : Uuids cm regs)
    (hnames : ∀ reg ∈ regs, ':' ∉ reg.serviceName) :
    Registers cm pfx (Registration.run cm pfx regs).regServs := by
  intro key hkey
  obtain ⟨reg, hreg, hof⟩ := Registration.exists_of_mem_run key hkey
  have hname : ':' ∉ cm.lower reg.serviceName := mt CaseMap.colon_mem_lower_iff.mp (hnames reg hreg)
  exact ⟨reg.serviceName, reg.uuid, ⟨hname, (huuids reg hreg).2⟩, hof⟩

variable {reg : Registration E}

theorem registeredAs_key_iff (huuids : Uuids cm regs) (hreg : reg ∈ regs) :
    RegisteredAs cm pfx regs name (reg.key cm pfx) ↔ reg.Of cm name := by
  constructor
  · rintro ⟨reg', hreg', hof, hkey⟩
    obtain ⟨hname, _⟩ := serviceKey_inj (huuids reg hreg).2 (huuids reg' hreg').2 hkey
    exact hname.trans hof
  · exact fun hof => ⟨reg, hreg, hof, rfl⟩

theorem matchesName_key_iff (huuids : Uuids cm regs) (hreg : reg ∈ regs) :
    matchesName pfx name (reg.key cm pfx) = true ↔
      name = reg.uuid ∨ name ∈ (cm.lower reg.serviceName).splitOn ':' :=
  matchesName_iff (huuids reg hreg).2

/-- A name that matches a key of its own service is written as in the key. -/
theorem written_of_matches (huuids : Uuids cm regs) (hreg : reg ∈ regs) (hof : reg.Of cm name)
    (hmatch : matchesName pfx name (reg.key cm pfx) = true) :
    cm.lower name = name ∧ ':' ∉ name := by
  rcases (matchesName_key_iff huuids hreg).mp hmatch with hid | hpart
  · rw [hid]
    exact huuids reg hreg
  · have hcolon : ':' ∉ name := not_mem_of_mem_splitOn hpart
    rw [hof, List.splitOn_eq_singleton (mt CaseMap.colon_mem_lower_iff.mp hcolon),
      List.mem_singleton] at hpart
    exact ⟨hpart.symm, hcolon⟩

/-- The call does what it is to do iff the keys that match are those of the service, and none
of the deletions fails. -/
theorem undoes_iff_matches (horder : order.Perm st.regServs.keys) :
    Undoes cm pfx regs st name order delete ↔
      (∀ key ∈ st.regServs, matchesName pfx name key = true ↔ RegisteredAs cm pfx regs name key) ∧
      ∀ key ∈ st.regServs, matchesName pfx name key = true → delete key = .done := by
  have hmem : ∀ key, key ∈ order ↔ key ∈ st.regServs := by
    intro key
    rw [horder.mem_iff, AList.mem_keys]
  have hall : (∀ key ∈ order, matchesName pfx name key = true → delete key = .done) ↔
      ∀ key ∈ st.regServs, matchesName pfx name key = true → delete key = .done := by
    simp only [hmem]
  constructor
  · intro hundoes
    have hnone : (Registrar.unregisterLoop pfx name delete st order).1 = none :=
      not_not.mp fun herr => hundoes.reported herr rfl
    have hdone := (Registrar.unregisterLoop_eq_none_iff st).mp hnone
    refine ⟨fun key hkey => ⟨fun hmatch => ?_, fun hreg => ?_⟩, hall.mp hdone⟩
    · by_contra hother
      have hkept := (hundoes.others key hother).2
      have hgone := (Registrar.unregisterLoop_of_done st hdone key).2
      rw [if_pos ⟨(hmem key).mpr hkey, hmatch⟩] at hgone
      exact AList.lookup_eq_none.mp (hkept.symm.trans hgone) hkey
    · by_contra hmatch
      have hkept := (Registrar.unregisterLoop_of_done st hdone key).2
      rw [if_neg fun h => hmatch h.2] at hkept
      have hgone := AList.lookup_eq_none.mpr (hundoes.removed rfl key hkey hreg).2
      exact AList.lookup_eq_none.mp (hkept.symm.trans hgone) hkey
  · rintro ⟨hmatches, hdone⟩
    have hloop := Registrar.unregisterLoop_of_done st (hall.mpr hdone)
    constructor
    · intro _ key hkey hreg
      obtain ⟨hetcd, hlookup⟩ := hloop key
      have hgone := And.intro ((hmem key).mpr hkey) ((hmatches key hkey).mpr hreg)
      rw [if_pos hgone] at hetcd hlookup
      exact ⟨hetcd, AList.lookup_eq_none.mp hlookup⟩
    · intro key hother
      obtain ⟨hetcd, hlookup⟩ := hloop key
      have hkept : ¬ (key ∈ order ∧ matchesName pfx name key = true) :=
        fun h => hother ((hmatches key ((hmem key).mp h.1)).mp h.2)
      rw [if_neg hkept] at hetcd hlookup
      exact ⟨hetcd, hlookup⟩
    · intro herr
      exact absurd ((Registrar.unregisterLoop_eq_none_iff st).mpr (hall.mpr hdone)) herr

end Keys

/-- **`UnregisterService` undoes `RegisterService` iff the name is plain.**  For all registrations,
every content of etcd, every order in which the keys are visited and every deletion that may
fail. -/
theorem undoes_iff_plain {E : Type} {cm : CaseMap} {pfx name : Str} {regs : List (Registration E)}
    {st : Registrar} {order : List Str} {delete : Str → DeleteOutcome E}
    (huuids : Uuids cm regs) (hregs : st.regServs = (Registration.run cm pfx regs).regServs)
    (horder : order.Perm st.regServs.keys) :
    Undoes cm pfx regs st name order delete ↔ Plain cm pfx regs st name delete := by
  rw [undoes_iff_matches horder]
  have hkeys : ∀ key ∈ st.regServs, ∃ reg ∈ regs, key = reg.key cm pfx := by
    intro key hkey
    rw [hregs] at hkey
    exact Registration.exists_of_mem_run key hkey
  constructor
  · rintro ⟨hmatches, hdone⟩
    have hmatch : ∀ reg ∈ regs, reg.key cm pfx ∈ st.regServs →
        (matchesName pfx name (reg.key cm pfx) = true ↔ reg.Of cm name) :=
      fun reg hreg hkey => (hmatches _ hkey).trans (registeredAs_key_iff huuids hreg)
    constructor
    · intro reg hreg hkey hof
      exact written_of_matches huuids hreg hof ((hmatch reg hreg hkey).mpr hof)
    · intro reg hreg hkey hof
      have hnot := mt (hmatch reg hreg hkey).mp hof
      rw [matchesName_key_iff huuids hreg, not_or] at hnot
      exact hnot
    · intro reg hreg hkey hof
      exact hdone _ hkey ((hmatch reg hreg hkey).mpr hof)
  · intro hplain
    have hmatch : ∀ reg ∈ regs, reg.key cm pfx ∈ st.regServs →
        (matchesName pfx name (reg.key cm pfx) = true ↔ reg.Of cm name) := by
      intro reg hreg hkey
      rw [matchesName_key_iff huuids hreg]
      by_cases hof : reg.Of cm name
      · obtain ⟨hlower, hcolon⟩ := hplain.written reg hreg hkey hof
        have hname : cm.lower reg.serviceName = name := hof.trans hlower
        rw [hname, List.splitOn_eq_singleton hcolon]
        exact iff_of_true (.inr List.mem_cons_self) hof
      · exact iff_of_false (not_or.mpr (hplain.apart reg hreg hkey hof)) hof
    constructor
    · intro key hkey
      obtain ⟨reg, hreg, rfl⟩ := hkeys key hkey
      exact (hmatch reg hreg hkey).trans (registeredAs_key_iff huuids hreg).symm
    · intro key hkey hkeyMatch
      obtain ⟨reg, hreg, rfl⟩ := hkeys key hkey
      exact hplain.deletes reg hreg hkey ((hmatch reg hreg hkey).mp hkeyMatch)

/-- The service `A` at `x`, and a service whose name has a colon at `y`. -/
def twoRegs : List (Registration Unit) :=
  [⟨"A".toList, "x".toList, "1".toList, .done⟩, ⟨"b:c".toList, "y".toList, "2".toList, .done⟩]

def twoServices : Registrar := Registration.run .onlyA "g:".toList twoRegs

/-- `UnregisterService("a")`. -/
theorem undoes_lower_case :
    Undoes .onlyA "g:".toList twoRegs twoServices "a".toList twoServices.regServs.keys
      fun _ => .done := by
  have hplain : Plain .onlyA "g:".toList twoRegs twoServices "a".toList fun _ => .done :=
    ⟨by decide +kernel, by decide +kernel, fun _ _ _ _ => rfl⟩
  exact (undoes_iff_plain (by decide +kernel) rfl (List.Perm.refl _)).mpr hplain

/-- A key stays in etcd because it cannot be deleted, or because the name is given as it was
registered; and a key of another service is deleted.  Each time nil is returned. -/
theorem not_undoes :
    ¬ Undoes .onlyA "g:".toList twoRegs twoServices "a".toList twoServices.regServs.keys
      (fun _ => .fails () false) ∧
    ¬ Undoes .onlyA "g:".toList twoRegs twoServices "A".toList twoServices.regServs.keys
      (fun _ => .done) ∧
    ¬ Undoes .onlyA "g:".toList twoRegs twoServices "c".toList twoServices.regServs.keys
      (fun _ => .done) := by
  refine ⟨fun h => ?_, fun h => ?_, fun h => ?_⟩
  · exact h.reported (by decide +kernel) rfl
  · have hgone := (h.removed rfl "g:a:1".toList (by decide +kernel) (by decide +kernel)).1
    exact absurd hgone (by decide +kernel)
  · have hkept := (h.others "g:b:c:2".toList (by decide +kernel)).2
    exact absurd hkept (by decide +kernel)

/-! ## Finding what was registered -/

section Discoverable

variable {E : Type} {cm : CaseMap} {pfx : Str} {st st' : Registrar}
  {serviceName rpcAddr uuid nodeName : Str} {outcome : PutOutcome E}
  {later rest : List (Change Str Str)} {cache : ServiceContainer} {r : Nat}

/-- A registration without an error has put its key. -/
theorem Registrar.of_registerService
    (hregister : st.registerService cm pfx serviceName rpcAddr uuid outcome =
      (nodeName, none, st')) :
    nodeName = cm.lower serviceName ++ ':' :: uuid ∧
      st'.log = st.log ++ [.put (serviceKey pfx (cm.lower serviceName) uuid) rpcAddr] := by
  cases outcome with
  | grantFails err => cases hregister
  | putFails err applied => cases hregister
  | keepAliveFails err => cases hregister
  | done =>
    cases hregister
    exact ⟨rfl, rfl⟩

/-- A node that has handled the put has the address, if the name has no colon. -/
theorem addr_of_registered {name : Str} (hwf : WellFormed name uuid)
    (hlog : st'.log = st.log ++ [.put (serviceKey pfx name uuid) rpcAddr])
    (hfresh : ∀ addr, .put (serviceKey pfx name uuid) addr ∉ st.log)
    (hlater : ∀ change ∈ later, changedKey change = serviceKey pfx name uuid →
      change = .put (serviceKey pfx name uuid) rpcAddr)
    (hfollows : Follows pfx (st'.log ++ later ++ rest) cache r (st'.log ++ later).length) :
    cache.addr name uuid = some rpcAddr := by
  refine (hfollows.replica.pinned name uuid hwf).eq_of_single ?_ ?_
  · rw [contentAt_append (Nat.le_refl _), contentAt, List.take_length, List.foldl_append, hlog,
      List.foldl_append]
    refine foldl_apply_ne_none ?_ fun hmem => ?_
    · exact ne_of_eq_of_ne (Function.update_self ..) (Option.some_ne_none rpcAddr)
    · cases hlater _ hmem rfl
  · intro addr hmem
    rw [List.take_left, List.mem_append, hlog, List.mem_append, List.mem_singleton] at hmem
    rcases hmem with (hold | hnew) | hmem
    · exact absurd hold (hfresh addr)
    · exact (Change.put.inj hnew).2
    · exact (Change.put.inj (hlater _ hmem rfl)).2

end Discoverable

/-- **A registered service is found iff its name has no colon**, on every node that has handled
the put and no deletion of the key. -/
theorem getService_registered_iff {E : Type} {cm : CaseMap} {pfx : Str} {st st' : Registrar}
    {serviceName rpcAddr uuid nodeName : Str} {outcome : PutOutcome E}
    {later rest : List (Change Str Str)} {cache : ServiceContainer} {r : Nat}
    (hregister : st.registerService cm pfx serviceName rpcAddr uuid outcome =
      (nodeName, none, st'))
    (hlower : cm.lower uuid = uuid) (hcolon : ':' ∉ uuid) (huuid : uuid ≠ [])
    (hfresh : ∀ addr, .put (serviceKey pfx (cm.lower serviceName) uuid) addr ∉ st.log)
    (hlater : ∀ change ∈ later,
      changedKey change = serviceKey pfx (cm.lower serviceName) uuid →
        change = .put (serviceKey pfx (cm.lower serviceName) uuid) rpcAddr)
    (hfollows : Follows pfx (st'.log ++ later ++ rest) cache r (st'.log ++ later).length)
    (intn : Nat → Nat) :
    (getService cm cache intn nodeName = .ok (.ok rpcAddr) ∧
      ∃ rpcAddrs, getAllService cm cache serviceName = some rpcAddrs ∧
        rpcAddrs.lookup uuid = some rpcAddr) ↔
    ':' ∉ serviceName := by
  obtain ⟨rfl, hlog⟩ := Registrar.of_registerService hregister
  have hconsistent := hfollows.consistent
  constructor
  · rintro ⟨hget, _⟩ hmem
    -- the name is cut at its own colon, and what follows is no identifier
    obtain ⟨name, part, hname, hfirst⟩ :=
      List.eq_append_cons_of_mem (CaseMap.colon_mem_lower_iff.mpr hmem)
    have hwhole := cm.lower_lower serviceName
    rw [hname, CaseMap.lower_append_colon] at hwhole
    obtain ⟨hlowerName, hlowerPart⟩ := List.append_inj hwhole (List.length_map ..)
    have hlowerId : cm.lower (part ++ ':' :: uuid) = part ++ ':' :: uuid := by
      rw [CaseMap.lower_append_colon, (List.cons.inj hlowerPart).2, hlower]
    have hnode : cm.lower serviceName ++ ':' :: uuid = name ++ ':' :: (part ++ ':' :: uuid) := by
      rw [hname, List.append_assoc, List.cons_append]
    have hnone : cache.addr name (part ++ ':' :: uuid) = none :=
      hfollows.replica.other _ _ fun hwf =>
        hwf.2 (List.mem_append_right _ List.mem_cons_self)
    rw [hnode] at hget
    rcases getService_node intn hconsistent hlowerName hfirst hlowerId (by simp) with
      ⟨addr, hsome, _⟩ | ⟨_, err, herr⟩
    · exact absurd (hsome.symm.trans hnone) (Option.some_ne_none _)
    · exact absurd (Except.ok.inj (hget.symm.trans herr)) (by simp)
  · intro hname
    have hwf : WellFormed (cm.lower serviceName) uuid :=
      ⟨mt CaseMap.colon_mem_lower_iff.mp hname, hcolon⟩
    have haddr := addr_of_registered hwf hlog hfresh hlater hfollows
    constructor
    · rcases getService_node intn hconsistent (cm.lower_lower serviceName) hwf.1 hlower huuid with
        ⟨addr, hsome, hget⟩ | ⟨hnone, _⟩
      · rw [hget, Option.some.inj (hsome.symm.trans haddr)]
      · exact absurd (haddr.symm.trans hnone) (Option.some_ne_none _)
    · obtain ⟨set, hset, hlookup⟩ := Option.bind_eq_some_iff.mp haddr
      exact ⟨set.id2addr, by rw [getAllService_of_not_mem hwf.1, hset]; rfl, hlookup⟩

/-- A node that has loaded an empty group and then seen one put. -/
theorem follows_one_put (key addr : Str) :
    Follows "g:".toList [.put key addr] (cacheEvent "g:".toList
      (loadAndWatch "g:".toList (fun _ => none) []) (.put key addr)) 0 1 := by
  have hload : Follows "g:".toList [.put key addr]
      (loadAndWatch "g:".toList (fun _ => none) []) 0 0 :=
    .load (Nat.zero_le _) fun _ _ => iff_of_false List.not_mem_nil fun h =>
      absurd h.2.symm (Option.some_ne_none _)
  exact hload.event rfl

/-- `RegisterService("A", "x")`, found as `a:1`. -/
theorem getService_registered_lower :
    ∃ cache, Follows "g:".toList [.put "g:a:1".toList "x".toList] cache 0 1 ∧
      getService .onlyA cache (fun _ => 0) "a:1".toList = .ok (.ok "x".toList) := by
  have hfollows := follows_one_put "g:a:1".toList "x".toList
  have hregister : (Registrar.registerService .onlyA "g:".toList {} "A".toList "x".toList "1".toList
      (.done : PutOutcome Unit)) = ("a:1".toList, none,
        Registrar.store {} "g:a:1".toList "x".toList) := by
    rfl
  have hfound := getService_registered_iff hregister (by decide) (by decide) (by decide)
    (fun _ => List.not_mem_nil) (fun _ h => absurd h List.not_mem_nil) hfollows (fun _ => 0)
  exact ⟨_, hfollows, (hfound.mpr (by decide)).1⟩

/-- `RegisterService("a:b", "x")` returns `a:b:1` and nil, but no node takes the key. -/
theorem getService_registered_colon :
    Registrar.registerService .onlyA "g:".toList {} "a:b".toList "x".toList "1".toList
      (.done : PutOutcome Unit) =
        ("a:b:1".toList, none, Registrar.store {} "g:a:b:1".toList "x".toList) ∧
    ∃ cache, Follows "g:".toList [.put "g:a:b:1".toList "x".toList] cache 0 1 ∧
      getService .onlyA cache (fun _ => 0) "a:b:1".toList =
        .ok (.error "not exist service (a)") ∧
      getAllService .onlyA cache "a:b".toList = none := by
  refine ⟨rfl, _, follows_one_put _ _, ?_, rfl⟩
  decide +kernel

end Gokit.Discovery
