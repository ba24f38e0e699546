/-
# The cache against etcd

The cache of a node is loaded from a snapshot and then follows the changes of the
watch, one at a time.  It always has the instances that etcd has.  It does not
always have their addresses: `addService` leaves the address of an instance that is
known already.  So the cache mirrors etcd exactly as long as no instance has been
given a new address since the load or since its key was last created.  A reload
repairs it.
-/

import Gokit.Discovery.Defs

namespace Gokit.Discovery

open Gokit.Math

/-- What `Get` with the prefix returns at a revision. -/
def Snapshot (pfx : Str) (log : List (Change Str Str)) (r : Nat) (kvs : List (Str × Str)) : Prop :=
  ∀ key value, (key, value) ∈ kvs ↔ pfx <+: key ∧ contentAt log r key = some value

/-- `Follows pfx log cache r m`: the cache was loaded last at revision `r` and has seen the
changes up to revision `m`. -/
inductive Follows (pfx : Str) (log : List (Change Str Str)) : ServiceContainer → Nat → Nat → Prop
  | load {kvs : List (Str × Str)} {r : Nat} (hr : r ≤ log.length) (hget : Snapshot pfx log r kvs) :
      Follows pfx log (loadAndWatch pfx (fun _ => none) kvs) r r
  /-- after `ErrCompacted` -/
  | reload {cache : ServiceContainer} {r m : Nat} (hfollows : Follows pfx log cache r m)
      {kvs : List (Str × Str)} {r' : Nat} (hr : r' ≤ log.length)
      (hget : Snapshot pfx log r' kvs) : Follows pfx log (loadAndWatch pfx cache kvs) r' r'
  | event {cache : ServiceContainer} {r m : Nat} (hfollows : Follows pfx log cache r m)
      {c : Change Str Str} (hc : log[m]? = some c) :
      Follows pfx log (cacheEvent pfx cache c) r (m + 1)

/-- The name and the identifier of an instance have no colon. -/
def WellFormed (name id : Str) : Prop := ':' ∉ name ∧ ':' ∉ id

instance (name id : Str) : Decidable (WellFormed name id) :=
  inferInstanceAs (Decidable (_ ∧ _))

/-- The cache agrees with etcd at revision `m`. -/
def Mirrors (pfx : Str) (log : List (Change Str Str)) (m : Nat) (cache : ServiceContainer) : Prop :=
  ∀ name id addr, cache.addr name id = some addr ↔
    WellFormed name id ∧ contentAt log m (serviceKey pfx name id) = some addr

/-! ## Loading -/

variable {key : Str}

section Load

variable (pfx : Str) (services : ServiceContainer) (name id : Str)

/-- The key is the one of the instance. -/
def Names (key : Str) : Prop := WellFormed name id ∧ key = serviceKey pfx name id

instance (key : Str) : Decidable (Names pfx name id key) :=
  inferInstanceAs (Decidable (_ ∧ _))

variable {pfx name id} in
theorem names_iff_parseKey : Names pfx name id key ↔ parseKey pfx key = .ok (name, id) := by
  rw [parseKey_eq_ok_iff, Names, and_comm]
  rfl

variable {pfx} in
/-- A key that is accepted names one instance. -/
theorem names_iff_of_ok {pair : Str × Str} (hparse : parseKey pfx key = .ok pair) :
    Names pfx name id key ↔ name = pair.1 ∧ id = pair.2 := by
  rw [names_iff_parseKey, hparse, Except.ok.injEq, Prod.ext_iff]
  exact and_congr eq_comm eq_comm

variable {pfx} in
theorem not_names_of_error {err : String} (hparse : parseKey pfx key = .error err) :
    ¬ Names pfx name id key := by
  rw [names_iff_parseKey, hparse]
  nofun

/-- A key is put: the instance it names is added, if it is not there. -/
theorem addr_cacheEvent_put (key value : Str) :
    (cacheEvent pfx services (.put key value)).addr name id =
      if Names pfx name id key then some ((services.addr name id).getD value)
      else services.addr name id := by
  cases hparse : parseKey pfx key with
  | error err =>
    simp only [cacheEvent, hparse]
    exact (if_neg (not_names_of_error name id hparse)).symm
  | ok pair =>
    simp only [cacheEvent, hparse]
    refine (addr_addService services pair.1 pair.2 value name id).trans ?_
    by_cases hpair : name = pair.1 ∧ id = pair.2
    · rw [if_pos hpair, if_pos ((names_iff_of_ok name id hparse).mpr hpair), hpair.1, hpair.2]
    · rw [if_neg hpair, if_neg (mt (names_iff_of_ok name id hparse).mp hpair)]

/-- A key is deleted: the instance it names is gone. -/
theorem addr_cacheEvent_delete (key : Str) :
    (cacheEvent pfx services (.delete key)).addr name id =
      if Names pfx name id key then none else services.addr name id := by
  cases hparse : parseKey pfx key with
  | error err =>
    simp only [cacheEvent, hparse]
    exact (if_neg (not_names_of_error name id hparse)).symm
  | ok pair =>
    simp only [cacheEvent, hparse]
    refine (addr_delService services pair.1 pair.2 name id).trans ?_
    by_cases hpair : name = pair.1 ∧ id = pair.2
    · rw [if_pos hpair, if_pos ((names_iff_of_ok name id hparse).mpr hpair)]
    · rw [if_neg hpair, if_neg (mt (names_iff_of_ok name id hparse).mp hpair)]

/-- One pair of the answer of `Get`. -/
theorem addr_load_step (kv : Str × Str) :
    (loadExistedServices pfx services [kv]).addr name id =
      if Names pfx name id kv.1 then some ((services.addr name id).getD kv.2)
      else services.addr name id := by
  show ServiceContainer.addr (if kv.1.length < pfx.length then services else _) name id = _
  by_cases hshort : kv.1.length < pfx.length
  · rw [if_pos hshort, if_neg]
    rintro ⟨_, heq⟩
    rw [heq, serviceKey, List.length_append] at hshort
    omega
  · rw [if_neg hshort]
    exact addr_cacheEvent_put pfx services name id kv.1 kv.2

/-- The first pair for a key counts, if the cache does not have it yet. -/
theorem addr_load (kvs : List (Str × Str)) :
    (loadExistedServices pfx services kvs).addr name id =
      (services.addr name id).or
        (if WellFormed name id then kvs.lookup (serviceKey pfx name id) else none) := by
  induction kvs generalizing services with
  | nil =>
    show services.addr name id = _
    cases services.addr name id <;> simp
  | cons kv kvs ih =>
    have hstep := addr_load_step pfx services name id kv
    have hfold : loadExistedServices pfx services (kv :: kvs) =
        loadExistedServices pfx (loadExistedServices pfx services [kv]) kvs := rfl
    rw [hfold, ih, hstep, List.lookup_cons]
    by_cases hwf : WellFormed name id
    · by_cases hkey : kv.1 = serviceKey pfx name id
      · rw [if_pos ⟨hwf, hkey⟩, if_pos hwf, if_pos hwf, hkey, beq_self_eq_true]
        cases services.addr name id <;> rfl
      · rw [if_neg fun h => hkey h.2, beq_false_of_ne (Ne.symm hkey)]
    · rw [if_neg fun h => hwf h.1, if_neg hwf, if_neg hwf]

end Load

theorem lookup_eq_of_mem_iff {kvs : List (Str × Str)} {value : Option Str}
    (hkvs : ∀ v, (key, v) ∈ kvs ↔ value = some v) : kvs.lookup key = value := by
  cases hlookup : kvs.lookup key with
  | none =>
    cases value with
    | none => rfl
    | some v =>
      rw [List.lookup_eq_none_iff] at hlookup
      have hne := hlookup _ ((hkvs v).mpr rfl)
      exact absurd rfl (bne_iff_ne.mp hne)
  | some v =>
    obtain ⟨before, after, rfl, _⟩ := List.lookup_eq_some_iff.mp hlookup
    exact ((hkvs v).mp (List.mem_append_right _ List.mem_cons_self)).symm

section Follow

variable {pfx : Str} {log : List (Change Str Str)} {cache : ServiceContainer} {r m : Nat}
  {kvs : List (Str × Str)}

/-- After a load the cache has the content of etcd. -/
theorem addr_loadAndWatch (hget : Snapshot pfx log r kvs) (name id : Str) :
    (loadAndWatch pfx cache kvs).addr name id =
      if WellFormed name id then contentAt log r (serviceKey pfx name id) else none := by
  have hlookup : kvs.lookup (serviceKey pfx name id) =
      contentAt log r (serviceKey pfx name id) := by
    refine lookup_eq_of_mem_iff fun v => ?_
    rw [hget]
    exact and_iff_right (List.prefix_append ..)
  rw [loadAndWatch, addr_load, hlookup]
  rfl

/-- One event of the watch keeps the replica of an instance. -/
theorem pinned_event {name id : Str} {c : Change Str Str} (hwf : WellFormed name id)
    (hpinned : Pinned log r m (serviceKey pfx name id) (cache.addr name id)) (hle : r ≤ m)
    (hc : log[m]? = some c) :
    Pinned log r (m + 1) (serviceKey pfx name id) ((cacheEvent pfx cache c).addr name id) := by
  have hcontent := congrFun (contentAt_succ hc) (serviceKey pfx name id)
  cases c with
  | put key value =>
    rw [addr_cacheEvent_put]
    by_cases hkey : key = serviceKey pfx name id
    · rw [if_pos ⟨hwf, hkey⟩]
      rw [hkey, Change.apply, Function.update_self] at hcontent
      have halive : contentAt log (m + 1) (serviceKey pfx name id) ≠ none := by
        rw [hcontent]
        exact Option.some_ne_none value
      cases haddr : cache.addr name id with
      | none =>
        have hfirst := hpinned.first haddr hle halive
        rw [hcontent] at hfirst
        exact hfirst
      | some old =>
        rw [haddr] at hpinned
        exact hpinned.again (Option.some_ne_none old) halive
    · rw [if_neg fun h => hkey h.2]
      rw [Change.apply, Function.update_of_ne (Ne.symm hkey)] at hcontent
      exact hpinned.skip hcontent hle
  | delete key =>
    rw [addr_cacheEvent_delete]
    by_cases hkey : key = serviceKey pfx name id
    · rw [if_pos ⟨hwf, hkey⟩]
      rw [hkey, Change.apply, Function.update_self] at hcontent
      exact pinned_of_none hcontent
    · rw [if_neg fun h => hkey h.2]
      rw [Change.apply, Function.update_of_ne (Ne.symm hkey)] at hcontent
      exact hpinned.skip hcontent hle

theorem addr_cacheEvent_of_not_wellFormed {name id : Str} (hwf : ¬ WellFormed name id)
    (c : Change Str Str) : (cacheEvent pfx cache c).addr name id = cache.addr name id := by
  cases c with
  | put key value => rw [addr_cacheEvent_put, if_neg fun h => hwf h.1]
  | delete key => rw [addr_cacheEvent_delete, if_neg fun h => hwf h.1]

/-- The address of an instance in the cache is the first one since its key was created or
the cache loaded; what is not an instance has no address. -/
structure Replica (pfx : Str) (log : List (Change Str Str)) (cache : ServiceContainer)
    (r m : Nat) : Prop where
  le : r ≤ m
  pinned : ∀ name id, WellFormed name id →
    Pinned log r m (serviceKey pfx name id) (cache.addr name id)
  other : ∀ name id, ¬ WellFormed name id → cache.addr name id = none

theorem replica_load (cache : ServiceContainer) (hget : Snapshot pfx log r kvs) :
    Replica pfx log (loadAndWatch pfx cache kvs) r r where
  le := Nat.le_refl r
  pinned := by
    intro name id hwf
    rw [addr_loadAndWatch hget, if_pos hwf]
    exact pinned_load
  other := by
    intro name id hwf
    rw [addr_loadAndWatch hget, if_neg hwf]

/-- Every cache that follows a history is a replica of it. -/
theorem Follows.replica (hfollows : Follows pfx log cache r m) : Replica pfx log cache r m := by
  induction hfollows with
  | load _ hget => exact replica_load _ hget
  | reload _ _ hget _ => exact replica_load _ hget
  | event _ hc ih =>
    refine ⟨Nat.le_succ_of_le ih.le, ?_, ?_⟩
    · exact fun name id hwf => pinned_event hwf (ih.pinned name id hwf) ih.le hc
    · intro name id hwf
      rw [addr_cacheEvent_of_not_wellFormed hwf, ih.other name id hwf]

/-- A cache has not seen more than there is. -/
theorem Snapshot.append (hr : r ≤ log.length) (hget : Snapshot pfx log r kvs)
    (later : List (Change Str Str)) : Snapshot pfx (log ++ later) r kvs := by
  intro key value
  rw [contentAt_append hr]
  exact hget key value

/-- Later changes do not matter to a cache that has not seen them. -/
theorem Follows.append (hfollows : Follows pfx log cache r m) (later : List (Change Str Str)) :
    Follows pfx (log ++ later) cache r m := by
  have hle : ∀ {r : Nat}, r ≤ log.length → r ≤ (log ++ later).length := by
    intro r hr
    rw [List.length_append]
    exact Nat.le_add_right_of_le hr
  induction hfollows with
  | load hr hget => exact .load (hle hr) (hget.append hr later)
  | reload _ hr hget ih => exact .reload ih (hle hr) (hget.append hr later)
  | event _ hc ih =>
    refine .event ih ?_
    rw [List.getElem?_append_left (List.getElem?_eq_some_iff.mp hc).1]
    exact hc

/-- A cache has the instances of etcd, whatever their addresses. -/
theorem Follows.addr_ne_none_iff (hfollows : Follows pfx log cache r m) {name id : Str}
    (hwf : WellFormed name id) :
    cache.addr name id ≠ none ↔ contentAt log m (serviceKey pfx name id) ≠ none :=
  not_congr (hfollows.replica.pinned name id hwf).none_iff

/-- No instance has another address at revision `m` than its key had at the start of its
present life: at the load, or when it was created after the load. -/
def Steady (pfx : Str) (log : List (Change Str Str)) (r m : Nat) : Prop :=
  ∀ name id, WellFormed name id → ∀ i, BornAt log r m (serviceKey pfx name id) i →
    contentAt log i (serviceKey pfx name id) = contentAt log m (serviceKey pfx name id)

/-- **The cache mirrors etcd iff no address has changed under it.**  For every history, every
load and reload, and every number of events processed since. -/
theorem mirrors_iff_steady (hfollows : Follows pfx log cache r m) :
    Mirrors pfx log m cache ↔ Steady pfx log r m := by
  have hreplica := hfollows.replica
  have hone : ∀ name id, WellFormed name id →
      (cache.addr name id = contentAt log m (serviceKey pfx name id) ↔
        ∀ i, BornAt log r m (serviceKey pfx name id) i →
          contentAt log i (serviceKey pfx name id) =
            contentAt log m (serviceKey pfx name id)) :=
    fun name id hwf => (hreplica.pinned name id hwf).eq_content_iff
  constructor
  · intro hmirrors name id hwf
    refine (hone name id hwf).mp (Option.ext fun addr => ?_)
    rw [hmirrors name id addr]
    exact and_iff_right hwf
  · intro hsteady name id addr
    by_cases hwf : WellFormed name id
    · rw [(hone name id hwf).mpr (hsteady name id hwf), and_iff_right hwf]
    · rw [hreplica.other name id hwf]
      exact iff_of_false (Option.some_ne_none addr).symm fun h => hwf h.1

end Follow

/-- An instance is registered at `x`, and then at `y` under the same key. -/
def movedLog : List (Change Str Str) :=
  [.put "g:a:1".toList "x".toList, .put "g:a:1".toList "y".toList]

/-- After the first change the cache agrees with etcd, by the address at the birth of the key. -/
theorem mirrors_before_move :
    ∃ cache, Follows "g:".toList movedLog cache 0 1 ∧ Mirrors "g:".toList movedLog 1 cache := by
  have hload : Follows "g:".toList movedLog (loadAndWatch "g:".toList (fun _ => none) []) 0 0 :=
    .load (Nat.zero_le _) fun _ _ => iff_of_false List.not_mem_nil fun h =>
      absurd h.2.symm (Option.some_ne_none _)
  have hfollows := hload.event (c := .put "g:a:1".toList "x".toList) rfl
  refine ⟨_, hfollows, (mirrors_iff_steady hfollows).mpr ?_⟩
  intro name id _ i hi
  have hle := hi.le
  rcases Nat.le_one_iff_eq_zero_or_eq_one.mp hle with rfl | rfl
  · exact absurd rfl (hi.alive 0 (Nat.le_refl 0) (Nat.zero_le 1))
  · rfl

/-- The cache keeps the address `x` after etcd has `y`, until it is loaded again. -/
theorem stale_address :
    ∃ cache, Follows "g:".toList movedLog cache 0 2 ∧
      cache.addr "a".toList "1".toList = some "x".toList ∧
      contentAt movedLog 2 "g:a:1".toList = some "y".toList := by
  have hload : Follows "g:".toList movedLog (loadAndWatch "g:".toList (fun _ => none) []) 0 0 :=
    .load (Nat.zero_le _) fun _ _ => iff_of_false List.not_mem_nil fun h =>
      absurd h.2.symm (Option.some_ne_none _)
  have hfirst := hload.event (c := .put "g:a:1".toList "x".toList) rfl
  have hsecond := hfirst.event (c := .put "g:a:1".toList "y".toList) rfl
  exact ⟨_, hsecond, by decide, by decide⟩

end Gokit.Discovery
