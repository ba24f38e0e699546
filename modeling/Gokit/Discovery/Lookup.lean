/-
# Looking a service up

The cache keeps the instances of a service twice: in a map from identifiers to addresses,
and in a slice of identifiers from which one is drawn at random.  An instance is appended
to the slice only if the map does not have it, and removed by moving the last one into its
place.  The two stay in step over every sequence of changes, so that a lookup never draws
an identifier that has no address.
-/

import Gokit.Discovery.Mirror
import Gokit.Math.Store
import Mathlib.Data.List.TakeWhile

namespace Gokit.Discovery

open Gokit.Math

/-! ## The lookup -/

/-- `GetService`: the name is cut at the first colon; without an identifier behind it one
is drawn, `intn n` being what `rand.Intn(n)` returns. -/
def getService (cm : CaseMap) (allServices : ServiceContainer) (intn : Nat → Nat)
    (serviceName : Str) : Exec (Except String Str) :=
  let name := (cm.lower serviceName).takeWhile (· ≠ ':')
  let uuid := ((cm.lower serviceName).dropWhile (· ≠ ':')).drop 1
  match allServices name with
  | none => .ok (.error ("not exist service (" ++ String.ofList name ++ ")"))
  | some services =>
    if services.ids.length = 0 then
      .ok (.error ("not found service (" ++ String.ofList name ++ ")"))
    else do
      let id ←
        if uuid.length = 0 then
          match services.ids[intn services.ids.length]? with
          | some id => .ok id
          | none => .error .indexOutOfRange
        else .ok uuid
      match services.id2addr.lookup id with
      | none => .ok (.error ("not found addr of service (" ++ String.ofList name ++ ")"))
      | some addr => .ok (.ok addr)

/-! ## The two structures -/

/-- The slice holds the keys of the map, each of them once. -/
structure ServiceSet.Consistent (set : ServiceSet) : Prop where
  nodup : set.ids.Nodup
  mem_ids : ∀ id, id ∈ set.ids ↔ id ∈ set.id2addr

/-- Every service of the cache does. -/
def ServiceContainer.Consistent (services : ServiceContainer) : Prop :=
  ∀ name set, services name = some set → set.Consistent

theorem ServiceContainer.consistent_empty : ServiceContainer.Consistent fun _ => none := by
  intro name set hset
  cases hset

theorem ServiceSet.consistent_empty : ServiceSet.Consistent {} where
  nodup := List.nodup_nil
  mem_ids := fun id => by simp

variable {set : ServiceSet}

theorem ServiceContainer.Consistent.update {services : ServiceContainer}
    (hservices : services.Consistent) (name : Str) (hset : set.Consistent) :
    ServiceContainer.Consistent (Function.update services name (some set)) := by
  intro n set' hset'
  by_cases hn : n = name
  · subst hn
    rw [Function.update_self] at hset'
    cases hset'
    exact hset
  · rw [Function.update_of_ne hn] at hset'
    exact hservices n set' hset'

theorem ServiceContainer.Consistent.getD {services : ServiceContainer}
    (hservices : services.Consistent) (name : Str) : ((services name).getD {}).Consistent := by
  cases hset : services name with
  | none => exact ServiceSet.consistent_empty
  | some set => exact hservices name set hset

/-- Removal by swapping takes out one occurrence; only the order differs. -/
theorem removeId_perm (ids : List Str) (id : Str) : (removeId ids id).2.Perm (ids.erase id) := by
  by_cases hmem : id ∈ ids
  · obtain ⟨front, back, rfl, hfront⟩ := List.eq_append_cons_of_mem hmem
    have hfound : (front ++ id :: back).findIdx? (· = id) = some front.length := by
      have hnone : front.findIdx? (· = id) = none := by
        rw [List.findIdx?_eq_none_iff]
        intro x hx
        exact decide_eq_false (ne_of_mem_of_not_mem hx hfront)
      rw [List.findIdx?_append, hnone]
      simp [List.findIdx?_cons]
    have herase : (front ++ id :: back).erase id = front ++ back := by
      rw [List.erase_append_right _ hfront, List.erase_cons_head]
    rw [removeId, hfound, herase]
    show List.Perm (List.dropLast _) _
    rw [List.set_append_right _ _ (Nat.le_refl _), Nat.sub_self, List.set_cons_zero]
    -- the last identifier is the removed one, or one behind it
    rcases List.eq_nil_or_concat' back with rfl | ⟨middle, last, rfl⟩
    · simp
    · have hwhole : ∀ x, front ++ x :: (middle ++ [last]) = (front ++ x :: middle) ++ [last] := by
        simp
      have hlast : (front ++ id :: (middle ++ [last])).getLastD id = last := by
        rw [hwhole, List.getLastD_concat]
      rw [hlast, hwhole, List.dropLast_concat]
      exact List.Perm.append_left front (List.perm_append_singleton last middle).symm
  · have hnone : ids.findIdx? (· = id) = none := by
      rw [List.findIdx?_eq_none_iff]
      intro x hx
      exact decide_eq_false (ne_of_mem_of_not_mem hx hmem)
    rw [removeId, hnone, List.erase_of_not_mem hmem]

section Steps

variable {services : ServiceContainer}

theorem ServiceContainer.Consistent.addService (hservices : services.Consistent)
    (name id addr : Str) : ServiceContainer.Consistent (addService services name id addr).2 := by
  have hset := hservices.getD name
  cases hlookup : ((services name).getD {}).id2addr.lookup id with
  | some old =>
    simp only [Discovery.addService, hlookup]
    exact hservices.update name hset
  | none =>
    simp only [Discovery.addService, hlookup]
    have hnew : id ∉ ((services name).getD {}).ids := by
      rw [hset.mem_ids]
      exact AList.lookup_eq_none.mp hlookup
    apply hservices.update name
    constructor
    · show (((services name).getD {}).ids ++ [id]).Nodup
      rw [← List.concat_eq_append]
      exact hset.nodup.concat hnew
    · intro i
      show i ∈ ((services name).getD {}).ids ++ [id] ↔ _
      rw [List.mem_append, List.mem_singleton, AList.mem_insert, hset.mem_ids, or_comm]

theorem ServiceContainer.Consistent.delService (hservices : services.Consistent)
    (name id : Str) : ServiceContainer.Consistent (delService services name id).2 := by
  cases hlookup : services name with
  | none =>
    simp only [Discovery.delService, hlookup]
    exact hservices
  | some set =>
    simp only [Discovery.delService, hlookup]
    have hset := hservices name set hlookup
    have hperm := removeId_perm set.ids id
    apply hservices.update name
    constructor
    · show (removeId set.ids id).2.Nodup
      exact hperm.nodup_iff.mpr (hset.nodup.erase id)
    · intro i
      show i ∈ (removeId set.ids id).2 ↔ _
      rw [hperm.mem_iff, hset.nodup.mem_erase_iff, AList.mem_erase, hset.mem_ids]

theorem ServiceContainer.Consistent.loadExistedServices (hservices : services.Consistent)
    (pfx : Str) (kvs : List (Str × Str)) :
    ServiceContainer.Consistent (loadExistedServices pfx services kvs) := by
  induction kvs generalizing services with
  | nil => exact hservices
  | cons kv kvs ih =>
    apply ih
    show ServiceContainer.Consistent (if kv.1.length < pfx.length then services else _)
    split
    · exact hservices
    · split
      · exact hservices.addService _ _ _
      · exact hservices

theorem ServiceContainer.Consistent.cacheEvent (hservices : services.Consistent) (pfx : Str)
    (change : Change Str Str) : ServiceContainer.Consistent (cacheEvent pfx services change) := by
  cases change with
  | put key value =>
    simp only [Discovery.cacheEvent]
    split
    · exact hservices.addService _ _ _
    · exact hservices
  | delete key =>
    simp only [Discovery.cacheEvent]
    split
    · exact hservices.delService _ _
    · exact hservices

/-- A cache that follows etcd. -/
theorem Follows.consistent {pfx : Str} {log : List (Change Str Str)} {r m : Nat}
    (hfollows : Follows pfx log services r m) : services.Consistent := by
  induction hfollows with
  | load _ _ => exact ServiceContainer.consistent_empty.loadExistedServices pfx _
  | reload _ _ _ _ => exact ServiceContainer.consistent_empty.loadExistedServices pfx _
  | event _ _ ih => exact ih.cacheEvent pfx _

end Steps

/-! ## What a lookup returns -/

section Lookup

variable {cm : CaseMap} {services : ServiceContainer} {intn : Nat → Nat} {name id : Str}

theorem cut_of_not_mem (hname : ':' ∉ name) :
    name.takeWhile (· ≠ ':') = name ∧ name.dropWhile (· ≠ ':') = [] := by
  have hall : ∀ c ∈ name, decide (c ≠ ':') = true := by
    intro c hc
    exact decide_eq_true (ne_of_mem_of_not_mem hc hname)
  exact ⟨List.takeWhile_eq_self_iff.mpr hall, List.dropWhile_eq_nil_iff.mpr hall⟩

/-- The name of a node is cut at its first colon. -/
theorem cut_append (hname : ':' ∉ name) (id : Str) :
    (name ++ ':' :: id).takeWhile (· ≠ ':') = name ∧
      (name ++ ':' :: id).dropWhile (· ≠ ':') = ':' :: id := by
  obtain ⟨htake, hdrop⟩ := cut_of_not_mem hname
  constructor
  · rw [List.takeWhile_append, htake, if_pos rfl]
    simp
  · rw [List.dropWhile_append, hdrop]
    simp

theorem CaseMap.lower_append_colon (name id : Str) :
    cm.lower (name ++ ':' :: id) = cm.lower name ++ ':' :: cm.lower id := by
  rw [CaseMap.lower, List.map_append, List.map_cons, (cm.eq_colon_iff ':').mpr rfl]
  rfl

variable (cm) in
theorem CaseMap.lower_lower (s : Str) : cm.lower (cm.lower s) = cm.lower s := by
  rw [CaseMap.lower, CaseMap.lower, List.map_map]
  exact List.map_congr_left fun c _ => cm.toLower_toLower c

theorem CaseMap.colon_mem_lower_iff {s : Str} : ':' ∈ cm.lower s ↔ ':' ∈ s := by
  rw [CaseMap.lower, List.mem_map]
  constructor
  · rintro ⟨c, hc, heq⟩
    exact (cm.eq_colon_iff c).mp heq ▸ hc
  · exact fun h => ⟨':', h, (cm.eq_colon_iff ':').mpr rfl⟩

theorem getAllService_of_not_mem {serviceName : Str} (hcolon : ':' ∉ cm.lower serviceName) :
    getAllService cm services serviceName =
      (services (cm.lower serviceName)).map ServiceSet.id2addr := by
  simp only [getAllService, (cut_of_not_mem hcolon).1]

theorem addr_of_some (hset : services name = some set) (id : Str) :
    services.addr name id = set.id2addr.lookup id := by
  rw [ServiceContainer.addr, hset]
  rfl

theorem addr_of_no_set (hset : services name = none) (id : Str) : services.addr name id = none := by
  rw [ServiceContainer.addr, hset]
  rfl

/-- A service none of whose instances is left. -/
theorem ServiceSet.Consistent.lookup_of_length (hset : set.Consistent)
    (hlength : set.ids.length = 0) (id : Str) : set.id2addr.lookup id = none := by
  rw [AList.lookup_eq_none, ← hset.mem_ids, List.length_eq_zero_iff.mp hlength]
  exact List.not_mem_nil

/-- **A lookup by name** finds one of the instances, or there is none. -/
theorem getService_name (hservices : services.Consistent) (hintn : ∀ n, 0 < n → intn n < n)
    (hlower : cm.lower name = name) (hname : ':' ∉ name) :
    (∃ id addr, services.addr name id = some addr ∧
        getService cm services intn name = .ok (.ok addr)) ∨
      (∀ id, services.addr name id = none) ∧
        ∃ err, getService cm services intn name = .ok (.error err) := by
  obtain ⟨htake, hdrop⟩ := cut_of_not_mem hname
  cases hset : services name with
  | none =>
    right
    exact ⟨addr_of_no_set hset, _, by simp only [getService, hlower, htake, hset]; rfl⟩
  | some set =>
    have hcons := hservices name set hset
    by_cases hlength : set.ids.length = 0
    · right
      constructor
      · intro id
        rw [addr_of_some hset, hcons.lookup_of_length hlength]
      · exact ⟨_, by simp only [getService, hlower, htake, hset, if_pos hlength]; rfl⟩
    · left
      have hdraw := hintn _ (Nat.pos_of_ne_zero hlength)
      have hmem : set.ids[intn set.ids.length] ∈ set.id2addr :=
        (hcons.mem_ids _).mp (List.getElem_mem hdraw)
      obtain ⟨addr, haddr⟩ := Option.isSome_iff_exists.mp (AList.lookup_isSome.mpr hmem)
      refine ⟨_, addr, (addr_of_some hset _).trans haddr, ?_⟩
      simp only [getService, hlower, htake, hdrop, hset, if_neg hlength, List.drop_nil,
        List.length_nil, if_true, List.getElem?_eq_getElem hdraw, Exec.ok_bind, haddr]

variable (intn) in
/-- **A lookup by the name of a node** finds this instance, or it is not there. -/
theorem getService_node (hservices : services.Consistent) (hlower : cm.lower name = name)
    (hname : ':' ∉ name) (hlowerId : cm.lower id = id) (hid : id ≠ []) :
    (∃ addr, services.addr name id = some addr ∧
        getService cm services intn (name ++ ':' :: id) = .ok (.ok addr)) ∨
      services.addr name id = none ∧
        ∃ err, getService cm services intn (name ++ ':' :: id) = .ok (.error err) := by
  have hwhole : cm.lower (name ++ ':' :: id) = name ++ ':' :: id := by
    rw [CaseMap.lower_append_colon, hlower, hlowerId]
  obtain ⟨htake, hdrop⟩ := cut_append hname id
  cases hset : services name with
  | none =>
    right
    exact ⟨addr_of_no_set hset id, _, by simp only [getService, hwhole, htake, hset]; rfl⟩
  | some set =>
    have hcons := hservices name set hset
    rw [addr_of_some hset]
    by_cases hlength : set.ids.length = 0
    · right
      refine ⟨hcons.lookup_of_length hlength id, ?_⟩
      exact ⟨_, by simp only [getService, hwhole, htake, hset, if_pos hlength]; rfl⟩
    · have huuid : ¬ id.length = 0 := mt List.length_eq_zero_iff.mp hid
      cases haddr : set.id2addr.lookup id with
      | none =>
        right
        refine ⟨rfl, "not found addr of service (" ++ String.ofList name ++ ")", ?_⟩
        simp only [getService, hwhole, htake, hdrop, hset, if_neg hlength,
          List.drop_succ_cons, List.drop_zero, if_neg huuid, Exec.ok_bind, haddr]
      | some addr =>
        left
        refine ⟨addr, rfl, ?_⟩
        simp only [getService, hwhole, htake, hdrop, hset, if_neg hlength,
          List.drop_succ_cons, List.drop_zero, if_neg huuid, Exec.ok_bind, haddr]

end Lookup

/-! ## Every sequence of changes -/

inductive CacheOp
  | add (name id addr : Str)
  | del (name id : Str)
  /-- `onWatchEvent` -/
  | event (change : Change Str Str)
  /-- `loadAndWatch`, with what `Get` returns, or none if it fails -/
  | reload (kvs : Option (List (Str × Str)))

def CacheOp.apply (pfx : Str) (services : ServiceContainer) : CacheOp → ServiceContainer
  | add name id addr => (addService services name id addr).2
  | del name id => (delService services name id).2
  | event change => cacheEvent pfx services change
  | reload (some kvs) => loadAndWatch pfx services kvs
  | reload none => fun _ => none

def cacheAfter (pfx : Str) (ops : List CacheOp) : ServiceContainer :=
  ops.foldl (CacheOp.apply pfx) fun _ => none

theorem CacheOp.consistent_apply (pfx : Str) {services : ServiceContainer}
    (hservices : services.Consistent) (op : CacheOp) :
    ServiceContainer.Consistent (op.apply pfx services) := by
  cases op with
  | add name id addr => exact hservices.addService name id addr
  | del name id => exact hservices.delService name id
  | event change => exact hservices.cacheEvent pfx change
  | reload kvs =>
    cases kvs with
    | none => exact ServiceContainer.consistent_empty
    | some kvs => exact ServiceContainer.consistent_empty.loadExistedServices pfx kvs

theorem consistent_cacheAfter (pfx : Str) (ops : List CacheOp) :
    (cacheAfter pfx ops).Consistent := by
  apply List.foldlRecOn ops (CacheOp.apply pfx) ServiceContainer.consistent_empty
  intro services hservices op _
  exact CacheOp.consistent_apply pfx hservices op

/-- **The slice and the map agree, so that lookups find what is there.**  After every sequence
of changes, and whatever is drawn, a lookup by a lower-case name returns the address of one of
its instances, and fails iff it has none; a lookup by the name and an identifier returns the
address of this instance iff it is there. -/
theorem cacheAfter_consistent_getService (cm : CaseMap) (pfx : Str) (ops : List CacheOp)
    (intn : Nat → Nat) (hintn : ∀ n, 0 < n → intn n < n) :
    (∀ name set, cacheAfter pfx ops name = some set →
      set.ids.Nodup ∧ ∀ id, id ∈ set.ids ↔ id ∈ set.id2addr) ∧
    ∀ name, cm.lower name = name → ':' ∉ name →
      ((∃ id addr, (cacheAfter pfx ops).addr name id = some addr ∧
          getService cm (cacheAfter pfx ops) intn name = .ok (.ok addr)) ∨
        ∃ err, getService cm (cacheAfter pfx ops) intn name = .ok (.error err)) ∧
      ((∃ err, getService cm (cacheAfter pfx ops) intn name = .ok (.error err)) ↔
        ∀ id, (cacheAfter pfx ops).addr name id = none) ∧
      ∀ id, id ≠ [] → cm.lower id = id → ∀ addr,
        getService cm (cacheAfter pfx ops) intn (name ++ ':' :: id) = .ok (.ok addr) ↔
          (cacheAfter pfx ops).addr name id = some addr := by
  have hservices := consistent_cacheAfter pfx ops
  refine ⟨fun name set hset => ⟨(hservices name set hset).nodup, (hservices name set hset).mem_ids⟩,
    ?_⟩
  intro name hlower hname
  have hbyName := getService_name hservices hintn hlower hname
  refine ⟨hbyName.imp_right And.right, ?_, ?_⟩
  · rcases hbyName with ⟨id, addr, haddr, hget⟩ | ⟨hnone, herr⟩
    · rw [hget]
      exact iff_of_false (by simp) fun hnone => Option.some_ne_none _ (haddr.symm.trans (hnone id))
    · exact iff_of_true herr hnone
  · intro id hid hlowerId addr
    rcases getService_node intn hservices hlower hname hlowerId hid with
      ⟨addr', haddr, hget⟩ | ⟨hnone, err, hget⟩
    · rw [haddr, hget]
      simp
    · rw [hnone, hget]
      simp

/-- Of three instances the first one is deleted, and the last one takes its place; the second
one is put again. -/
def swapOps : List CacheOp :=
  [.reload (some [("g:a:1".toList, "x".toList), ("g:a:2".toList, "y".toList)]),
    .event (.put "g:a:3".toList "z".toList), .del "a".toList "1".toList,
    .event (.put "g:a:2".toList "y".toList)]

theorem cacheAfter_swap_getService :
    (cacheAfter "g:".toList swapOps "a".toList).map ServiceSet.ids =
      some ["3".toList, "2".toList] ∧
    getService .onlyA (cacheAfter "g:".toList swapOps) (fun n => n - 1)
      ("a".toList ++ ':' :: "3".toList) = .ok (.ok "z".toList) := by
  have hall := cacheAfter_consistent_getService .onlyA "g:".toList swapOps (fun n => n - 1)
    fun n hn => Nat.sub_lt hn Nat.one_pos
  obtain ⟨_, _, hnode⟩ := hall.2 "a".toList (by decide) (by decide)
  exact ⟨by decide +kernel,
    (hnode "3".toList (by decide) (by decide) "z".toList).mpr (by decide +kernel)⟩

end Gokit.Discovery
