/-
# Service discovery over etcd

A service instance is a key of etcd: the prefix of the group, the name of the service
and the identifier of the instance, separated by colons; the value is its address.
Every node keeps a cache of all instances, which it loads at some revision and then
follows through the watch.

Strings are lists of characters.  Lower-casing works character by character; which
characters have a lower case is a parameter.
-/

import Gokit.Math.Split
import Gokit.Math.VersionedStore
import Mathlib.Data.List.AList

namespace Gokit.Discovery

open Gokit.Math

/-! ## Keys -/

abbrev Str : Type := List Char

/-- `unicode.ToLower`: a lower-case character is not changed, and only the colon becomes
a colon. -/
structure CaseMap where
  toLower : Char → Char
  toLower_toLower : ∀ c, toLower (toLower c) = toLower c
  eq_colon_iff : ∀ c, toLower c = ':' ↔ c = ':'

def CaseMap.lower (cm : CaseMap) (s : Str) : Str := s.map cm.toLower

/-- An alphabet in which `A` is the only capital letter. -/
def CaseMap.onlyA : CaseMap where
  toLower := fun c => if c = 'A' then 'a' else c
  toLower_toLower := by
    intro c
    by_cases hc : c = 'A' <;> simp [hc]
  eq_colon_iff := by
    intro c
    by_cases hc : c = 'A' <;> simp [hc]

def serviceKey (pfx name id : Str) : Str := pfx ++ (name ++ ':' :: id)

/-- `parseKey`: the name and the identifier, or an error. -/
def parseKey (pfx key : Str) : Except String (Str × Str) :=
  if pfx.isPrefixOf key = false then .error "key not match prefix"
  else
    match (key.drop pfx.length).splitOn ':' with
    | [name, id] => .ok (name, id)
    | _ => .error "key not match format"

/-! ## The cache -/

structure ServiceSet where
  id2addr : AList fun _ : Str => Str := ∅
  ids : List Str := []

abbrev ServiceContainer : Type := Str → Option ServiceSet

def ServiceContainer.addr (services : ServiceContainer) (name id : Str) : Option Str :=
  (services name).bind fun set => set.id2addr.lookup id

def addService (allServices : ServiceContainer) (name id addr : Str) : Bool × ServiceContainer :=
  let services := (allServices name).getD {}
  match services.id2addr.lookup id with
  | none =>
    (true, Function.update allServices name (some
      { id2addr := services.id2addr.insert id addr, ids := services.ids ++ [id] }))
  | some _ => (false, Function.update allServices name (some services))

/-- The loop of `delService`: the last identifier takes the place of the removed one. -/
def removeId (ids : List Str) (id : Str) : Bool × List Str :=
  match ids.findIdx? (· = id) with
  | some i => (true, (ids.set i (ids.getLastD id)).dropLast)
  | none => (false, ids)

def delService (allServices : ServiceContainer) (name id : Str) : Bool × ServiceContainer :=
  match allServices name with
  | none => (false, allServices)
  | some services =>
    let (removed, ids) := removeId services.ids id
    (removed, Function.update allServices name (some
      { id2addr := services.id2addr.erase id, ids := ids }))

/-- `loadExistedServices`: add what `Get` has returned. -/
def loadExistedServices (pfx : Str) (allServices : ServiceContainer) (kvs : List (Str × Str)) :
    ServiceContainer :=
  kvs.foldl (fun services kv =>
    if kv.1.length < pfx.length then services
    else
      match parseKey pfx kv.1 with
      | .ok (name, id) => (addService services name id kv.2).2
      | .error _ => services) allServices

/-- `loadAndWatch`: the cache is built anew, whatever it was. -/
def loadAndWatch (pfx : Str) (_allServices : ServiceContainer) (kvs : List (Str × Str)) :
    ServiceContainer :=
  loadExistedServices pfx (fun _ => none) kvs

/-- What `onWatchEvent` does to the cache. -/
def cacheEvent (pfx : Str) (allServices : ServiceContainer) : Change Str Str → ServiceContainer
  | .put key value =>
    match parseKey pfx key with
    | .ok (name, id) => (addService allServices name id value).2
    | .error _ => allServices
  | .delete key =>
    match parseKey pfx key with
    | .ok (name, id) => (delService allServices name id).2
    | .error _ => allServices

/-- `GetAllService`: a clone of the map of the service. -/
def getAllService (cm : CaseMap) (allServices : ServiceContainer) (serviceName : Str) :
    Option (AList fun _ : Str => Str) :=
  let name := (cm.lower serviceName).takeWhile (· ≠ ':')
  (allServices name).map ServiceSet.id2addr

/-! ## Parsing -/

/-- A key is accepted iff it is the key of an instance. -/
theorem parseKey_eq_ok_iff {pfx key name id : Str} :
    parseKey pfx key = .ok (name, id) ↔
      key = serviceKey pfx name id ∧ ':' ∉ name ∧ ':' ∉ id := by
  have hpair : parseKey pfx key = .ok (name, id) ↔
      pfx.isPrefixOf key = true ∧ (key.drop pfx.length).splitOn ':' = [name, id] := by
    unfold parseKey
    cases pfx.isPrefixOf key with
    | false => simp
    | true =>
      simp only [Bool.true_eq_false, if_false, true_and]
      split
      · rename_i name' id' hsplit
        rw [hsplit]
        simp
      · rename_i hother
        constructor
        · nofun
        · exact fun hsplit => absurd hsplit (hother name id)
  rw [hpair, splitOn_eq_pair_iff, List.isPrefixOf_iff_prefix]
  constructor
  · rintro ⟨⟨rest, rfl⟩, hrest, hname, hid⟩
    rw [List.drop_left] at hrest
    exact ⟨by rw [hrest, serviceKey], hname, hid⟩
  · rintro ⟨rfl, hname, hid⟩
    refine ⟨List.prefix_append .., ?_, hname, hid⟩
    rw [serviceKey, List.drop_left]

/-- Distinct instances have distinct keys: the identifier is what follows the last colon. -/
theorem serviceKey_inj {pfx name id name' id' : Str} (hid : ':' ∉ id) (hid' : ':' ∉ id')
    (heq : serviceKey pfx name id = serviceKey pfx name' id') : name = name' ∧ id = id' := by
  have htail : name ++ ':' :: id = name' ++ ':' :: id' := List.append_cancel_left heq
  have hlonger : ∀ {id id' extra : Str}, ':' ∉ id → ':' :: id = extra ++ ':' :: id' →
      extra = [] ∧ id = id' := by
    intro id id' extra hid heq
    cases extra with
    | nil => exact ⟨rfl, (List.cons.inj heq).2⟩
    | cons c extra =>
      rw [(List.cons.inj heq).2] at hid
      exact absurd (List.mem_append_right _ List.mem_cons_self) hid
  rcases List.append_eq_append_iff.mp htail with ⟨extra, hname, hrest⟩ | ⟨extra, hname, hrest⟩
  · obtain ⟨rfl, rfl⟩ := hlonger hid hrest
    exact ⟨(hname.trans (List.append_nil _)).symm, rfl⟩
  · obtain ⟨rfl, rfl⟩ := hlonger hid' hrest
    exact ⟨hname.trans (List.append_nil _), rfl⟩

/-! ## What the operations do to the addresses -/

section Addresses

variable (services : ServiceContainer) (name id : Str)

theorem addr_update (set : ServiceSet) (n i : Str) :
    ServiceContainer.addr (Function.update services name (some set)) n i =
      if n = name then set.id2addr.lookup i else services.addr n i := by
  by_cases hn : n = name
  · rw [hn, if_pos rfl, ServiceContainer.addr, Function.update_self]
    rfl
  · rw [if_neg hn, ServiceContainer.addr, Function.update_of_ne hn]
    rfl

theorem lookup_getD : ((services name).getD {}).id2addr.lookup id = services.addr name id := by
  rw [ServiceContainer.addr]
  cases services name <;> rfl

/-- `addService` adds an instance that is not there. -/
theorem addr_addService_of_none (hnone : services.addr name id = none) (addr n i : Str) :
    (addService services name id addr).2.addr n i =
      if n = name ∧ i = id then some addr else services.addr n i := by
  have hadd : (addService services name id addr).2 = Function.update services name (some
      { id2addr := ((services name).getD {}).id2addr.insert id addr
        ids := ((services name).getD {}).ids ++ [id] }) := by
    simp only [addService, lookup_getD, hnone]
  rw [hadd, addr_update]
  by_cases hn : n = name
  · rw [if_pos hn]
    by_cases hi : i = id
    · rw [if_pos ⟨hn, hi⟩, hi]
      exact AList.lookup_insert _
    · rw [if_neg fun h => hi h.2, hn, ← lookup_getD services name i]
      exact AList.lookup_insert_ne hi
  · rw [if_neg hn, if_neg fun h => hn h.1]

/-- `addService` does not touch the address of an instance that is there. -/
theorem addr_addService_of_some {old : Str} (hsome : services.addr name id = some old)
    (addr n i : Str) : (addService services name id addr).2.addr n i = services.addr n i := by
  have hadd : (addService services name id addr).2 =
      Function.update services name (some ((services name).getD {})) := by
    simp only [addService, lookup_getD, hsome]
  rw [hadd, addr_update, lookup_getD]
  split
  · rename_i hn
    rw [hn]
  · rfl

theorem addr_addService (addr n i : Str) :
    (addService services name id addr).2.addr n i =
      if n = name ∧ i = id then some ((services.addr name id).getD addr)
      else services.addr n i := by
  cases haddr : services.addr name id with
  | none => exact addr_addService_of_none services name id haddr addr n i
  | some old =>
    rw [addr_addService_of_some services name id haddr]
    split
    · rename_i hni
      rw [hni.1, hni.2, haddr]
      rfl
    · rfl

theorem addr_delService (n i : Str) :
    (delService services name id).2.addr n i =
      if n = name ∧ i = id then none else services.addr n i := by
  cases hset : services name with
  | none =>
    have hdel : (delService services name id).2 = services := by
      simp only [delService, hset]
    rw [hdel]
    split
    · rename_i hni
      rw [ServiceContainer.addr, hni.1, hset]
      rfl
    · rfl
  | some set =>
    have hdel : (delService services name id).2 = Function.update services name (some
        { id2addr := set.id2addr.erase id, ids := (removeId set.ids id).2 }) := by
      simp only [delService, hset]
    have haddr : services.addr name i = set.id2addr.lookup i := by
      rw [ServiceContainer.addr, hset]
      rfl
    rw [hdel, addr_update]
    by_cases hn : n = name
    · rw [if_pos hn]
      by_cases hi : i = id
      · rw [if_pos ⟨hn, hi⟩, hi]
        exact AList.lookup_erase ..
      · rw [if_neg fun h => hi h.2, hn, haddr]
        exact AList.lookup_erase_ne hi
    · rw [if_neg hn, if_neg fun h => hn h.1]

end Addresses

end Gokit.Discovery
