/-
# The free chain of a static list

The free slots of a pool form a chain through their `next` fields, which ends in
`null`.  The chain is described by the list of its slots; `malloc` takes the first
one off and `freeNode` puts one in front.
-/

import Gokit.Ds.StaticList.Defs
import Mathlib.Data.List.Range

namespace Gokit.Ds.Static

open Gokit.Math

variable {α : Type}

/-- The chain that starts at `head` runs through the slots `frees`. -/
def FreeChain (read : Ptr → Option (Node α)) : Int → List Ptr → Prop
  | head, [] => head = null
  | head, p :: rest => head = p ∧ ∃ node, read p = some node ∧ FreeChain read node.next rest

/-- A chain depends on its own slots only. -/
theorem FreeChain.congr {read read' : Ptr → Option (Node α)} {head : Int} {frees : List Ptr}
    (hchain : FreeChain read head frees) (hagree : ∀ p ∈ frees, read' p = read p) :
    FreeChain read' head frees := by
  induction frees generalizing head with
  | nil => exact hchain
  | cons p rest ih =>
    obtain ⟨hhead, node, hread, hrest⟩ := hchain
    refine ⟨hhead, node, ?_, ih hrest fun q hq => hagree q (List.mem_cons_of_mem p hq)⟩
    rw [hagree p List.mem_cons_self, hread]

/-- A slot outside the chain may be written. -/
theorem FreeChain.update {read : Ptr → Option (Node α)} {head : Int} {frees : List Ptr}
    (hchain : FreeChain read head frees) {p : Ptr} (hp : p ∉ frees) (cell : Option (Node α)) :
    FreeChain (Function.update read p cell) head frees :=
  hchain.congr fun _ hq => Function.update_of_ne (ne_of_mem_of_not_mem hq hp) ..

theorem natCast_ne_null (slot : Ptr) : (slot : Int) ≠ null := by
  unfold null
  omega

namespace StaticList

variable {list : StaticList α} {frees : List Ptr} {p : Ptr} {node : Node α}

theorem getNode_spec (hread : list.datas.read p = some node) : list.getNode p = .ok p := by
  have hlt := Store.lt_fresh_of_read hread
  rw [getNode, if_pos ⟨Int.natCast_nonneg p, Int.ofNat_lt.mpr hlt⟩, Int.toNat_natCast]

/-- An exhausted pool hands out `null` and stays as it is. -/
theorem malloc_nil (hchain : FreeChain list.datas.read list.free []) :
    list.malloc = .ok (null, list) := by
  have hfree : list.free = null := hchain
  rw [malloc, if_pos hfree, hfree]

/-- Otherwise the first slot of the chain is handed out. -/
theorem malloc_cons (hchain : FreeChain list.datas.read list.free (p :: frees)) :
    ∃ node list', list.datas.read p = some node ∧ list.malloc = .ok ((p : Int), list') ∧
      list'.datas.read = Function.update list.datas.read p (some { node with next := null }) ∧
      list'.datas.fresh = list.datas.fresh ∧ list'.zero = list.zero ∧
      FreeChain list.datas.read list'.free frees := by
  obtain ⟨hfree, node, hread, hrest⟩ := hchain
  obtain ⟨datas, hmodify, hdatas, hfresh⟩ :=
    Store.modify_spec hread fun node => { node with next := null }
  refine ⟨node, { list with datas := datas, free := node.next }, hread, ?_, hdatas, hfresh, rfl,
    hrest⟩
  simp [malloc, hfree, natCast_ne_null p, getNode_spec hread, Store.deref_of_read hread, hmodify]

/-- A slot that is given back is cleared and becomes the first of the chain. -/
theorem freeNode_spec (list : StaticList α) (hread : list.datas.read p = some node) :
    ∃ list', list.freeNode p = .ok list' ∧
      list'.datas.read =
        Function.update list.datas.read p (some { data := list.zero, next := list.free }) ∧
      list'.datas.fresh = list.datas.fresh ∧ list'.zero = list.zero ∧ list'.free = p := by
  obtain ⟨datas, hmodify, hdatas, hfresh⟩ :=
    Store.modify_spec hread fun _ => { data := list.zero, next := list.free }
  refine ⟨{ list with datas := datas, free := p }, ?_, hdatas, hfresh, rfl, rfl⟩
  simp [freeNode, getNode_spec hread, hmodify]

/-- The chain after a slot outside it has been given back. -/
theorem freeChain_cons {free : Int} (hchain : FreeChain list.datas.read free frees)
    (hp : p ∉ frees) (data : α) :
    FreeChain (Function.update list.datas.read p (some { data := data, next := free })) p
      (p :: frees) :=
  ⟨rfl, _, Function.update_self .., hchain.update hp _⟩

/-- Slots that are chained in their order form a chain from any of them on. -/
theorem freeChain_range {last : Nat} {datas : Store (Node α)}
    (hread : ∀ i, i ≤ last → ∃ data, datas.read i =
      some { data := data, next := if i < last then (i + 1 : Int) else null }) :
    ∀ rest i, i + rest = last → FreeChain datas.read i (List.range' i (rest + 1)) := by
  intro rest
  induction rest with
  | zero =>
    intro i hi
    obtain ⟨data, hslot⟩ := hread i (by omega)
    refine ⟨rfl, _, hslot, ?_⟩
    rw [if_neg (by omega)]
    rfl
  | succ rest ih =>
    intro i hi
    obtain ⟨data, hslot⟩ := hread i (by omega)
    refine ⟨rfl, _, hslot, ?_⟩
    rw [if_pos (by omega)]
    exact ih (i + 1) (by omega)

/-- After `Reset` every slot is free again, and all but the last one are clean.  The
last one keeps its data. -/
theorem reset_spec {last : Nat} (hfresh : list.datas.fresh = last + 1) :
    ∃ list', list.reset = .ok list' ∧ list'.zero = list.zero ∧
      list'.datas.fresh = last + 1 ∧
      (∀ i < last, list'.datas.read i = some { data := list.zero, next := i + 1 }) ∧
      (∀ node, list.datas.read last = some node →
        list'.datas.read last = some { node with next := null }) ∧
      FreeChain list'.datas.read list'.free (List.range (last + 1)) := by
  have hlength : list.datas.cells.length = last + 1 := hfresh
  have hbefore : ∀ i < last,
      (list.datas.cells.mapIdx (resetSlot list.zero last))[i]? =
        some { data := list.zero, next := i + 1 } := by
    intro i hi
    have hslot := List.getElem?_eq_getElem (hlength ▸ Nat.lt_succ_of_lt hi :
      i < list.datas.cells.length)
    rw [List.getElem?_mapIdx, hslot]
    simp [resetSlot, hi]
  have hlast : ∀ node, list.datas.read last = some node →
      (list.datas.cells.mapIdx (resetSlot list.zero last))[last]? =
        some { node with next := null } := by
    intro node hnode
    have hslot : list.datas.cells[last]? = some node := hnode
    rw [List.getElem?_mapIdx, hslot]
    simp [resetSlot]
  have hslots : ∀ i, i ≤ last → ∃ data,
      (list.datas.cells.mapIdx (resetSlot list.zero last))[i]? =
        some { data := data, next := if i < last then (i + 1 : Int) else null } := by
    intro i hi
    rcases Nat.lt_or_eq_of_le hi with hlt | rfl
    · rw [if_pos hlt]
      exact ⟨list.zero, hbefore i hlt⟩
    · rw [if_neg (Nat.lt_irrefl i)]
      have hslot := List.getElem?_eq_getElem (hlength ▸ Nat.lt_succ_self i :
        i < list.datas.cells.length)
      exact ⟨_, hlast _ hslot⟩
  refine ⟨{ list with datas := ⟨list.datas.cells.mapIdx (resetSlot list.zero last)⟩, free := 0 },
    ?_, rfl, ?_, hbefore, hlast, ?_⟩
  · rw [reset, hlength]
  · simp [Store.fresh, hlength]
  · rw [List.range_eq_range']
    exact freeChain_range hslots last 0 (Nat.zero_add last)

/-- A new pool: every slot is free and clean. -/
theorem newStaticList_spec (size : Nat) (zero : α) :
    ∃ list, newStaticList (1 + size) zero = .ok list ∧ list.zero = zero ∧
      list.datas.fresh = size + 1 ∧
      (∀ i ≤ size, ∃ next, list.datas.read i = some { data := zero, next := next }) ∧
      FreeChain list.datas.read list.free (List.range (size + 1)) := by
  have hlength : (⟨List.replicate (1 + size) { data := zero, next := 0 }⟩ :
      Store (Node α)).fresh = size + 1 := by
    simp [Store.fresh, Nat.add_comm]
  obtain ⟨list, hreset, hzero, hfresh, hbefore, hlast, hchain⟩ :=
    @reset_spec α
      { datas := ⟨List.replicate (1 + size) { data := zero, next := 0 }⟩
        free := 0
        zero := zero } size hlength
  refine ⟨list, hreset, hzero, hfresh, fun i hi => ?_, hchain⟩
  rcases Nat.lt_or_eq_of_le hi with hlt | rfl
  · exact ⟨_, hbefore i hlt⟩
  · have hslot : (List.replicate (1 + i) ({ data := zero, next := 0 } : Node α))[i]? =
        some { data := zero, next := 0 } := by
      rw [List.getElem?_replicate, if_pos (by omega)]
    exact ⟨_, hlast _ hslot⟩

end StaticList

end Gokit.Ds.Static
