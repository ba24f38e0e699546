/-
# Ranges of the ranking and enumeration

`SearchByRankRange` finds the node of the first rank and walks level 0 from there until
the last rank is passed or the list ends.  `QueryByRankRange` of the rank tree clamps the
two bounds before it asks, so that the answer is always a slice of the ranking.
`Foreach` walks level 0 as a whole and hands every element with its rank to a callback,
until the callback asks it to stop.
-/

import Gokit.Ds.SkipList.Ranks
import Gokit.Ds.SkipList.RankTree

namespace Gokit.Ds

open Gokit.Math

variable {U T : Type}

/-! ## The queries -/

/-- The loop of `SearchByRankRange`: append the data of `x` and go on along level 0. -/
def collectRange (heap : Store (Node T)) (max : Int) :
    (fuel : Nat) → Option Ptr → Int → Exec (List T)
  | 0, _, _ => .error .diverges
  | fuel + 1, x, min =>
    if min ≤ max then
      match x with
      | none => .ok []
      | some x => do
        let data ← dataAt heap x
        let level ← levelAt heap x 0
        let res ← collectRange heap max fuel level.next (min + 1)
        .ok (data :: res)
    else
      .ok []

/-- `SkipList.SearchByRankRange`. Without a first node it returns nil. -/
def SkipList.searchByRankRange (sl : SkipList T) (min max : Int) : Exec (List T) := do
  match ← sl.getNodeByRank min with
  | none => .ok []
  | some st => collectRange sl.heap max (sl.heap.fresh + 1) (some st) min

/-- The loop of `Foreach`, with a callback that works on a state `σ` and says whether to go
on. -/
def foreachFrom {σ : Type} (heap : Store (Node T)) (f : σ → T → Int → σ × Bool) :
    (fuel : Nat) → Option Ptr → Int → σ → Exec σ
  | 0, _, _, _ => .error .diverges
  | _ + 1, none, _, s => .ok s
  | fuel + 1, some x, rank, s => do
    let data ← dataAt heap x
    let (s, goOn) := f s data rank
    if goOn then do
      let level ← levelAt heap x 0
      foreachFrom heap f fuel level.next (rank + 1) s
    else
      .ok s

def SkipList.foreach {σ : Type} (sl : SkipList T) (f : σ → T → Int → σ × Bool) (s : σ) :
    Exec σ := do
  let level ← levelAt sl.heap sl.header 0
  foreachFrom sl.heap f (sl.heap.fresh + 1) level.next 1 s

def RankTree.queryByRankRange (t : RankTree U T) (min max : Int) : Exec (List T) :=
  let min := if min < 1 then 1 else min
  let max := if max < 0 then t.sl.length
    else if max > t.sl.length then t.sl.length else max
  if min > max then .ok [] else t.sl.searchByRankRange min max

def RankTree.queryByRank [Inhabited T] (t : RankTree U T) (rank : Int) : Exec (T × Bool) :=
  t.sl.searchByRank rank

def RankTree.getAll (t : RankTree U T) : Exec (List T) := t.sl.searchByRankRange 1 t.sl.length

def RankTree.foreach {σ : Type} (t : RankTree U T) (f : σ → T → Int → σ × Bool) (s : σ) : Exec σ :=
  t.sl.foreach f s

/-! ## What they compute -/

/-- The elements of ranks `lo` to `hi`, counted from one. -/
def slice (elems : List T) (lo hi : Int) : List T := (elems.take hi.toNat).drop (lo - 1).toNat

theorem slice_eq_nil {elems : List T} {lo hi : Int} (hempty : lo > hi) :
    slice elems lo hi = [] := by
  refine List.drop_eq_nil_of_le ?_
  rw [List.length_take]
  omega

/-- Hand the elements with their ranks, from `rank` on, to a callback until it says stop. -/
def visit {σ : Type} (f : σ → T → Int → σ × Bool) : Int → List T → σ → σ
  | _, [], s => s
  | rank, e :: elems, s =>
    if (f s e rank).2 then visit f (rank + 1) elems (f s e rank).1 else (f s e rank).1

/-- A callback that never says stop meets all elements, each with its rank. -/
theorem visit_record (elems : List T) :
    ∀ (rank : Int) (log : List (T × Int)),
      visit (fun log e rank => (log ++ [(e, rank)], true)) rank elems log =
        log ++ elems.mapIdx fun i e => (e, rank + i) := by
  induction elems with
  | nil =>
    intro rank log
    simp [visit]
  | cons e elems ih =>
    intro rank log
    rw [visit, if_pos rfl, ih]
    simp [List.mapIdx_cons, Int.add_assoc, Int.add_comm 1]

section Rep

variable [ElemType T] {sl : SkipList T} {head : Cell T} {cells : List (Cell T)}

/-- From any cell on, the range loop collects the data up to the last rank. -/
theorem Rep.collectRange_spec (hrep : Rep sl head cells) (max : Int) :
    ∀ (rest before : List (Cell T)) (fuel : Nat) (min : Int),
      head :: cells = before ++ rest → rest.length < fuel →
      collectRange sl.heap max fuel (rest.head?.map Cell.ptr) min =
        .ok ((rest.map Cell.data).take (max + 1 - min).toNat) := by
  intro rest
  induction rest with
  | nil =>
    intro before fuel min _ hfuel
    obtain ⟨fuel, rfl⟩ : ∃ smaller, fuel = smaller + 1 := ⟨fuel - 1, by omega⟩
    simp [collectRange]
  | cons c rest ih =>
    intro before fuel min hcut hfuel
    obtain ⟨fuel, rfl⟩ : ∃ smaller, fuel = smaller + 1 := ⟨fuel - 1, by omega⟩
    rw [List.length_cons] at hfuel
    by_cases hmin : min ≤ max
    · obtain ⟨level, hlevel, hnext⟩ := hrep.next_zero hcut
      have hdata := dataAt_of_shape (hrep.linked.shape_of_mem (c := c) (by rw [hcut]; simp))
      have hrest := ih (before ++ [c]) fuel (min + 1) (by rw [hcut]; simp) (by omega)
      obtain ⟨n, hn⟩ : ∃ n, (max + 1 - min).toNat = n + 1 := ⟨(max - min).toNat, by omega⟩
      have hn' : (max + 1 - (min + 1)).toNat = n := by omega
      rw [← hnext, hn'] at hrest
      simp [collectRange, hmin, hdata, hlevel, hrest, hn]
    · have hzero : (max + 1 - min).toNat = 0 := by omega
      simp [collectRange, hmin, hzero]

/-- A range query from rank one or more on is a slice. -/
theorem Rep.searchByRankRange_spec (hrep : Rep sl head cells) {min : Int} (hmin : 1 ≤ min)
    (max : Int) : sl.searchByRankRange min max = .ok (slice (cells.map Cell.data) min max) := by
  obtain ⟨i, rfl⟩ : ∃ i : Nat, min = (i + 1 : Nat) := ⟨(min - 1).toNat, by omega⟩
  rw [SkipList.searchByRankRange, hrep.getNodeByRank_spec, Exec.ok_bind,
    List.getElem?_cons_succ]
  have hlength := hrep.length_lt_fresh
  have hcollect := hrep.collectRange_spec max (cells.drop i) (head :: cells.take i)
    (sl.heap.fresh + 1) (i + 1 : Nat) (by simp) (by rw [List.length_drop]; omega)
  have hslice : ((cells.drop i).map Cell.data).take (max + 1 - (i + 1 : Nat)).toNat =
      slice (cells.map Cell.data) (i + 1 : Nat) max := by
    have hlo : ((i + 1 : Nat) - 1 : Int).toNat = i := by omega
    have hcount : (max + 1 - (i + 1 : Nat)).toNat = max.toNat - i := by omega
    rw [slice, hlo, List.drop_take, hcount, List.map_drop]
  rw [List.head?_drop] at hcollect
  cases hcell : cells[i]? with
  | none =>
    have hnil : cells.drop i = [] := List.drop_eq_nil_of_le (List.getElem?_eq_none_iff.mp hcell)
    rw [← hslice, hnil, List.map_nil, List.take_nil]
    rfl
  | some c =>
    rw [hcell, hslice] at hcollect
    exact hcollect

/-- From any cell on, the enumeration visits the remaining elements. -/
theorem Rep.foreachFrom_spec {σ : Type} (hrep : Rep sl head cells) (f : σ → T → Int → σ × Bool) :
    ∀ (rest before : List (Cell T)) (fuel : Nat) (rank : Int) (s : σ),
      head :: cells = before ++ rest → rest.length < fuel →
      foreachFrom sl.heap f fuel (rest.head?.map Cell.ptr) rank s =
        .ok (visit f rank (rest.map Cell.data) s) := by
  intro rest
  induction rest with
  | nil =>
    intro before fuel rank s _ hfuel
    obtain ⟨fuel, rfl⟩ : ∃ smaller, fuel = smaller + 1 := ⟨fuel - 1, by omega⟩
    rfl
  | cons c rest ih =>
    intro before fuel rank s hcut hfuel
    obtain ⟨fuel, rfl⟩ : ∃ smaller, fuel = smaller + 1 := ⟨fuel - 1, by omega⟩
    rw [List.length_cons] at hfuel
    obtain ⟨level, hlevel, hnext⟩ := hrep.next_zero hcut
    have hdata := dataAt_of_shape (hrep.linked.shape_of_mem (c := c) (by rw [hcut]; simp))
    have hrest := ih (before ++ [c]) fuel (rank + 1) (f s c.data rank).1
      (by rw [hcut]; simp) (by omega)
    rw [← hnext] at hrest
    simp only [List.head?_cons, Option.map_some, foreachFrom, hdata, Exec.ok_bind, hlevel, hrest,
      List.map_cons, visit]
    split <;> rfl

theorem Rep.foreach_spec {σ : Type} (hrep : Rep sl head cells) (f : σ → T → Int → σ × Bool)
    (s : σ) : sl.foreach f s = .ok (visit f 1 (cells.map Cell.data) s) := by
  have hcut : head :: cells = [] ++ head :: cells := rfl
  obtain ⟨level, hlevel, hnext⟩ := hrep.next_zero hcut
  have hlength := hrep.length_lt_fresh
  have hforeach := hrep.foreachFrom_spec f cells [head] (sl.heap.fresh + 1) 1 s rfl (by omega)
  rw [← hnext] at hforeach
  rw [SkipList.foreach, ← hrep.header, hlevel, Exec.ok_bind, hforeach]

end Rep

/-! ## Reachable rankings -/

section Reachable

variable [ElemType T] [LawfulElemType T] [Inhabited T]

/-- **A range query is a slice of the ranking.** On every reachable list the bounds are
clamped to the ranks of the list, a negative last rank standing for the end, and the
elements of those ranks are returned in order; `GetAll` returns all of them, and `Foreach`
hands them over in order with ranks from one on, until it is stopped. -/
theorem RankTree.queryByRankRange_eq_slice (t : RankTree U T) (hreach : t.sl.Reachable) :
    ∃ nodes elems, t.sl.Invariant nodes elems ∧
      (∀ min max : Int, t.queryByRankRange min max = .ok (slice elems (Max.max 1 min)
        (if max < 0 ∨ elems.length < max then elems.length else max))) ∧
      t.getAll = .ok elems ∧
      (∀ (σ : Type) (f : σ → T → Int → σ × Bool) (s : σ),
        t.foreach f s = .ok (visit f 1 elems s)) ∧
      t.foreach (fun log e rank => (log ++ [(e, rank)], true)) [] =
        .ok (elems.mapIdx fun i e => (e, 1 + (i : Int))) := by
  obtain ⟨cells, hrep⟩ := hreach.exists_rep
  have hlength : t.sl.length = (cells.map Cell.data).length := by
    rw [hrep.length, List.length_map]
  refine ⟨cells.map Cell.ptr, cells.map Cell.data, hrep.invariant, ?_, ?_, ?_, ?_⟩
  · intro min max
    have hlo : (if min < 1 then 1 else min) = Max.max 1 min := by
      split <;> omega
    have hhi : (if max < 0 then t.sl.length
        else if max > t.sl.length then t.sl.length else max) =
        if max < 0 ∨ (cells.map Cell.data).length < max then
          ((cells.map Cell.data).length : Int) else max := by
      rw [hlength]
      split_ifs <;> omega
    rw [← hhi]
    simp only [RankTree.queryByRankRange, hlo]
    by_cases hempty : Max.max 1 min > if max < 0 then t.sl.length
        else if max > t.sl.length then t.sl.length else max
    · rw [if_pos hempty, slice_eq_nil hempty]
    · rw [if_neg hempty]
      exact hrep.searchByRankRange_spec (le_max_left 1 min) _
  · rw [RankTree.getAll, hrep.searchByRankRange_spec le_rfl, hlength]
    simp only [slice, Int.toNat_natCast, List.take_length, Int.sub_self, Int.toNat_zero,
      List.drop_zero]
  · intro σ f s
    exact hrep.foreach_spec f s
  · rw [RankTree.foreach, hrep.foreach_spec, visit_record, List.nil_append]

end Reachable

/-- The theorem at a ranking of three integers. -/
theorem queryByRankRange_threeInts :
    ∃ t : RankTree Unit Int, t.sl.Reachable ∧ ∃ nodes elems, t.sl.Invariant nodes elems ∧
      (∀ min max : Int, t.queryByRankRange min max = .ok (slice elems (Max.max 1 min)
        (if max < 0 ∨ elems.length < max then elems.length else max))) ∧
      t.getAll = .ok elems ∧
      (∀ (σ : Type) (f : σ → Int → Int → σ × Bool) (s : σ),
        t.foreach f s = .ok (visit f 1 elems s)) ∧
      t.foreach (fun log e rank => (log ++ [(e, rank)], true)) [] =
        .ok (elems.mapIdx fun i e => (e, 1 + (i : Int))) := by
  obtain ⟨sl, cells, hreach, -, -⟩ := exists_reachable threeInts (by decide)
  exact ⟨⟨sl, ∅⟩, hreach, RankTree.queryByRankRange_eq_slice ⟨sl, ∅⟩ hreach⟩

end Gokit.Ds
