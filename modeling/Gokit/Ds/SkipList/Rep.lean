/-
# The representation invariant of the skip list

`Rep sl head cells` is the invariant every operation relies on: behind the
header cell `head`, the heap of `sl` holds the strictly increasing sequence
`cells`, the stored length counts it, and the stored level is the greatest
height present.  A search of such a list cannot fault, and the queries built on
it answer what the sequence of cells determines.
-/

import Gokit.Ds.SkipList.Layout

namespace Gokit.Ds

open Gokit.Math

section Order

variable {T : Type} [ElemType T] [LawfulElemType T]

theorem compare_self (a : T) : compare a a = 0 := (LawfulElemType.compare_eq_zero_iff a a).mpr rfl

variable {a b : T}

theorem compare_pos_of_neg (h : compare a b < 0) : 0 < compare b a :=
  (LawfulElemType.compare_neg_iff a b).mp h

theorem compare_neg_of_pos (h : 0 < compare a b) : compare b a < 0 :=
  (LawfulElemType.compare_neg_iff b a).mpr h

theorem compare_trans {c : T} (hab : compare a b < 0) (hbc : compare b c < 0) : compare a c < 0 :=
  LawfulElemType.compare_trans a b c hab hbc

theorem eq_of_compare (h : compare a b = 0) : a = b := (LawfulElemType.compare_eq_zero_iff a b).mp h

theorem ne_of_compare_neg (h : compare a b < 0) : a ≠ b := by
  rintro rfl
  rw [compare_self] at h
  exact lt_irrefl _ h

/-- An element that is neither smaller nor equal is greater. -/
theorem compare_neg_of_not (hnot : ¬ compare a b < 0) (hne : a ≠ b) : compare b a < 0 := by
  have hzero : compare a b ≠ 0 := fun hz => hne (eq_of_compare hz)
  exact compare_neg_of_pos (by omega)

abbrev Increasing (elems : List T) : Prop := elems.Pairwise fun a b => compare a b < 0

/-- A strictly increasing sequence is cut by `data` into the smaller elements
and the rest. -/
theorem exists_cut {C : Type} (key : C → T) (data : T) {cells : List C}
    (hsorted : Increasing (cells.map key)) :
    ∃ front back, cells = front ++ back ∧ (∀ a ∈ front, compare (key a) data < 0) ∧
      ∀ b ∈ back, ¬ compare (key b) data < 0 := by
  induction cells with
  | nil => exact ⟨[], [], rfl, by simp, by simp⟩
  | cons c cells ih =>
    rw [List.map_cons] at hsorted
    obtain ⟨hfirst, hrest⟩ := List.pairwise_cons.mp hsorted
    by_cases hc : compare (key c) data < 0
    · obtain ⟨front, back, rfl, hfront, hback⟩ := ih hrest
      refine ⟨c :: front, back, rfl, ?_, hback⟩
      intro a ha
      rcases List.mem_cons.mp ha with rfl | ha
      · exact hc
      · exact hfront a ha
    · refine ⟨[], c :: cells, rfl, by simp, ?_⟩
      intro b hb hless
      rcases List.mem_cons.mp hb with rfl | hb
      · exact hc hless
      · exact hc (compare_trans (hfirst _ (List.mem_map_of_mem hb)) hless)

end Order

structure Rep {T : Type} [ElemType T] (sl : SkipList T) (head : Cell T)
    (cells : List (Cell T)) : Prop where
  header : head.ptr = sl.header
  header_height : head.height = maxLevel
  linked : Linked sl.heap sl.level (head :: cells)
  nodup : ((head :: cells).map Cell.ptr).Nodup
  sorted : Increasing (cells.map Cell.data)
  length : sl.length = cells.length
  height : ∀ c ∈ cells, 1 ≤ c.height ∧ c.height ≤ maxLevel
  level : sl.level = levelOf cells

section

variable {T : Type} [ElemType T]

theorem rep_newSkipList [Inhabited T] :
    Rep (newSkipList : SkipList T) ⟨0, default, maxLevel⟩ [] where
  header := rfl
  header_height := rfl
  linked := by
    intro pre c post hcells
    obtain ⟨rfl, hpost⟩ : pre = [] ∧ [Cell.mk 0 default maxLevel] = c :: post := by
      cases pre with
      | nil => exact ⟨rfl, hcells⟩
      | cons first pre =>
        injection hcells with _ hrest
        simp at hrest
    injection hpost with hc hnil
    subst hc
    subst hnil
    have hlevel : ∀ i level, levelAt (newSkipList : SkipList T).heap 0 i = .ok level →
        level = SkiplistLevel.zero := by
      intro i level hok
      obtain ⟨node, hread, hget⟩ := levelAt_eq_ok_iff.mp hok
      obtain rfl : _ = node := Option.some.inj hread
      exact (List.mem_replicate.mp (List.mem_of_getElem? hget)).2
    refine ⟨?_, ?_, ?_⟩
    · simp [shape, newSkipList, Store.read]
    · intro i level hok
      rw [hlevel i level hok]
      rfl
    · intro i level _ hok
      rw [hlevel i level hok]
      rfl
  nodup := by simp
  sorted := by simp
  length := rfl
  height := by simp
  level := rfl

namespace Rep

variable {sl : SkipList T} {head : Cell T} {cells : List (Cell T)}

theorem shape_head (hrep : Rep sl head cells) :
    shape sl.heap head.ptr = some (head.data, maxLevel) := by
  rw [← hrep.header_height]
  exact hrep.linked.shape_of_mem List.mem_cons_self

theorem shape_cell (hrep : Rep sl head cells) {c : Cell T} (hc : c ∈ cells) :
    shape sl.heap c.ptr = some (c.data, c.height) :=
  hrep.linked.shape_of_mem (List.mem_cons_of_mem head hc)

theorem one_le_level (hrep : Rep sl head cells) : 1 ≤ sl.level := hrep.level ▸ one_le_levelOf cells

theorem level_le (hrep : Rep sl head cells) : sl.level ≤ maxLevel :=
  hrep.level ▸ levelOf_le (by decide) fun c hc => (hrep.height c hc).2

/-- Different cells live at different addresses, so the heap has room for all of
them: this is the bound on the rounds of a walk. -/
theorem length_lt_fresh (hrep : Rep sl head cells) : cells.length < sl.heap.fresh := by
  have hsub : (head :: cells).map Cell.ptr ⊆ List.range sl.heap.fresh := by
    intro p hp
    obtain ⟨c, hc, rfl⟩ := List.mem_map.mp hp
    obtain ⟨levels, hread, -⟩ := shape_eq_some_iff.mp (hrep.linked.shape_of_mem hc)
    exact List.mem_range.mpr (Store.lt_fresh_of_read hread)
  have hle := (List.subperm_of_subset hrep.nodup hsub).length_le
  simp at hle
  omega

variable {front : List (Cell T)}

/-- The cells that reach level 0 are all of them. -/
theorem pred_zero (hrep : Rep sl head cells) (hsub : ∀ a ∈ front, a ∈ cells) {entry : Ptr × Int}
    (hpred : IsPred (head :: front) 0 entry) :
    ∃ before c, head :: front = before ++ [c] ∧ entry = (c.ptr, (front.length : Int)) := by
  obtain ⟨before, c, after, hcut, -, hshort, rfl⟩ := hpred
  obtain rfl : after = [] := by
    refine List.eq_nil_iff_forall_not_mem.mpr fun d hd => ?_
    have hd' : d ∈ front := by
      cases before with
      | nil => injection hcut with _ hfront; exact hfront ▸ hd
      | cons first before => injection hcut with _ hfront; rw [hfront]; simp [hd]
    have hone := (hrep.height d (hsub d hd')).1
    have hzero := hshort d hd
    omega
  refine ⟨before, c, hcut, ?_⟩
  have hlength := congrArg List.length hcut
  simp at hlength
  rw [hlength]

/-- A search over a represented list: level by level the predecessors, and at
the end the last smaller cell with the number of smaller cells. -/
theorem search_spec (hrep : Rep sl head cells) {data : T} {back : List (Cell T)}
    (hcells : cells = front ++ back) (hfront : ∀ a ∈ front, compare a.data data < 0)
    (hback : ∀ b ∈ back, ¬ compare b.data data < 0) :
    ∃ path before last, sl.search data = .ok (path, last.ptr, (front.length : Int)) ∧
      head :: front = before ++ [last] ∧ path.length = sl.level ∧
      path.head? = some (last.ptr, (front.length : Int)) ∧
      ∀ j entry, path[j]? = some entry → IsPred (head :: front) j entry := by
  have hroom := hrep.length_lt_fresh
  have hshorter : front.length < sl.heap.fresh + 1 := by
    rw [hcells, List.length_append] at hroom
    omega
  obtain ⟨path, last, hsearch, hlength, hhead, hpath⟩ :=
    descend_spec hrep.linked data (by rw [hcells, List.cons_append]) hfront hback hshorter
      sl.level [] head front [] rfl le_rfl (hrep.header_height ▸ hrep.level_le)
  have hlast := hhead hrep.one_le_level
  have hzero : path[0]? = some last := by rw [← List.head?_eq_getElem?, hlast]
  obtain ⟨before, c, hcut, rfl⟩ :=
    hrep.pred_zero (fun a ha => by rw [hcells]; simp [ha]) (hpath 0 last hzero)
  refine ⟨path, before, c, ?_, hcut, hlength, hlast, hpath⟩
  simpa [SkipList.search, hrep.header] using hsearch

/-- On level 0 every cell points to the next one. -/
theorem next_zero (hrep : Rep sl head cells) {before after : List (Cell T)} {c : Cell T}
    (hcut : head :: cells = before ++ c :: after) :
    ∃ level, levelAt sl.heap c.ptr 0 = .ok level ∧ level.next = after.head?.map Cell.ptr := by
  have htall : ∀ d ∈ head :: cells, 0 < d.height := by
    intro d hd
    rcases List.mem_cons.mp hd with rfl | hd
    · rw [hrep.header_height]
      decide
    · exact (hrep.height d hd).1
  have hnode := hrep.linked before c after hcut
  obtain ⟨level, hlevel⟩ := exists_levelAt hnode.shape (htall c (by rw [hcut]; simp))
  refine ⟨level, hlevel, ?_⟩
  rw [hnode.next 0 level hlevel]
  cases after with
  | nil => rfl
  | cons d after =>
    have hd : 0 < d.height := htall d (by rw [hcut]; simp)
    simp [nextOf, hd]

/-- On level 0 the last smaller cell points to the first cell that is not
smaller. -/
theorem front_next (hrep : Rep sl head cells) {back before : List (Cell T)} {last : Cell T}
    (hcells : cells = front ++ back) (hcut : head :: front = before ++ [last]) :
    ∃ level, levelAt sl.heap last.ptr 0 = .ok level ∧ level.next = back.head?.map Cell.ptr := by
  have hall : head :: cells = before ++ last :: back := by
    rw [hcells, ← List.cons_append, hcut, List.append_assoc, List.singleton_append]
  exact hrep.next_zero hall

end Rep

end

end Gokit.Ds
