/-
# Queries by rank

`getNodeByRank` descends the levels like a search, but it is led by the spans alone: it
takes a step as long as the rank it would get to is not beyond the rank it looks for, and
returns as soon as it has got there.  On a represented list it finds the cell at that
position, counted from the header.

The header itself is at position zero.  So rank zero is answered with the header's data,
as if it were an element; for all other ranks the query is total on exactly the ranks of
the list, and inverse to `GetRank`.
-/

import Gokit.Ds.SkipList.Invariant

namespace Gokit.Ds

open Gokit.Math

variable {T : Type}

/-! ## The queries -/

/-- The inner loop of `getNodeByRank`: advance along level `i` while the rank is not
passed. -/
def walkRank (heap : Store (Node T)) (rank : Int) (i : Nat) :
    (fuel : Nat) → Ptr → Int → Exec (Ptr × Int)
  | 0, _, _ => .error .diverges
  | fuel + 1, x, visited => do
    let level ← levelAt heap x i
    match level.next with
    | none => .ok (x, visited)
    | some next =>
      if visited + level.span ≤ rank then
        walkRank heap rank i fuel next (visited + level.span)
      else
        .ok (x, visited)

/-- The outer loop of `getNodeByRank`, from level `i - 1` down to level 0. -/
def descendRank (heap : Store (Node T)) (rank : Int) (fuel : Nat) :
    Nat → Ptr → Int → Exec (Option Ptr)
  | 0, _, _ => .ok none
  | i + 1, x, visited => do
    let (x, visited) ← walkRank heap rank i fuel x visited
    if visited = rank then .ok (some x) else descendRank heap rank fuel i x visited

def SkipList.getNodeByRank (sl : SkipList T) (rank : Int) : Exec (Option Ptr) :=
  descendRank sl.heap rank (sl.heap.fresh + 1) sl.level sl.header 0

/-- `SkipList.SearchByRank`. Without a node it returns the zero value. -/
def SkipList.searchByRank [Inhabited T] (sl : SkipList T) (rank : Int) : Exec (T × Bool) := do
  match ← sl.getNodeByRank rank with
  | some node => do
    let data ← dataAt sl.heap node
    .ok (data, true)
  | none => .ok (default, false)

/-! ## What they find -/

section Search

variable {heap : Store (Node T)} {lim : Nat} {cells : List (Cell T)}

/-- The inner loop stops at the last cell that reaches its level and is not behind the
rank: `after` are the cells up to the rank, and `back` those behind it. -/
theorem walkRank_spec (hlinked : Linked heap lim cells) {i : Nat} (hi : i < lim) (rank : Int) :
    ∀ (fuel : Nat) (before : List (Cell T)) (c : Cell T) (after back : List (Cell T)),
      cells = before ++ c :: (after ++ back) → i < c.height →
      (before.length + after.length : Int) ≤ rank →
      (back ≠ [] → (before.length + after.length : Int) = rank) → after.length < fuel →
      ∃ entry, walkRank heap rank i fuel c.ptr before.length = .ok entry ∧
        IsPred (before ++ c :: after) i entry := by
  intro fuel
  induction fuel with
  | zero => intro before c after back _ _ _ _ hfuel; simp at hfuel
  | succ fuel ih =>
    intro before c after back hcells hc hafter hback hfuel
    obtain ⟨level, hlevel, ⟨hnext, hshort⟩ | ⟨d, hd, hnext, hspan, hshort⟩ |
      ⟨short, d, tail, rfl, hd, hnext, hspan⟩⟩ := hlinked.next_cases hi hcells hc
    · exact ⟨(c.ptr, before.length), by simp [walkRank, hlevel, hnext], before, c, after,
        rfl, hc, hshort, rfl⟩
    · -- the next cell lies behind the rank
      have hrank := hback (List.ne_nil_of_mem hd)
      have hstop : ¬ (before.length : Int) + level.span ≤ rank := by omega
      exact ⟨(c.ptr, before.length), by simp [walkRank, hlevel, hnext, hstop], before, c,
        after, rfl, hc, hshort, rfl⟩
    · -- the next cell is not behind it: advance to it
      rw [List.length_append, List.length_cons] at hafter hback hfuel
      have hgo : (before.length : Int) + level.span ≤ rank := by
        rw [hspan]
        omega
      have hvisited : (before.length : Int) + level.span =
          ((before ++ c :: short).length : Int) := by
        rw [hspan]
        simp
      have hlength : (before ++ c :: short).length = before.length + (short.length + 1) := by
        simp
      obtain ⟨entry, hwalk, hpred⟩ := ih (before ++ c :: short) d tail back
        (by rw [hcells]; simp) hd (by rw [hlength]; omega)
        (fun hne => by rw [hlength, ← hback hne]; omega) (by omega)
      refine ⟨entry, ?_, by simpa using hpred⟩
      rw [← hwalk, ← hvisited]
      simp [walkRank, hlevel, hnext, hgo]

/-- The outer loop finds the last cell that is not behind the rank, if it is at the rank.
All cells reach level 0, so its last round gets there. -/
theorem descendRank_spec (hlinked : Linked heap lim cells) (htall : ∀ c ∈ cells, 0 < c.height)
    {head last : Cell T} {front back init : List (Cell T)} (hcells : cells = head :: front ++ back)
    (hlast : head :: front = init ++ [last]) {rank : Nat} (hfront : front.length ≤ rank)
    (hback : back ≠ [] → front.length = rank) {fuel : Nat} (hfuel : front.length < fuel) :
    ∀ (n : Nat) (before : List (Cell T)) (c : Cell T) (after : List (Cell T)),
      head :: front = before ++ c :: after → n ≤ lim → n ≤ c.height →
      (n = 0 → front.length ≠ rank) →
      descendRank heap rank fuel n c.ptr before.length =
        .ok (if front.length = rank then some last.ptr else none) := by
  intro n
  induction n with
  | zero =>
    intro before c after _ _ _ hne
    rw [if_neg (hne rfl), descendRank]
  | succ n ih =>
    intro before c after hcut hn hc _
    have hlength := congrArg List.length hcut
    rw [List.length_cons, List.length_append, List.length_cons] at hlength
    obtain ⟨entry, hwalk, hpred⟩ := walkRank_spec hlinked (i := n) (by omega) rank fuel before c
      after back (by rw [hcells, hcut]; simp) (by omega) (by omega)
      (fun hne => by have := hback hne; omega) (by omega)
    rw [← hcut] at hpred
    obtain ⟨before', d, after', hcut', hd, hshort, rfl⟩ := hpred
    have hlength' := congrArg List.length hcut'
    rw [List.length_cons, List.length_append, List.length_cons] at hlength'
    simp only [descendRank, hwalk, Exec.ok_bind]
    by_cases hfound : (before'.length : Int) = rank
    · -- the cell is at the rank, so it is the last one
      obtain rfl : after' = [] := List.length_eq_zero_iff.mp (by omega)
      obtain ⟨-, hd⟩ := List.append_inj' (hcut'.symm.trans hlast) rfl
      rw [if_pos hfound, if_pos (by simpa using by omega), List.singleton_inj.mp hd]
    · rw [if_neg hfound]
      refine ih before' d after' hcut' (by omega) (by omega) ?_
      rintro rfl
      obtain rfl : after' = [] := by
        refine List.eq_nil_iff_forall_not_mem.mpr fun e he => ?_
        have hmem : e ∈ cells := by
          rw [hcells, hcut']
          simp [he]
        exact absurd (htall e hmem) (by have := hshort e he; omega)
      simp only [List.length_nil] at hlength'
      omega

/-- No step is taken towards a negative rank. -/
theorem descendRank_of_neg (hlinked : Linked heap lim cells) {head : Cell T}
    {rest : List (Cell T)} (hcells : cells = head :: rest) {rank : Int} (hrank : rank < 0)
    {fuel : Nat} : ∀ n, n ≤ lim → n ≤ head.height →
      descendRank heap rank (fuel + 1) n head.ptr 0 = .ok none := by
  intro n
  induction n with
  | zero =>
    intro _ _
    rw [descendRank]
  | succ n ih =>
    intro hn hheight
    have hnode := hlinked [] head rest hcells
    obtain ⟨level, hlevel⟩ := exists_levelAt hnode.shape (i := n) (by omega)
    have hnext := hnode.next n level hlevel
    have hspan := hnode.span n level (by omega) hlevel
    have hwalk : walkRank heap rank n (fuel + 1) head.ptr 0 = .ok (head.ptr, 0) := by
      cases hcase : level.next with
      | none => simp [walkRank, hlevel, hcase]
      | some p =>
        rw [hcase] at hnext
        obtain ⟨short, d, rest, rfl, rfl, hd, hshort⟩ := exists_of_nextOf_eq_some hnext.symm
        have hstop : ¬ (0 : Int) + level.span ≤ rank := by
          rw [hspan, spanOf_append_short _ hshort]
          simp [spanOf, hd]
          omega
        simp only [walkRank, hlevel, hcase, hstop, Exec.ok_bind, if_false]
    have hne : ¬ (0 : Int) = rank := by omega
    simp only [descendRank, hwalk, Exec.ok_bind, if_neg hne]
    exact ih (by omega) (by omega)

end Search

/-! ## Represented lists -/

section Rep

variable [ElemType T] {sl : SkipList T} {head : Cell T} {cells : List (Cell T)}

/-- **The node at a rank**, counted from the header. -/
theorem Rep.getNodeByRank_spec (hrep : Rep sl head cells) (rank : Nat) :
    sl.getNodeByRank rank = .ok ((head :: cells)[rank]?.map Cell.ptr) := by
  have htall : ∀ c ∈ head :: cells, 0 < c.height := by
    intro c hc
    rcases List.mem_cons.mp hc with rfl | hc
    · rw [hrep.header_height]
      decide
    · exact (hrep.height c hc).1
  obtain ⟨init, last, hlast⟩ : ∃ init last, head :: cells.take rank = init ++ [last] :=
    ⟨_, _, (List.dropLast_append_getLast (List.cons_ne_nil _ _)).symm⟩
  have hcells : head :: cells = head :: cells.take rank ++ cells.drop rank := by
    rw [List.cons_append, List.take_append_drop]
  have hfront : (cells.take rank).length ≤ rank := List.length_take_le _ _
  have hback : cells.drop rank ≠ [] → (cells.take rank).length = rank := by
    intro hne
    have hlength := List.length_pos_of_ne_nil hne
    rw [List.length_drop] at hlength
    rw [List.length_take]
    omega
  have hfuel : (cells.take rank).length < sl.heap.fresh + 1 := by
    have hroom := hrep.length_lt_fresh
    rw [List.length_take]
    omega
  have hlevel : sl.level ≤ head.height := hrep.header_height ▸ hrep.level_le
  have hone := hrep.one_le_level
  have hdescend := descendRank_spec hrep.linked htall hcells hlast hfront hback hfuel sl.level []
    head _ rfl le_rfl hlevel (by omega)
  rw [SkipList.getNodeByRank, ← hrep.header]
  refine hdescend.trans (congrArg _ ?_)
  have hlength := congrArg List.length hlast
  rw [List.length_append, List.length_cons, List.length_singleton] at hlength
  by_cases hrank : (cells.take rank).length = rank
  · obtain rfl : init.length = rank := by omega
    rw [if_pos hrank, hcells, hlast, List.append_assoc, List.getElem?_append_right le_rfl]
    simp
  · have hend : cells.length < rank := by
      rw [List.length_take] at hrank
      omega
    rw [if_neg hrank, List.getElem?_eq_none (Nat.succ_le_of_lt hend),
      Option.map_none]

theorem Rep.getNodeByRank_of_neg (hrep : Rep sl head cells) {rank : Int} (hrank : rank < 0) :
    sl.getNodeByRank rank = .ok none := by
  rw [SkipList.getNodeByRank, ← hrep.header]
  exact descendRank_of_neg hrep.linked rfl hrank sl.level le_rfl
    (hrep.header_height ▸ hrep.level_le)

/-- `SearchByRank` answers with the data of the node at the rank. -/
theorem Rep.searchByRank_spec [Inhabited T] (hrep : Rep sl head cells) (rank : Nat) :
    sl.searchByRank rank = .ok ((((head :: cells)[rank]?.map Cell.data).getD default),
      (head :: cells)[rank]?.isSome) := by
  rw [SkipList.searchByRank, hrep.getNodeByRank_spec, Exec.ok_bind]
  cases hcell : (head :: cells)[rank]? with
  | none => rfl
  | some c =>
    have hshape := hrep.linked.shape_of_mem (List.mem_of_getElem? hcell)
    simp [dataAt_of_shape hshape]

theorem Rep.searchByRank_of_neg [Inhabited T] (hrep : Rep sl head cells) {rank : Int}
    (hrank : rank < 0) : sl.searchByRank rank = .ok (default, false) := by
  rw [SkipList.searchByRank, hrep.getNodeByRank_of_neg hrank, Exec.ok_bind]

theorem Rep.searchByRank_succ [Inhabited T] (hrep : Rep sl head cells) (i : Nat) :
    sl.searchByRank (i + 1) = .ok (((cells.map Cell.data)[i]?.getD default),
      decide (i < cells.length)) := by
  have hspec := hrep.searchByRank_spec (i + 1)
  have hsome : cells[i]?.isSome = decide (i < cells.length) := by
    rw [Bool.eq_iff_iff]
    simp
  rw [List.getElem?_cons_succ, hsome, ← List.getElem?_map] at hspec
  exact_mod_cast hspec

variable [LawfulElemType T]

theorem Rep.contains_refines (hrep : Rep sl head cells) (data : T) :
    sl.contains data = .ok (isPresent data (cells.map Cell.data)) := by
  by_cases hpresent : data ∈ cells.map Cell.data
  · rw [isPresent_iff.mpr hpresent]
    obtain ⟨front, x, back, rfl, rfl⟩ := hrep.exists_cell hpresent
    obtain ⟨path, before, last, level, hsearch, -, -, -, hlevel, hnext⟩ := hrep.search_cell
    have hdata := dataAt_of_shape (hrep.shape_cell (c := x) (by simp))
    simp [SkipList.contains, hsearch, hlevel, hnext, hdata, compare_self]
  · rw [Bool.eq_false_iff.mpr fun htrue => hpresent (isPresent_iff.mp htrue)]
    obtain ⟨front, back, rfl, hfront, hback⟩ := hrep.exists_gap hpresent
    obtain ⟨path, last, level, hsearch, hlevel, hnext⟩ := hrep.search_gap hfront hback
    cases back with
    | nil => simp [SkipList.contains, hsearch, hlevel, hnext]
    | cons b back =>
      have hdata := dataAt_of_shape (hrep.shape_cell (c := b) (by simp))
      have hne := (compare_ne_zero_of_neg (hback b List.mem_cons_self)).2
      simp [SkipList.contains, hsearch, hlevel, hnext, hdata, hne]

theorem Rep.getRank_of_absent (hrep : Rep sl head cells) {data : T}
    (habsent : data ∉ cells.map Cell.data) : sl.getRank data = .ok (-1) := by
  obtain ⟨front, back, rfl, hfront, hback⟩ := hrep.exists_gap habsent
  obtain ⟨path, last, level, hsearch, hlevel, hnext⟩ := hrep.search_gap hfront hback
  cases back with
  | nil => simp [SkipList.getRank, hsearch, hlevel, hnext]
  | cons b back =>
    have hdata := dataAt_of_shape (hrep.shape_cell (c := b) (by simp))
    have hne := (compare_ne_zero_of_neg (hback b List.mem_cons_self)).2
    simp [SkipList.getRank, hsearch, hlevel, hnext, hdata, hne]

/-- The position of an element in a strictly increasing sequence is its index. -/
theorem position_of_getElem? {elems : List T} (hsorted : Increasing elems) {i : Nat} {e : T}
    (he : elems[i]? = some e) : position e elems = i + 1 := by
  obtain ⟨hi, rfl⟩ := List.getElem?_eq_some_iff.mp he
  have hcut : elems = elems.take i ++ elems[i] :: elems.drop (i + 1) := by simp
  have hfront : ∀ a ∈ elems.take i, compare a elems[i] < 0 := by
    rw [hcut, Increasing, List.pairwise_append] at hsorted
    exact fun a ha => hsorted.2.2 a ha _ List.mem_cons_self
  have hposition : position elems[i] (elems.take i ++ elems[i] :: elems.drop (i + 1)) =
      (elems.take i).length + 1 := position_append hfront
  rw [← hcut, List.length_take_of_le hi.le] at hposition
  exact hposition

end Rep

/-! ## Reachable lists -/

section Reachable

variable [ElemType T] [Inhabited T]

/-- The list is the result of a run of allowed operations. -/
def SkipList.Reachable (sl : SkipList T) : Prop :=
  ∃ ops rets, AllowedRun [] (ops.map Prod.fst) ∧ newSkipList.run ops = .ok (sl, rets)

/-- What a query by rank should answer on a list of `elems`: it reports success on exactly
the ranks from one to the length, and returns the element of that rank. -/
def SkipList.AnswersRank (sl : SkipList T) (elems : List T) (rank : Int) : Prop :=
  ∃ data ok, sl.searchByRank rank = .ok (data, ok) ∧
    (ok = true ↔ 1 ≤ rank ∧ rank ≤ elems.length) ∧
    ∀ i : Nat, rank = i + 1 → i < elems.length → elems[i]? = some data

variable [LawfulElemType T] {sl : SkipList T}

theorem SkipList.Reachable.exists_rep (hreach : sl.Reachable) :
    ∃ cells, Rep sl ⟨0, default, maxLevel⟩ cells := by
  obtain ⟨ops, rets, hallowed, hrun⟩ := hreach
  obtain ⟨sl', cells, hrun', hrep, -⟩ := Rep.run_refines ops rep_newSkipList hallowed
  rw [hrun] at hrun'
  cases hrun'
  exact ⟨cells, hrep⟩

omit [LawfulElemType T] in
/-- All ranks but zero are answered as they should be; at rank zero the header answers. -/
theorem Rep.answersRank_iff_ne_zero {head : Cell T} {cells : List (Cell T)}
    (hrep : Rep sl head cells) (rank : Int) :
    sl.AnswersRank (cells.map Cell.data) rank ↔ rank ≠ 0 := by
  constructor
  · rintro ⟨data, ok, hsearch, hok, -⟩ rfl
    have hzero : sl.searchByRank 0 = .ok (head.data, true) := hrep.searchByRank_spec 0
    rw [hsearch] at hzero
    cases hzero
    exact absurd (hok.mp rfl).1 (by decide)
  · intro hne
    rcases lt_or_gt_of_ne hne with hneg | hpos
    · refine ⟨_, _, hrep.searchByRank_of_neg hneg, ?_, fun i hi _ => ?_⟩
      · simpa using fun hone => absurd hone (by omega)
      · omega
    · obtain ⟨i, rfl⟩ : ∃ i : Nat, rank = i + 1 := ⟨(rank - 1).toNat, by omega⟩
      refine ⟨_, _, hrep.searchByRank_succ i, ?_, fun j hj hlt => ?_⟩
      · rw [decide_eq_true_iff, List.length_map]
        omega
      · obtain rfl : i = j := by omega
        rw [List.getElem?_eq_getElem hlt, Option.getD_some]

/-- **Rank queries are inverse to each other, but for rank zero.** On every reachable list
`SearchByRank` succeeds on exactly the ranks of the list, with the element of that rank, for
every rank other than zero; and for every element `GetRank` is its position, from which
`SearchByRank` leads back, while absent data has rank -1. -/
theorem SkipList.Reachable.answersRank_iff (hreach : sl.Reachable) :
    ∃ nodes elems, sl.Invariant nodes elems ∧
      (∀ rank, sl.AnswersRank elems rank ↔ rank ≠ 0) ∧
      (∀ (i : Nat) e, elems[i]? = some e →
        sl.getRank e = .ok (i + 1) ∧ sl.contains e = .ok true ∧
          sl.searchByRank (i + 1) = .ok (e, true)) ∧
      ∀ x, x ∉ elems → sl.getRank x = .ok (-1) ∧ sl.contains x = .ok false := by
  obtain ⟨cells, hrep⟩ := hreach.exists_rep
  refine ⟨cells.map Cell.ptr, cells.map Cell.data, hrep.invariant,
    hrep.answersRank_iff_ne_zero, ?_, ?_⟩
  · intro i e he
    have hmem := List.mem_of_getElem? he
    have hlt : i < cells.length := by simpa using (List.getElem?_eq_some_iff.mp he).1
    refine ⟨?_, ?_, ?_⟩
    · rw [hrep.getRank_refines hmem, position_of_getElem? hrep.sorted he]
      rfl
    · rw [hrep.contains_refines, isPresent_iff.mpr hmem]
    · rw [hrep.searchByRank_succ, he, decide_eq_true hlt, Option.getD_some]
  · intro x hx
    refine ⟨hrep.getRank_of_absent hx, ?_⟩
    rw [hrep.contains_refines, Bool.eq_false_iff.mpr fun htrue => hx (isPresent_iff.mp htrue)]

/-- Allowed operations lead to a reachable list, with the elements of the model. -/
theorem exists_reachable (ops : List (Op T × DrawnLevel))
    (hallowed : AllowedRun [] (ops.map Prod.fst)) :
    ∃ sl cells, sl.Reachable ∧ Rep sl ⟨0, default, maxLevel⟩ cells ∧
      cells.map Cell.data = (specRun [] (ops.map Prod.fst)).1 := by
  obtain ⟨sl, cells, hrun, hrep, hcells⟩ := Rep.run_refines ops rep_newSkipList hallowed
  exact ⟨sl, cells, ⟨ops, _, hallowed, hrun⟩, hrep, hcells⟩

end Reachable

/-- Operations that leave three integers in nodes of different heights. -/
def threeInts : List (Op Int × DrawnLevel) :=
  [(.insert 20, ⟨3, by decide⟩), (.insert 10, ⟨1, by decide⟩), (.insert 30, ⟨2, by decide⟩),
    (.update 20 25, ⟨1, by decide⟩)]

/-- The theorem at a list of three integers. -/
theorem answersRank_iff_threeInts :
    ∃ sl : SkipList Int, sl.Reachable ∧ ∃ nodes elems, sl.Invariant nodes elems ∧
      (∀ rank, sl.AnswersRank elems rank ↔ rank ≠ 0) ∧
      (∀ (i : Nat) e, elems[i]? = some e →
        sl.getRank e = .ok (i + 1) ∧ sl.contains e = .ok true ∧
          sl.searchByRank (i + 1) = .ok (e, true)) ∧
      ∀ x, x ∉ elems → sl.getRank x = .ok (-1) ∧ sl.contains x = .ok false := by
  obtain ⟨sl, cells, hreach, -, -⟩ := exists_reachable threeInts (by decide)
  exact ⟨sl, hreach, hreach.answersRank_iff⟩

/-- Rank zero of a list of three positive integers is answered with the header's zero. -/
theorem searchByRank_zero_threeInts :
    ∃ sl : SkipList Int, sl.Reachable ∧ (∃ nodes, sl.Invariant nodes [10, 25, 30]) ∧
      sl.searchByRank 0 = .ok (0, true) := by
  obtain ⟨sl, cells, hreach, hrep, hcells⟩ := exists_reachable threeInts (by decide)
  have helems : (specRun [] (threeInts.map Prod.fst)).1 = [10, 25, 30] := by decide
  rw [helems] at hcells
  exact ⟨sl, hreach, ⟨_, hcells ▸ hrep.invariant⟩, hrep.searchByRank_spec 0⟩

end Gokit.Ds
