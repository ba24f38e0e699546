/-
# The skip list refines the sorted sequence

Each operation on a heap that represents a sequence returns, and leaves a heap
that represents the sequence the abstract model computes; the returned value is
the abstract one.  Runs follow by induction.  The heights drawn on the way occur
in the representation only, so neither the sequence nor a returned value can
depend on them.

`SkipList.Invariant` restates the representation through what can be read off
the heap: the chain of each level, the stored spans, the level and the length.
-/

import Gokit.Ds.SkipList.Model
import Gokit.Ds.SkipList.Update

namespace Gokit.Ds

open Gokit.Math

variable {T : Type} [ElemType T] [LawfulElemType T]

/-! ## Operations -/

section

variable {sl : SkipList T} {head : Cell T} {cells : List (Cell T)} {front back : List (Cell T)}

omit [LawfulElemType T] in
theorem Rep.append_sorted {x : Cell T} (hrep : Rep sl head (front ++ x :: back)) :
    (∀ a ∈ front, compare a.data x.data < 0) ∧ ∀ b ∈ back, compare x.data b.data < 0 := by
  have hsorted := hrep.sorted
  rw [List.map_append, List.map_cons, Increasing, List.pairwise_append,
    List.pairwise_cons] at hsorted
  constructor
  · intro a ha
    exact hsorted.2.2 _ (List.mem_map_of_mem ha) _ List.mem_cons_self
  · intro b hb
    exact hsorted.2.1.1 _ (List.mem_map_of_mem hb)

variable {data : T}

/-- Data absent from the list cuts it into the smaller and the greater cells. -/
theorem Rep.exists_gap (hrep : Rep sl head cells) (habsent : data ∉ cells.map Cell.data) :
    ∃ front back, cells = front ++ back ∧ (∀ a ∈ front, compare a.data data < 0) ∧
      ∀ b ∈ back, compare data b.data < 0 := by
  obtain ⟨front, back, rfl, hfront, hback⟩ := exists_cut Cell.data data hrep.sorted
  refine ⟨front, back, rfl, hfront, fun b hb => compare_neg_of_not (hback b hb) ?_⟩
  rintro rfl
  exact habsent (List.mem_map_of_mem (List.mem_append_right front hb))

omit [LawfulElemType T] in
/-- Data present in the list is the data of a cell. -/
theorem Rep.exists_cell (hrep : Rep sl head cells) (hpresent : data ∈ cells.map Cell.data) :
    ∃ front x back, cells = front ++ x :: back ∧ x.data = data := by
  obtain ⟨x, hx, rfl⟩ := List.mem_map.mp hpresent
  obtain ⟨front, back, rfl⟩ := List.append_of_mem hx
  exact ⟨front, x, back, rfl, rfl⟩

/-- `Insert` of new data inserts it in order and returns its position. -/
theorem Rep.insert_refines (hrep : Rep sl head cells) (drawn : DrawnLevel)
    (habsent : data ∉ cells.map Cell.data) :
    ∃ sl' cells', sl.insert data drawn =
        .ok (sl', (position data (sortedInsert data (cells.map Cell.data)) : Int)) ∧
      Rep sl' head cells' ∧
      cells'.map Cell.data = sortedInsert data (cells.map Cell.data) := by
  obtain ⟨front, back, rfl, hfront, hback⟩ := hrep.exists_gap habsent
  obtain ⟨sl', x, hinsert, hrep'⟩ := hrep.insert_spec drawn hfront hback
  have hfront' : ∀ a ∈ front.map Cell.data, compare a data < 0 := by
    simpa using hfront
  have hback' : ∀ b ∈ back.map Cell.data, compare data b < 0 := by
    simpa using hback
  have hspec : sortedInsert data ((front ++ back).map Cell.data) =
      front.map Cell.data ++ data :: back.map Cell.data := by
    rw [List.map_append, sortedInsert_append hfront' hback']
  refine ⟨sl', _, ?_, hrep', ?_⟩
  · rw [hspec, position_append hfront', hinsert, List.length_map]
    rfl
  · rw [hspec, List.map_append, List.map_cons]

/-- A search for the data of a cell ends right in front of that cell. -/
theorem Rep.search_cell {x : Cell T} (hrep : Rep sl head (front ++ x :: back)) :
    ∃ path before last level, sl.search x.data = .ok (path, last.ptr, (front.length : Int)) ∧
      head :: front = before ++ [last] ∧ path.length = sl.level ∧
      (∀ j entry, path[j]? = some entry → IsPred (head :: front) j entry) ∧
      levelAt sl.heap last.ptr 0 = .ok level ∧ level.next = some x.ptr := by
  obtain ⟨hfront, hback⟩ := hrep.append_sorted
  have hnot : ∀ b ∈ x :: back, ¬ compare b.data x.data < 0 := by
    intro b hb
    rcases List.mem_cons.mp hb with rfl | hb
    · rw [compare_self]
      exact lt_irrefl 0
    · have hpos := compare_pos_of_neg (hback b hb)
      omega
  obtain ⟨path, before, last, hsearch, hcut, hlength, -, hpath⟩ := hrep.search_spec rfl hfront hnot
  obtain ⟨level, hlevel, hnext⟩ := hrep.front_next rfl hcut
  exact ⟨path, before, last, level, hsearch, hcut, hlength, hpath, hlevel, hnext⟩

/-- A search for absent data ends in front of a greater cell, or at the end. -/
theorem Rep.search_gap (hrep : Rep sl head (front ++ back))
    (hfront : ∀ a ∈ front, compare a.data data < 0) (hback : ∀ b ∈ back, compare data b.data < 0) :
    ∃ path last level, sl.search data = .ok (path, last, (front.length : Int)) ∧
      levelAt sl.heap last 0 = .ok level ∧ level.next = back.head?.map Cell.ptr := by
  have hnot : ∀ b ∈ back, ¬ compare b.data data < 0 := by
    intro b hb
    have hpos := compare_pos_of_neg (hback b hb)
    omega
  obtain ⟨path, before, last, hsearch, hcut, -, -, -⟩ := hrep.search_spec rfl hfront hnot
  obtain ⟨level, hlevel, hnext⟩ := hrep.front_next rfl hcut
  exact ⟨path, last.ptr, level, hsearch, hlevel, hnext⟩

/-- `Remove` deletes the data when it is present and says whether it was. -/
theorem Rep.remove_refines (hrep : Rep sl head cells) (data : T) :
    ∃ sl' cells', sl.remove data = .ok (sl', isPresent data (cells.map Cell.data)) ∧
      Rep sl' head cells' ∧
      cells'.map Cell.data = sortedRemove data (cells.map Cell.data) := by
  by_cases hpresent : data ∈ cells.map Cell.data
  · obtain ⟨front, x, back, rfl, rfl⟩ := hrep.exists_cell hpresent
    obtain ⟨hfront, hback⟩ := hrep.append_sorted
    obtain ⟨path, before, last, level, hsearch, -, hlength, hpath, hlevel, hnext⟩ :=
      hrep.search_cell
    obtain ⟨sl', hdelete, hrep'⟩ := hrep.deleteNode_spec hlength hpath
    have hdata := dataAt_of_shape (hrep.shape_cell (c := x) (by simp))
    refine ⟨sl', front ++ back, ?_, hrep', ?_⟩
    · rw [isPresent_iff.mpr hpresent]
      simp [SkipList.remove, hsearch, hlevel, hnext, hdata, compare_self, hdelete]
    · rw [List.map_append, List.map_append, List.map_cons,
        sortedRemove_append (by simpa using hfront) (by simpa using hback)]
  · obtain ⟨front, back, rfl, hfront, hback⟩ := hrep.exists_gap hpresent
    obtain ⟨path, last, level, hsearch, hlevel, hnext⟩ := hrep.search_gap hfront hback
    have hfalse : isPresent data ((front ++ back).map Cell.data) = false :=
      Bool.eq_false_iff.mpr fun htrue => hpresent (isPresent_iff.mp htrue)
    refine ⟨sl, front ++ back, ?_, hrep, (sortedRemove_of_absent hpresent).symm⟩
    rw [hfalse]
    cases back with
    | nil => simp [SkipList.remove, hsearch, hlevel, hnext]
    | cons b back =>
      have hdata := dataAt_of_shape (hrep.shape_cell (c := b) (by simp))
      have hne := (compare_ne_zero_of_neg (hback b List.mem_cons_self)).2
      simp [SkipList.remove, hsearch, hlevel, hnext, hdata, hne]

theorem Rep.getRank_refines (hrep : Rep sl head cells) (hpresent : data ∈ cells.map Cell.data) :
    sl.getRank data = .ok (position data (cells.map Cell.data) : Int) := by
  obtain ⟨front, x, back, rfl, rfl⟩ := hrep.exists_cell hpresent
  obtain ⟨hfront, -⟩ := hrep.append_sorted
  obtain ⟨path, before, last, level, hsearch, -, -, -, hlevel, hnext⟩ := hrep.search_cell
  have hdata := dataAt_of_shape (hrep.shape_cell (c := x) (by simp))
  have hposition : position x.data ((front ++ x :: back).map Cell.data) = front.length + 1 := by
    rw [List.map_append, List.map_cons, position_append (by simpa using hfront), List.length_map]
  rw [hposition]
  simp [SkipList.getRank, hsearch, hlevel, hnext, hdata, compare_self]

/-- `Update` of present data replaces it in order; it reports zero when the
position stays the same and the new position otherwise. -/
theorem Rep.update_refines (hrep : Rep sl head cells) {old : T} (drawn : DrawnLevel)
    (hpresent : old ∈ cells.map Cell.data)
    (hother : ∀ e ∈ cells.map Cell.data, e = data → e = old) :
    ∃ sl' cells', sl.update old data drawn =
        .ok (sl', (updateRank old data (cells.map Cell.data) : Int)) ∧
      Rep sl' head cells' ∧
      cells'.map Cell.data = sortedInsert data (sortedRemove old (cells.map Cell.data)) := by
  obtain ⟨front, x, back, rfl, rfl⟩ := hrep.exists_cell hpresent
  obtain ⟨hfront, hback⟩ := hrep.append_sorted
  obtain ⟨path, before, last, level, hsearch, hcut, hlength, hpath, hlevel, hnext⟩ :=
    hrep.search_cell
  obtain ⟨answer, hanswer, hiff⟩ := hrep.staysInPlace_spec data hcut
  have hremoved : sortedRemove x.data ((front ++ x :: back).map Cell.data) =
      (front ++ back).map Cell.data := by
    rw [List.map_append, List.map_append, List.map_cons,
      sortedRemove_append (by simpa using hfront) (by simpa using hback)]
  have hposition : position x.data ((front ++ x :: back).map Cell.data) = front.length + 1 := by
    rw [List.map_append, List.map_cons, position_append (by simpa using hfront), List.length_map]
  have hinserted : (∀ a ∈ front, compare a.data data < 0) →
      (∀ b ∈ back, compare data b.data < 0) →
      sortedInsert data ((front ++ back).map Cell.data) =
        front.map Cell.data ++ data :: back.map Cell.data := by
    intro hless hgreater
    rw [List.map_append, sortedInsert_append (by simpa using hless) (by simpa using hgreater)]
  cases answer with
  | true =>
    -- the data fits between the neighbours: the node stays
    obtain ⟨hlast, hhead⟩ := hiff.mp rfl
    have hless := hrep.front_less hlast
    have hgreater := hrep.back_greater hhead
    obtain ⟨heap, hset, hrep'⟩ := hrep.setData_spec hless hgreater
    have hzero : updateRank x.data data ((front ++ x :: back).map Cell.data) = 0 := by
      rw [updateRank, hremoved, hinserted hless hgreater, hposition,
        position_append (by simpa using hless), List.length_map]
      simp
    refine ⟨{ sl with heap }, _, ?_, hrep', ?_⟩
    · rw [hzero]
      simp [SkipList.update, hsearch, hlevel, hnext, hanswer, hset]
    · rw [hremoved, hinserted hless hgreater, List.map_append, List.map_cons]
  | false =>
    -- the node is deleted and the data inserted elsewhere
    obtain ⟨sl', hdelete, hrep'⟩ := hrep.deleteNode_spec hlength hpath
    have habsent : data ∉ (front ++ back).map Cell.data := by
      intro hmem
      obtain ⟨c, hc, rfl⟩ := List.mem_map.mp hmem
      have hc' : c ∈ front ++ x :: back := by
        rcases List.mem_append.mp hc with hc | hc
        · exact List.mem_append_left _ hc
        · exact List.mem_append_right _ (List.mem_cons_of_mem x hc)
      have heq := hother c.data (List.mem_map_of_mem hc') rfl
      rcases List.mem_append.mp hc with hc | hc
      · exact ne_of_compare_neg (hfront c hc) heq
      · exact ne_of_compare_neg (hback c hc) heq.symm
    obtain ⟨sl'', cells'', hinsert, hrep'', hcells''⟩ := hrep'.insert_refines drawn habsent
    have hmoved : position data (sortedInsert data ((front ++ back).map Cell.data)) ≠
        front.length + 1 := by
      intro hsame
      obtain ⟨front', back', hcells, hless, hgreater⟩ := hrep'.exists_gap habsent
      rw [hcells, List.map_append, sortedInsert_append (by simpa using hless)
        (by simpa using hgreater), position_append (by simpa using hless),
        List.length_map] at hsame
      obtain ⟨rfl, rfl⟩ := List.append_inj hcells (by omega)
      have htrue : false = true := hiff.mpr
        ⟨fun a ha => hless a (List.mem_of_getLast? ha),
          fun b hb => compare_pos_of_neg (hgreater b (List.mem_of_head? hb))⟩
      exact Bool.false_ne_true htrue
    refine ⟨sl'', cells'', ?_, hrep'', by rw [hcells'', hremoved]⟩
    rw [updateRank, hremoved, hposition, if_neg hmoved, ← hinsert]
    simp [SkipList.update, hsearch, hlevel, hnext, hanswer, hdelete]

omit [LawfulElemType T] in
theorem Rep.clear_refines (hrep : Rep sl head cells) :
    ∃ sl', sl.clear = .ok sl' ∧ Rep sl' head [] := by
  obtain ⟨levels, hread, hlength⟩ := shape_eq_some_iff.mp hrep.shape_head
  rw [hrep.header] at hread
  let node : Node T := ⟨head.data, List.replicate maxLevel .zero ++ levels.drop maxLevel⟩
  have hnode : node.level = List.replicate maxLevel .zero := by
    simp [node, List.drop_eq_nil_of_le hlength.le]
  have hwritten := Store.read_write_self node hread
  refine ⟨{ sl with heap := sl.heap.write sl.header node, level := 1, length := 0 }, ?_, ?_⟩
  · simp [SkipList.clear, Store.deref_of_read hread, hlength, node]
  · exact
      { header := hrep.header
        header_height := hrep.header_height
        linked := by
          intro pre c post hcut
          obtain ⟨rfl, rfl, rfl⟩ : pre = [] ∧ head = c ∧ [] = post := by
            cases pre with
            | nil =>
              injection hcut with hc hpost
              exact ⟨rfl, hc, hpost⟩
            | cons first pre =>
              injection hcut with _ hrest
              simp at hrest
          have hzero : ∀ i level, levelAt (sl.heap.write sl.header node) head.ptr i = .ok level →
              level = SkiplistLevel.zero := by
            intro i level hok
            rw [hrep.header] at hok
            obtain ⟨found, hfound, hget⟩ := levelAt_eq_ok_iff.mp hok
            obtain rfl : node = found := Option.some.inj (hwritten.symm.trans hfound)
            rw [hnode] at hget
            exact (List.mem_replicate.mp (List.mem_of_getElem? hget)).2
          refine ⟨?_, ?_, ?_⟩
          · rw [hrep.header, hrep.header_height]
            exact shape_eq_some_iff.mpr ⟨node.level, hwritten, by simp [hnode]⟩
          · intro i level hok
            rw [hzero i level hok]
            rfl
          · intro i level _ hok
            rw [hzero i level hok]
            rfl
        nodup := by simp
        sorted := by simp
        length := rfl
        height := by simp
        level := rfl }

end

end Gokit.Ds
