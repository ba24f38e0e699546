/-
# Updating is removing and inserting

`Update` has a shortcut: when the new data fits between the neighbours of the old, the node
keeps its place and only its data is overwritten.  Otherwise it unlinks the node and
inserts the data anew.  Either way the list it leaves cannot be told apart from the one
that `Remove` followed by `Insert` leaves, although the nodes and their heights differ.
-/

import Gokit.Ds.SkipList.Ranks

namespace Gokit.Ds

open Gokit.Math

variable {T : Type} [ElemType T]

/-- Two lists that no query can tell apart: they hold the same sequence, and every query
returns, with the same answer on both. -/
structure SkipList.Agree [Inhabited T] (a b : SkipList T) : Prop where
  elems : ∃ nodes nodes' elems, a.Invariant nodes elems ∧ b.Invariant nodes' elems
  len : a.len = b.len
  getRank : ∀ x, ∃ rank, a.getRank x = .ok rank ∧ b.getRank x = .ok rank
  contains : ∀ x, ∃ found, a.contains x = .ok found ∧ b.contains x = .ok found
  searchByRank : ∀ rank, ∃ answer, a.searchByRank rank = .ok answer ∧
    b.searchByRank rank = .ok answer

section

variable {a b : SkipList T} {head head' : Cell T} {cells cells' : List (Cell T)}

theorem Rep.searchByRank_congr [Inhabited T] (ha : Rep a head cells) (hb : Rep b head' cells')
    (hhead : head.data = head'.data) (hcells : cells.map Cell.data = cells'.map Cell.data)
    (rank : Int) :
    ∃ answer, a.searchByRank rank = .ok answer ∧ b.searchByRank rank = .ok answer := by
  rcases lt_or_ge rank 0 with hneg | hpos
  · exact ⟨_, ha.searchByRank_of_neg hneg, hb.searchByRank_of_neg hneg⟩
  · obtain ⟨rank, rfl⟩ := Int.eq_ofNat_of_zero_le hpos
    refine ⟨_, ha.searchByRank_spec rank, ?_⟩
    have hall : (head :: cells)[rank]?.map Cell.data = (head' :: cells')[rank]?.map Cell.data := by
      rw [← List.getElem?_map, ← List.getElem?_map, List.map_cons, List.map_cons, hhead, hcells]
    rw [hb.searchByRank_spec, ← hall, ← Option.isSome_map (f := Cell.data), ← hall,
      Option.isSome_map]

variable [LawfulElemType T]

theorem Rep.getRank_congr (ha : Rep a head cells) (hb : Rep b head' cells')
    (hcells : cells.map Cell.data = cells'.map Cell.data) (x : T) :
    ∃ rank, a.getRank x = .ok rank ∧ b.getRank x = .ok rank := by
  by_cases hx : x ∈ cells.map Cell.data
  · refine ⟨_, ha.getRank_refines hx, ?_⟩
    rw [hb.getRank_refines (hcells ▸ hx), hcells]
  · exact ⟨-1, ha.getRank_of_absent hx, hb.getRank_of_absent (hcells ▸ hx)⟩

/-- Lists that represent the same sequence agree, whatever their nodes are. -/
theorem Rep.agree [Inhabited T] (ha : Rep a head cells) (hb : Rep b head' cells')
    (hhead : head.data = head'.data) (hcells : cells.map Cell.data = cells'.map Cell.data) :
    a.Agree b where
  elems := ⟨_, _, _, ha.invariant, hcells ▸ hb.invariant⟩
  len := by
    have hlength := congrArg List.length hcells
    rw [List.length_map, List.length_map] at hlength
    rw [SkipList.len, SkipList.len, ha.length, hb.length, hlength]
  getRank := ha.getRank_congr hb hcells
  contains x := ⟨_, ha.contains_refines x, by rw [hb.contains_refines, hcells]⟩
  searchByRank := ha.searchByRank_congr hb hhead hcells

end

section

variable {elems : List T} {old data : T}

/-- Replaced data is absent once the old data is gone. -/
theorem not_mem_sortedRemove [LawfulElemType T] (hother : ∀ e ∈ elems, e = data → e = old) :
    data ∉ sortedRemove old elems := by
  intro hmem
  obtain ⟨hmem, hne⟩ := List.mem_filter.mp hmem
  have heq := hother data hmem rfl
  subst heq
  exact absurd (compare_self data) (of_decide_eq_true hne)

theorem mem_sortedInsert (data : T) (elems : List T) : data ∈ sortedInsert data elems :=
  (List.mem_orderedInsert (fun a b => compare a b < 0)).mpr (Or.inl rfl)

/-- What `Update` reports tells whether the position has changed. -/
theorem updateRank_spec (old data : T) (elems : List T) :
    (updateRank old data elems = 0 ↔
      position data (sortedInsert data (sortedRemove old elems)) = position old elems) ∧
    (updateRank old data elems ≠ 0 →
      updateRank old data elems = position data (sortedInsert data (sortedRemove old elems))) := by
  have hpos : position data (sortedInsert data (sortedRemove old elems)) ≠ 0 := Nat.succ_ne_zero _
  rw [updateRank]
  split <;> simp_all

end

/-- The chain of level 0 determines the sequence. -/
theorem SkipList.Invariant.elems_unique {sl : SkipList T} {nodes nodes' : List Ptr}
    {elems elems' : List T} (h : sl.Invariant nodes elems) (h' : sl.Invariant nodes' elems') :
    elems = elems' := by
  have hnodes := h.bottom.symm.trans h'.bottom
  cases hnodes
  have hdata := h.data.symm.trans h'.data
  exact List.map_injective_iff.mpr (fun _ _ heq => Except.ok.inj heq) hdata

variable [LawfulElemType T] [Inhabited T]

/-- **`Update` agrees with `Remove` followed by `Insert`**, on every reachable list and
whatever heights are drawn.  It returns zero exactly when the rank has not changed, and
otherwise the new rank. -/
theorem SkipList.Reachable.update_agrees {sl : SkipList T} (hreach : sl.Reachable)
    {nodes : List Ptr} {elems : List T} (hinv : sl.Invariant nodes elems) {old data : T}
    (hold : old ∈ elems) (hother : ∀ e ∈ elems, e = data → e = old) (drawn drawn' : DrawnLevel) :
    ∃ updated rank removed replaced rank' oldRank newRank,
      sl.update old data drawn = .ok (updated, rank) ∧
      sl.remove old = .ok (removed, true) ∧
      removed.insert data drawn' = .ok (replaced, rank') ∧
      updated.Agree replaced ∧
      sl.getRank old = .ok oldRank ∧ updated.getRank data = .ok newRank ∧
      (rank = 0 ↔ newRank = oldRank) ∧
      (rank ≠ 0 → rank = newRank ∧ 1 ≤ rank ∧ rank ≠ oldRank) := by
  obtain ⟨cells, hrep⟩ := hreach.exists_rep
  obtain rfl := hinv.elems_unique hrep.invariant
  obtain ⟨updated, cells₁, hupdate, hrep₁, hcells₁⟩ := hrep.update_refines drawn hold hother
  obtain ⟨removed, cells₂, hremove, hrep₂, hcells₂⟩ := hrep.remove_refines old
  obtain ⟨replaced, cells₃, hinsert, hrep₃, hcells₃⟩ := hrep₂.insert_refines drawn'
    (hcells₂ ▸ not_mem_sortedRemove hother)
  rw [isPresent_iff.mpr hold] at hremove
  rw [hcells₂] at hcells₃
  have hnew : updated.getRank data = .ok (position data (cells₁.map Cell.data) : Int) :=
    hrep₁.getRank_refines (hcells₁ ▸ mem_sortedInsert data _)
  rw [hcells₁] at hnew
  obtain ⟨hzero, hmoved⟩ := updateRank_spec old data (cells.map Cell.data)
  refine ⟨updated, _, removed, replaced, _, _, _, hupdate, hremove, hinsert,
    hrep₁.agree hrep₃ rfl (hcells₁.trans hcells₃.symm), hrep.getRank_refines hold, hnew, ?_, ?_⟩
  · rw [Int.natCast_inj, ← hzero]
    exact Int.natCast_eq_zero
  · intro hne
    have hne' : updateRank old data (cells.map Cell.data) ≠ 0 := fun h => hne (by rw [h]; rfl)
    have hdiffer := mt hzero.mpr hne'
    rw [← hmoved hne'] at hdiffer ⊢
    exact ⟨rfl, by omega, fun h => hdiffer (Int.natCast_inj.mp h)⟩

/-- The theorem at an update that moves an element to the end. -/
theorem update_agrees_threeInts :
    ∃ (sl : SkipList Int) (nodes : List Ptr), sl.Reachable ∧ sl.Invariant nodes [10, 25, 30] ∧
      ∃ updated rank removed replaced rank' oldRank newRank,
        sl.update 25 40 ⟨2, by decide⟩ = .ok (updated, rank) ∧
        sl.remove 25 = .ok (removed, true) ∧
        removed.insert 40 ⟨5, by decide⟩ = .ok (replaced, rank') ∧
        updated.Agree replaced ∧
        sl.getRank 25 = .ok oldRank ∧ updated.getRank 40 = .ok newRank ∧
        (rank = 0 ↔ newRank = oldRank) ∧
        (rank ≠ 0 → rank = newRank ∧ 1 ≤ rank ∧ rank ≠ oldRank) := by
  obtain ⟨sl, cells, hreach, hrep, hcells⟩ := exists_reachable threeInts (by decide)
  have helems : (specRun [] (threeInts.map Prod.fst)).1 = [10, 25, 30] := by decide
  have hinv : sl.Invariant _ [10, 25, 30] := (hcells.trans helems) ▸ hrep.invariant
  exact ⟨sl, _, hreach, hinv, hreach.update_agrees hinv (by decide) (by decide) _ _⟩

end Gokit.Ds
