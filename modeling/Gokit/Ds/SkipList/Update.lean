/-
# Updating and clearing keep the representation

`Update` looks at the two neighbours of the element it replaces.  When the new
data still fits between them the node keeps its place and only its data changes;
otherwise the node is deleted and the new data inserted.  `Clear` resets the
header and forgets the rest of the heap.
-/

import Gokit.Ds.SkipList.Remove

namespace Gokit.Ds

open Gokit.Math

variable {T : Type}

/-! ## Replacing the data of a node -/

theorem setData_spec {heap : Store (Node T)} {x : Ptr} {old : T} {height : Nat} (data : T)
    (hshape : shape heap x = some (old, height)) :
    ∃ after, setData heap x data = .ok after ∧ shape after x = some (data, height) ∧
      (∀ q, q ≠ x → shape after q = shape heap q) ∧
      ∀ q i, levelAt after q i = levelAt heap q i := by
  obtain ⟨levels, hread, rfl⟩ := shape_eq_some_iff.mp hshape
  refine ⟨heap.write x ⟨data, levels⟩, ?_, ?_, ?_, ?_⟩
  · simp [setData, Store.deref_of_read hread]
  · simp [shape, Store.read_write_self _ hread]
  · intro q hq
    simp [shape, Store.read_write_of_ne _ hq]
  · intro q i
    by_cases hq : q = x
    · subst hq
      simp [levelAt, Store.deref, Store.read_write_self _ hread, hread]
    · simp [levelAt, Store.deref, Store.read_write_of_ne _ hq]

/-- Pointers and spans do not depend on data. -/
theorem nextOf_replace {front back : List (Cell T)} {x y : Cell T} (i : Nat)
    (hptr : y.ptr = x.ptr) (hheight : y.height = x.height) :
    nextOf i (front ++ y :: back) = nextOf i (front ++ x :: back) := by
  induction front with
  | nil => simp [nextOf, hptr, hheight]
  | cons c front ih => simp [nextOf, ih]

theorem spanOf_replace {front back : List (Cell T)} {x y : Cell T} (i : Nat)
    (hheight : y.height = x.height) :
    spanOf i (front ++ y :: back) = spanOf i (front ++ x :: back) := by
  induction front with
  | nil => simp [spanOf, hheight]
  | cons c front ih => simp [spanOf, ih]

section

variable [ElemType T] {sl : SkipList T} {head x : Cell T} {front back : List (Cell T)}

/-- Overwriting the data of a node whose new data fits between its neighbours. -/
theorem Rep.setData_spec (hrep : Rep sl head (front ++ x :: back)) {data : T}
    (hfront : ∀ a ∈ front, compare a.data data < 0) (hback : ∀ b ∈ back, compare data b.data < 0) :
    ∃ heap, setData sl.heap x.ptr data = .ok heap ∧
      Rep { sl with heap } head (front ++ ⟨x.ptr, data, x.height⟩ :: back) := by
  obtain ⟨heap, hset, hshapeX, hshape, hlevel⟩ :=
    Gokit.Ds.setData_spec data (hrep.shape_cell (c := x) (by simp))
  let y : Cell T := ⟨x.ptr, data, x.height⟩
  have hnodup : ((head :: front ++ x :: back).map Cell.ptr).Nodup := hrep.nodup
  have hdistinct := ptr_ne_of_nodup_middle hnodup
  have hlinked : Linked sl.heap sl.level (head :: front ++ x :: back) := hrep.linked
  refine ⟨heap, hset, ?_⟩
  exact
    { header := hrep.header
      header_height := hrep.header_height
      linked := by
        intro pre c post hcut
        change head :: front ++ y :: back = pre ++ c :: post at hcut
        rcases cut_cases hcut with ⟨more, rfl, hmore⟩ | ⟨tail, htail, rfl⟩
        · cases more with
          | nil =>
            injection hmore with hc hpost
            subst hc
            subst hpost
            have hnode := hlinked (head :: front) x back rfl
            exact ⟨hshapeX, fun i lv hlv => hnode.next i lv (hlevel _ i ▸ hlv),
              fun i lv hi hlv => hnode.span i lv hi (hlevel _ i ▸ hlv)⟩
          | cons first more =>
            injection hmore with _ hpost
            have hnode := hlinked (head :: front ++ x :: more) c post (by rw [hpost]; simp)
            have hne : c.ptr ≠ x.ptr := hdistinct c (by rw [hpost]; simp)
            exact ⟨(hshape c.ptr hne).trans hnode.shape,
              fun i lv hlv => hnode.next i lv (hlevel _ i ▸ hlv),
              fun i lv hi hlv => hnode.span i lv hi (hlevel _ i ▸ hlv)⟩
        · have hnode := hlinked pre c (tail ++ x :: back) (by rw [htail]; simp)
          have hne : c.ptr ≠ x.ptr := hdistinct c (by rw [htail]; simp)
          refine ⟨(hshape c.ptr hne).trans hnode.shape, ?_, ?_⟩
          · intro i lv hlv
            rw [nextOf_replace (x := x) (y := y) i rfl rfl]
            exact hnode.next i lv (hlevel _ i ▸ hlv)
          · intro i lv hi hlv
            rw [spanOf_replace (x := x) (y := y) i rfl]
            exact hnode.span i lv hi (hlevel _ i ▸ hlv)
      nodup := by simpa using hrep.nodup
      sorted := by
        have hsorted := hrep.sorted
        rw [List.map_append, List.map_cons, Increasing, List.pairwise_append,
          List.pairwise_cons] at hsorted
        rw [List.map_append, List.map_cons, Increasing, List.pairwise_append,
          List.pairwise_cons]
        refine ⟨hsorted.1, ⟨?_, hsorted.2.1.2⟩, ?_⟩
        · intro b hb
          obtain ⟨d, hd, rfl⟩ := List.mem_map.mp hb
          exact hback d hd
        · intro a ha b hb
          rcases List.mem_cons.mp hb with rfl | hb
          · obtain ⟨d, hd, rfl⟩ := List.mem_map.mp ha
            exact hfront d hd
          · exact hsorted.2.2 a ha b (List.mem_cons_of_mem _ hb)
      length := by simpa using hrep.length
      height := by
        intro c hc
        rcases List.mem_append.mp hc with hc | hc
        · exact hrep.height c (List.mem_append_left _ hc)
        · rcases List.mem_cons.mp hc with rfl | hc
          · exact hrep.height x (by simp)
          · exact hrep.height c (by simp [hc])
      level := by
        rw [levelOf_append_cons]
        exact hrep.level.trans (levelOf_append_cons front back x) }

/-! ## The in-place test -/

/-- The neighbours decide for the whole list: everything in front is smaller
when the last cell in front is. -/
theorem Rep.front_less [LawfulElemType T] (hrep : Rep sl head (front ++ x :: back)) {data : T}
    (hlast : ∀ a ∈ front.getLast?, compare a.data data < 0) :
    ∀ a ∈ front, compare a.data data < 0 := by
  intro a ha
  have hsorted := hrep.sorted
  rw [List.map_append, Increasing, List.pairwise_append] at hsorted
  rcases List.eq_nil_or_concat' front with rfl | ⟨init, last, rfl⟩
  · simp at ha
  · have hless : compare last.data data < 0 := hlast last (by simp)
    rcases List.mem_append.mp ha with ha | ha
    · rw [List.map_append, List.pairwise_append] at hsorted
      exact compare_trans (hsorted.1.2.2 _ (List.mem_map_of_mem ha) last.data (by simp)) hless
    · obtain rfl := List.mem_singleton.mp ha
      exact hless

theorem Rep.back_greater [LawfulElemType T] (hrep : Rep sl head (front ++ x :: back)) {data : T}
    (hhead : ∀ b ∈ back.head?, 0 < compare b.data data) : ∀ b ∈ back, compare data b.data < 0 := by
  intro b hb
  have hsorted := hrep.sorted
  rw [List.map_append, List.map_cons, Increasing, List.pairwise_append,
    List.pairwise_cons] at hsorted
  cases back with
  | nil => simp at hb
  | cons first back =>
    have hless : compare data first.data < 0 := compare_neg_of_pos (hhead first rfl)
    rcases List.mem_cons.mp hb with rfl | hb
    · exact hless
    · have hpair := hsorted.2.1.2
      rw [List.map_cons, List.pairwise_cons] at hpair
      exact compare_trans hless (hpair.1 _ (List.mem_map_of_mem hb))

/-- The test of `Update` reads the two neighbours of the node. -/
theorem Rep.staysInPlace_spec (hrep : Rep sl head (front ++ x :: back)) (data : T)
    {before : List (Cell T)} {last : Cell T} (hcut : head :: front = before ++ [last]) :
    ∃ answer, sl.staysInPlace last.ptr (some x.ptr) data = .ok answer ∧
      (answer = true ↔ (∀ a ∈ front.getLast?, compare a.data data < 0) ∧
        ∀ b ∈ back.head?, 0 < compare b.data data) := by
  have hcells : front ++ x :: back = (front ++ [x]) ++ back := by simp
  obtain ⟨level, hlevel, hnext⟩ := hrep.front_next hcells
    (show head :: (front ++ [x]) = (head :: front) ++ [x] from rfl)
  -- behind a predecessor that is small enough, the node decides by its successor
  have hright : ∃ right : Bool, (right = true ↔ ∀ b ∈ back.head?, 0 < compare b.data data) ∧
      ∀ prev, (prev ≠ sl.header → ∃ d, dataAt sl.heap prev = .ok d ∧ compare d data < 0) →
        sl.staysInPlace prev (some x.ptr) data = .ok right := by
    cases back with
    | nil =>
      refine ⟨true, by simp, fun prev hprev => ?_⟩
      by_cases heq : prev = sl.header
      · simp [SkipList.staysInPlace, heq, hlevel, hnext]
      · obtain ⟨d, hdata, hless⟩ := hprev heq
        simp [SkipList.staysInPlace, heq, hdata, hless, hlevel, hnext]
    | cons b back =>
      have hb := dataAt_of_shape (hrep.shape_cell (c := b) (by simp))
      refine ⟨decide (compare b.data data > 0), by simp, fun prev hprev => ?_⟩
      by_cases heq : prev = sl.header
      · simp [SkipList.staysInPlace, heq, hlevel, hnext, hb]
      · obtain ⟨d, hdata, hless⟩ := hprev heq
        simp [SkipList.staysInPlace, heq, hdata, hless, hlevel, hnext, hb]
  obtain ⟨right, hrightIff, hright⟩ := hright
  rcases List.eq_nil_or_concat' front with rfl | ⟨init, prev, rfl⟩
  · -- the predecessor is the header
    obtain rfl : last = head := by
      cases before with
      | nil => injection hcut with heq; exact heq.symm
      | cons first before => injection hcut with _ hrest; simp at hrest
    exact ⟨right, hright _ (absurd hrep.header), by simp [hrightIff]⟩
  · obtain rfl : last = prev := by
      rw [← List.cons_append] at hcut
      exact (List.append_inj_right' hcut rfl |> List.singleton_injective).symm
    have hne : last.ptr ≠ sl.header := by
      intro hptr
      have hnodup := hrep.nodup
      rw [List.map_cons, List.nodup_cons] at hnodup
      exact hnodup.1 (List.mem_map.mpr ⟨last, by simp, hptr.trans hrep.header.symm⟩)
    have hdata := dataAt_of_shape (hrep.shape_cell (c := last) (by simp))
    by_cases hless : compare last.data data < 0
    · exact ⟨right, hright _ fun _ => ⟨_, hdata, hless⟩, by simp [hrightIff, hless]⟩
    · refine ⟨false, ?_, by simp [hless]⟩
      simp [SkipList.staysInPlace, hne, hdata, hless]

end

end Gokit.Ds
