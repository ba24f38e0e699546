/-
# Deletion keeps the representation

`Remove` and the moving branch of `Update` unlink a node by one loop over the
levels and then drop the levels that have become empty.  On a level the node
takes part in, its predecessor inherits pointer and span; on a level above, the
predecessor's span loses one.  Either way the predecessor ends up with what the
shorter layout prescribes.
-/

import Gokit.Ds.SkipList.Insert

namespace Gokit.Ds

open Gokit.Math

variable {T : Type}

/-! ## The loop body -/

variable {before : Store (Node T)} {entry : Ptr × Int}

/-- The round at a level the node takes part in. -/
theorem unlinkLevel_spec_of_next {x : Ptr} {i : Nat} {old own : SkiplistLevel}
    (hold : levelAt before entry.1 i = .ok old) (hnext : old.next = some x)
    (hown : levelAt before x i = .ok own) :
    ∃ after, unlinkLevel (some x) before i entry = .ok after ∧
      WritesLevel before after entry.1 i ⟨own.next, old.span + (own.span - 1)⟩ := by
  obtain ⟨h1, hset1, hw1⟩ := setSpan_spec (old.span + (own.span - 1)) hold
  obtain ⟨h2, hset2, hw2⟩ := setNext_spec own.next hw1.written
  refine ⟨h2, by simp [unlinkLevel, hold, hnext, hown, hset1, hset2], ?_⟩
  exact
    { fresh := hw2.fresh.trans hw1.fresh
      shape := fun q => (hw2.shape q).trans (hw1.shape q)
      written := hw2.written
      kept := fun q j hqj => (hw2.kept q j hqj).trans (hw1.kept q j hqj) }

/-- The round at a level above the node. -/
theorem unlinkLevel_spec_of_ne {x : Ptr} {i : Nat} {old : SkiplistLevel}
    (hold : levelAt before entry.1 i = .ok old) (hnext : old.next ≠ some x) :
    ∃ after, unlinkLevel (some x) before i entry = .ok after ∧
      WritesLevel before after entry.1 i ⟨old.next, old.span - 1⟩ := by
  simpa [unlinkLevel, hold, hnext] using setSpan_spec (old.span - 1) hold

/-! ## The loop -/

section

variable {heap : Store (Node T)} {lim : Nat} {head x : Cell T} {front back : List (Cell T)}
  {path : List (Ptr × Int)}

theorem ptr_ne_of_nodup_middle {cells back : List (Cell T)} {x : Cell T}
    (hnodup : ((cells ++ x :: back).map Cell.ptr).Nodup) : ∀ c ∈ cells ++ back, c.ptr ≠ x.ptr := by
  have hperm : (cells ++ x :: back).Perm (x :: (cells ++ back)) := List.perm_middle
  rw [(hperm.map Cell.ptr).nodup_iff, List.map_cons, List.nodup_cons] at hnodup
  intro c hc hptr
  exact hnodup.1 (List.mem_map.mpr ⟨c, hc, hptr⟩)

/-- The round at a level leaves the predecessor with what the layout without the node wants. -/
theorem unlinkLevel_round (hlinked : Linked heap lim (head :: front ++ x :: back))
    (hnodup : ((head :: front ++ x :: back).map Cell.ptr).Nodup) {i : Nat} (hi : i < lim)
    (hpred : IsPred (head :: front) i entry) (hsame : ∀ q, levelAt before q i = levelAt heap q i) :
    ∃ after, unlinkLevel (some x.ptr) before i entry = .ok after ∧
      WritesLevel before after entry.1 i
        ⟨nextOf i back, (front.length - entry.2) + spanOf i back⟩ := by
  have hold := (hsame entry.1).trans (levelAt_entry hlinked hi hpred)
  by_cases hx : i < x.height
  · -- the node takes part in this level
    have hnodeX : NodeRep heap lim x back := hlinked (head :: front) x back rfl
    obtain ⟨own, hown⟩ := exists_levelAt hnodeX.shape hx
    obtain ⟨after, hafter, hwrites⟩ := unlinkLevel_spec_of_next hold
      (by simp [nextOf, hx]) ((hsame x.ptr).trans hown)
    refine ⟨after, hafter, ?_⟩
    convert hwrites using 2
    · exact (hnodeX.next i own hown).symm
    · rw [hnodeX.span i own hi hown]
      simp only [spanOf, if_pos hx]
      omega
  · -- the node is below this level
    have hnext : nextOf i (x :: back) = nextOf i back := by simp [nextOf, hx]
    have hne : nextOf i (x :: back) ≠ some x.ptr := by
      rw [hnext]
      intro hptr
      obtain ⟨short, d, rest, rfl, hd, -, -⟩ := exists_of_nextOf_eq_some hptr
      exact ptr_ne_of_nodup_middle hnodup d (by simp) hd
    obtain ⟨after, hafter, hwrites⟩ := unlinkLevel_spec_of_ne hold hne
    refine ⟨after, hafter, ?_⟩
    convert hwrites using 2
    · exact hnext.symm
    · simp only [spanOf, if_neg hx]
      omega

/-- The heap after the loop, said level by level. -/
structure UnlinkedLevels (heap after : Store (Node T)) (count : Nat) (back : List (Cell T))
    (path : List (Ptr × Int)) : Prop where
  shape : ∀ q, shape after q = shape heap q
  preds : ∀ i entry, path[i]? = some entry →
    levelAt after entry.1 i = .ok ⟨nextOf i back, (count - entry.2) + spanOf i back⟩
  kept : ∀ q i, (∀ entry, path[i]? = some entry → q ≠ entry.1) →
    levelAt after q i = levelAt heap q i

theorem unlinkLoop_spec (hlinked : Linked heap lim (head :: front ++ x :: back))
    (hnodup : ((head :: front ++ x :: back).map Cell.ptr).Nodup) (hlength : path.length = lim)
    (hpath : ∀ j entry, path[j]? = some entry → IsPred (head :: front) j entry) :
    ∃ after, forLevels (unlinkLevel (some x.ptr)) heap 0 path = .ok after ∧
      UnlinkedLevels heap after front.length back path := by
  obtain ⟨after, hloop, -, hshape, hlevel, hkept⟩ := forLevels_spec
    (unlinkLevel (some x.ptr)) heap
    (fun i entry q =>
      if q = entry.1 then .ok ⟨nextOf i back, (front.length - entry.2) + spanOf i back⟩
      else levelAt heap q i)
    path 0 heap rfl (fun _ => rfl) (fun _ _ _ => rfl) (by
      intro i entry hget before _ hsame
      rw [Nat.zero_add] at hsame ⊢
      have hi : i < lim := hlength ▸ (List.getElem?_eq_some_iff.mp hget).1
      obtain ⟨after, hafter, hwrites⟩ :=
        unlinkLevel_round hlinked hnodup hi (hpath i entry hget) hsame
      refine ⟨after, hafter, hwrites.touches, fun q => ?_⟩
      by_cases hq : q = entry.1
      · rw [if_pos hq, hq, hwrites.written]
      · rw [if_neg hq, hwrites.kept q _ (Or.inl hq), hsame q])
  refine ⟨after, hloop, hshape, ?_, ?_⟩
  · intro i entry hget
    have hnew := hlevel i entry hget entry.1
    rwa [Nat.zero_add, if_pos rfl] at hnew
  · intro q i hq
    cases hget : path[i]? with
    | some entry =>
      have hnew := hlevel i entry hget q
      rwa [Nat.zero_add, if_neg (hq entry hget)] at hnew
    | none =>
      have hi := List.getElem?_eq_none_iff.mp hget
      exact hkept q i (by omega)

/-- The unlinking loop lays out the sequence without the node. -/
theorem unlinkLevels_spec (hlinked : Linked heap lim (head :: front ++ x :: back))
    (hnodup : ((head :: front ++ x :: back).map Cell.ptr).Nodup)
    (hlim : ∀ c ∈ front ++ x :: back, c.height ≤ lim) (hlength : path.length = lim)
    (hpath : ∀ j entry, path[j]? = some entry → IsPred (head :: front) j entry) :
    ∃ after, forLevels (unlinkLevel (some x.ptr)) heap 0 path = .ok after ∧
      (∀ q, shape after q = shape heap q) ∧ Linked after lim (head :: front ++ back) := by
  obtain ⟨after, hloop, hunlinked⟩ := unlinkLoop_spec hlinked hnodup hlength hpath
  refine ⟨after, hloop, hunlinked.shape, ?_⟩
  intro pre c post hcut
  rcases cut_cases hcut with ⟨more, rfl, hmore⟩ | ⟨tail, htail, rfl⟩
  · -- a cell behind the node
    have hc : c ∈ x :: back := by rw [hmore]; simp
    have hnode := hlinked (head :: front ++ x :: more) c post (by rw [hmore]; simp)
    exact nodeRep_of_kept hnode (hunlinked.shape c.ptr) fun i =>
      hunlinked.kept c.ptr i fun entry hget => (hpath i entry hget).ptr_ne hnodup hc
  · -- a cell in front of the node
    rw [List.map_append, List.nodup_append] at hnodup
    have hback : ∀ d ∈ x :: back, d.height ≤ lim :=
      fun d hd => hlim d (List.mem_append_right front hd)
    exact hlinked.relay_front hnodup.1 hlength hpath
      (fun d hd => hlim d (List.mem_append_left (x :: back) hd)) hback
      (fun d hd => hback d (List.mem_cons_of_mem x hd)) hunlinked.preds htail
      (hunlinked.shape c.ptr) (hunlinked.kept c.ptr)

/-- Dropping empty levels from the top stops at the greatest height present. -/
theorem shrinkLevel_spec (cells : List (Cell T)) (hlinked : Linked heap lim (head :: cells))
    (hheight : head.height = maxLevel) :
    ∀ level, 1 ≤ level → level ≤ maxLevel → levelOf cells ≤ level →
      shrinkLevel heap head.ptr level = .ok (levelOf cells) := by
  intro level
  induction level with
  | zero => intro hone; omega
  | succ level ih =>
    intro _ hmax hle
    have hone := one_le_levelOf cells
    cases level with
    | zero =>
      have hlevel : levelOf cells = 1 := by omega
      rw [hlevel]
      rfl
    | succ level =>
      have hnode : NodeRep heap lim head cells := hlinked [] head cells rfl
      obtain ⟨top, htop⟩ := exists_levelAt hnode.shape
        (show level + 1 < head.height by omega)
      have hnext := hnode.next _ top htop
      cases hcase : top.next with
      | none =>
        rw [hcase] at hnext
        have hshort := short_of_nextOf_eq_none hnext.symm
        simpa [shrinkLevel, htop, hcase] using
          ih (by omega) (by omega) (levelOf_le (by omega) hshort)
      | some p =>
        rw [hcase] at hnext
        obtain ⟨short, c, rest, rfl, -, hc, -⟩ := exists_of_nextOf_eq_some hnext.symm
        have hc' : c.height ≤ levelOf (short ++ c :: rest) := height_le_levelOf (by simp)
        have hlevel : levelOf (short ++ c :: rest) = level + 2 := by omega
        rw [hlevel]
        simp [shrinkLevel, htop, hcase]

end

/-! ## The operations -/

section

variable [ElemType T] {sl : SkipList T} {head x : Cell T} {front back : List (Cell T)}

theorem Rep.deleteNode_spec (hrep : Rep sl head (front ++ x :: back)) {path : List (Ptr × Int)}
    (hlength : path.length = sl.level)
    (hpath : ∀ j entry, path[j]? = some entry → IsPred (head :: front) j entry) :
    ∃ sl', sl.deleteNode path (some x.ptr) = .ok sl' ∧ Rep sl' head (front ++ back) := by
  have hlevel : ∀ c ∈ front ++ x :: back, c.height ≤ sl.level := fun c hc =>
    hrep.level ▸ height_le_levelOf hc
  have hsub : ∀ c ∈ front ++ back, c ∈ front ++ x :: back := by
    intro c hc
    rcases List.mem_append.mp hc with hc | hc
    · exact List.mem_append_left _ hc
    · exact List.mem_append_right _ (List.mem_cons_of_mem x hc)
  obtain ⟨heap, hunlink, hshape, hlinked⟩ :=
    unlinkLevels_spec hrep.linked hrep.nodup hlevel hlength hpath
  have hle : levelOf (front ++ back) ≤ sl.level :=
    levelOf_le hrep.one_le_level fun c hc => hlevel c (hsub c hc)
  have hshrink := shrinkLevel_spec (front ++ back) hlinked hrep.header_height
    sl.level hrep.one_le_level hrep.level_le hle
  rw [hrep.header] at hshrink
  refine ⟨{ sl with heap, level := levelOf (front ++ back), length := sl.length - 1 }, ?_, ?_⟩
  · simp only [SkipList.deleteNode, hunlink, hshrink, Exec.ok_bind]
  · have hsublist : (front ++ back).Sublist (front ++ x :: back) :=
      (List.Sublist.refl front).append (List.sublist_cons_self x back)
    exact
      { header := hrep.header
        header_height := hrep.header_height
        linked := hlinked.mono hle
        nodup := hrep.nodup.sublist ((hsublist.cons_cons head).map Cell.ptr)
        sorted := hrep.sorted.sublist (hsublist.map Cell.data)
        length := by
          have hcount := hrep.length
          simp only [List.length_append, List.length_cons] at hcount ⊢
          push_cast at hcount ⊢
          omega
        height := fun c hc => hrep.height c (hsub c hc)
        level := rfl }

end

end Gokit.Ds
