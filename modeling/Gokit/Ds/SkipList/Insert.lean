/-
# Insertion keeps the representation

`Insert` runs three loops over levels: it opens the levels the new node is the
first to reach, links the node behind its predecessor on each of its own levels,
and lengthens the span of the predecessor on each level above.  Each loop is
described level by level, and the description is then compared with the layout
of the longer sequence.
-/

import Gokit.Ds.SkipList.Rep

namespace Gokit.Ds

open Gokit.Math

variable {T : Type}

/-! ## The loop bodies -/

variable {before : Store (Node T)} {old : SkiplistLevel} {i : Nat}

/-- The round of the linking loop at one level. -/
theorem linkLevel_spec {x u : Ptr} {own : SkiplistLevel} (rank0 rank : Int) (hne : u ≠ x)
    (hx : levelAt before x i = .ok own) (hu : levelAt before u i = .ok old) :
    ∃ after, linkLevel x rank0 before i (u, rank) = .ok after ∧
      TouchesLevel before after i ∧
      levelAt after x i = .ok ⟨old.next, old.span - (rank0 - rank)⟩ ∧
      levelAt after u i = .ok ⟨some x, (rank0 - rank) + 1⟩ ∧
      ∀ q, q ≠ x → q ≠ u → levelAt after q i = levelAt before q i := by
  obtain ⟨h1, hset1, hw1⟩ := setNext_spec old.next hx
  have hu1 : levelAt h1 u i = .ok old := (hw1.kept u i (Or.inl hne)).trans hu
  obtain ⟨h2, hset2, hw2⟩ := setNext_spec (some x) hu1
  have hx2 : levelAt h2 x i = .ok ⟨old.next, own.span⟩ :=
    (hw2.kept x i (Or.inl hne.symm)).trans hw1.written
  obtain ⟨h3, hset3, hw3⟩ := setSpan_spec (old.span - (rank0 - rank)) hx2
  have hu3 : levelAt h3 u i = .ok ⟨some x, old.span⟩ :=
    (hw3.kept u i (Or.inl hne)).trans hw2.written
  obtain ⟨h4, hset4, hw4⟩ := setSpan_spec ((rank0 - rank) + 1) hu3
  refine ⟨h4, by simp [linkLevel, hu, hset1, hset2, hset3, hset4],
    hw1.touches.trans (hw2.touches.trans (hw3.touches.trans hw4.touches)), ?_, hw4.written, ?_⟩
  · exact (hw4.kept x i (Or.inl hne.symm)).trans hw3.written
  · intro q hqx hqu
    rw [hw4.kept q i (Or.inl hqu), hw3.kept q i (Or.inl hqx), hw2.kept q i (Or.inl hqu),
      hw1.kept q i (Or.inl hqx)]

variable {entry : Ptr × Int}

theorem bumpLevel_spec (hold : levelAt before entry.1 i = .ok old) :
    ∃ after, bumpLevel before i entry = .ok after ∧
      WritesLevel before after entry.1 i ⟨old.next, old.span + 1⟩ := by
  simpa [bumpLevel, hold] using setSpan_spec (old.span + 1) hold

theorem openLevel_spec (entry : Ptr × Int) (length : Int)
    (hold : levelAt before entry.1 i = .ok old) :
    ∃ after, openLevel length before i entry = .ok after ∧
      WritesLevel before after entry.1 i ⟨old.next, length⟩ :=
  setSpan_spec length hold

/-! ## Opening levels -/

section

variable [ElemType T] {sl : SkipList T} {head : Cell T} {cells : List (Cell T)}

/-- Opening the levels up to `level` makes the spans right on all of them: no
cell reaches an opened level, so the header's span there is the whole length. -/
theorem Rep.openLevels_spec (hrep : Rep sl head cells) {level : Nat} (hle : level ≤ maxLevel) :
    ∃ heap, forLevels (openLevel sl.length) sl.heap sl.level
        (List.replicate (level - sl.level) (sl.header, (0 : Int))) = .ok heap ∧
      Linked heap (max sl.level level) (head :: cells) := by
  have hshort : ∀ i, sl.level ≤ i → ∀ c ∈ cells, c.height ≤ i := fun i hi c hc =>
    (height_le_levelOf hc).trans (hrep.level ▸ hi)
  have hnodeHead : NodeRep sl.heap sl.level head cells := hrep.linked [] head cells rfl
  have hentry : ∀ k entry,
      (List.replicate (level - sl.level) (sl.header, (0 : Int)))[k]? = some entry →
      entry = (head.ptr, 0) ∧ k < level - sl.level := by
    intro k entry hget
    rw [List.getElem?_replicate] at hget
    split at hget
    · next hk => exact ⟨by rw [hrep.header]; exact (Option.some.inj hget).symm, hk⟩
    · simp at hget
  obtain ⟨heap, hloop, -, hshape, hopened, hkept⟩ := forLevels_spec
    (openLevel sl.length) sl.heap
    (fun i _ q => if q = head.ptr then .ok ⟨none, sl.length⟩ else levelAt sl.heap q i)
    (List.replicate (level - sl.level) (sl.header, (0 : Int))) sl.level sl.heap rfl
    (fun _ => rfl) (fun _ _ _ => rfl) (by
      intro k entry hget before hshape hlevel
      obtain ⟨rfl, hk⟩ := hentry k entry hget
      obtain ⟨old, hold⟩ := exists_levelAt hrep.shape_head
        (show sl.level + k < maxLevel by omega)
      have hnone : old.next = none := by
        rw [hnodeHead.next _ old hold]
        exact nextOf_eq_none (hshort _ (Nat.le_add_right _ _))
      obtain ⟨after, hafter, hwrites⟩ := openLevel_spec (head.ptr, 0) sl.length
        ((hlevel head.ptr).trans hold)
      refine ⟨after, hafter, hwrites.touches, ?_⟩
      intro q
      by_cases hq : q = head.ptr
      · subst hq
        simp [hwrites.written, hnone]
      · rw [if_neg hq, hwrites.kept q _ (Or.inl hq), hlevel q])
  have hhigh : ∀ q i, sl.level ≤ i → i < level →
      levelAt heap q i = if q = head.ptr then .ok ⟨none, sl.length⟩ else levelAt sl.heap q i := by
    intro q i hge hlt
    obtain ⟨k, rfl⟩ := Nat.exists_eq_add_of_le hge
    exact hopened k (sl.header, 0) (by rw [List.getElem?_replicate, if_pos (by omega)]) q
  have hlow : ∀ q i, i < sl.level ∨ level ≤ i → levelAt heap q i = levelAt sl.heap q i := by
    intro q i hi
    exact hkept q i (by rw [List.length_replicate]; omega)
  refine ⟨heap, hloop, ?_⟩
  intro pre c post hcut
  have hnode := hrep.linked pre c post hcut
  rcases List.mem_cons.mp (show c ∈ head :: cells by rw [hcut]; simp) with rfl | hc
  · -- the header: its opened levels lead nowhere and span everything
    obtain ⟨rfl, -, rfl⟩ := cut_unique hrep.nodup (List.nil_append _).symm hcut rfl
    refine ⟨(hshape c.ptr).trans hnode.shape, ?_, ?_⟩
    · intro i lv hlv
      by_cases hi : sl.level ≤ i ∧ i < level
      · rw [hhigh c.ptr i hi.1 hi.2, if_pos rfl] at hlv
        rw [← Except.ok.inj hlv, nextOf_eq_none (hshort i hi.1)]
      · exact hnode.next i lv (hlow c.ptr i (by omega) ▸ hlv)
    · intro i lv hlim hlv
      by_cases hi : sl.level ≤ i
      · rw [hhigh c.ptr i hi (by omega), if_pos rfl] at hlv
        rw [← Except.ok.inj hlv, spanOf_eq_length (hshort i hi), ← hrep.length]
      · exact hnode.span i lv (by omega) (hlow c.ptr i (by omega) ▸ hlv)
  · -- a data cell does not reach the opened levels
    have hsame : ∀ i lv, levelAt heap c.ptr i = .ok lv →
        i < sl.level ∧ levelAt sl.heap c.ptr i = .ok lv := by
      intro i lv hlv
      have hi := lt_height_of_levelAt ((hshape c.ptr).trans hnode.shape) hlv
      have hlt : i < sl.level := hi.trans_le (hrep.level ▸ height_le_levelOf hc)
      exact ⟨hlt, hlow c.ptr i (Or.inl hlt) ▸ hlv⟩
    exact ⟨(hshape c.ptr).trans hnode.shape,
      fun i lv hlv => hnode.next i lv (hsame i lv hlv).2,
      fun i lv _ hlv => hnode.span i lv (hsame i lv hlv).1 (hsame i lv hlv).2⟩

end

/-! ## Linking the new node -/

section

variable {heap : Store (Node T)} {lim level : Nat} {head : Cell T}
  {front back : List (Cell T)} {path : List (Ptr × Int)}

/-- The pointer and the span of a predecessor, with the span written through the
ranks that the search recorded. -/
theorem levelAt_entry (hlinked : Linked heap lim (head :: front ++ back)) (hi : i < lim)
    (hpred : IsPred (head :: front) i entry) :
    levelAt heap entry.1 i =
      .ok ⟨nextOf i back, (front.length - entry.2) + spanOf i back⟩ := by
  obtain ⟨before, c, after, hcut, hc, hshort, rfl⟩ := hpred
  have hlevel := hlinked.levelAt_pred hi hcut hc hshort
  have hlength := congrArg List.length hcut
  simp only [List.length_cons, List.length_append] at hlength
  have hcount : (after.length : Int) = front.length - before.length := by omega
  rw [hlevel, hcount]

variable {after : Store (Node T)} {c : Cell T}

/-- A cell whose levels are kept is stored as before. -/
theorem nodeRep_of_kept {post : List (Cell T)} (hnode : NodeRep heap lim c post)
    (hshape : shape after c.ptr = shape heap c.ptr)
    (hlevels : ∀ i, levelAt after c.ptr i = levelAt heap c.ptr i) : NodeRep after lim c post where
  shape := hshape.trans hnode.shape
  next i lv hlv := hnode.next i lv (hlevels i ▸ hlv)
  span i lv hi hlv := hnode.span i lv hi (hlevels i ▸ hlv)

/-- A cell behind those that were searched is no predecessor. -/
theorem IsPred.ptr_ne {cells : List (Cell T)} (hpred : IsPred cells i entry)
    (hnodup : ((cells ++ back).map Cell.ptr).Nodup) (hc : c ∈ back) : c.ptr ≠ entry.1 := by
  obtain ⟨d, hd, hdptr⟩ := hpred.mem
  rw [List.map_append, List.nodup_append] at hnodup
  intro hptr
  exact hnodup.2.2 _ (List.mem_map_of_mem hd) _ (List.mem_map_of_mem hc) (hdptr.trans hptr.symm)

theorem height_le_of_cut {pre tail : List (Cell T)} (hcut : head :: front = pre ++ c :: tail)
    (hfront : ∀ d ∈ front, d.height ≤ lim) (hback : ∀ d ∈ back, d.height ≤ lim) :
    ∀ d ∈ tail ++ back, d.height ≤ lim := by
  intro d hd
  rcases List.mem_append.mp hd with hd | hd
  · exact hfront d (subset_of_cut hcut hd)
  · exact hback d hd

/-- **The cells in front of a change.** If the predecessors on the levels below `lim` are
written as the layout with `back'` wants them and nothing else is, then every cell up to them
is stored as that layout wants it. -/
theorem Linked.relay_front (hlinked : Linked heap lim (head :: front ++ back))
    (hnodup : ((head :: front).map Cell.ptr).Nodup) (hlength : path.length = lim)
    (hpath : ∀ j entry, path[j]? = some entry → IsPred (head :: front) j entry)
    {back' : List (Cell T)} (hfront : ∀ d ∈ front, d.height ≤ lim)
    (hback : ∀ d ∈ back, d.height ≤ lim) (hback' : ∀ d ∈ back', d.height ≤ lim)
    (hpreds : ∀ i entry, path[i]? = some entry → levelAt after entry.1 i =
      .ok ⟨nextOf i back', (front.length - entry.2) + spanOf i back'⟩) {pre tail : List (Cell T)}
    (hcut : head :: front = pre ++ c :: tail) (hshape : shape after c.ptr = shape heap c.ptr)
    (hkept : ∀ i, (∀ entry, path[i]? = some entry → c.ptr ≠ entry.1) →
      levelAt after c.ptr i = levelAt heap c.ptr i) : NodeRep after lim c (tail ++ back') := by
  have hnode := hlinked pre c (tail ++ back) (by rw [hcut]; simp)
  have hcount : (front.length : Int) = pre.length + tail.length := by
    have hlen := congrArg List.length hcut
    simp at hlen
    omega
  have hlevels : ∀ i lv, i < lim → levelAt after c.ptr i = .ok lv →
      lv = ⟨nextOf i (tail ++ back'), spanOf i (tail ++ back')⟩ := by
    intro i lv hi hlv
    have hget : path[i]? = some path[i] := by simp [hlength, hi]
    have hc := lt_height_of_levelAt (hshape.trans hnode.shape) hlv
    rcases (hpath i _ hget).cases hnodup hcut hc with ⟨hentry, hshort⟩ | ⟨hne, htall⟩
    · have hnew := hpreds i _ hget
      rw [hentry, hlv] at hnew
      rw [nextOf_append_short _ hshort, spanOf_append_short _ hshort, Except.ok.inj hnew]
      congr 1
      omega
    · rw [hkept i fun entry hget' => by
        rw [hget] at hget'; exact Option.some.inj hget' ▸ hne.symm] at hlv
      rw [nextOf_append_tall _ back htall, spanOf_append_tall _ back htall,
        ← hnode.next i lv hlv, ← hnode.span i lv hi hlv]
  refine ⟨hshape.trans hnode.shape, ?_, fun i lv hi hlv => by rw [hlevels i lv hi hlv]⟩
  intro i lv hlv
  rcases Nat.lt_or_ge i lim with hi | hi
  · rw [hlevels i lv hi hlv]
  · -- above every cell both layouts hold no pointer
    rw [hkept i fun entry hget => by
      have hlt := (List.getElem?_eq_some_iff.mp hget).1
      omega] at hlv
    have hshort := height_le_of_cut hcut hfront hback
    have hshort' := height_le_of_cut hcut hfront hback'
    rw [hnode.next i lv hlv, nextOf_eq_none fun d hd => (hshort d hd).trans hi,
      nextOf_eq_none fun d hd => (hshort' d hd).trans hi]

/-- The heap after the two loops of `Insert` over the levels of the list, said
level by level: `start` is the heap with the new node `x` allocated, of height
`level`, and `path` is what the search recorded. -/
structure InsertedLevels (start after : Store (Node T)) (x : Ptr) (level count : Nat)
    (back : List (Cell T)) (path : List (Ptr × Int)) : Prop where
  shape : ∀ q, shape after q = shape start q
  own : ∀ i entry, i < level → path[i]? = some entry →
    levelAt after x i = .ok ⟨nextOf i back, spanOf i back⟩
  low : ∀ i entry, i < level → path[i]? = some entry →
    levelAt after entry.1 i = .ok ⟨some x, (count - entry.2) + 1⟩
  high : ∀ i entry, level ≤ i → path[i]? = some entry →
    levelAt after entry.1 i = .ok ⟨nextOf i back, (count - entry.2) + spanOf i back + 1⟩
  kept : ∀ q i, (i < level → q ≠ x) → (∀ entry, path[i]? = some entry → q ≠ entry.1) →
    levelAt after q i = levelAt start q i

theorem linkLoops_spec (start : Store (Node T)) (x : Ptr) (count : Nat)
    (back : List (Cell T)) {data : T}
    (hx : shape start x = some (data, level)) (hlength : level ≤ path.length)
    (hne : ∀ (j : Nat) (entry : Ptr × Int), path[j]? = some entry → entry.1 ≠ x)
    (hentry : ∀ (j : Nat) (entry : Ptr × Int), path[j]? = some entry → levelAt start entry.1 j =
      .ok ⟨nextOf j back, (count - entry.2) + spanOf j back⟩) :
    ∃ linked bumped,
      forLevels (linkLevel x count) start 0 (path.take level) = .ok linked ∧
      forLevels bumpLevel linked level (path.drop level) = .ok bumped ∧
      InsertedLevels start bumped x level count back path := by
  have htake : ∀ k entry, (path.take level)[k]? = some entry →
      k < level ∧ path[k]? = some entry := by
    intro k entry hget
    rw [List.getElem?_take] at hget
    by_cases hk : k < level
    · exact ⟨hk, by rwa [if_pos hk] at hget⟩
    · rw [if_neg hk] at hget
      simp at hget
  obtain ⟨linked, hlink, -, hlinkShape, hlinkLevel, hlinkKept⟩ := forLevels_spec
    (linkLevel x count) start
    (fun i entry q =>
      if q = x then .ok ⟨nextOf i back, spanOf i back⟩
      else if q = entry.1 then .ok ⟨some x, (count - entry.2) + 1⟩
      else levelAt start q i)
    (path.take level) 0 start rfl (fun _ => rfl) (fun _ _ _ => rfl) (by
      intro k entry hget before hshape hsame
      rw [Nat.zero_add] at hsame ⊢
      obtain ⟨hk, hget⟩ := htake k entry hget
      obtain ⟨own, hown⟩ := exists_levelAt ((hshape x).trans hx) hk
      obtain ⟨after, hafter, htouch, hnew, hu, hrest⟩ :=
        linkLevel_spec count entry.2 (hne k entry hget) hown
          ((hsame entry.1).trans (hentry k entry hget))
      refine ⟨after, hafter, htouch, fun q => ?_⟩
      by_cases hqx : q = x
      · rw [if_pos hqx, hqx, hnew, Int.add_comm, Int.add_sub_cancel]
      · by_cases hqu : q = entry.1
        · rw [if_neg hqx, if_pos hqu, hqu, hu]
        · rw [if_neg hqx, if_neg hqu, hrest q hqx hqu, hsame q])
  have hlow : ∀ i entry, i < level → path[i]? = some entry → ∀ q, levelAt linked q i =
      if q = x then .ok ⟨nextOf i back, spanOf i back⟩
      else if q = entry.1 then .ok ⟨some x, (count - entry.2) + 1⟩
      else levelAt start q i := by
    intro i entry hi hget q
    simpa using hlinkLevel i entry (by rw [List.getElem?_take, if_pos hi, hget]) q
  have hhigh : ∀ q i, level ≤ i → levelAt linked q i = levelAt start q i :=
    fun q i hi => hlinkKept q i (by rw [List.length_take]; omega)
  obtain ⟨bumped, hbump, -, hbumpShape, hbumpLevel, hbumpKept⟩ := forLevels_spec
    bumpLevel linked
    (fun i entry q =>
      if q = entry.1 then .ok ⟨nextOf i back, (count - entry.2) + spanOf i back + 1⟩
      else levelAt start q i)
    (path.drop level) level linked rfl (fun _ => rfl) (fun _ _ _ => rfl) (by
      intro k entry hget before hshape hsame
      rw [List.getElem?_drop] at hget
      have hstart : ∀ q, levelAt before q (level + k) = levelAt start q (level + k) :=
        fun q => (hsame q).trans (hhigh q _ (Nat.le_add_right _ _))
      obtain ⟨after, hafter, hwrites⟩ :=
        bumpLevel_spec ((hstart entry.1).trans (hentry (level + k) entry hget))
      refine ⟨after, hafter, hwrites.touches, fun q => ?_⟩
      by_cases hq : q = entry.1
      · rw [if_pos hq, hq, hwrites.written]
      · rw [if_neg hq, hwrites.kept q _ (Or.inl hq), hstart q])
  have hbelow : ∀ q i, i < level → levelAt bumped q i = levelAt linked q i :=
    fun q i hi => hbumpKept q i (Or.inl hi)
  have habove : ∀ i entry, level ≤ i → path[i]? = some entry → ∀ q, levelAt bumped q i =
      if q = entry.1 then .ok ⟨nextOf i back, (count - entry.2) + spanOf i back + 1⟩
      else levelAt start q i := by
    intro i entry hi hget q
    obtain ⟨k, rfl⟩ := Nat.exists_eq_add_of_le hi
    exact hbumpLevel k entry (by rw [List.getElem?_drop, hget]) q
  refine ⟨linked, bumped, hlink, hbump, ?_, ?_, ?_, ?_, ?_⟩
  · exact fun q => (hbumpShape q).trans (hlinkShape q)
  · intro i entry hi hget
    rw [hbelow x i hi, hlow i entry hi hget x, if_pos rfl]
  · intro i entry hi hget
    rw [hbelow entry.1 i hi, hlow i entry hi hget entry.1, if_neg (hne i entry hget), if_pos rfl]
  · intro i entry hi hget
    rw [habove i entry hi hget entry.1, if_pos rfl]
  · intro q i hqx hqu
    cases hget : path[i]? with
    | some entry =>
      rcases Nat.lt_or_ge i level with hi | hi
      · rw [hbelow q i hi, hlow i entry hi hget q, if_neg (hqx hi), if_neg (hqu entry hget)]
      · rw [habove i entry hi hget q, if_neg (hqu entry hget)]
    | none =>
      have hi : path.length ≤ i := List.getElem?_eq_none_iff.mp hget
      rw [hbumpKept q i (by rw [List.length_drop]; omega), hhigh q i (by omega)]

/-- Those levels lay out the sequence with the new node between `front` and
`back`. -/
theorem linked_of_insertedLevels {data : T} (hlinked : Linked heap lim (head :: front ++ back))
    (hnodup : ((head :: front ++ back).map Cell.ptr).Nodup)
    (hlim : ∀ c ∈ front ++ back, c.height ≤ lim) (hlevel : level ≤ lim)
    (hlength : path.length = lim)
    (hpath : ∀ j entry, path[j]? = some entry → IsPred (head :: front) j entry)
    (hins : InsertedLevels (heap.alloc ⟨data, List.replicate level .zero⟩) after heap.fresh
      level front.length back path) :
    Linked after lim (head :: front ++ ⟨heap.fresh, data, level⟩ :: back) := by
  have hnew : ∀ c ∈ head :: front ++ back, c.ptr ≠ heap.fresh := fun c hc =>
    ne_fresh_of_shape (hlinked.shape_of_mem hc)
  have hshape : ∀ c ∈ head :: front ++ back, shape after c.ptr = shape heap c.ptr := by
    intro c hc
    rw [hins.shape, shape_alloc_of_ne _ (hnew c hc)]
  -- a cell that is on no path entry of level `i` keeps its level `i`
  have hkept : ∀ c ∈ head :: front ++ back, ∀ i,
      (∀ entry, path[i]? = some entry → c.ptr ≠ entry.1) →
      levelAt after c.ptr i = levelAt heap c.ptr i := by
    intro c hc i hentry
    rw [hins.kept c.ptr i (fun _ => hnew c hc) hentry, levelAt_alloc_of_ne _ _ (hnew c hc)]
  intro pre c post hcut
  rcases cut_cases hcut with ⟨more, rfl, hmore⟩ | ⟨tail, htail, rfl⟩
  · cases more with
    | nil =>
      -- the new node itself
      injection hmore with hc hpost
      subst hc
      subst hpost
      have hshapeNew : shape after heap.fresh = some (data, level) := by
        rw [hins.shape, shape_alloc_fresh, List.length_replicate]
      have hown : ∀ i lv, levelAt after heap.fresh i = .ok lv →
          lv = ⟨nextOf i back, spanOf i back⟩ := by
        intro i lv hlv
        have hi := lt_height_of_levelAt hshapeNew hlv
        have hget : path[i]? = some path[i] := by simp
        rw [hins.own i _ hi hget] at hlv
        exact (Except.ok.inj hlv).symm
      exact ⟨hshapeNew, fun i lv hlv => by rw [hown i lv hlv],
        fun i lv _ hlv => by rw [hown i lv hlv]⟩
    | cons first more =>
      -- a cell behind the new node
      injection hmore with _ hback
      have hc : c ∈ back := by rw [hback]; simp
      have hmem : c ∈ head :: front ++ back := List.mem_append_right _ hc
      have hnode := hlinked (head :: front ++ more) c post (by rw [hback]; simp)
      exact nodeRep_of_kept hnode (hshape c hmem) fun i =>
        hkept c hmem i fun entry hget => (hpath i entry hget).ptr_ne hnodup hc
  · -- a cell in front of the new node
    have hmem : c ∈ head :: front ++ back := by rw [htail]; simp
    rw [List.map_append, List.nodup_append] at hnodup
    have hback : ∀ d ∈ back, d.height ≤ lim := fun d hd => hlim d (List.mem_append_right front hd)
    refine hlinked.relay_front hnodup.1 hlength hpath
      (fun d hd => hlim d (List.mem_append_left back hd)) hback
      (List.forall_mem_cons.mpr ⟨hlevel, hback⟩) ?_ htail (hshape c hmem) (hkept c hmem)
    intro i entry hget
    rcases Nat.lt_or_ge i level with hlow | hhigh
    · rw [hins.low i entry hlow hget]
      simp only [nextOf, spanOf, if_pos hlow, Int.add_zero]
    · rw [hins.high i entry hhigh hget]
      simp only [nextOf, spanOf, if_neg (Nat.not_lt.mpr hhigh)]
      congr 2
      omega

end

/-! ## The whole operation -/

section

variable [ElemType T] {sl : SkipList T} {head : Cell T} {front back : List (Cell T)}

theorem Rep.nodup_insert (hrep : Rep sl head (front ++ back)) {c : Cell T}
    (hnew : ∀ d ∈ head :: front ++ back, d.ptr ≠ c.ptr) :
    ((head :: (front ++ c :: back)).map Cell.ptr).Nodup := by
  have hperm : (head :: (front ++ c :: back)).Perm (c :: head :: (front ++ back)) := by
    rw [← List.cons_append, ← List.cons_append]
    exact List.perm_middle
  rw [(hperm.map Cell.ptr).nodup_iff, List.map_cons, List.nodup_cons]
  refine ⟨?_, hrep.nodup⟩
  intro hmem
  obtain ⟨d, hd, hptr⟩ := List.mem_map.mp hmem
  exact hnew d hd hptr

theorem Rep.sorted_insert (hrep : Rep sl head (front ++ back)) {c : Cell T}
    (hfront : ∀ a ∈ front, compare a.data c.data < 0)
    (hback : ∀ b ∈ back, compare c.data b.data < 0) :
    Increasing ((front ++ c :: back).map Cell.data) := by
  have hsorted := hrep.sorted
  rw [List.map_append, Increasing, List.pairwise_append] at hsorted
  rw [List.map_append, List.map_cons, Increasing, List.pairwise_append, List.pairwise_cons]
  refine ⟨hsorted.1, ⟨?_, hsorted.2.1⟩, ?_⟩
  · intro b hb
    obtain ⟨d, hd, rfl⟩ := List.mem_map.mp hb
    exact hback d hd
  · intro a ha b hb
    rcases List.mem_cons.mp hb with rfl | hb
    · obtain ⟨d, hd, rfl⟩ := List.mem_map.mp ha
      exact hfront d hd
    · exact hsorted.2.2 a ha b hb

/-- `Insert` of data that lies strictly between `front` and `back` puts a node of
the drawn height between them and returns its position, counted from one. -/
theorem Rep.insert_spec [LawfulElemType T] (hrep : Rep sl head (front ++ back)) {data : T}
    (drawn : DrawnLevel) (hfront : ∀ a ∈ front, compare a.data data < 0)
    (hback : ∀ b ∈ back, compare data b.data < 0) :
    ∃ sl' x, sl.insert data drawn = .ok (sl', (front.length : Int) + 1) ∧
      Rep sl' head (front ++ ⟨x, data, drawn.1⟩ :: back) := by
  have hnot : ∀ b ∈ back, ¬ compare b.data data < 0 := fun b hb hless => by
    have hpos := compare_pos_of_neg (hback b hb)
    omega
  obtain ⟨path, before, last, hsearch, -, hpathLength, hhead, hpath⟩ :=
    hrep.search_spec rfl hfront hnot
  obtain ⟨heap, hopen, hlinked⟩ := hrep.openLevels_spec drawn.2.2
  obtain ⟨opened, hopened⟩ : ∃ opened,
      opened = List.replicate (drawn.1 - sl.level) (sl.header, (0 : Int)) := ⟨_, rfl⟩
  rw [← hopened] at hopen
  have hlength : (path ++ opened).length = max sl.level drawn.1 := by
    rw [hopened, List.length_append, List.length_replicate, hpathLength]
    omega
  have hlevel : ∀ c ∈ front ++ back, c.height ≤ sl.level := fun c hc =>
    hrep.level ▸ height_le_levelOf hc
  -- on an opened level the header is the predecessor, as no cell reaches that level
  have hpath' : ∀ j entry, (path ++ opened)[j]? = some entry → IsPred (head :: front) j entry := by
    intro j entry hget
    rcases Nat.lt_or_ge j path.length with hj | hj
    · rw [List.getElem?_append_left hj] at hget
      exact hpath j entry hget
    · have hbound := (List.getElem?_eq_some_iff.mp hget).1
      rw [List.getElem?_append_right hj, hopened] at hget
      have hentry := (List.mem_replicate.mp (List.mem_of_getElem? hget)).2
      refine ⟨[], head, front, rfl, ?_, ?_, by rw [hentry, hrep.header]; rfl⟩
      · have hmax := drawn.2.2
        have hle := hrep.level_le
        rw [hrep.header_height]
        omega
      · intro d hd
        have hle := hlevel d (List.mem_append_left back hd)
        omega
  have hrank : ((path ++ opened).headD (sl.header, 0)).2 = (front.length : Int) := by
    rw [List.headD_eq_head?_getD, List.head?_append, hhead]
    rfl
  have hold : ∀ c ∈ head :: front ++ back, c.ptr ≠ heap.fresh := fun c hc =>
    ne_fresh_of_shape (hlinked.shape_of_mem hc)
  have hne : ∀ (j : Nat) (entry : Ptr × Int), (path ++ opened)[j]? = some entry →
      entry.1 ≠ heap.fresh := by
    intro j entry hget
    obtain ⟨c, hc, hptr⟩ := (hpath' j entry hget).mem
    exact hptr ▸ hold c (List.mem_append_left back hc)
  obtain ⟨linked, bumped, hlink, hbump, hins⟩ := linkLoops_spec
    (heap.alloc ⟨data, List.replicate drawn.1 .zero⟩) heap.fresh front.length back
    (by simpa using shape_alloc_fresh heap ⟨data, List.replicate drawn.1 .zero⟩)
    (hlength.symm ▸ le_max_right _ _) hne (by
      intro j entry hget
      rw [levelAt_alloc_of_ne _ _ (hne j entry hget)]
      exact levelAt_entry hlinked (hlength ▸ (List.getElem?_eq_some_iff.mp hget).1)
        (hpath' j entry hget))
  refine ⟨{ sl with heap := bumped, level := max sl.level drawn.1, length := sl.length + 1 },
    heap.fresh, ?_, ?_⟩
  · simp only [SkipList.insert, hsearch, Exec.ok_bind, hopen, ← hopened, hrank, hlink, hbump]
  · exact
      { header := hrep.header
        header_height := hrep.header_height
        linked := linked_of_insertedLevels hlinked hrep.nodup
          (fun c hc => (hlevel c hc).trans (le_max_left _ _)) (le_max_right _ _) hlength hpath' hins
        nodup := hrep.nodup_insert hold
        sorted := hrep.sorted_insert hfront hback
        length := by
          have hcount := hrep.length
          simp only [List.length_append, List.length_cons] at hcount ⊢
          push_cast at hcount ⊢
          omega
        height := by
          intro c hc
          rcases List.mem_append.mp hc with hc | hc
          · exact hrep.height c (List.mem_append_left back hc)
          · rcases List.mem_cons.mp hc with rfl | hc
            · exact drawn.2
            · exact hrep.height c (List.mem_append_right front hc)
        level := by
          rw [levelOf_append_cons, ← hrep.level]
          exact max_comm _ _ }

end

end Gokit.Ds
