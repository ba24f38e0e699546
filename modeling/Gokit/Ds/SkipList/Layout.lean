/-
# The layout of a skip list and what a search finds in it

A skip list lays a sequence of cells out in the heap.  For each level of each
cell the layout determines the stored pointer and the stored span from the cells
that follow: the pointer leads to the first later cell tall enough, and the span
is the number of cells up to and including it, or up to the end when there is
none.  `Rep` says that the heap holds a given sequence in this way.

A search walks this layout.  Its result on every level is the last cell that is
both smaller than the data searched for and tall enough for that level.
-/

import Gokit.Ds.SkipList.Heap
import Mathlib.Data.List.Sort

namespace Gokit.Ds

open Gokit.Math

/-- A node of the layout: where it is, what it holds and how tall it is. -/
structure Cell (T : Type) where
  ptr : Ptr
  data : T
  height : Nat

variable {T : Type}

/-- The pointer stored on level `i` in front of `cells`. -/
def nextOf (i : Nat) : List (Cell T) → Option Ptr
  | [] => none
  | c :: cells => if i < c.height then some c.ptr else nextOf i cells

/-- The span stored on level `i` in front of `cells`. -/
def spanOf (i : Nat) : List (Cell T) → Int
  | [] => 0
  | c :: cells => 1 + if i < c.height then 0 else spanOf i cells

/-- The greatest height present, and at least one. -/
def levelOf : List (Cell T) → Nat
  | [] => 1
  | c :: cells => max c.height (levelOf cells)

variable {c : Cell T}

theorem height_le_levelOf {cells : List (Cell T)} (hc : c ∈ cells) : c.height ≤ levelOf cells := by
  induction cells with
  | nil => simp at hc
  | cons first cells ih =>
    rcases List.mem_cons.mp hc with rfl | hc
    · exact le_max_left _ _
    · exact (ih hc).trans (le_max_right _ _)

theorem one_le_levelOf (cells : List (Cell T)) : 1 ≤ levelOf cells := by
  induction cells with
  | nil => exact le_rfl
  | cons c cells ih => exact ih.trans (le_max_right _ _)

theorem levelOf_le {cells : List (Cell T)} {bound : Nat} (hone : 1 ≤ bound)
    (hbound : ∀ c ∈ cells, c.height ≤ bound) : levelOf cells ≤ bound := by
  induction cells with
  | nil => exact hone
  | cons c cells ih =>
    exact max_le (hbound c List.mem_cons_self)
      (ih fun d hd => hbound d (List.mem_cons_of_mem c hd))

theorem levelOf_append_cons (front back : List (Cell T)) (c : Cell T) :
    levelOf (front ++ c :: back) = max c.height (levelOf (front ++ back)) := by
  induction front with
  | nil => rfl
  | cons first front ih => simp only [List.cons_append, levelOf, ih, max_left_comm]

/-! ## Links of a concatenation -/

variable {front : List (Cell T)} {i : Nat}

/-- Past cells too short for level `i`, the pointer is that of the rest. -/
theorem nextOf_append_short (back : List (Cell T)) (hshort : ∀ c ∈ front, c.height ≤ i) :
    nextOf i (front ++ back) = nextOf i back := by
  induction front with
  | nil => rfl
  | cons c front ih =>
    have hc : ¬ i < c.height := Nat.not_lt.mpr (hshort c List.mem_cons_self)
    rw [List.cons_append, nextOf, if_neg hc]
    exact ih fun d hd => hshort d (List.mem_cons_of_mem c hd)

theorem spanOf_append_short (back : List (Cell T)) (hshort : ∀ c ∈ front, c.height ≤ i) :
    spanOf i (front ++ back) = front.length + spanOf i back := by
  induction front with
  | nil => simp
  | cons c front ih =>
    have hc : ¬ i < c.height := Nat.not_lt.mpr (hshort c List.mem_cons_self)
    have hrest := ih fun d hd => hshort d (List.mem_cons_of_mem c hd)
    rw [List.cons_append, spanOf, if_neg hc, hrest, List.length_cons]
    push_cast
    omega

/-- A cell tall enough for level `i` hides everything behind it. -/
theorem nextOf_append_tall (back back' : List (Cell T)) (htall : ∃ c ∈ front, i < c.height) :
    nextOf i (front ++ back) = nextOf i (front ++ back') := by
  induction front with
  | nil => simp at htall
  | cons c front ih =>
    by_cases hc : i < c.height
    · simp [nextOf, hc]
    · obtain ⟨d, hd, hdi⟩ := htall
      have hd' : d ∈ front := (List.mem_cons.mp hd).resolve_left fun heq => hc (heq ▸ hdi)
      simpa [nextOf, hc] using ih ⟨d, hd', hdi⟩

theorem spanOf_append_tall (back back' : List (Cell T)) (htall : ∃ c ∈ front, i < c.height) :
    spanOf i (front ++ back) = spanOf i (front ++ back') := by
  induction front with
  | nil => simp at htall
  | cons c front ih =>
    by_cases hc : i < c.height
    · simp [spanOf, hc]
    · obtain ⟨d, hd, hdi⟩ := htall
      have hd' : d ∈ front := (List.mem_cons.mp hd).resolve_left fun heq => hc (heq ▸ hdi)
      simpa [spanOf, hc] using ih ⟨d, hd', hdi⟩

/-- No pointer means that no later cell reaches the level. -/
theorem short_of_nextOf_eq_none {cells : List (Cell T)} (hnone : nextOf i cells = none) :
    ∀ c ∈ cells, c.height ≤ i := by
  induction cells with
  | nil => simp
  | cons c cells ih =>
    by_cases hc : i < c.height
    · simp [nextOf, hc] at hnone
    · rw [nextOf, if_neg hc] at hnone
      intro d hd
      rcases List.mem_cons.mp hd with rfl | hd
      · exact Nat.not_lt.mp hc
      · exact ih hnone d hd

theorem nextOf_eq_none {cells : List (Cell T)} (hshort : ∀ c ∈ cells, c.height ≤ i) :
    nextOf i cells = none := by
  simpa [nextOf] using nextOf_append_short [] hshort

theorem spanOf_eq_length {cells : List (Cell T)} (hshort : ∀ c ∈ cells, c.height ≤ i) :
    spanOf i cells = cells.length := by
  simpa [spanOf] using spanOf_append_short [] hshort

/-- A pointer leads to the first later cell that reaches the level. -/
theorem exists_of_nextOf_eq_some {cells : List (Cell T)} {p : Ptr}
    (hsome : nextOf i cells = some p) :
    ∃ short c rest, cells = short ++ c :: rest ∧ c.ptr = p ∧ i < c.height ∧
      ∀ d ∈ short, d.height ≤ i := by
  induction cells with
  | nil => simp [nextOf] at hsome
  | cons c cells ih =>
    by_cases hc : i < c.height
    · rw [nextOf, if_pos hc] at hsome
      exact ⟨[], c, cells, rfl, Option.some.inj hsome, hc, by simp⟩
    · rw [nextOf, if_neg hc] at hsome
      obtain ⟨short, d, rest, rfl, hptr, hd, hshort⟩ := ih hsome
      refine ⟨c :: short, d, rest, rfl, hptr, hd, ?_⟩
      intro e he
      rcases List.mem_cons.mp he with rfl | he
      · exact Nat.not_lt.mp hc
      · exact hshort e he

/-! ## The heap holds a layout -/

/-- The heap stores `c` as a node in front of `post`.  Spans are maintained on
the levels below `lim` only. -/
structure NodeRep (heap : Store (Node T)) (lim : Nat) (c : Cell T) (post : List (Cell T)) :
    Prop where
  shape : shape heap c.ptr = some (c.data, c.height)
  next : ∀ i level, levelAt heap c.ptr i = .ok level → level.next = nextOf i post
  span : ∀ i level, i < lim → levelAt heap c.ptr i = .ok level → level.span = spanOf i post

/-- The heap stores every cell in front of the cells that follow it. -/
def Linked (heap : Store (Node T)) (lim : Nat) (cells : List (Cell T)) : Prop :=
  ∀ pre c post, cells = pre ++ c :: post → NodeRep heap lim c post

theorem Linked.mono {heap : Store (Node T)} {lim lim' : Nat} {cells : List (Cell T)}
    (hlinked : Linked heap lim cells) (hle : lim' ≤ lim) : Linked heap lim' cells := by
  intro pre c post hcells
  have hnode := hlinked pre c post hcells
  exact ⟨hnode.shape, hnode.next, fun i level hi => hnode.span i level (hi.trans_le hle)⟩

theorem Linked.shape_of_mem {heap : Store (Node T)} {lim : Nat} {cells : List (Cell T)}
    (hlinked : Linked heap lim cells) (hc : c ∈ cells) :
    shape heap c.ptr = some (c.data, c.height) := by
  obtain ⟨pre, post, hcells⟩ := List.append_of_mem hc
  exact (hlinked pre c post hcells).shape

/-- `entry` is what a search over `front` leaves for level `i`: the last cell of
`front` that reaches level `i`, with the number of cells before it. -/
def IsPred (front : List (Cell T)) (i : Nat) (entry : Ptr × Int) : Prop :=
  ∃ before c after, front = before ++ c :: after ∧ i < c.height ∧
    (∀ d ∈ after, d.height ≤ i) ∧ entry = (c.ptr, (before.length : Int))

variable {before after : List (Cell T)}

/-- A cell determines its position, so it can be cut out in one way only. -/
theorem cut_unique {cells before' after' : List (Cell T)} {d : Cell T}
    (hnodup : (cells.map Cell.ptr).Nodup) (hcut : cells = before ++ c :: after)
    (hcut' : cells = before' ++ d :: after') (hptr : c.ptr = d.ptr) :
    before = before' ∧ c = d ∧ after = after' := by
  induction before generalizing cells before' with
  | nil =>
    subst hcut
    cases before' with
    | nil =>
      injection hcut' with hc hafter
      exact ⟨rfl, hc, hafter⟩
    | cons first before' =>
      injection hcut' with hc hafter
      rw [List.nil_append, List.map_cons, List.nodup_cons] at hnodup
      exact absurd (List.mem_map.mpr ⟨d, by rw [hafter]; simp, hptr.symm⟩) hnodup.1
  | cons first before ih =>
    subst hcut
    rw [List.cons_append, List.map_cons, List.nodup_cons] at hnodup
    cases before' with
    | nil =>
      injection hcut' with hd hafter
      exact absurd (List.mem_map.mpr ⟨c, by simp, hd ▸ hptr⟩) hnodup.1
    | cons first' before' =>
      injection hcut' with hfirst hrest
      obtain ⟨rfl, rfl, rfl⟩ := ih hnodup.2 rfl hrest
      exact ⟨by rw [hfirst], rfl, rfl⟩

/-- A cell that reaches level `i` either is what the search left for that level,
with only shorter cells behind it, or has a cell reaching level `i` behind it. -/
theorem IsPred.cases {entry : Ptr × Int} (hpred : IsPred front i entry)
    (hnodup : (front.map Cell.ptr).Nodup) (hcut : front = before ++ c :: after)
    (hc : i < c.height) :
    (entry = (c.ptr, (before.length : Int)) ∧ ∀ d ∈ after, d.height ≤ i) ∨
      (entry.1 ≠ c.ptr ∧ ∃ d ∈ after, i < d.height) := by
  obtain ⟨before', d, after', hcut', hd, hshort, rfl⟩ := hpred
  by_cases hptr : d.ptr = c.ptr
  · obtain ⟨rfl, rfl, rfl⟩ := cut_unique hnodup hcut' hcut hptr
    exact Or.inl ⟨rfl, hshort⟩
  · refine Or.inr ⟨hptr, ?_⟩
    by_contra hnone
    push Not at hnone
    -- were `d` in front of `c`, then `c` would be one of the short cells behind `d`
    have hsplit : before ++ c :: after = before' ++ d :: after' := hcut ▸ hcut'
    rcases List.append_eq_append_iff.mp hsplit with ⟨more, rfl, hmore⟩ | ⟨more, rfl, hmore⟩
    · cases more with
      | nil =>
        injection hmore with heq
        exact hptr (by rw [heq])
      | cons e more =>
        injection hmore with _ hafter
        have hle := hnone d (by rw [hafter]; simp)
        omega
    · cases more with
      | nil =>
        injection hmore with heq
        exact hptr (by rw [heq])
      | cons e more =>
        injection hmore with _ hafter
        have hle := hshort c (by rw [hafter]; simp)
        omega

theorem IsPred.mem {entry : Ptr × Int} (hpred : IsPred front i entry) :
    ∃ c ∈ front, c.ptr = entry.1 := by
  obtain ⟨before, c, after, rfl, -, -, rfl⟩ := hpred
  exact ⟨c, by simp, rfl⟩

variable {back : List (Cell T)}

/-- What a search leaves for a level determines the pointer and the span stored
there: the first cell of the rest that reaches the level, counted from the
predecessor. -/
theorem Linked.levelAt_pred {heap : Store (Node T)} {lim : Nat}
    (hlinked : Linked heap lim (front ++ back)) (hi : i < lim) (hcut : front = before ++ c :: after)
    (hc : i < c.height) (hshort : ∀ d ∈ after, d.height ≤ i) :
    levelAt heap c.ptr i = .ok ⟨nextOf i back, after.length + spanOf i back⟩ := by
  have hnode := hlinked before c (after ++ back) (by rw [hcut]; simp)
  obtain ⟨level, hlevel⟩ := exists_levelAt hnode.shape hc
  have hnext := hnode.next i level hlevel
  have hspan := hnode.span i level hi hlevel
  rw [nextOf_append_short back hshort] at hnext
  rw [spanOf_append_short back hshort] at hspan
  rw [hlevel, ← hnext, ← hspan]

/-- Two ways of cutting one list: the chosen cell lies in the back part or in the
front part. -/
theorem cut_cases {short rest : List (Cell T)} (hcut : front ++ back = short ++ c :: rest) :
    (∃ more, short = front ++ more ∧ back = more ++ c :: rest) ∨
      ∃ tail, front = short ++ c :: tail ∧ rest = tail ++ back := by
  rcases List.append_eq_append_iff.mp hcut with ⟨more, hshort, hback⟩ | ⟨more, hfront, hrest⟩
  · exact Or.inl ⟨more, hshort, hback⟩
  · cases more with
    | nil => exact Or.inl ⟨[], by simpa using hfront.symm, by simpa using hrest.symm⟩
    | cons d more =>
      rw [List.cons_append] at hrest
      injection hrest with hd hrest
      exact Or.inr ⟨more, by rw [hfront, hd], hrest⟩

/-- Where the pointer of a cell leads, of the cells behind it cut in two: nowhere, with no
cell of the first part on the level; into the second part, past the whole first part; or into
the first part. -/
theorem Linked.next_cases {heap : Store (Node T)} {lim : Nat} {cells : List (Cell T)}
    (hlinked : Linked heap lim cells) (hi : i < lim)
    (hcells : cells = before ++ c :: (after ++ back)) (hc : i < c.height) :
    ∃ level, levelAt heap c.ptr i = .ok level ∧
      ((level.next = none ∧ ∀ d ∈ after, d.height ≤ i) ∨
        (∃ d ∈ back, level.next = some d.ptr ∧ (after.length : Int) < level.span ∧
          ∀ e ∈ after, e.height ≤ i) ∨
        ∃ short d tail, after = short ++ d :: tail ∧ i < d.height ∧
          level.next = some d.ptr ∧ level.span = short.length + 1) := by
  have hnode := hlinked before c (after ++ back) hcells
  obtain ⟨level, hlevel⟩ := exists_levelAt hnode.shape hc
  refine ⟨level, hlevel, ?_⟩
  have hnext := hnode.next i level hlevel
  cases hcase : level.next with
  | none =>
    rw [hcase] at hnext
    have hshort := short_of_nextOf_eq_none hnext.symm
    exact Or.inl ⟨rfl, fun d hd => hshort d (List.mem_append_left back hd)⟩
  | some p =>
    rw [hcase] at hnext
    obtain ⟨short, d, rest, hcut, rfl, hd, hshort⟩ := exists_of_nextOf_eq_some hnext.symm
    have hspan : level.span = short.length + 1 := by
      rw [hnode.span i level hi hlevel, hcut, spanOf_append_short _ hshort]
      simp [spanOf, hd]
    rcases cut_cases hcut with ⟨more, rfl, hmore⟩ | ⟨tail, rfl, rfl⟩
    · refine Or.inr (Or.inl ⟨d, by simp [hmore], rfl, ?_, ?_⟩)
      · rw [hspan, List.length_append]
        omega
      · exact fun e he => hshort e (List.mem_append_left more he)
    · exact Or.inr (Or.inr ⟨short, d, tail, rfl, hd, rfl, hspan⟩)

theorem subset_of_cut {head : Cell T} (hcut : head :: front = before ++ c :: after) :
    after ⊆ front := by
  cases before with
  | nil =>
    injection hcut with _ hfront
    exact hfront ▸ List.Subset.refl _
  | cons first before =>
    injection hcut with _ hfront
    rw [hfront]
    exact fun a ha => by simp [ha]

section Search

variable [ElemType T] {heap : Store (Node T)} {lim : Nat} {cells : List (Cell T)}

/-- The inner loop stops at the last smaller cell that reaches its level. -/
theorem walk_spec (hlinked : Linked heap lim cells) (hi : i < lim) (data : T) :
    ∀ (fuel : Nat) (before : List (Cell T)) (c : Cell T) (after back : List (Cell T)),
      cells = before ++ c :: (after ++ back) → i < c.height →
      (∀ a ∈ after, compare a.data data < 0) → (∀ b ∈ back, ¬ compare b.data data < 0) →
      after.length < fuel →
      ∃ entry, walk heap data i fuel c.ptr before.length = .ok entry ∧
        IsPred (before ++ c :: after) i entry := by
  intro fuel
  induction fuel with
  | zero => intro before c after back _ _ _ _ hfuel; simp at hfuel
  | succ fuel ih =>
    intro before c after back hcells hc hafter hback hfuel
    have hdata : ∀ d ∈ after ++ back, dataAt heap d.ptr = .ok d.data := by
      intro d hd
      refine dataAt_of_shape (hlinked.shape_of_mem ?_)
      rw [hcells]
      exact List.mem_append_right before (List.mem_cons_of_mem c hd)
    obtain ⟨level, hlevel, ⟨hnext, hshort⟩ | ⟨d, hd, hnext, -, hshort⟩ |
      ⟨short, d, tail, rfl, hd, hnext, hspan⟩⟩ := hlinked.next_cases hi hcells hc
    · exact ⟨(c.ptr, before.length), by simp [walk, hlevel, hnext], before, c, after,
        rfl, hc, hshort, rfl⟩
    · -- the next cell is not smaller
      have hless := hback d hd
      have hdataD := hdata d (List.mem_append_right after hd)
      exact ⟨(c.ptr, before.length), by simp [walk, hlevel, hnext, hdataD, hless], before, c,
        after, rfl, hc, hshort, rfl⟩
    · -- the next cell is smaller: advance to it
      have hless := hafter d (by simp)
      have hdataD := hdata d (by simp)
      have hrank : (before.length : Int) + level.span =
          ((before ++ c :: short).length : Int) := by
        rw [hspan]
        simp
      obtain ⟨entry, hwalk, hpred⟩ := ih (before ++ c :: short) d tail back
        (by rw [hcells]; simp) hd (fun a ha => hafter a (by simp [ha])) hback
        (by simp at hfuel; omega)
      refine ⟨entry, ?_, by simpa using hpred⟩
      simp [walk, hlevel, hnext, hdataD, hless, hrank, ← hwalk]

/-- The outer loop leaves, for each level below the one it starts at, the last
smaller cell that reaches it, and stops where its last round stopped. -/
theorem descend_spec (hlinked : Linked heap lim cells) (data : T) {head : Cell T}
    (hcells : cells = head :: front ++ back) (hfront : ∀ a ∈ front, compare a.data data < 0)
    (hback : ∀ b ∈ back, ¬ compare b.data data < 0) {fuel : Nat} (hfuel : front.length < fuel) :
    ∀ (n : Nat) (before : List (Cell T)) (c : Cell T) (after : List (Cell T))
      (path : List (Ptr × Int)),
      head :: front = before ++ c :: after → n ≤ lim → n ≤ c.height →
      ∃ found last, descend heap data fuel n c.ptr before.length path =
          .ok (found ++ path, last) ∧
        found.length = n ∧ (0 < n → found.head? = some last) ∧
        ∀ j entry, found[j]? = some entry → IsPred (head :: front) j entry := by
  intro n
  induction n with
  | zero =>
    intro before c after path _ _ _
    exact ⟨[], (c.ptr, (before.length : Int)), rfl, rfl, by simp, by simp⟩
  | succ n ih =>
    intro before c after path hcut hn hc
    have hsub := subset_of_cut hcut
    have hshorter : after.length < fuel := by
      have hlength := congrArg List.length hcut
      simp at hlength
      omega
    obtain ⟨entry, hwalk, hpred⟩ := walk_spec hlinked (i := n) (by omega) data fuel
      before c after back (by rw [hcells, hcut]; simp) (by omega)
      (fun a ha => hfront a (hsub ha)) hback hshorter
    rw [← hcut] at hpred
    obtain ⟨before', d, after', hcut', hd, hshort, hentry⟩ := id hpred
    obtain ⟨found, last, hdescend, hlength, hhead, hfound⟩ := ih before' d after'
      (entry :: path) hcut' (by omega) (by omega)
    subst hentry
    refine ⟨found ++ [(d.ptr, (before'.length : Int))], last, ?_, by simp [hlength], ?_, ?_⟩
    · simp [descend, hwalk, hdescend]
    · intro _
      cases n with
      | zero =>
        obtain rfl := List.length_eq_zero_iff.mp hlength
        simp [descend] at hdescend
        simp [hdescend]
      | succ n =>
        have hne : found ≠ [] := by intro hnil; simp [hnil] at hlength
        rw [List.head?_append_of_ne_nil _ hne]
        exact hhead (Nat.succ_pos n)
    · intro j found' hj
      rcases Nat.lt_or_ge j found.length with hlt | hge
      · rw [List.getElem?_append_left hlt] at hj
        exact hfound j found' hj
      · have hj' : j = n := by
          have hbound := (List.getElem?_eq_some_iff.mp hj).1
          simp at hbound
          omega
        subst hj'
        rw [List.getElem?_append_right hge, hlength] at hj
        simp at hj
        exact hj ▸ hpred

end Search

end Gokit.Ds
