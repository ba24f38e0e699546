/-
# What can be read off a skip list after any run

`SkipList.Invariant` restates the representation through the heap alone: the
chain of every level, the stored spans, the level and the length.  It is then
shown to hold after every sequence of allowed operations from `NewSkipList`,
together with the refinement of the sorted-sequence model.
-/

import Gokit.Ds.SkipList.Refinement

namespace Gokit.Ds

open Gokit.Math

variable {T : Type}

/-! ## Observing the heap -/

/-- The nodes met along level `i` from a pointer to the end of the level. -/
def follow (heap : Store (Node T)) (i : Nat) : (fuel : Nat) → Option Ptr → Exec (List Ptr)
  | _, none => .ok []
  | 0, some _ => .error .diverges
  | fuel + 1, some p => do
    let level ← levelAt heap p i
    let rest ← follow heap i fuel level.next
    .ok (p :: rest)

/-- The chain of level `i`, without the header. -/
def SkipList.nodesAt (sl : SkipList T) (i : Nat) : Exec (List Ptr) := do
  let top ← levelAt sl.heap sl.header i
  follow sl.heap i sl.heap.fresh top.next

def heightOf (heap : Store (Node T)) (p : Ptr) : Nat :=
  match heap.read p with
  | some node => node.level.length
  | none => 0

/-- The number of level-0 steps from the header to a node, or to the end of the
list for a nil pointer. -/
def placeOf (sl : SkipList T) (nodes : List Ptr) : Option Ptr → Nat
  | some p => (sl.header :: nodes).idxOf p
  | none => nodes.length

/-- The nodes of `sl` are `nodes`, they hold `elems`, and every level is in
order. -/
structure SkipList.Invariant [ElemType T] (sl : SkipList T) (nodes : List Ptr)
    (elems : List T) : Prop where
  bottom : sl.nodesAt 0 = .ok nodes
  chain : ∀ i < maxLevel, sl.nodesAt i = .ok (nodes.filter fun p => i < heightOf sl.heap p)
  data : nodes.map (dataAt sl.heap) = elems.map .ok
  increasing : Increasing elems
  length : sl.length = nodes.length
  span : ∀ i < sl.level, ∀ p ∈ sl.header :: nodes, ∀ level, levelAt sl.heap p i = .ok level →
    level.span = placeOf sl nodes level.next - placeOf sl nodes (some p)
  level : sl.level = nodes.foldr (fun p greatest => max (heightOf sl.heap p) greatest) 1

variable {heap : Store (Node T)}

theorem heightOf_of_shape {p : Ptr} {data : T} {height : Nat}
    (hshape : shape heap p = some (data, height)) : heightOf heap p = height := by
  obtain ⟨levels, hread, rfl⟩ := shape_eq_some_iff.mp hshape
  simp [heightOf, hread]

variable {cells : List (Cell T)}

theorem filter_heightOf (i : Nat)
    (hshape : ∀ c ∈ cells, shape heap c.ptr = some (c.data, c.height)) :
    (cells.map Cell.ptr).filter (fun p => i < heightOf heap p) =
      (cells.filter fun c => i < c.height).map Cell.ptr := by
  rw [List.filter_map]
  congr 1
  refine List.filter_congr fun c hc => ?_
  simp only [Function.comp_apply, heightOf_of_shape (hshape c hc)]

theorem Linked.follow_spec {lim i : Nat} (hlinked : Linked heap lim cells) :
    ∀ (rest pre : List (Cell T)) (fuel : Nat), cells = pre ++ rest → rest.length ≤ fuel →
      follow heap i fuel (nextOf i rest) =
        .ok ((rest.filter fun c => i < c.height).map Cell.ptr) := by
  intro rest
  induction rest with
  | nil =>
    intro pre fuel _ _
    simp [nextOf, follow]
  | cons c rest ih =>
    intro pre fuel hcells hfuel
    rw [List.length_cons] at hfuel
    have htail : cells = (pre ++ [c]) ++ rest := by rw [hcells]; simp
    by_cases hc : i < c.height
    · have hnode := hlinked pre c rest hcells
      obtain ⟨level, hlevel⟩ := exists_levelAt hnode.shape hc
      obtain ⟨fuel, rfl⟩ : ∃ smaller, fuel = smaller + 1 := ⟨fuel - 1, by omega⟩
      have hrest := ih (pre ++ [c]) fuel htail (by omega)
      rw [← hnode.next i level hlevel] at hrest
      simp [nextOf, hc, follow, hlevel, hrest]
    · have hrest := ih (pre ++ [c]) fuel htail (by omega)
      simp [nextOf, hc, hrest]

theorem idxOf_of_cut {ptrs pre post : List Ptr} {p : Ptr} (hnodup : ptrs.Nodup)
    (hcut : ptrs = pre ++ p :: post) : ptrs.idxOf p = pre.length := by
  subst hcut
  have hnot : p ∉ pre := fun hmem =>
    (List.nodup_append.mp hnodup).2.2 p hmem p List.mem_cons_self rfl
  rw [List.idxOf_append_of_notMem hnot, List.idxOf_cons_self, Nat.add_zero]

section

variable [ElemType T]

/-- A represented list satisfies the observable invariant. -/
theorem Rep.invariant {sl : SkipList T} {head : Cell T} (hrep : Rep sl head cells) :
    sl.Invariant (cells.map Cell.ptr) (cells.map Cell.data) := by
  have hshape : ∀ c ∈ cells, shape sl.heap c.ptr = some (c.data, c.height) := fun c hc =>
    hrep.shape_cell hc
  have hchain : ∀ i < maxLevel,
      sl.nodesAt i = .ok ((cells.filter fun c => i < c.height).map Cell.ptr) := by
    intro i hi
    obtain ⟨top, htop⟩ := exists_levelAt hrep.shape_head hi
    have hnode : NodeRep sl.heap sl.level head cells := hrep.linked [] head cells rfl
    have hfollow := hrep.linked.follow_spec cells [head] sl.heap.fresh rfl
      hrep.length_lt_fresh.le (i := i)
    rw [← hnode.next i top htop] at hfollow
    simpa [SkipList.nodesAt, ← hrep.header, htop] using hfollow
  have hall : (cells.filter fun c => 0 < c.height) = cells :=
    List.filter_eq_self.mpr fun c hc => decide_eq_true (hrep.height c hc).1
  exact
    { bottom := by
        have hzero := hchain 0 (by decide)
        rwa [hall] at hzero
      chain := by
        intro i hi
        rw [filter_heightOf i hshape]
        exact hchain i hi
      data := by
        rw [List.map_map, List.map_map]
        exact List.map_congr_left fun c hc => dataAt_of_shape (hshape c hc)
      increasing := hrep.sorted
      length := by rw [hrep.length, List.length_map]
      span := by
        intro i hi p hp level hlevel
        have hplaces : sl.header :: cells.map Cell.ptr = (head :: cells).map Cell.ptr := by
          rw [List.map_cons, hrep.header]
        obtain ⟨c, hc, rfl⟩ := List.mem_map.mp (hplaces ▸ hp)
        obtain ⟨pre, post, hcut⟩ := List.append_of_mem hc
        have hnode := hrep.linked pre c post hcut
        have hown : placeOf sl (cells.map Cell.ptr) (some c.ptr) = pre.length := by
          rw [placeOf, hplaces, idxOf_of_cut hrep.nodup (by rw [hcut, List.map_append]; rfl),
            List.length_map]
        have hcount := congrArg List.length hcut
        simp only [List.length_cons, List.length_append] at hcount
        rw [hnode.span i level hi hlevel, hown, hnode.next i level hlevel]
        cases hnext : nextOf i post with
        | none =>
          rw [spanOf_eq_length (short_of_nextOf_eq_none hnext), placeOf, List.length_map]
          omega
        | some q =>
          obtain ⟨short, d, rest, rfl, rfl, hd, hshort⟩ := exists_of_nextOf_eq_some hnext
          have hplace : placeOf sl (cells.map Cell.ptr) (some d.ptr) =
              pre.length + 1 + short.length := by
            have hcut' : head :: cells = (pre ++ c :: short) ++ d :: rest := by
              rw [hcut]; simp
            rw [placeOf, hplaces,
              idxOf_of_cut hrep.nodup (by rw [hcut', List.map_append]; rfl), List.length_map]
            simp
            omega
          rw [hplace, spanOf_append_short _ hshort]
          simp only [spanOf, if_pos hd]
          omega
      level := by
        rw [hrep.level]
        clear hrep hchain hall
        induction cells with
        | nil => rfl
        | cons c cells ih =>
          rw [levelOf, List.map_cons, List.foldr_cons,
            heightOf_of_shape (hshape c List.mem_cons_self),
            ih fun d hd => hshape d (List.mem_cons_of_mem c hd)] }

/-! ## Runs -/

/-- Perform one operation, with the height drawn in case it needs one. -/
def SkipList.apply (sl : SkipList T) (op : Op T) (drawn : DrawnLevel) : Exec (SkipList T × Ret) :=
  match op with
  | .insert data => do
    let (sl, rank) ← sl.insert data drawn
    .ok (sl, .rank rank)
  | .remove data => do
    let (sl, found) ← sl.remove data
    .ok (sl, .found found)
  | .update old data => do
    let (sl, rank) ← sl.update old data drawn
    .ok (sl, .rank rank)
  | .clear => do
    let sl ← sl.clear
    .ok (sl, .done)

/-- Perform operations one after the other, collecting what they return. -/
def SkipList.run : SkipList T → List (Op T × DrawnLevel) → Exec (SkipList T × List Ret)
  | sl, [] => .ok (sl, [])
  | sl, (op, drawn) :: ops => do
    let (sl, ret) ← sl.apply op drawn
    let (sl, rets) ← sl.run ops
    .ok (sl, ret :: rets)

variable [LawfulElemType T]

/-- One allowed operation: the heap follows the model. -/
theorem Rep.apply_refines {sl : SkipList T} {head : Cell T} (hrep : Rep sl head cells) (op : Op T)
    (drawn : DrawnLevel) (hallowed : op.Allowed (cells.map Cell.data)) :
    ∃ sl' cells', sl.apply op drawn = .ok (sl', (op.spec (cells.map Cell.data)).2) ∧
      Rep sl' head cells' ∧ cells'.map Cell.data = (op.spec (cells.map Cell.data)).1 := by
  cases op with
  | insert data =>
    obtain ⟨sl', cells', hinsert, hrep', hcells'⟩ := hrep.insert_refines drawn hallowed
    exact ⟨sl', cells', by simp [SkipList.apply, hinsert, Op.spec], hrep', hcells'⟩
  | remove data =>
    obtain ⟨sl', cells', hremove, hrep', hcells'⟩ := hrep.remove_refines data
    exact ⟨sl', cells', by simp [SkipList.apply, hremove, Op.spec], hrep', hcells'⟩
  | update old data =>
    obtain ⟨sl', cells', hupdate, hrep', hcells'⟩ := hrep.update_refines drawn hallowed.1 hallowed.2
    exact ⟨sl', cells', by simp [SkipList.apply, hupdate, Op.spec], hrep', hcells'⟩
  | clear =>
    obtain ⟨sl', hclear, hrep'⟩ := hrep.clear_refines
    exact ⟨sl', [], by simp [SkipList.apply, hclear, Op.spec], hrep', rfl⟩

theorem Rep.run_refines :
    ∀ (ops : List (Op T × DrawnLevel)) {sl : SkipList T} {head : Cell T}
      {cells : List (Cell T)}, Rep sl head cells →
      AllowedRun (cells.map Cell.data) (ops.map Prod.fst) →
      ∃ sl' cells', sl.run ops =
          .ok (sl', (specRun (cells.map Cell.data) (ops.map Prod.fst)).2) ∧
        Rep sl' head cells' ∧
        cells'.map Cell.data = (specRun (cells.map Cell.data) (ops.map Prod.fst)).1 := by
  intro ops
  induction ops with
  | nil =>
    intro sl head cells hrep _
    exact ⟨sl, cells, rfl, hrep, rfl⟩
  | cons first ops ih =>
    obtain ⟨op, drawn⟩ := first
    intro sl head cells hrep hallowed
    obtain ⟨sl', cells', happly, hrep', hcells'⟩ := hrep.apply_refines op drawn hallowed.1
    obtain ⟨sl'', cells'', hrun, hrep'', hcells''⟩ := ih hrep' (by
      rw [hcells']
      exact hallowed.2)
    rw [hcells'] at hrun hcells''
    exact ⟨sl'', cells'', by simp [SkipList.run, happly, hrun, specRun], hrep'', hcells''⟩

/-- **Every run of a skip list keeps its representation and refines the sorted
sequence.** The operations never fault, whatever heights are drawn; the list
ends up holding the sequence the model computes, in a heap all of whose levels
are in order; and the returned values are those of the model, which knows
nothing about heights. -/
theorem newSkipList_run_refines [Inhabited T] (ops : List (Op T × DrawnLevel))
    (hallowed : AllowedRun [] (ops.map Prod.fst)) :
    ∃ sl nodes, (newSkipList : SkipList T).run ops =
        .ok (sl, (specRun [] (ops.map Prod.fst)).2) ∧
      sl.Invariant nodes (specRun [] (ops.map Prod.fst)).1 := by
  obtain ⟨sl, cells, hrun, hrep, hcells⟩ := Rep.run_refines ops rep_newSkipList hallowed
  exact ⟨sl, cells.map Cell.ptr, hrun, hcells ▸ hrep.invariant⟩

/-- The theorem at one run with three heights, an update that stays in place and
one that moves. -/
theorem newSkipList_run_refines_int :
    ∃ sl nodes, (newSkipList : SkipList Int).run
        [(.insert 20, ⟨3, by decide⟩), (.insert 10, ⟨1, by decide⟩), (.insert 30, ⟨2, by decide⟩),
          (.update 20 25, ⟨1, by decide⟩), (.update 10 40, ⟨4, by decide⟩),
          (.remove 5, ⟨1, by decide⟩)] =
        .ok (sl, [.rank 1, .rank 1, .rank 3, .rank 0, .rank 3, .found false]) ∧
      sl.Invariant nodes [25, 30, 40] :=
  newSkipList_run_refines _ (by decide)

end

end Gokit.Ds
