/-
# The rank tree: a dictionary beside a skip list

`RankTree` of `rank.go` ranks users.  It keeps the data of every user in a skip
list, ordered by `Compare`, and a dictionary from the user's key to that data, so
that a user's old data can be found in the list when it changes or goes away.
What it is for is a plain map from keys to the data last written, with ranks
read off the order of the data.

The two halves have to agree.  Inserting and removing a key keeps them in step.
Moving a key does not: when `Update` finds the key with different data it updates
the skip list and leaves the dictionary as it was.  The refinement is therefore
proved for the runs that never take that branch, and a run of two updates shows
what happens when it is taken.
-/

import Gokit.Ds.SkipList.Invariant
import Mathlib.Data.List.AList

namespace Gokit.Ds

open Gokit.Math

structure RankTree (U T : Type) where
  sl : SkipList T
  dict : AList fun _ : U => T

section Operations

variable {U T : Type} [DecidableEq U] [ElemType T]

omit [DecidableEq U] [ElemType T] in
def newRankTree [Inhabited T] : RankTree U T where
  sl := newSkipList
  dict := ∅

/-- `RankTree.Update`, with the height drawn if a node is inserted. -/
def RankTree.update (t : RankTree U T) (userKey : U) (data : T) (drawn : DrawnLevel) :
    Exec (RankTree U T × Int) :=
  match t.dict.lookup userKey with
  | some d =>
    if compare d data = 0 then
      .ok (t, 0)
    else do
      let (sl, rank) ← t.sl.update d data drawn
      .ok ({ t with sl }, rank)
  | none => do
    let (sl, rank) ← t.sl.insert data drawn
    .ok (⟨sl, t.dict.insert userKey data⟩, rank)

def RankTree.remove (t : RankTree U T) (userKey : U) : Exec (RankTree U T × Bool) :=
  match t.dict.lookup userKey with
  | some d => do
    let (sl, _) ← t.sl.remove d
    .ok (⟨sl, t.dict.erase userKey⟩, true)
  | none => .ok (t, false)

def RankTree.getRank (t : RankTree U T) (userKey : U) : Exec Int :=
  match t.dict.lookup userKey with
  | some d => t.sl.getRank d
  | none => .ok (-1)

omit [DecidableEq U] [ElemType T] in
def RankTree.clear (t : RankTree U T) : Exec (RankTree U T) := do
  let sl ← t.sl.clear
  .ok ⟨sl, ∅⟩

omit [DecidableEq U] [ElemType T] in
def RankTree.len (t : RankTree U T) : Int := t.sl.length

/-- The operations that write. -/
inductive TreeOp (U T : Type)
  | update (userKey : U) (data : T)
  | remove (userKey : U)
  | clear

def TreeOp.spec (m : U → Option T) : TreeOp U T → U → Option T
  | .update userKey data => Function.update m userKey (some data)
  | .remove userKey => Function.update m userKey none
  | .clear => fun _ => none

/-- The data last written for every key. -/
def lastWritten : (U → Option T) → List (TreeOp U T) → U → Option T
  | m, [] => m
  | m, op :: ops => lastWritten (op.spec m) ops

/-- What the users of a rank tree promise: data written for a key never compares
equal to the data of another key. -/
def TreeOp.Distinct (m : U → Option T) : TreeOp U T → Prop
  | .update userKey data => ∀ other d, other ≠ userKey → m other = some d → compare d data ≠ 0
  | .remove _ => True
  | .clear => True

/-- The operation does not give a key data different from the data it has. -/
def TreeOp.KeepsData (m : U → Option T) : TreeOp U T → Prop
  | .update userKey data => ∀ d, m userKey = some d → compare d data = 0
  | .remove _ => True
  | .clear => True

/-- Every operation of a run satisfies `p` at the map it meets. -/
def AlongRun (p : (U → Option T) → TreeOp U T → Prop) : (U → Option T) → List (TreeOp U T) → Prop
  | _, [] => True
  | m, op :: ops => p m op ∧ AlongRun p (op.spec m) ops

def RankTree.apply (t : RankTree U T) (op : TreeOp U T) (drawn : DrawnLevel) :
    Exec (RankTree U T) :=
  match op with
  | .update userKey data => do
    let (t, _) ← t.update userKey data drawn
    .ok t
  | .remove userKey => do
    let (t, _) ← t.remove userKey
    .ok t
  | .clear => t.clear

def RankTree.run : RankTree U T → List (TreeOp U T × DrawnLevel) → Exec (RankTree U T)
  | t, [] => .ok t
  | t, (op, drawn) :: ops => do
    let t ← t.apply op drawn
    t.run ops

/-- The tree stands for the plain map `m`: the dictionary is `m`, the skip list
is intact and holds exactly the values of the dictionary, length and ranks are
those of the map, removing a present key takes its data out of the ranking, and
no operation faults. -/
structure RankTree.Refines (t : RankTree U T) (m : U → Option T) : Prop where
  dict : ∀ k, t.dict.lookup k = m k
  ranking : ∃ nodes elems, t.sl.Invariant nodes elems ∧
    (∀ d, d ∈ elems ↔ ∃ k, t.dict.lookup k = some d) ∧
    ∀ k d, m k = some d → ∃ t' nodes', t.remove k = .ok (t', true) ∧
      t'.sl.Invariant nodes' (sortedRemove d elems)
  len : t.len = t.dict.entries.length
  rank : ∀ k, t.getRank k = .ok (match m k with
    | some d => 1 + (t.dict.entries.countP fun e => compare e.2 d < 0 : Nat)
    | none => -1)
  total : ∀ op drawn, op.Distinct m → ∃ t', t.apply op drawn = .ok t'

end Operations

/-! ## The representation -/

/-- The skip list holds the values of the dictionary, each once. -/
structure TreeRep {U T : Type} [DecidableEq U] [ElemType T] (t : RankTree U T)
    (head : Cell T) (cells : List (Cell T)) : Prop where
  list : Rep t.sl head cells
  values : (cells.map Cell.data).Perm (t.dict.entries.map Sigma.snd)

section Representation

variable {U T : Type} [DecidableEq U] [ElemType T] [LawfulElemType T]

omit [ElemType T] [LawfulElemType T] in
theorem mem_values_iff {dict : AList fun _ : U => T} {d : T} :
    d ∈ dict.entries.map Sigma.snd ↔ ∃ k, dict.lookup k = some d := by
  rw [List.mem_map]
  constructor
  · rintro ⟨⟨k, d⟩, hentry, rfl⟩
    exact ⟨k, AList.mem_lookup_iff.mpr hentry⟩
  · rintro ⟨k, hlookup⟩
    exact ⟨⟨k, d⟩, AList.mem_lookup_iff.mp hlookup, rfl⟩

/-- In a sorted sequence a position counts the smaller elements. -/
theorem position_eq_countP {front back : List T} {d : T}
    (hfront : ∀ a ∈ front, compare a d < 0) (hback : ∀ b ∈ back, compare d b < 0) :
    position d (front ++ d :: back) =
      1 + (front ++ d :: back).countP fun e => compare e d < 0 := by
  have hless : front.countP (fun e => compare e d < 0) = front.length :=
    List.countP_eq_length.mpr fun a ha => decide_eq_true (hfront a ha)
  have hnone : (d :: back).countP (fun e => compare e d < 0) = 0 := by
    apply List.countP_eq_zero.mpr
    intro b hb
    rw [decide_eq_true_eq]
    rcases List.mem_cons.mp hb with rfl | hb
    · rw [compare_self]
      exact lt_irrefl 0
    · exact not_lt_of_gt (compare_pos_of_neg (hback b hb))
  rw [position_append hfront, List.countP_append, hless, hnone]
  omega

variable {t : RankTree U T} {head : Cell T} {cells : List (Cell T)}

omit [LawfulElemType T] in
theorem treeRep_newRankTree [Inhabited T] :
    ∃ head : Cell T, TreeRep (newRankTree : RankTree U T) head [] :=
  ⟨_, rep_newSkipList, List.Perm.refl []⟩

namespace TreeRep

variable {d : T}

omit [LawfulElemType T] in
theorem mem_iff (hrep : TreeRep t head cells) :
    d ∈ cells.map Cell.data ↔ ∃ k, t.dict.lookup k = some d :=
  hrep.values.mem_iff.trans mem_values_iff

variable {k : U}

omit [LawfulElemType T] in
theorem mem_of_lookup (hrep : TreeRep t head cells) (hlookup : t.dict.lookup k = some d) :
    d ∈ cells.map Cell.data :=
  hrep.mem_iff.mpr ⟨k, hlookup⟩

theorem rank_spec (hrep : TreeRep t head cells) (hlookup : t.dict.lookup k = some d) :
    t.getRank k = .ok (1 + (t.dict.entries.countP fun e => compare e.2 d < 0 : Nat)) := by
  have hpresent := hrep.mem_of_lookup hlookup
  have hcount : position d (cells.map Cell.data) =
      1 + t.dict.entries.countP fun e => compare e.2 d < 0 := by
    obtain ⟨front, x, back, rfl, rfl⟩ := hrep.list.exists_cell hpresent
    obtain ⟨hfront, hback⟩ := hrep.list.append_sorted
    have hperm := hrep.values.countP_eq fun e => compare e x.data < 0
    rw [List.map_append, List.map_cons, List.countP_map] at hperm
    rw [List.map_append, List.map_cons,
      position_eq_countP (by simpa using hfront) (by simpa using hback), hperm]
    rfl
  simp [RankTree.getRank, hlookup, hrep.list.getRank_refines hpresent, hcount]

/-- `Remove` of a present key takes its data out of both halves. -/
theorem remove_present (hrep : TreeRep t head cells) (hlookup : t.dict.lookup k = some d) :
    ∃ sl cells', t.remove k = .ok (⟨sl, t.dict.erase k⟩, true) ∧
      TreeRep ⟨sl, t.dict.erase k⟩ head cells' ∧
      cells'.map Cell.data = sortedRemove d (cells.map Cell.data) := by
  obtain ⟨sl, cells', hremove, hrep', hcells'⟩ := hrep.list.remove_refines d
  refine ⟨sl, cells', by simp [RankTree.remove, hlookup, hremove], ⟨hrep', ?_⟩, hcells'⟩
  obtain ⟨d', before, after, -, hentries, herase⟩ := List.exists_of_kerase
    (List.mem_keys_of_mem (AList.mem_lookup_iff.mp hlookup))
  obtain rfl : d = d' := by
    have hentry : (⟨k, d'⟩ : Sigma fun _ : U => T) ∈ t.dict.entries := by
      rw [hentries]
      simp
    exact Option.some.inj (hlookup.symm.trans (AList.mem_lookup_iff.mpr hentry))
  obtain ⟨front, x, back, rfl, rfl⟩ := hrep.list.exists_cell (hrep.mem_of_lookup hlookup)
  obtain ⟨hfront, hback⟩ := hrep.list.append_sorted
  have hvalues := hrep.values
  rw [hentries, List.map_append, List.map_append, List.map_cons, List.map_cons] at hvalues
  have hcancel : (x.data :: (front.map Cell.data ++ back.map Cell.data)).Perm
      (x.data :: (before.map Sigma.snd ++ after.map Sigma.snd)) :=
    List.perm_middle.symm.trans (hvalues.trans List.perm_middle)
  rw [hcells', List.map_append, List.map_cons,
    sortedRemove_append (by simpa using hfront) (by simpa using hback)]
  show List.Perm _ ((t.dict.entries.kerase k).map Sigma.snd)
  rw [herase, List.map_append]
  exact (List.perm_cons x.data).mp hcancel

/-- `Update` of an absent key inserts its data in both halves. -/
theorem update_absent (hrep : TreeRep t head cells) (drawn : DrawnLevel)
    (hlookup : t.dict.lookup k = none)
    (hdistinct : (TreeOp.update k d).Distinct fun k => t.dict.lookup k) :
    ∃ sl rank cells', t.update k d drawn = .ok (⟨sl, t.dict.insert k d⟩, rank) ∧
      TreeRep ⟨sl, t.dict.insert k d⟩ head cells' := by
  have habsent : d ∉ cells.map Cell.data := by
    intro hmem
    obtain ⟨other, hother⟩ := hrep.mem_iff.mp hmem
    have hne : other ≠ k := by
      rintro rfl
      rw [hlookup] at hother
      cases hother
    exact hdistinct other d hne hother (compare_self d)
  obtain ⟨sl, cells', hinsert, hrep', hcells'⟩ := hrep.list.insert_refines drawn habsent
  refine ⟨sl, (position d (sortedInsert d (cells.map Cell.data)) : Int), cells',
    by simp [RankTree.update, hlookup, hinsert], hrep', ?_⟩
  rw [hcells', AList.entries_insert_of_notMem (AList.lookup_eq_none.mp hlookup), List.map_cons]
  exact (List.perm_orderedInsert _ d _).trans (hrep.values.cons d)

/-- `Update` of a present key returns, and leaves the dictionary alone. -/
theorem update_present (hrep : TreeRep t head cells) {old : T} (drawn : DrawnLevel)
    (hlookup : t.dict.lookup k = some old)
    (hdistinct : (TreeOp.update k d).Distinct fun k => t.dict.lookup k) :
    ∃ sl rank, t.update k d drawn = .ok (⟨sl, t.dict⟩, rank) ∧
      (compare old d = 0 → sl = t.sl) := by
  by_cases hsame : compare old d = 0
  · exact ⟨t.sl, 0, by simp [RankTree.update, hlookup, hsame], fun _ => rfl⟩
  · have hother : ∀ e ∈ cells.map Cell.data, e = d → e = old := by
      rintro e he rfl
      obtain ⟨other, hkey⟩ := hrep.mem_iff.mp he
      by_cases heq : other = k
      · subst heq
        exact Option.some.inj (hkey.symm.trans hlookup)
      · exact absurd (compare_self e) (hdistinct other e heq hkey)
    obtain ⟨sl, -, hupdate, -, -⟩ :=
      hrep.list.update_refines drawn (hrep.mem_of_lookup hlookup) hother
    exact ⟨sl, (updateRank old d (cells.map Cell.data) : Int),
      by simp [RankTree.update, hlookup, hsame, hupdate], fun hzero => absurd hzero hsame⟩

/-- No operation that respects `Distinct` faults. -/
theorem apply_total (hrep : TreeRep t head cells) (op : TreeOp U T) (drawn : DrawnLevel)
    (hdistinct : op.Distinct fun k => t.dict.lookup k) : ∃ t', t.apply op drawn = .ok t' := by
  cases op with
  | update k d =>
    cases hlookup : t.dict.lookup k with
    | some old =>
      obtain ⟨sl, rank, hupdate, -⟩ := hrep.update_present drawn hlookup hdistinct
      exact ⟨⟨sl, t.dict⟩, by simp [RankTree.apply, hupdate]⟩
    | none =>
      obtain ⟨sl, rank, -, hupdate, -⟩ := hrep.update_absent drawn hlookup hdistinct
      exact ⟨⟨sl, t.dict.insert k d⟩, by simp [RankTree.apply, hupdate]⟩
  | remove k =>
    cases hlookup : t.dict.lookup k with
    | some d =>
      obtain ⟨sl, -, hremove, -⟩ := hrep.remove_present hlookup
      exact ⟨⟨sl, t.dict.erase k⟩, by simp [RankTree.apply, hremove]⟩
    | none => exact ⟨t, by simp [RankTree.apply, RankTree.remove, hlookup]⟩
  | clear =>
    obtain ⟨sl, hclear, -⟩ := hrep.list.clear_refines
    exact ⟨⟨sl, ∅⟩, by simp [RankTree.apply, RankTree.clear, hclear]⟩

/-- A represented tree stands for its dictionary. -/
theorem refines (hrep : TreeRep t head cells) : t.Refines fun k => t.dict.lookup k where
  dict _ := rfl
  ranking := by
    refine ⟨_, _, hrep.list.invariant, fun d => hrep.mem_iff, ?_⟩
    intro k d hlookup
    obtain ⟨sl, cells', hremove, hrep', hcells'⟩ := hrep.remove_present hlookup
    exact ⟨⟨sl, t.dict.erase k⟩, _, hremove, hcells' ▸ hrep'.list.invariant⟩
  len := by
    have hlength := hrep.values.length_eq
    rw [List.length_map, List.length_map] at hlength
    rw [RankTree.len, hrep.list.length, hlength]
  rank k := by
    cases hlookup : t.dict.lookup k with
    | some d => exact hrep.rank_spec hlookup
    | none => simp [RankTree.getRank, hlookup]
  total := hrep.apply_total

/-- One operation that keeps the data of present keys: the tree follows the
map. -/
theorem apply_refines (hrep : TreeRep t head cells) (op : TreeOp U T) (drawn : DrawnLevel)
    (hdistinct : op.Distinct fun k => t.dict.lookup k)
    (hkeeps : op.KeepsData fun k => t.dict.lookup k) :
    ∃ t' cells', t.apply op drawn = .ok t' ∧ TreeRep t' head cells' ∧
      (fun k => t'.dict.lookup k) = op.spec fun k => t.dict.lookup k := by
  cases op with
  | update k d =>
    cases hlookup : t.dict.lookup k with
    | some old =>
      have hzero := hkeeps old hlookup
      obtain ⟨sl, rank, hupdate, hsame⟩ := hrep.update_present drawn hlookup hdistinct
      obtain rfl := hsame hzero
      refine ⟨t, cells, by simp [RankTree.apply, hupdate], hrep, ?_⟩
      obtain rfl := eq_of_compare hzero
      rw [TreeOp.spec, ← hlookup, Function.update_eq_self]
    | none =>
      obtain ⟨sl, rank, cells', hupdate, hrep'⟩ := hrep.update_absent drawn hlookup hdistinct
      refine ⟨_, cells', by simp [RankTree.apply, hupdate], hrep', ?_⟩
      funext other
      by_cases heq : other = k
      · subst heq
        simp [TreeOp.spec]
      · simp [TreeOp.spec, AList.lookup_insert_ne heq, heq]
  | remove k =>
    cases hlookup : t.dict.lookup k with
    | some d =>
      obtain ⟨sl, cells', hremove, hrep', -⟩ := hrep.remove_present hlookup
      refine ⟨_, cells', by simp [RankTree.apply, hremove], hrep', ?_⟩
      funext other
      by_cases heq : other = k
      · subst heq
        simp [TreeOp.spec]
      · simp [TreeOp.spec, AList.lookup_erase_ne heq, heq]
    | none =>
      refine ⟨t, cells, by simp [RankTree.apply, RankTree.remove, hlookup], hrep, ?_⟩
      rw [TreeOp.spec, ← hlookup, Function.update_eq_self]
  | clear =>
    obtain ⟨sl, hclear, hrep'⟩ := hrep.list.clear_refines
    exact ⟨⟨sl, ∅⟩, [], by simp [RankTree.apply, RankTree.clear, hclear],
      ⟨hrep', List.Perm.refl []⟩, by funext k; simp [TreeOp.spec]⟩

/-- An operation that gives a present key other data leaves a tree that stands
for something else. -/
theorem not_refines_of_moved (hrep : TreeRep t head cells) {op : TreeOp U T} {drawn : DrawnLevel}
    (hdistinct : op.Distinct fun k => t.dict.lookup k)
    (hmoves : ¬ op.KeepsData fun k => t.dict.lookup k) {t' : RankTree U T}
    (happly : t.apply op drawn = .ok t') : ¬ t'.Refines (op.spec fun k => t.dict.lookup k) := by
  cases op with
  | update k d =>
    intro hrefines
    obtain ⟨old, hlookup, hdiffer⟩ : ∃ old, t.dict.lookup k = some old ∧ compare old d ≠ 0 := by
      simpa [TreeOp.KeepsData] using hmoves
    obtain ⟨sl, rank, hupdate, -⟩ := hrep.update_present drawn hlookup hdistinct
    obtain rfl : (⟨sl, t.dict⟩ : RankTree U T) = t' := by
      simpa [RankTree.apply, hupdate] using happly
    have hdict := hrefines.dict k
    simp only [hlookup, TreeOp.spec, Function.update_self, Option.some.injEq] at hdict
    subst hdict
    exact hdiffer (compare_self old)
  | remove k => exact absurd trivial hmoves
  | clear => exact absurd trivial hmoves

end TreeRep

end Representation

/-! ## Runs -/

section Runs

variable {U T : Type} [DecidableEq U] [ElemType T] [LawfulElemType T]

omit [LawfulElemType T] in
/-- In every state of the run, from its start to its end, the tree stands for the
map of the data last written. -/
def RankTree.RefinesThroughout (t : RankTree U T) (m : U → Option T)
    (ops : List (TreeOp U T × DrawnLevel)) : Prop :=
  ∀ done rest, ops = done ++ rest →
    ∃ t', t.run done = .ok t' ∧ t'.Refines (lastWritten m (done.map Prod.fst))

omit [LawfulElemType T] in
theorem RankTree.refinesThroughout_cons {t : RankTree U T} {m : U → Option T}
    {op : TreeOp U T} {drawn : DrawnLevel} {ops : List (TreeOp U T × DrawnLevel)}
    {t' : RankTree U T} (happly : t.apply op drawn = .ok t') (hrefines : t.Refines m) :
    t.RefinesThroughout m ((op, drawn) :: ops) ↔ t'.RefinesThroughout (op.spec m) ops := by
  constructor
  · intro hthroughout done rest hops
    obtain ⟨t'', hrun, hrefines''⟩ := hthroughout ((op, drawn) :: done) rest (by rw [hops]; rfl)
    exact ⟨t'', by simpa [RankTree.run, happly] using hrun, hrefines''⟩
  · intro hthroughout done rest hops
    cases done with
    | nil => exact ⟨t, rfl, hrefines⟩
    | cons first done =>
      injection hops with hfirst hops
      subst hfirst
      obtain ⟨t'', hrun, hrefines''⟩ := hthroughout done rest hops
      exact ⟨t'', by simpa [RankTree.run, happly] using hrun, hrefines''⟩

theorem TreeRep.run_refines_iff :
    ∀ (ops : List (TreeOp U T × DrawnLevel)) {t : RankTree U T} {head : Cell T}
      {cells : List (Cell T)}, TreeRep t head cells →
      AlongRun TreeOp.Distinct (fun k => t.dict.lookup k) (ops.map Prod.fst) →
      (t.RefinesThroughout (fun k => t.dict.lookup k) ops ↔
        AlongRun TreeOp.KeepsData (fun k => t.dict.lookup k) (ops.map Prod.fst)) := by
  intro ops
  induction ops with
  | nil =>
    intro t head cells hrep _
    refine iff_of_true ?_ trivial
    intro done rest hops
    obtain ⟨rfl, rfl⟩ := List.append_eq_nil_iff.mp hops.symm
    exact ⟨t, rfl, hrep.refines⟩
  | cons first ops ih =>
    obtain ⟨op, drawn⟩ := first
    intro t head cells hrep hdistinct
    by_cases hkeeps : op.KeepsData fun k => t.dict.lookup k
    · obtain ⟨t', cells', happly, hrep', hdict'⟩ := hrep.apply_refines op drawn hdistinct.1 hkeeps
      have hrest := ih hrep' (by rw [hdict']; exact hdistinct.2)
      rw [hdict'] at hrest
      rw [RankTree.refinesThroughout_cons happly hrep.refines, hrest]
      exact (and_iff_right hkeeps).symm
    · obtain ⟨t', happly⟩ := hrep.apply_total op drawn hdistinct.1
      rw [RankTree.refinesThroughout_cons happly hrep.refines]
      refine iff_of_false ?_ fun halong => hkeeps halong.1
      intro hthroughout
      obtain ⟨t'', hrun, hrefines⟩ := hthroughout [] ops rfl
      obtain rfl : t' = t'' := by simpa [RankTree.run] using hrun
      exact hrep.not_refines_of_moved hdistinct.1 hkeeps happly hrefines

/-- **A rank tree refines the map of the data last written in exactly the runs
that never give a present key different data.** In those runs nothing faults and
every state stands for the map, whatever heights are drawn; in the others the
dictionary is out of step with the ranking from the first such update on. -/
theorem newRankTree_refinesThroughout_iff [Inhabited T] (ops : List (TreeOp U T × DrawnLevel))
    (hdistinct : AlongRun TreeOp.Distinct (fun _ : U => none) (ops.map Prod.fst)) :
    (newRankTree : RankTree U T).RefinesThroughout (fun _ => none) ops ↔
      AlongRun TreeOp.KeepsData (fun _ : U => none) (ops.map Prod.fst) := by
  obtain ⟨head, hrep⟩ := treeRep_newRankTree (U := U) (T := T)
  exact hrep.run_refines_iff ops hdistinct

/-- The theorem at a run that inserts, repeats an update, removes and inserts
again. -/
theorem newRankTree_refinesThroughout_nat :
    (newRankTree : RankTree Nat Int).RefinesThroughout (fun _ => none)
      [(.update 1 50, ⟨2, by decide⟩), (.update 2 30, ⟨1, by decide⟩),
        (.update 1 50, ⟨1, by decide⟩), (.remove 2, ⟨1, by decide⟩),
        (.update 2 70, ⟨3, by decide⟩)] := by
  refine (newRankTree_refinesThroughout_iff _ ?_).mpr ?_
  · simp only [List.map_cons, List.map_nil, AlongRun, TreeOp.Distinct, TreeOp.spec,
      Function.update_apply, compare]
    grind
  · simp [AlongRun, TreeOp.KeepsData, TreeOp.spec, compare]

/-- Updating key `1` from `5` to `7` moves the data in the skip list only: the
dictionary still says `5`, the key has no rank, and removing it leaves `7` in the
ranking. -/
theorem newRankTree_update_moves_list_only :
    AlongRun TreeOp.Distinct (fun _ : Nat => none)
        [.update 1 5, (.update 1 7 : TreeOp Nat Int)] ∧
      ∃ t, (newRankTree : RankTree Nat Int).run
          [(.update 1 5, ⟨1, by decide⟩), (.update 1 7, ⟨1, by decide⟩)] = .ok t ∧
        t.dict.lookup 1 = some 5 ∧ t.getRank 1 = .ok (-1) ∧
        (∃ t', t.remove 1 = .ok (t', true) ∧ t'.len = 1) ∧
        ¬ t.Refines (lastWritten (fun _ => none) [.update 1 5, .update 1 7]) := by
  refine ⟨?_, _, rfl, rfl, rfl, ⟨_, rfl, rfl⟩, ?_⟩
  · simp only [AlongRun, TreeOp.Distinct, TreeOp.spec, Function.update_apply]
    grind
  · intro hrefines
    exact absurd (hrefines.dict 1) (by decide)

end Runs

end Gokit.Ds
