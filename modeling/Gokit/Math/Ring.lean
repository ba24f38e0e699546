/-
# Doubly linked rings in a store

A ring is a cyclic doubly linked list through a sentinel: the root points at the
first node, every node at the next one, the last node back at the root, and the
back pointers run the other way.  Many rings live in one store, and unlinking a
node does not need to know which ring it is in.

The theory is about the two pointer fields only, seen as functions from
addresses (`Links`), so that it can be used with cells that carry anything else.
`Seg` is an open piece of a ring; cutting a segment at a node and gluing two
segments together are what the effects of the list operations come down to.
`Rings` is a family of rings no two of which share a cell.
-/

import Gokit.Math.Store
import Mathlib.Data.List.Nodup

namespace Gokit.Math

/-! ## Cells with two links -/

/-- A cell with a value and two links. -/
structure LinkCell (β : Type) where
  value : β
  prev : Option Ptr
  next : Option Ptr
  deriving DecidableEq, Repr

/-- The two link fields of all cells. -/
@[ext]
structure Links where
  next : Ptr → Option Ptr
  prev : Ptr → Option Ptr

section Cells

variable {β : Type}

def linksOf (heap : Store (LinkCell β)) : Links where
  next p := (heap.read p).bind LinkCell.next
  prev p := (heap.read p).bind LinkCell.prev

def valueOf (heap : Store (LinkCell β)) (p : Ptr) : Option β := (heap.read p).map LinkCell.value

def setNext (heap : Store (LinkCell β)) (p : Ptr) (next : Option Ptr) :
    Exec (Store (LinkCell β)) := do
  let cell ← heap.deref p
  .ok (heap.write p { cell with next })

def setPrev (heap : Store (LinkCell β)) (p : Ptr) (prev : Option Ptr) :
    Exec (Store (LinkCell β)) := do
  let cell ← heap.deref p
  .ok (heap.write p { cell with prev })

def setValue (heap : Store (LinkCell β)) (p : Ptr) (value : β) : Exec (Store (LinkCell β)) := do
  let cell ← heap.deref p
  .ok (heap.write p { cell with value })

def getNext (heap : Store (LinkCell β)) (p : Ptr) : Exec (Option Ptr) := do
  let cell ← heap.deref p
  .ok cell.next

def getPrev (heap : Store (LinkCell β)) (p : Ptr) : Exec (Option Ptr) := do
  let cell ← heap.deref p
  .ok cell.prev

def getValue (heap : Store (LinkCell β)) (p : Ptr) : Exec β := do
  let cell ← heap.deref p
  .ok cell.value

variable {heap : Store (LinkCell β)} {p : Ptr} {value : β}

theorem valueOf_eq_some_iff :
    valueOf heap p = some value ↔ ∃ cell, heap.read p = some cell ∧ cell.value = value :=
  Option.map_eq_some_iff

theorem exists_valueOf_of_next {q : Ptr} (hnext : (linksOf heap).next p = some q) :
    ∃ value, valueOf heap p = some value := by
  obtain ⟨cell, hread, -⟩ := Option.bind_eq_some_iff.mp hnext
  exact ⟨cell.value, valueOf_eq_some_iff.mpr ⟨cell, hread, rfl⟩⟩

theorem exists_valueOf_of_prev {q : Ptr} (hprev : (linksOf heap).prev p = some q) :
    ∃ value, valueOf heap p = some value := by
  obtain ⟨cell, hread, -⟩ := Option.bind_eq_some_iff.mp hprev
  exact ⟨cell.value, valueOf_eq_some_iff.mpr ⟨cell, hread, rfl⟩⟩

theorem getNext_spec (hvalue : valueOf heap p = some value) :
    getNext heap p = .ok ((linksOf heap).next p) := by
  obtain ⟨cell, hread, -⟩ := valueOf_eq_some_iff.mp hvalue
  simp [getNext, Store.deref_of_read hread, linksOf, hread]

theorem getPrev_spec (hvalue : valueOf heap p = some value) :
    getPrev heap p = .ok ((linksOf heap).prev p) := by
  obtain ⟨cell, hread, -⟩ := valueOf_eq_some_iff.mp hvalue
  simp [getPrev, Store.deref_of_read hread, linksOf, hread]

theorem getValue_spec (hvalue : valueOf heap p = some value) : getValue heap p = .ok value := by
  obtain ⟨cell, hread, rfl⟩ := valueOf_eq_some_iff.mp hvalue
  simp [getValue, Store.deref_of_read hread]

/-- Overwriting an existing cell changes each view at that cell only. -/
theorem views_write {old : LinkCell β} (cell : LinkCell β) (hread : heap.read p = some old) :
    linksOf (heap.write p cell) =
        ⟨Function.update (linksOf heap).next p cell.next,
          Function.update (linksOf heap).prev p cell.prev⟩ ∧
      valueOf (heap.write p cell) = Function.update (valueOf heap) p (some cell.value) := by
  refine ⟨Links.ext (funext fun q => ?_) (funext fun q => ?_), funext fun q => ?_⟩
  all_goals
    by_cases heq : q = p
    · subst heq
      simp [linksOf, valueOf, Store.read_write_self cell hread]
    · simp [linksOf, valueOf, Store.read_write_of_ne cell heq, heq]

theorem setNext_spec (hvalue : valueOf heap p = some value) (next : Option Ptr) :
    ∃ heap', setNext heap p next = .ok heap' ∧
      linksOf heap' = ⟨Function.update (linksOf heap).next p next, (linksOf heap).prev⟩ ∧
      valueOf heap' = valueOf heap ∧ heap'.fresh = heap.fresh := by
  obtain ⟨cell, hread, rfl⟩ := valueOf_eq_some_iff.mp hvalue
  obtain ⟨hlinks, hvalues⟩ := views_write { cell with next } hread
  refine ⟨_, by rw [setNext, Store.deref_of_read hread]; rfl, ?_, ?_, by simp⟩
  · rw [hlinks]
    congr 1
    exact Function.update_eq_self_iff.mpr (by simp [linksOf, hread])
  · rw [hvalues]
    exact Function.update_eq_self_iff.mpr hvalue.symm

theorem setPrev_spec (hvalue : valueOf heap p = some value) (prev : Option Ptr) :
    ∃ heap', setPrev heap p prev = .ok heap' ∧
      linksOf heap' = ⟨(linksOf heap).next, Function.update (linksOf heap).prev p prev⟩ ∧
      valueOf heap' = valueOf heap ∧ heap'.fresh = heap.fresh := by
  obtain ⟨cell, hread, rfl⟩ := valueOf_eq_some_iff.mp hvalue
  obtain ⟨hlinks, hvalues⟩ := views_write { cell with prev } hread
  refine ⟨_, by rw [setPrev, Store.deref_of_read hread]; rfl, ?_, ?_, by simp⟩
  · rw [hlinks]
    congr 1
    exact Function.update_eq_self_iff.mpr (by simp [linksOf, hread])
  · rw [hvalues]
    exact Function.update_eq_self_iff.mpr hvalue.symm

theorem setValue_spec {old : β} (hvalue : valueOf heap p = some old) (value : β) :
    ∃ heap', setValue heap p value = .ok heap' ∧ linksOf heap' = linksOf heap ∧
      valueOf heap' = Function.update (valueOf heap) p (some value) ∧
      heap'.fresh = heap.fresh := by
  obtain ⟨cell, hread, rfl⟩ := valueOf_eq_some_iff.mp hvalue
  obtain ⟨hlinks, hvalues⟩ := views_write { cell with value } hread
  refine ⟨_, by rw [setValue, Store.deref_of_read hread]; rfl, ?_, hvalues, by simp⟩
  rw [hlinks]
  exact Links.ext (Function.update_eq_self_iff.mpr (by simp [linksOf, hread]))
    (Function.update_eq_self_iff.mpr (by simp [linksOf, hread]))

theorem views_alloc (heap : Store (LinkCell β)) (cell : LinkCell β) :
    linksOf (heap.alloc cell) =
        ⟨Function.update (linksOf heap).next heap.fresh cell.next,
          Function.update (linksOf heap).prev heap.fresh cell.prev⟩ ∧
      valueOf (heap.alloc cell) =
        Function.update (valueOf heap) heap.fresh (some cell.value) := by
  refine ⟨Links.ext (funext fun q => ?_) (funext fun q => ?_), funext fun q => ?_⟩
  all_goals
    by_cases heq : q = heap.fresh
    · subst heq
      simp [linksOf, valueOf]
    · simp [linksOf, valueOf, Store.read_alloc_of_ne cell heq, heq]

theorem valueOf_fresh (heap : Store (LinkCell β)) : valueOf heap heap.fresh = none := by
  simp [valueOf, Store.read_fresh]

end Cells

/-! ## Segments -/

namespace Links

/-- Two neighbouring cells. -/
def Adj (links : Links) (a b : Ptr) : Prop := links.next a = some b ∧ links.prev b = some a

/-- The cells `nodes` lie between `a` and `b`. -/
def Seg (links : Links) : Ptr → List Ptr → Ptr → Prop
  | a, [], b => links.Adj a b
  | a, x :: nodes, b => links.Adj a x ∧ links.Seg x nodes b

/-- Take `x` out from between its neighbours `a` and `b`. -/
def unlink (links : Links) (a x b : Ptr) : Links where
  next := Function.update (Function.update links.next a (some b)) x none
  prev := Function.update (Function.update links.prev b (some a)) x none

/-- Put `x` between `a` and `b`. -/
def link (links : Links) (a x b : Ptr) : Links where
  next := Function.update (Function.update links.next a (some x)) x (some b)
  prev := Function.update (Function.update links.prev x (some a)) b (some x)

variable {links other : Links} {a b x y : Ptr} {nodes front back : List Ptr}

theorem seg_append : links.Seg a (front ++ x :: back) b ↔
    links.Seg a front x ∧ links.Seg x back b := by
  induction front generalizing a with
  | nil => rfl
  | cons y front ih => simp only [List.cons_append, Seg, ih, and_assoc]

/-- A segment depends on the forward links of its cells but the last and on the
backward links of its cells but the first. -/
theorem Seg.congr (hseg : links.Seg a nodes b)
    (hnext : ∀ p ∈ a :: nodes, other.next p = links.next p)
    (hprev : ∀ p ∈ b :: nodes, other.prev p = links.prev p) : other.Seg a nodes b := by
  induction nodes generalizing a with
  | nil =>
    exact ⟨(hnext a List.mem_cons_self).trans hseg.1,
      (hprev b List.mem_cons_self).trans hseg.2⟩
  | cons x nodes ih =>
    refine ⟨⟨(hnext a List.mem_cons_self).trans hseg.1.1, ?_⟩, ih hseg.2 ?_ ?_⟩
    · exact (hprev x (List.mem_cons_of_mem b List.mem_cons_self)).trans hseg.1.2
    · intro p hp
      exact hnext p (List.mem_cons_of_mem a hp)
    · intro p hp
      rcases List.mem_cons.mp hp with rfl | hp
      · exact hprev p List.mem_cons_self
      · exact hprev p (List.mem_cons_of_mem b (List.mem_cons_of_mem x hp))

theorem Seg.exists_first (hseg : links.Seg a nodes b) :
    ∃ first ∈ nodes ++ [b], links.Adj a first := by
  cases nodes with
  | nil => exact ⟨b, by simp, hseg⟩
  | cons x nodes => exact ⟨x, by simp, hseg.1⟩

theorem Seg.exists_last (hseg : links.Seg a nodes b) : ∃ last ∈ a :: nodes, links.Adj last b := by
  induction nodes generalizing a with
  | nil => exact ⟨a, List.mem_cons_self, hseg⟩
  | cons x nodes ih =>
    obtain ⟨last, hlast, hadj⟩ := ih hseg.2
    exact ⟨last, List.mem_cons_of_mem a hlast, hadj⟩

variable {p : Ptr}

/-- Gluing at an unlinked cell: the two segments on its sides become one. -/
theorem Seg.glue {q : Ptr} (hleft : links.Seg a front x) (hright : links.Seg x back b)
    (hp : links.Adj p x) (hq : links.Adj x q) (hnodup : (a :: (front ++ x :: back)).Nodup)
    (hnodup' : (b :: (front ++ x :: back)).Nodup) :
    (links.unlink p x q).Seg a (front ++ back) b := by
  induction front generalizing a with
  | nil =>
    obtain rfl : a = p := Option.some.inj (hleft.2.symm.trans hp.2)
    simp only [List.nil_append] at hnodup hnodup' ⊢
    cases back with
    | nil =>
      obtain rfl : b = q := Option.some.inj (hright.1.symm.trans hq.1)
      have hax : a ≠ x := fun h => by simp [h] at hnodup
      have hbx : b ≠ x := fun h => by simp [h] at hnodup'
      exact ⟨by simp [unlink, hax], by simp [unlink, hbx]⟩
    | cons y back =>
      obtain rfl : y = q := Option.some.inj (hright.1.1.symm.trans hq.1)
      have hax : a ≠ x := fun h => by simp [h] at hnodup
      have hyx : y ≠ x := fun h => by simp [h] at hnodup
      refine ⟨⟨by simp [unlink, hax], by simp [unlink, hyx]⟩, hright.2.congr ?_ ?_⟩
      · intro c hc
        have hca : c ≠ a := fun h => by subst h; simp_all
        have hcx : c ≠ x := fun h => by subst h; simp_all
        simp [unlink, hca, hcx]
      · intro c hc
        have hcy : c ≠ y := fun h => by subst h; simp_all
        have hcx : c ≠ x := fun h => by subst h; simp_all
        simp [unlink, hcy, hcx]
  | cons y front ih =>
    obtain ⟨last, hlast, hlastAdj⟩ := hleft.2.exists_last
    obtain ⟨first, hfirst, hfirstAdj⟩ := hright.exists_first
    obtain rfl : last = p := Option.some.inj (hlastAdj.2.symm.trans hp.2)
    obtain rfl : first = q := Option.some.inj (hfirstAdj.1.symm.trans hq.1)
    have hal : a ≠ last := fun h => by subst h; simp_all
    have hax : a ≠ x := fun h => by simp [h] at hnodup
    have hyf : y ≠ first := fun h => by subst h; simp_all
    have hyx : y ≠ x := fun h => by simp [h] at hnodup
    refine ⟨⟨by simp [unlink, hal, hax, hleft.1.1], by simp [unlink, hyf, hyx, hleft.1.2]⟩,
      ih hleft.2 ?_ ?_⟩
    · exact (List.nodup_cons.mp hnodup).2
    · simp only [List.cons_append, List.nodup_cons, List.mem_cons, not_or] at hnodup' ⊢
      exact ⟨hnodup'.1.2, hnodup'.2.2⟩

theorem Seg.snoc (hseg : links.Seg a nodes b) (hp : links.Adj p b) (hnodup : (a :: nodes).Nodup)
    (hb : b ∉ nodes) (hx : x ∉ a :: nodes) (hxb : x ≠ b) :
    (links.link p x b).Seg a (nodes ++ [x]) b := by
  induction nodes generalizing a with
  | nil =>
    obtain rfl : a = p := Option.some.inj (hseg.2.symm.trans hp.2)
    have hax : a ≠ x := fun h => by simp [h] at hx
    exact ⟨⟨by simp [link, hax], by simp [link, hxb]⟩, by simp [link], by simp [link]⟩
  | cons y nodes ih =>
    obtain ⟨last, hlast, hlastAdj⟩ := hseg.2.exists_last
    obtain rfl : last = p := Option.some.inj (hlastAdj.2.symm.trans hp.2)
    have hal : a ≠ last := fun h => by subst h; simp_all
    have hax : a ≠ x := fun h => by simp [h] at hx
    have hyb : y ≠ b := fun h => by simp [h] at hb
    have hyx : y ≠ x := fun h => by simp [h] at hx
    refine ⟨⟨by simp [link, hal, hax, hseg.1.1], by simp [link, hyb, hyx, hseg.1.2]⟩,
      ih hseg.2 (List.nodup_cons.mp hnodup).2 ?_ ?_⟩
    · exact fun hmem => hb (List.mem_cons_of_mem y hmem)
    · exact fun hmem => hx (List.mem_cons_of_mem a hmem)

/-! ## Rings -/

/-- The ring through the sentinel `root`. -/
structure Ring (links : Links) (root : Ptr) (nodes : List Ptr) : Prop where
  seg : links.Seg root nodes root
  nodup : (root :: nodes).Nodup

variable {root : Ptr}

theorem Ring.congr (hring : links.Ring root nodes)
    (hagree : ∀ p ∈ root :: nodes, other.next p = links.next p ∧ other.prev p = links.prev p) :
    other.Ring root nodes :=
  ⟨hring.seg.congr (fun p hp => (hagree p hp).1) (fun p hp => (hagree p hp).2), hring.nodup⟩

/-- A node of a ring has neighbours in it, and unlinking it leaves a ring. -/
theorem Ring.unlink (hring : links.Ring root (front ++ x :: back)) :
    ∃ p ∈ root :: (front ++ back), ∃ q ∈ root :: (front ++ back),
      links.Adj p x ∧ links.Adj x q ∧ (links.unlink p x q).Ring root (front ++ back) := by
  obtain ⟨hleft, hright⟩ := seg_append.mp hring.seg
  obtain ⟨p, hp, hpx⟩ := hleft.exists_last
  obtain ⟨q, hq, hxq⟩ := hright.exists_first
  refine ⟨p, ?_, q, ?_, hpx, hxq, ?_, ?_⟩
  · simp only [List.mem_cons, List.mem_append] at hp ⊢
    tauto
  · simp only [List.mem_cons, List.mem_append, List.not_mem_nil, or_false] at hq ⊢
    tauto
  · exact hleft.glue hright hpx hxq hring.nodup hring.nodup
  · refine hring.nodup.sublist (List.Sublist.cons_cons root ?_)
    exact List.Sublist.append_left (List.sublist_cons_self x back) front

/-- Linking a new node in front of the sentinel adds it at the end. -/
theorem Ring.pushBack (hring : links.Ring root nodes) (hx : x ∉ root :: nodes) :
    ∃ p ∈ root :: nodes, links.Adj p root ∧
      (links.link p x root).Ring root (nodes ++ [x]) := by
  obtain ⟨p, hp, hadj⟩ := hring.seg.exists_last
  have hroot : root ∉ nodes := (List.nodup_cons.mp hring.nodup).1
  have hxr : x ≠ root := fun h => by simp [h] at hx
  refine ⟨p, hp, hadj, hring.seg.snoc hadj hring.nodup hroot hx hxr, ?_⟩
  rw [← List.cons_append]
  exact List.nodup_append.mpr ⟨hring.nodup, List.nodup_singleton x, by
    intro c hc d hd
    rw [List.mem_singleton.mp hd]
    exact fun h => hx (h ▸ hc)⟩

/-! ## Families of rings -/

section Family

variable {ι : Type}

/-- The cells of the list with index `i`. -/
def members (root : ι → Option Ptr) (nodes : ι → List Ptr) (i : ι) : List Ptr :=
  (root i).toList ++ nodes i

/-- Every list with a root is a ring, a list without one is empty, and no cell is
in two lists. -/
structure Rings (links : Links) (root : ι → Option Ptr) (nodes : ι → List Ptr) : Prop where
  ring : ∀ i r, root i = some r → links.Ring r (nodes i)
  empty : ∀ i, root i = none → nodes i = []
  apart : ∀ i j p, p ∈ members root nodes i → p ∈ members root nodes j → i = j

variable {roots : ι → Option Ptr} {lists : ι → List Ptr} {i : ι}

theorem mem_members_of_mem (hp : p ∈ lists i) : p ∈ members roots lists i :=
  List.mem_append_right _ hp

theorem members_eq_cons {r : Ptr} (hroot : roots i = some r) :
    members roots lists i = r :: lists i := by
  simp [members, hroot]

theorem Rings.exists_root (hrings : links.Rings roots lists) (hp : p ∈ lists i) :
    ∃ r, roots i = some r := by
  cases hroot : roots i with
  | some r => exact ⟨r, rfl⟩
  | none => simp [hrings.empty i hroot] at hp

theorem Rings.nodup (hrings : links.Rings roots lists) (i : ι) : (lists i).Nodup := by
  cases hroot : roots i with
  | some r => exact (List.nodup_cons.mp (hrings.ring i r hroot).nodup).2
  | none => simp [hrings.empty i hroot]

theorem Rings.congr (hrings : links.Rings roots lists)
    (hagree : ∀ i, ∀ p ∈ members roots lists i,
      other.next p = links.next p ∧ other.prev p = links.prev p) :
    other.Rings roots lists where
  ring i r hroot := (hrings.ring i r hroot).congr fun p hp =>
    hagree i p (by rwa [members_eq_cons hroot])
  empty := hrings.empty
  apart := hrings.apart

variable [DecidableEq ι]

/-- Change one list of the family: the links may change at the cells of that list
and at one cell that is in no other list. -/
theorem Rings.change (hrings : links.Rings roots lists) {r : Ptr} {nodes' : List Ptr}
    (hroot : roots i = some r) (hring : other.Ring r nodes')
    (hmem : ∀ p ∈ nodes', p ∈ members roots lists i ∨ ∀ j, p ∉ members roots lists j)
    (hagree : ∀ j ≠ i, ∀ p ∈ members roots lists j,
      other.next p = links.next p ∧ other.prev p = links.prev p) :
    other.Rings roots (Function.update lists i nodes') where
  ring j r' hroot' := by
    by_cases heq : j = i
    · subst heq
      obtain rfl : r = r' := Option.some.inj (hroot.symm.trans hroot')
      simpa using hring
    · rw [Function.update_of_ne heq]
      exact (hrings.ring j r' hroot').congr fun p hp =>
        hagree j heq p (by rwa [members_eq_cons hroot'])
  empty j hnone := by
    have heq : j ≠ i := fun h => by rw [h, hroot] at hnone; cases hnone
    rw [Function.update_of_ne heq]
    exact hrings.empty j hnone
  apart := by
    -- a cell of the changed list was there before or was in no list at all
    have hold : ∀ j p, p ∈ members roots (Function.update lists i nodes') j →
        p ∈ members roots lists j ∨ (j = i ∧ ∀ k, p ∉ members roots lists k) := by
      intro j p hp
      by_cases heq : j = i
      · subst heq
        rw [members_eq_cons hroot, Function.update_self] at hp
        rcases List.mem_cons.mp hp with rfl | hp
        · exact Or.inl (by rw [members_eq_cons hroot]; exact List.mem_cons_self)
        · exact (hmem p hp).imp id fun hnone => ⟨rfl, hnone⟩
      · left
        simpa [members, Function.update_of_ne heq] using hp
    intro j k p hj hk
    rcases hold j p hj with hjold | ⟨rfl, hnone⟩
    · rcases hold k p hk with hkold | ⟨rfl, hnone⟩
      · exact hrings.apart j k p hjold hkold
      · exact absurd hjold (hnone j)
    · rcases hold k p hk with hkold | ⟨rfl, -⟩
      · exact absurd hkold (hnone k)
      · rfl

/-- Unlinking a node takes it out of its list and touches no other. -/
theorem Rings.unlink (hrings : links.Rings roots lists) (hlist : lists i = front ++ x :: back) :
    ∃ p q, p ≠ x ∧ q ≠ x ∧ links.Adj p x ∧ links.Adj x q ∧
      (links.unlink p x q).Rings roots (Function.update lists i (front ++ back)) := by
  have hx : x ∈ lists i := by simp [hlist]
  obtain ⟨r, hroot⟩ := hrings.exists_root hx
  have hring := hrings.ring i r hroot
  have hnodup := hring.nodup
  rw [hlist] at hring hnodup
  obtain ⟨p, hp, q, hq, hpx, hxq, hring'⟩ := hring.unlink
  have hkept : ∀ c ∈ r :: (front ++ back), c ∈ members roots lists i ∧ c ≠ x := by
    intro c hc
    rw [members_eq_cons hroot, hlist]
    constructor
    · simp only [List.mem_cons, List.mem_append] at hc ⊢
      tauto
    · rintro rfl
      simp only [List.nodup_cons, List.nodup_append, List.mem_cons, List.mem_append] at hc hnodup
      grind
  refine ⟨p, q, (hkept p hp).2, (hkept q hq).2, hpx, hxq, ?_⟩
  refine hrings.change hroot hring' ?_ ?_
  · intro c hc
    exact Or.inl (hkept c (List.mem_cons_of_mem r hc)).1
  · intro j hj c hc
    have hother : ∀ d ∈ members roots lists i, c ≠ d := fun d hd h =>
      hj (hrings.apart j i c hc (h ▸ hd))
    have hcp := hother p (hkept p hp).1
    have hcq := hother q (hkept q hq).1
    have hcx := hother x (mem_members_of_mem hx)
    exact ⟨by simp [Links.unlink, hcp, hcx], by simp [Links.unlink, hcq, hcx]⟩

/-- Linking a cell that is in no list at the end of one list touches no other. -/
theorem Rings.pushBack (hrings : links.Rings roots lists) {r : Ptr} (hroot : roots i = some r)
    (hx : ∀ j, x ∉ members roots lists j) :
    ∃ p, links.Adj p r ∧
      (links.link p x r).Rings roots (Function.update lists i (lists i ++ [x])) := by
  have hcons : members roots lists i = r :: lists i := members_eq_cons hroot
  obtain ⟨p, hp, hadj, hring⟩ := (hrings.ring i r hroot).pushBack (hcons ▸ hx i)
  rw [← hcons] at hp
  refine ⟨p, hadj, hrings.change hroot hring ?_ ?_⟩
  · intro c hc
    rcases List.mem_append.mp hc with hc | hc
    · exact Or.inl (mem_members_of_mem hc)
    · rw [List.mem_singleton.mp hc]
      exact Or.inr hx
  · intro j hj c hc
    have hcp : c ≠ p := fun h => hj (hrings.apart j i c hc (h ▸ hp))
    have hcr : c ≠ r := fun h => hj (hrings.apart j i c hc (by rw [h, hcons]; simp))
    have hcx : c ≠ x := fun h => hx j (h ▸ hc)
    exact ⟨by simp [Links.link, hcp, hcx], by simp [Links.link, hcr, hcx]⟩

/-- A new sentinel that points at itself opens an empty list. -/
theorem Rings.openList (hrings : links.Rings roots lists) {r : Ptr} (hroot : roots i = none)
    (hr : ∀ j, r ∉ members roots lists j) :
    Rings ⟨Function.update links.next r (some r), Function.update links.prev r (some r)⟩
      (Function.update roots i (some r)) lists where
  ring j r' hroot' := by
    by_cases heq : j = i
    · subst heq
      obtain rfl : r = r' := by simpa using hroot'
      rw [hrings.empty j hroot]
      exact ⟨⟨by simp, by simp⟩, by simp⟩
    · rw [Function.update_of_ne heq] at hroot'
      refine (hrings.ring j r' hroot').congr fun p hp => ?_
      have hpr : p ≠ r := fun h => hr j (by rw [members_eq_cons hroot', ← h]; exact hp)
      exact ⟨by simp [hpr], by simp [hpr]⟩
  empty j hnone := by
    have heq : j ≠ i := fun h => by simp [h] at hnone
    rw [Function.update_of_ne heq] at hnone
    exact hrings.empty j hnone
  apart := by
    have hold : ∀ j p, p ∈ members (Function.update roots i (some r)) lists j →
        p ∈ members roots lists j ∨ (j = i ∧ p = r) := by
      intro j p hp
      by_cases heq : j = i
      · subst heq
        simp only [members, Function.update_self, hrings.empty j hroot] at hp
        exact Or.inr ⟨rfl, by simpa using hp⟩
      · left
        simpa [members, Function.update_of_ne heq] using hp
    intro j k p hj hk
    rcases hold j p hj with hjold | ⟨rfl, rfl⟩
    · rcases hold k p hk with hkold | ⟨rfl, rfl⟩
      · exact hrings.apart j k p hjold hkold
      · exact absurd hjold (hr j)
    · rcases hold k p hk with hkold | ⟨rfl, -⟩
      · exact absurd hkold (hr k)
      · rfl

end Family

end Links

end Gokit.Math
