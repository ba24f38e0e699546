/-
# The queue is a bounded FIFO with stable handles

`Rep zero q elems frees` says that the queue `q` holds the elements `elems`, each
a handle with the value pushed under it: the ring runs through the handles in
order, the free chain runs through `frees`, and the sentinel, the handles and the
free slots are the slots of the pool, each once.

Removing an element and moving it to the back share the two assignments that
close the gap; pushing one and moving it share the four that link a node in front
of the sentinel.  Each of the two gets one lemma, about the ring and about what
else the assignments leave alone.
-/

import Gokit.Ds.StaticList.Pool

namespace Gokit.Ds.Static

open Gokit.Math

variable {T : Type}

/-! ## Views of the slots -/

def links (read : Ptr → Option (Node (QNode T))) : Links where
  next p := (read p).bind (·.data.next)
  prev p := (read p).bind (·.data.prev)

/-- What a slot holds besides its links: the value, and the index in `next`. -/
def payload (read : Ptr → Option (Node (QNode T))) (p : Ptr) : Option (T × Int) :=
  (read p).map fun node => (node.data.value, node.next)

section Views

variable {datas datas' : Store (Node (QNode T))} {read : Ptr → Option (Node (QNode T))} {p : Ptr}
  {node : Node (QNode T)}

theorem links_update (node : Node (QNode T)) :
    links (Function.update read p (some node)) =
      ⟨Function.update (links read).next p node.data.next,
        Function.update (links read).prev p node.data.prev⟩ := by
  apply Links.ext
  all_goals
    funext q
    by_cases heq : q = p
    · subst heq
      simp [links]
    · simp [links, heq]

variable {q : Ptr}

theorem exists_read_of_next (hnext : (links datas.read).next p = some q) :
    ∃ node, datas.read p = some node ∧ node.data.next = some q :=
  Option.bind_eq_some_iff.mp hnext

theorem exists_read_of_prev (hprev : (links datas.read).prev p = some q) :
    ∃ node, datas.read p = some node ∧ node.data.prev = some q :=
  Option.bind_eq_some_iff.mp hprev

theorem getNext_of_links (hnext : (links datas.read).next p = some q) :
    getNext datas p = .ok (some q) := by
  obtain ⟨node, hread, hnode⟩ := exists_read_of_next hnext
  simp [getNext, Store.deref_of_read hread, hnode]

theorem getPrev_of_links (hprev : (links datas.read).prev p = some q) :
    getPrev datas p = .ok (some q) := by
  obtain ⟨node, hread, hnode⟩ := exists_read_of_prev hprev
  simp [getPrev, Store.deref_of_read hread, hnode]

/-- Only links have been written, and only those of the given cells. -/
structure Relinks (datas datas' : Store (Node (QNode T))) (cells : List Ptr) : Prop where
  payload : payload datas'.read = payload datas.read
  frame : ∀ p ∉ cells, datas'.read p = datas.read p
  fresh : datas'.fresh = datas.fresh

theorem Relinks.trans {datas'' : Store (Node (QNode T))} {cells cells' all : List Ptr}
    (hfirst : Relinks datas datas' cells) (hsecond : Relinks datas' datas'' cells')
    (hcells : cells ⊆ all) (hcells' : cells' ⊆ all) : Relinks datas datas'' all where
  payload := hsecond.payload.trans hfirst.payload
  frame p hp := by
    rw [hsecond.frame p fun hmem => hp (hcells' hmem), hfirst.frame p fun hmem => hp (hcells hmem)]
  fresh := hsecond.fresh.trans hfirst.fresh

/-- A cell that is there stays there. -/
theorem Relinks.exists_read {cells : List Ptr} (hrelinks : Relinks datas datas' cells)
    (hread : datas.read p = some node) : ∃ node', datas'.read p = some node' := by
  have hpayload := congrFun hrelinks.payload p
  rw [Static.payload, Static.payload, hread, Option.map_some] at hpayload
  obtain ⟨node', hread', -⟩ := Option.map_eq_some_iff.mp hpayload
  exact ⟨node', hread'⟩

/-- A write that changes the links of one cell. -/
theorem relinks_modify (change : Node (QNode T) → Node (QNode T)) (hread : datas.read p = some node)
    (hvalue : (change node).data.value = node.data.value) (hnext : (change node).next = node.next) :
    ∃ datas', datas.modify p change = .ok datas' ∧ Relinks datas datas' [p] ∧
      links datas'.read = ⟨Function.update (links datas.read).next p (change node).data.next,
        Function.update (links datas.read).prev p (change node).data.prev⟩ := by
  obtain ⟨datas', hmodify, hdatas, hfresh⟩ := Store.modify_spec hread change
  refine ⟨datas', hmodify, ⟨?_, ?_, hfresh⟩, ?_⟩
  · funext q
    rw [hdatas, payload, payload]
    by_cases heq : q = p
    · subst heq
      rw [Function.update_self, hread, Option.map_some, Option.map_some, hvalue, hnext]
    · rw [Function.update_of_ne heq]
  · intro q hq
    rw [hdatas, Function.update_of_ne (fun heq => hq (List.mem_singleton.mpr heq))]
  · rw [hdatas, links_update]

theorem setNext_spec (hread : datas.read p = some node) (next : Option Ptr) :
    ∃ datas', setNext datas p next = .ok datas' ∧ Relinks datas datas' [p] ∧
      links datas'.read =
        ⟨Function.update (links datas.read).next p next, (links datas.read).prev⟩ := by
  obtain ⟨datas', hset, hrelinks, hlinks⟩ := relinks_modify
    (fun node => { node with data := { node.data with next := next } }) hread rfl rfl
  refine ⟨datas', hset, hrelinks, hlinks.trans (Links.ext rfl ?_)⟩
  exact Function.update_eq_self_iff.mpr (by simp [links, hread])

theorem setPrev_spec (hread : datas.read p = some node) (prev : Option Ptr) :
    ∃ datas', setPrev datas p prev = .ok datas' ∧ Relinks datas datas' [p] ∧
      links datas'.read =
        ⟨(links datas.read).next, Function.update (links datas.read).prev p prev⟩ := by
  obtain ⟨datas', hset, hrelinks, hlinks⟩ := relinks_modify
    (fun node => { node with data := { node.data with prev := prev } }) hread rfl rfl
  refine ⟨datas', hset, hrelinks, hlinks.trans (Links.ext ?_ rfl)⟩
  exact Function.update_eq_self_iff.mpr (by simp [links, hread])

end Views

/-! ## The two halves of the list operations -/

section Halves

variable {datas : Store (Node (QNode T))} {root x : Ptr} {front back nodes : List Ptr}

/-- Closing the gap takes a node out of the ring. -/
theorem bypass_spec (hring : (links datas.read).Ring root (front ++ x :: back)) :
    ∃ datas', Queue.bypass datas x = .ok datas' ∧
      (links datas'.read).Ring root (front ++ back) ∧
      Relinks datas datas' (root :: (front ++ back)) := by
  have hx : x ∉ root :: (front ++ back) := by
    have hnodup := hring.nodup
    rw [← List.cons_append, List.nodup_middle, List.nodup_cons] at hnodup
    simpa using hnodup.1
  obtain ⟨p, hp, q, hq, hpx, hxq, hring'⟩ := hring.unlink
  have hxp : x ≠ p := fun heq => hx (heq ▸ hp)
  obtain ⟨pnode, hpread, -⟩ := exists_read_of_next hpx.1
  obtain ⟨datas₁, hset₁, hrelinks₁, hlinks₁⟩ := setNext_spec hpread (some q)
  obtain ⟨qnode, hqread, -⟩ := exists_read_of_prev hxq.2
  obtain ⟨qnode₁, hqread₁⟩ := hrelinks₁.exists_read hqread
  have hnext₁ : getNext datas₁ x = .ok (some q) := by
    apply getNext_of_links
    rw [hlinks₁]
    exact (Function.update_of_ne hxp ..).trans hxq.1
  have hprev₁ : getPrev datas₁ x = .ok (some p) := by
    apply getPrev_of_links
    rw [hlinks₁]
    exact hpx.2
  obtain ⟨datas₂, hset₂, hrelinks₂, hlinks₂⟩ := setPrev_spec hqread₁ (some p)
  refine ⟨datas₂, ?_, hring'.congr fun c hc => ?_, hrelinks₁.trans hrelinks₂ ?_ ?_⟩
  · simp [Queue.bypass, getPrev_of_links hpx.2, getNext_of_links hxq.1, hset₁, hnext₁, hprev₁,
      hset₂]
  · have hcx : c ≠ x := fun heq => hx (heq ▸ hc)
    rw [hlinks₂, hlinks₁]
    exact ⟨(Function.update_of_ne hcx ..).symm, (Function.update_of_ne hcx ..).symm⟩
  · simpa using hp
  · simpa using hq

/-- A node that is not in the ring is linked in at its end. -/
theorem linkBack_spec {node : Node (QNode T)} (hring : (links datas.read).Ring root nodes)
    (hx : x ∉ root :: nodes) (hread : datas.read x = some node) :
    ∃ datas', Queue.linkBack datas root x = .ok datas' ∧
      (links datas'.read).Ring root (nodes ++ [x]) ∧ Relinks datas datas' (x :: root :: nodes) := by
  obtain ⟨tail, htail, hadj, hring'⟩ := hring.pushBack hx
  obtain ⟨tnode, htread, -⟩ := exists_read_of_next hadj.1
  obtain ⟨rnode, hrread, -⟩ := exists_read_of_prev hadj.2
  obtain ⟨datas₁, hset₁, hrelinks₁, hlinks₁⟩ := setNext_spec htread (some x)
  obtain ⟨node₁, hread₁⟩ := hrelinks₁.exists_read hread
  obtain ⟨datas₂, hset₂, hrelinks₂, hlinks₂⟩ := setPrev_spec hread₁ (some tail)
  obtain ⟨node₂, hread₂⟩ := hrelinks₂.exists_read hread₁
  obtain ⟨datas₃, hset₃, hrelinks₃, hlinks₃⟩ := setNext_spec hread₂ (some root)
  have hall := (hrelinks₁.trans hrelinks₂ (List.subset_append_left [tail] [x])
    (List.subset_append_right [tail] [x])).trans hrelinks₃ (List.Subset.refl _) (by simp)
  obtain ⟨rnode₃, hrread₃⟩ := hall.exists_read hrread
  obtain ⟨datas₄, hset₄, hrelinks₄, hlinks₄⟩ := setPrev_spec hrread₃ (some x)
  have hlinks : links datas₄.read = (links datas.read).link tail x root := by
    rw [hlinks₄, hlinks₃, hlinks₂, hlinks₁]
    rfl
  refine ⟨datas₄, ?_, hlinks ▸ hring', hall.trans hrelinks₄ ?_ ?_⟩
  · simp [Queue.linkBack, getPrev_of_links hadj.2, hset₁, hset₂, hset₃, hset₄]
  · intro c hc
    rcases List.mem_append.mp hc with hc | hc
    · rw [List.mem_singleton.mp hc]
      exact List.mem_cons_of_mem x htail
    · rw [List.mem_singleton.mp hc]
      exact List.mem_cons_self
  · simp

end Halves

/-! ## The representation -/

/-- The elements of a queue, from the front to the back: each is the handle that
`Push` returned and the value pushed. -/
abbrev Elems (T : Type) : Type := List (Ptr × T)

def handles (elems : Elems T) : List Ptr := elems.map Prod.fst

@[simp]
theorem handles_append (front back : Elems T) :
    handles (front ++ back) = handles front ++ handles back := List.map_append

@[simp]
theorem handles_cons (e : Ptr × T) (elems : Elems T) :
    handles (e :: elems) = e.1 :: handles elems := List.map_cons

@[simp]
theorem handles_nil : handles ([] : Elems T) = [] := rfl

theorem mem_handles {elems : Elems T} {e : Ptr × T} (he : e ∈ elems) : e.1 ∈ handles elems :=
  List.mem_map_of_mem he

/-- The queue holds `elems`, and its free slots are `frees`. -/
structure Rep (zero : T) (q : Queue T) (elems : Elems T) (frees : List Ptr) : Prop where
  /-- the ring runs from the sentinel through the elements in order -/
  ring : (links q.pool.datas.read).Ring q.root (handles elems)
  /-- a handle denotes the value pushed with it, and its slot knows its own index -/
  live : ∀ e ∈ elems, payload q.pool.datas.read e.1 = some (e.2, (e.1 : Int))
  chain : FreeChain q.pool.datas.read q.pool.free frees
  /-- the sentinel, the elements and the free slots are all slots, each once -/
  slots : (q.root :: (handles elems ++ frees)).Perm (List.range (q.cap + 1))
  size : q.pool.datas.fresh = q.cap + 1
  len : q.len = elems.length
  zero : q.pool.zero = { value := zero, prev := none, next := none }

namespace Rep

variable {zero : T} {q : Queue T} {elems front back : Elems T} {frees : List Ptr} {h : Ptr} {v : T}

theorem nodup (hrep : Rep zero q elems frees) : (q.root :: (handles elems ++ frees)).Nodup :=
  hrep.slots.nodup_iff.mpr List.nodup_range

/-- A free slot is not in the ring. -/
theorem not_mem_ring (hrep : Rep zero q elems frees) (hfree : h ∈ frees) :
    h ∉ q.root :: handles elems := by
  have hnodup := hrep.nodup
  rw [← List.cons_append, List.nodup_append] at hnodup
  exact fun hmem => hnodup.2.2 h hmem h hfree rfl

theorem length_add (hrep : Rep zero q elems frees) : elems.length + frees.length = q.cap := by
  have hlength := hrep.slots.length_eq
  simp only [handles, List.length_cons, List.length_append, List.length_map,
    List.length_range] at hlength
  omega

theorem push_full (hrep : Rep zero q elems []) (v : T) : q.push v = .ok (none, q) := by
  simp [Queue.push, StaticList.malloc_nil hrep.chain]

/-- Pushing takes the first free slot and appends it to the ring. -/
theorem push_free (hrep : Rep zero q elems (h :: frees)) (v : T) :
    ∃ q', q.push v = .ok (some h, q') ∧ Rep zero q' (elems ++ [(h, v)]) frees ∧
      q'.cap = q.cap := by
  have hout : h ∉ q.root :: handles elems := hrep.not_mem_ring List.mem_cons_self
  have hfrees : ∀ c ∈ frees, c ∉ h :: q.root :: handles elems := by
    intro c hc hmem
    have hnodup := hrep.nodup
    rcases List.mem_cons.mp hmem with rfl | hmem
    · rw [← List.cons_append, List.nodup_append] at hnodup
      exact (List.nodup_cons.mp hnodup.2.1).1 hc
    · exact hrep.not_mem_ring (List.mem_cons_of_mem h hc) hmem
  obtain ⟨node, pool, hread, hmalloc, hpool, hfresh, hzero, hchain⟩ :=
    StaticList.malloc_cons hrep.chain
  have hread₀ : pool.datas.read h = some { node with next := null } := by
    rw [hpool, Function.update_self]
  obtain ⟨datas₁, hmodify₁, hdatas₁, hfresh₁⟩ :=
    Store.modify_spec hread₀ fun slot => { slot with next := h }
  have hread₁ : datas₁.read h = some { node with next := h } := by
    rw [hdatas₁, Function.update_self]
  obtain ⟨datas₂, hmodify₂, hdatas₂, hfresh₂⟩ :=
    Store.modify_spec hread₁ fun slot => { slot with data := { slot.data with value := v } }
  -- before it is linked in, only the new slot has changed
  have hread₂ : datas₂.read = Function.update q.pool.datas.read h
      (some { data := { node.data with value := v }, next := h }) := by
    rw [hdatas₂, hdatas₁, hpool, Function.update_idem, Function.update_idem]
  have hsame : ∀ c, c ≠ h → datas₂.read c = q.pool.datas.read c := by
    intro c hc
    rw [hread₂, Function.update_of_ne hc]
  have hring₂ : (links datas₂.read).Ring q.root (handles elems) := by
    apply hrep.ring.congr
    intro c hc
    have hch : c ≠ h := fun heq => hout (heq ▸ hc)
    simp only [links, hsame c hch, and_self]
  have hself : datas₂.read h = some { data := { node.data with value := v }, next := h } := by
    rw [hread₂, Function.update_self]
  obtain ⟨datas₃, hlink, hring₃, hrelinks⟩ := linkBack_spec hring₂ hout hself
  refine ⟨{ q with pool := { pool with datas := datas₃ }, len := q.len + 1 }, ?_, ?_, rfl⟩
  · simp [Queue.push, hmalloc, natCast_ne_null h, StaticList.getNode_spec hread₀, hmodify₁,
      hmodify₂, hlink]
  constructor
  case ring =>
    rw [handles_append]
    exact hring₃
  case live =>
    intro e he
    show payload datas₃.read e.1 = some (e.2, (e.1 : Int))
    rw [hrelinks.payload, payload]
    rcases List.mem_append.mp he with he | he
    · have heh : e.1 ≠ h := by
        intro heq
        exact hout (List.mem_cons_of_mem _ (heq ▸ mem_handles he))
      rw [hsame e.1 heh]
      exact hrep.live e he
    · rw [List.mem_singleton.mp he, hself]
      rfl
  case chain =>
    apply hchain.congr
    intro c hc
    have hch : c ≠ h := fun heq => hfrees c hc (heq ▸ List.mem_cons_self)
    exact (hrelinks.frame c (hfrees c hc)).trans (hsame c hch)
  case slots =>
    rw [handles_append, List.append_assoc]
    exact hrep.slots
  case size =>
    show datas₃.fresh = q.cap + 1
    rw [hrelinks.fresh, hfresh₂, hfresh₁, hfresh]
    exact hrep.size
  case len =>
    show q.len + 1 = ((elems ++ [(h, v)]).length : Int)
    rw [hrep.len, List.length_append]
    simp
  case zero => exact hzero.trans hrep.zero

/-- Removing an element gives its slot back and touches no other element. -/
theorem remove_spec (hrep : Rep zero q (front ++ (h, v) :: back) frees) :
    ∃ q', q.remove h = .ok q' ∧ Rep zero q' (front ++ back) (h :: frees) ∧ q'.cap = q.cap := by
  have hring : (links q.pool.datas.read).Ring q.root (handles front ++ h :: handles back) := by
    have hring := hrep.ring
    rwa [handles_append] at hring
  have hperm : (q.root :: (handles (front ++ (h, v) :: back) ++ frees)).Perm
      (h :: (q.root :: (handles (front ++ back) ++ frees))) := by
    simp only [handles_append, handles_cons]
    rw [← List.cons_append, ← List.cons_append, ← List.cons_append, ← List.cons_append]
    exact List.Perm.append_right _ List.perm_middle
  have hout : h ∉ q.root :: (handles (front ++ back) ++ frees) :=
    (List.nodup_cons.mp (hperm.nodup_iff.mp hrep.nodup)).1
  have hkept : h ∉ q.root :: handles (front ++ back) :=
    fun hmem => hout (List.mem_append_left frees hmem)
  have hfrees : h ∉ frees :=
    fun hmem => hout (List.mem_append_right (q.root :: handles (front ++ back)) hmem)
  have hchained : ∀ c ∈ frees, c ∉ q.root :: handles (front ++ back) := by
    intro c hc hmem
    apply hrep.not_mem_ring hc
    rw [handles_append, List.mem_cons, List.mem_append] at hmem
    rw [handles_append, handles_cons, List.mem_cons, List.mem_append, List.mem_cons]
    tauto
  have hpayload := hrep.live (h, v) (by simp)
  obtain ⟨node, hread, hnode⟩ := Option.map_eq_some_iff.mp hpayload
  have hindex : node.next = h := congrArg Prod.snd hnode
  obtain ⟨datas₁, hbypass, hring₁, hrelinks⟩ := bypass_spec hring
  obtain ⟨node₁, hread₁⟩ := hrelinks.exists_read hread
  obtain ⟨pool, hfree, hpool, hfresh, hzero, hhead⟩ :=
    StaticList.freeNode_spec { q.pool with datas := datas₁ } hread₁
  have hsame : ∀ c, c ≠ h → pool.datas.read c = datas₁.read c := by
    intro c hc
    rw [hpool, Function.update_of_ne hc]
  refine ⟨{ q with pool := pool, len := q.len - 1 }, ?_, ?_, rfl⟩
  · simp [Queue.remove, Store.deref_of_read hread, hbypass, hindex, hfree]
  constructor
  case ring =>
    rw [handles_append]
    apply hring₁.congr
    intro c hc
    have hch : c ≠ h := by
      intro heq
      apply hkept
      rw [handles_append]
      exact heq ▸ hc
    simp only [links, hsame c hch, and_self]
  case live =>
    intro e he
    have heh : e.1 ≠ h := by
      intro heq
      exact hkept (List.mem_cons_of_mem _ (heq ▸ mem_handles he))
    show payload pool.datas.read e.1 = some (e.2, (e.1 : Int))
    rw [payload, hsame e.1 heh]
    refine (congrFun hrelinks.payload e.1).trans (hrep.live e ?_)
    rw [List.mem_append] at he
    rw [List.mem_append, List.mem_cons]
    tauto
  case chain =>
    show FreeChain pool.datas.read pool.free (h :: frees)
    rw [hpool, hhead]
    refine StaticList.freeChain_cons (hrep.chain.congr fun c hc => hrelinks.frame c ?_) hfrees _
    rw [← handles_append]
    exact hchained c hc
  case slots =>
    refine List.Perm.trans ?_ (hperm.symm.trans hrep.slots)
    rw [← List.cons_append]
    exact List.perm_middle
  case size =>
    show pool.datas.fresh = q.cap + 1
    rw [hfresh, hrelinks.fresh]
    exact hrep.size
  case len =>
    show q.len - 1 = ((front ++ back).length : Int)
    rw [hrep.len, List.length_append, List.length_append, List.length_cons]
    omega
  case zero => exact hzero.trans hrep.zero

/-- The sentinel tells whether the queue is empty, and otherwise points at the
first element. -/
theorem isEmpty_spec (hrep : Rep zero q elems frees) :
    q.isEmpty = .ok (decide (elems = [])) ∧
      ∀ e rest, elems = e :: rest → getNext q.pool.datas q.root = .ok (some e.1) := by
  have hring := hrep.ring
  cases elems with
  | nil =>
    have hnext := getNext_of_links hring.seg.1
    refine ⟨?_, nofun⟩
    simp [Queue.isEmpty, hnext]
  | cons e rest =>
    have hnext := getNext_of_links hring.seg.1.1
    have hne : e.1 ≠ q.root := by
      intro heq
      have hnodup := hring.nodup
      rw [handles_cons, heq] at hnodup
      simp at hnodup
    refine ⟨by simp [Queue.isEmpty, hnext, hne], ?_⟩
    intro e' rest' heq
    rw [← (List.cons.inj heq).1]
    exact hnext

theorem getPrev_root (hrep : Rep zero q (elems ++ [(h, v)]) frees) :
    getPrev q.pool.datas q.root = .ok (some h) := by
  have hseg := hrep.ring.seg
  rw [handles_append] at hseg
  exact getPrev_of_links (Links.seg_append.mp hseg).2.2

theorem deref_live (hrep : Rep zero q elems frees) (hmem : (h, v) ∈ elems) :
    ∃ node, q.pool.datas.deref h = .ok node ∧ node.data.value = v := by
  obtain ⟨node, hread, hnode⟩ := Option.map_eq_some_iff.mp (hrep.live (h, v) hmem)
  exact ⟨node, Store.deref_of_read hread, congrArg Prod.fst hnode⟩

theorem pop_nil (hrep : Rep zero q [] frees) : q.pop = .ok (zero, q) := by
  simp [Queue.pop, hrep.isEmpty_spec.1, hrep.zero]

/-- Popping removes the first element and returns its value. -/
theorem pop_cons (hrep : Rep zero q ((h, v) :: elems) frees) :
    ∃ q', q.pop = .ok (v, q') ∧ Rep zero q' elems (h :: frees) ∧ q'.cap = q.cap := by
  obtain ⟨node, hderef, hvalue⟩ := hrep.deref_live List.mem_cons_self
  have hfront : Rep zero q ([] ++ (h, v) :: elems) frees := hrep
  obtain ⟨q', hremove, hrep', hcap⟩ := hfront.remove_spec
  refine ⟨q', ?_, hrep', hcap⟩
  simp [Queue.pop, hrep.isEmpty_spec.1, hrep.isEmpty_spec.2 _ _ rfl, hderef, hvalue, hremove]

/-- Taking an element out of the ring and linking it in at the back. -/
theorem relink_spec (hrep : Rep zero q (front ++ (h, v) :: back) frees) :
    ∃ datas datas', Queue.bypass q.pool.datas h = .ok datas ∧
      Queue.linkBack datas q.root h = .ok datas' ∧
      Rep zero { q with pool := { q.pool with datas := datas' } } (front ++ back ++ [(h, v)])
        frees := by
  have hring : (links q.pool.datas.read).Ring q.root (handles front ++ h :: handles back) := by
    have hring := hrep.ring
    rwa [handles_append] at hring
  have hout : h ∉ q.root :: (handles front ++ handles back) := by
    have hnodup := hring.nodup
    rw [← List.cons_append, List.nodup_middle, List.nodup_cons] at hnodup
    simpa using hnodup.1
  have hperm : (handles (front ++ back ++ [(h, v)])).Perm (handles (front ++ (h, v) :: back)) := by
    apply List.Perm.map
    rw [List.append_assoc]
    exact (List.perm_append_singleton _ back).append_left front
  obtain ⟨node, hread, -⟩ := Option.map_eq_some_iff.mp (hrep.live (h, v) (by simp))
  obtain ⟨datas₁, hbypass, hring₁, hrelinks₁⟩ := bypass_spec hring
  obtain ⟨node₁, hread₁⟩ := hrelinks₁.exists_read hread
  obtain ⟨datas₂, hlink, hring₂, hrelinks₂⟩ := linkBack_spec hring₁ hout hread₁
  have hrelinks := hrelinks₁.trans hrelinks₂ (List.subset_cons_self h _) (List.Subset.refl _)
  refine ⟨datas₁, datas₂, hbypass, hlink, ?_⟩
  constructor
  case ring =>
    rw [handles_append, handles_append]
    exact hring₂
  case live =>
    intro e he
    refine (congrFun hrelinks.payload e.1).trans (hrep.live e ?_)
    simp only [List.mem_append, List.mem_cons, List.not_mem_nil, or_false] at he ⊢
    tauto
  case chain =>
    apply hrep.chain.congr
    intro c hc
    apply hrelinks.frame
    intro hmem
    apply hrep.not_mem_ring hc
    simp only [handles_append, handles_cons, List.mem_append, List.mem_cons] at hmem ⊢
    tauto
  case slots => exact ((hperm.append_right frees).cons q.root).trans hrep.slots
  case size => exact hrelinks.fresh.trans hrep.size
  case len =>
    rw [← List.length_map (f := Prod.fst), ← handles, hperm.length_eq, handles, List.length_map]
    exact hrep.len
  case zero => exact hrep.zero

/-- Moving an element to the back leaves the order of the others alone. -/
theorem moveToBack_spec (hrep : Rep zero q (front ++ (h, v) :: back) frees) :
    ∃ q', q.moveToBack h = .ok q' ∧ Rep zero q' (front ++ back ++ [(h, v)]) frees ∧
      q'.cap = q.cap := by
  rcases List.eq_nil_or_concat back with rfl | ⟨rest, ⟨l, w⟩, rfl⟩
  · -- it is the last element already
    refine ⟨q, ?_, ?_, rfl⟩
    · simp [Queue.moveToBack, hrep.getPrev_root]
    · rwa [List.append_nil]
  · have hlast : Rep zero q ((front ++ (h, v) :: rest) ++ [(l, w)]) frees := by
      simpa using hrep
    have hne : l ≠ h := by
      intro heq
      have hnodup := hrep.nodup
      rw [heq] at hnodup
      simp [List.nodup_append] at hnodup
    obtain ⟨datas, datas', hbypass, hlink, hrep'⟩ := hrep.relink_spec
    refine ⟨_, ?_, hrep', rfl⟩
    simp [Queue.moveToBack, hlast.getPrev_root, hne, hbypass, hlink]

end Rep

/-! ## Runs -/

/-- The elements left after popping from the front as long as the callback agrees. -/
def popWhile (fn : List T → T → Bool) : List T → Elems T → Elems T
  | _, [] => []
  | seen, e :: rest => if fn seen e.2 then popWhile fn (e.2 :: seen) rest else e :: rest

theorem popWhile_true (seen : List T) (elems : Elems T) :
    popWhile (fun _ _ => true) seen elems = [] := by
  induction elems generalizing seen with
  | nil => rfl
  | cons e rest ih => exact ih (e.2 :: seen)

/-- With a round more than there are elements, `PopRange` comes back. -/
theorem Rep.popRange_spec {zero : T} {q : Queue T} {elems : Elems T} {frees : List Ptr}
    (hrep : Rep zero q elems frees) (fn : List T → T → Bool) (seen : List T) {fuel : Nat}
    (hfuel : elems.length < fuel) :
    ∃ q' frees', q.popRange fn fuel seen = .ok q' ∧
      Rep zero q' (popWhile fn seen elems) frees' ∧ q'.cap = q.cap := by
  induction elems generalizing q frees seen fuel with
  | nil =>
    obtain ⟨fuel, rfl⟩ := Nat.exists_eq_succ_of_ne_zero hfuel.ne'
    exact ⟨q, frees, by simp [Queue.popRange, hrep.isEmpty_spec.1], hrep, rfl⟩
  | cons e rest ih =>
    obtain ⟨fuel, rfl⟩ := Nat.exists_eq_succ_of_ne_zero (Nat.zero_lt_of_lt hfuel).ne'
    obtain ⟨node, hderef, hvalue⟩ := hrep.deref_live List.mem_cons_self
    have hnext := hrep.isEmpty_spec.2 _ _ rfl
    by_cases hfn : fn seen e.2 = true
    · have hfront : Rep zero q ([] ++ (e.1, e.2) :: rest) frees := hrep
      obtain ⟨q₁, hremove, hrep₁, hcap₁⟩ := hfront.remove_spec
      obtain ⟨q', frees', hpop, hrep', hcap'⟩ :=
        ih hrep₁ (e.2 :: seen) (Nat.lt_of_succ_lt_succ hfuel)
      refine ⟨q', frees', ?_, ?_, hcap'.trans hcap₁⟩
      · simp [Queue.popRange, hrep.isEmpty_spec.1, hnext, hderef, hvalue, hfn, hremove, hpop]
      · rwa [popWhile, if_pos hfn]
    · refine ⟨q, frees, ?_, ?_, rfl⟩
      · simp [Queue.popRange, hrep.isEmpty_spec.1, hnext, hderef, hvalue, hfn]
      · rwa [popWhile, if_neg hfn]

inductive QueueOp (T : Type)
  | push (data : T)
  | pop
  | remove (node : Ptr)
  | moveToBack (node : Ptr)
  | popRange (fn : List T → T → Bool)
  | clear

inductive QueueRet (T : Type)
  | node (node : Option Ptr)
  | data (data : T)
  | done
  deriving DecidableEq, Repr

/-- Run an operation, its loop for at most `fuel` rounds. -/
def Queue.apply (fuel : Nat) (q : Queue T) : QueueOp T → Exec (QueueRet T × Queue T)
  | .push data => do
    let (node, q) ← q.push data
    .ok (.node node, q)
  | .pop => do
    let (data, q) ← q.pop
    .ok (.data data, q)
  | .remove node => do
    let q ← q.remove node
    .ok (.done, q)
  | .moveToBack node => do
    let q ← q.moveToBack node
    .ok (.done, q)
  | .popRange fn => do
    let q ← q.popRange fn fuel []
    .ok (.done, q)
  | .clear => do
    let q ← q.clear fuel
    .ok (.done, q)

namespace QueueOp

/-- A node that is passed in is a handle that has not been removed. -/
def Allowed (elems : Elems T) : QueueOp T → Prop
  | .remove node | .moveToBack node => node ∈ handles elems
  | _ => True

/-- The elements afterwards, when `ret` has been returned. -/
def effect (elems : Elems T) (ret : QueueRet T) : QueueOp T → Elems T
  | .push data =>
    match ret with
    | .node (some node) => elems ++ [(node, data)]
    | _ => elems
  | .pop => elems.tail
  | .remove node => elems.filter (·.1 ≠ node)
  | .moveToBack node => elems.filter (·.1 ≠ node) ++ elems.filter (·.1 = node)
  | .popRange fn => popWhile fn [] elems
  | .clear => []

/-- What has to be returned by a queue of capacity `cap`. -/
def Returns (zero : T) (cap : Nat) (elems : Elems T) (ret : QueueRet T) : QueueOp T → Prop
  | .push _ =>
    (elems.length = cap ∧ ret = .node none) ∨
      (elems.length < cap ∧ ∃ node, ret = .node (some node) ∧ node ∉ handles elems)
  | .pop => ret = .data ((elems.head?.map Prod.snd).getD zero)
  | _ => ret = .done

end QueueOp

/-- The queues reached from a new one by allowed operations, with their elements. -/
inductive QueueRun (cap : Nat) (zero : T) : Queue T → Elems T → Prop
  | start {q : Queue T} (hnew : Queue.newQueue cap zero = .ok q) : QueueRun cap zero q []
  | step {q q' : Queue T} {elems : Elems T} {op : QueueOp T} {ret : QueueRet T} {fuel : Nat}
      (hrun : QueueRun cap zero q elems) (hallowed : op.Allowed elems) (hfuel : cap < fuel)
      (happly : q.apply fuel op = .ok (ret, q')) : QueueRun cap zero q' (op.effect elems ret)

theorem filter_ne_middle {front back : Elems T} {h : Ptr} {v : T}
    (hnodup : (handles (front ++ (h, v) :: back)).Nodup) :
    (front ++ (h, v) :: back).filter (·.1 ≠ h) = front ++ back ∧
      (front ++ (h, v) :: back).filter (·.1 = h) = [(h, v)] := by
  rw [handles_append, handles_cons, List.nodup_middle, List.nodup_cons] at hnodup
  have hother : ∀ e ∈ front ++ back, e.1 ≠ h := by
    intro e he heq
    have hmem := mem_handles he
    rw [handles_append, heq] at hmem
    exact hnodup.1 hmem
  have hfront : ∀ e ∈ front, e.1 ≠ h := fun e he => hother e (List.mem_append_left back he)
  have hback : ∀ e ∈ back, e.1 ≠ h := fun e he => hother e (List.mem_append_right front he)
  constructor
  · rw [List.filter_append, List.filter_cons_of_neg (by simp),
      List.filter_eq_self.mpr (by simpa using hfront),
      List.filter_eq_self.mpr (by simpa using hback)]
  · rw [List.filter_append, List.filter_cons_of_pos (by simp),
      List.filter_eq_nil_iff.mpr (by simpa using hfront),
      List.filter_eq_nil_iff.mpr (by simpa using hback), List.nil_append]

theorem exists_split_of_mem_handles {elems : Elems T} {h : Ptr} (hmem : h ∈ handles elems) :
    ∃ front v back, elems = front ++ (h, v) :: back := by
  obtain ⟨⟨p, v⟩, he, rfl⟩ := List.mem_map.mp hmem
  obtain ⟨front, back, rfl⟩ := List.append_of_mem he
  exact ⟨front, v, back, rfl⟩

/-- **Every operation does to the elements what it should.** -/
theorem Rep.apply_spec {zero : T} {q : Queue T} {elems : Elems T} {frees : List Ptr}
    (hrep : Rep zero q elems frees) {op : QueueOp T} (hallowed : op.Allowed elems) {fuel : Nat}
    (hfuel : elems.length < fuel) :
    ∃ ret q' frees', q.apply fuel op = .ok (ret, q') ∧ op.Returns zero q.cap elems ret ∧
      Rep zero q' (op.effect elems ret) frees' ∧ q'.cap = q.cap := by
  have hnodup : (handles elems).Nodup := (List.nodup_cons.mp hrep.ring.nodup).2
  have hlength := hrep.length_add
  cases op with
  | push data =>
    cases frees with
    | nil =>
      refine ⟨.node none, q, [], ?_, .inl ⟨by simpa using hlength, rfl⟩, hrep, rfl⟩
      simp [Queue.apply, hrep.push_full]
    | cons h rest =>
      obtain ⟨q', hpush, hrep', hcap⟩ := hrep.push_free data
      have hout : h ∉ handles elems := fun hmem =>
        hrep.not_mem_ring List.mem_cons_self (List.mem_cons_of_mem _ hmem)
      rw [List.length_cons] at hlength
      refine ⟨.node (some h), q', rest, ?_, .inr ⟨by omega, h, rfl, hout⟩, hrep', hcap⟩
      simp [Queue.apply, hpush]
  | pop =>
    cases elems with
    | nil =>
      refine ⟨.data zero, q, frees, ?_, rfl, hrep, rfl⟩
      simp [Queue.apply, hrep.pop_nil]
    | cons e rest =>
      obtain ⟨q', hpop, hrep', hcap⟩ := hrep.pop_cons
      refine ⟨.data e.2, q', _, ?_, rfl, hrep', hcap⟩
      simp [Queue.apply, hpop]
  | remove node =>
    obtain ⟨front, v, back, rfl⟩ := exists_split_of_mem_handles hallowed
    obtain ⟨q', hremove, hrep', hcap⟩ := hrep.remove_spec
    refine ⟨.done, q', node :: frees, by simp [Queue.apply, hremove], rfl, ?_, hcap⟩
    rw [QueueOp.effect, (filter_ne_middle hnodup).1]
    exact hrep'
  | moveToBack node =>
    obtain ⟨front, v, back, rfl⟩ := exists_split_of_mem_handles hallowed
    obtain ⟨q', hmove, hrep', hcap⟩ := hrep.moveToBack_spec
    refine ⟨.done, q', frees, by simp [Queue.apply, hmove], rfl, ?_, hcap⟩
    rw [QueueOp.effect, (filter_ne_middle hnodup).1, (filter_ne_middle hnodup).2]
    exact hrep'
  | popRange fn =>
    obtain ⟨q', frees', hpop, hrep', hcap⟩ := hrep.popRange_spec fn [] hfuel
    exact ⟨.done, q', frees', by simp [Queue.apply, hpop], rfl, hrep', hcap⟩
  | clear =>
    obtain ⟨q', frees', hpop, hrep', hcap⟩ := hrep.popRange_spec (fun _ _ => true) [] hfuel
    rw [popWhile_true] at hrep'
    exact ⟨.done, q', frees', by simp [Queue.apply, Queue.clear, hpop], rfl, hrep', hcap⟩

theorem rep_newQueue (cap : Nat) (zero : T) :
    ∃ q, Queue.newQueue cap zero = .ok q ∧ q.cap = cap ∧
      Rep zero q [] (List.range' 1 cap) := by
  obtain ⟨pool, hnew, hzero, hfresh, -, hchain⟩ := StaticList.newStaticList_spec cap
    ({ value := zero, prev := none, next := none } : QNode T)
  rw [List.range_eq_range', List.range'_succ] at hchain
  obtain ⟨node, pool', hread, hmalloc, hpool, hfresh', hzero', hrest⟩ :=
    StaticList.malloc_cons hchain
  have hread₀ : pool'.datas.read 0 = some { node with next := null } := by
    rw [hpool, Function.update_self]
  obtain ⟨datas₁, hset₁, hrelinks₁, hlinks₁⟩ := setPrev_spec hread₀ (some 0)
  obtain ⟨node₁, hread₁⟩ := hrelinks₁.exists_read hread₀
  obtain ⟨datas₂, hset₂, hrelinks₂, hlinks₂⟩ := setNext_spec hread₁ (some 0)
  have hrelinks := hrelinks₁.trans hrelinks₂ (List.Subset.refl [0]) (List.Subset.refl [0])
  refine ⟨{ pool := { pool' with datas := datas₂ }, root := 0, len := 0, cap := cap }, ?_, rfl, ?_⟩
  · have hfirst : pool.malloc = .ok (0, pool') := hmalloc
    have hnode : pool'.getNode 0 = .ok 0 := StaticList.getNode_spec hread₀
    simp [Queue.newQueue, hnew, Queue.init, hfirst, hnode, hset₁, hset₂]
  constructor
  case ring =>
    refine ⟨?_, List.nodup_singleton 0⟩
    show (links datas₂.read).Adj 0 0
    simp [Links.Adj, hlinks₂, hlinks₁]
  case live => nofun
  case chain =>
    apply hrest.congr
    intro c hc
    have hne : c ≠ 0 := Nat.ne_of_gt (List.mem_range'_1.mp hc).1
    have hframe : datas₂.read c = pool'.datas.read c := hrelinks.frame c (by simpa using hne)
    rw [hpool, Function.update_of_ne hne] at hframe
    exact hframe
  case slots =>
    rw [List.range_eq_range', List.range'_succ]
    exact List.Perm.refl _
  case size =>
    show datas₂.fresh = cap + 1
    rw [hrelinks.fresh, hfresh', hfresh]
  case len => rfl
  case zero => exact hzero'.trans hzero

theorem QueueRun.exists_rep {cap : Nat} {zero : T} {q : Queue T} {elems : Elems T}
    (hrun : QueueRun cap zero q elems) : q.cap = cap ∧ ∃ frees, Rep zero q elems frees := by
  induction hrun with
  | start hnew =>
    obtain ⟨q₀, hnew₀, hcap, hrep⟩ := rep_newQueue cap zero
    rw [hnew₀] at hnew
    cases hnew
    exact ⟨hcap, _, hrep⟩
  | @step _ _ elems _ _ fuel _ hallowed hfuel happly ih =>
    obtain ⟨hcap, frees, hrep⟩ := ih
    have hlength := hrep.length_add
    have hrounds : elems.length < fuel := by omega
    obtain ⟨ret, q', frees', happly', -, hrep', hcap'⟩ := hrep.apply_spec hallowed hrounds
    rw [happly'] at happly
    cases happly
    exact ⟨hcap'.trans hcap, frees', hrep'⟩

/-- **The queue refines a bounded FIFO with stable handles.** A queue can be made
for every capacity. In every state of every run, the slots are split into the
sentinel, the elements and the free chain, the ring runs through the elements in
order, and every live handle denotes the value pushed with it; every operation
that is allowed there comes back and returns what it should, and leaves the
elements it should, which is what the runs are made of. -/
theorem newQueue_run_refines (cap : Nat) (zero : T) :
    (∃ q, Queue.newQueue cap zero = .ok q) ∧
      ∀ q elems, QueueRun cap zero q elems →
        q.cap = cap ∧ (∃ frees, Rep zero q elems frees) ∧
          ∀ op : QueueOp T, op.Allowed elems → ∀ fuel, cap < fuel →
            ∃ ret q', q.apply fuel op = .ok (ret, q') ∧ op.Returns zero cap elems ret ∧
              QueueRun cap zero q' (op.effect elems ret) := by
  constructor
  · obtain ⟨q, hnew, -⟩ := rep_newQueue cap zero
    exact ⟨q, hnew⟩
  · intro q elems hrun
    obtain ⟨hcap, frees, hrep⟩ := hrun.exists_rep
    refine ⟨hcap, ⟨frees, hrep⟩, fun op hallowed fuel hfuel => ?_⟩
    have hlength := hrep.length_add
    have hrounds : elems.length < fuel := by omega
    obtain ⟨ret, q', frees', happly, hreturns, -, -⟩ := hrep.apply_spec hallowed hrounds
    rw [hcap] at hreturns
    exact ⟨ret, q', happly, hreturns, .step hrun hallowed hfuel happly⟩

/-- The slot of a removed element is handed out again, and the handle of the other
element still denotes its value. -/
theorem newQueue_run_refines_reuse :
    ∃ q, QueueRun 2 (0 : Int) q [(2, 20), (1, 30)] ∧ ∃ frees, Rep 0 q [(2, 20), (1, 30)] frees := by
  have hfuel : 2 < 3 := by decide
  have hrun : ∃ q, QueueRun 2 (0 : Int) q [(2, 20), (1, 30)] :=
    ⟨_, @QueueRun.step Int 2 0 _ _ _ (.push 30) _ 3
      (@QueueRun.step Int 2 0 _ _ _ (.remove 1) _ 3
        (@QueueRun.step Int 2 0 _ _ _ (.push 20) _ 3
          (@QueueRun.step Int 2 0 _ _ _ (.push 10) _ 3 (.start rfl) trivial hfuel rfl)
          trivial hfuel rfl)
        List.mem_cons_self hfuel rfl)
      trivial hfuel rfl⟩
  obtain ⟨q, hrun⟩ := hrun
  exact ⟨q, hrun, ((newQueue_run_refines 2 0).2 q _ hrun).2.1⟩

end Gokit.Ds.Static
