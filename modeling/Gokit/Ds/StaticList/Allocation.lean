/-
# Histories of a static list

The user of a `StaticList` takes slots with `Malloc`, writes them with
`SetDataValue`, gives them back with `Free` and takes everything back at once with
`Reset`.  A history is a list of such calls, of which those on a slot are made on
an allocated one.  The slots the user holds are recorded beside the list.

The free chain runs through the other slots whatever the history is.  That these
are clean is another matter: `Free` clears the slot it is given, but the loop of
`Reset` stops before the last slot, so that what was written there stays and is
handed out again.  A `Reset` does no harm exactly when the last slot is clean.
-/

import Gokit.Ds.StaticList.Pool
import Gokit.Math.Transition
import Mathlib.Data.Finset.Card

namespace Gokit.Ds.Static

open Gokit.Math

variable {α : Type}

namespace StaticList

def getDataValue (list : StaticList α) (p : Int) : Exec α := do
  let slot ← list.getNode p
  let node ← list.datas.deref slot
  .ok node.data

def setDataValue (list : StaticList α) (p : Int) (val : α) : Exec (StaticList α) := do
  let slot ← list.getNode p
  let datas ← list.datas.modify slot fun node => { node with data := val }
  .ok { list with datas := datas }

variable {list : StaticList α} {p : Ptr} {node : Node α}

theorem getDataValue_spec {data : α} {next : Int}
    (hread : list.datas.read p = some { data := data, next := next }) :
    list.getDataValue p = .ok data := by
  simp [getDataValue, getNode_spec hread, Store.deref_of_read hread]

theorem setDataValue_spec (hread : list.datas.read p = some node) (val : α) :
    ∃ list', list.setDataValue p val = .ok list' ∧
      list'.datas.read = Function.update list.datas.read p (some { node with data := val }) ∧
      list'.datas.fresh = list.datas.fresh ∧ list'.zero = list.zero ∧
      list'.free = list.free := by
  obtain ⟨datas, hmodify, hdatas, hfresh⟩ :=
    Store.modify_spec hread fun node => { node with data := val }
  refine ⟨{ list with datas := datas }, ?_, hdatas, hfresh, rfl, rfl⟩
  simp [setDataValue, getNode_spec hread, hmodify]

end StaticList

/-! ## Histories -/

inductive Request (α : Type)
  | malloc
  | free (p : Ptr)
  | setDataValue (p : Ptr) (val : α)
  | reset
  deriving DecidableEq, Repr

/-- A static list and the slots its user holds. -/
structure Pool (α : Type) where
  list : StaticList α
  allocated : Finset Ptr
  deriving DecidableEq

namespace Pool

/-- `NewStaticList`, with nothing allocated. -/
def new (size : Nat) (zero : α) : Exec (Pool α) := do
  let list ← StaticList.newStaticList size zero
  .ok { list := list, allocated := ∅ }

/-- Calls on a slot are made on an allocated one. -/
def Legal (pool : Pool α) : Request α → Prop
  | .malloc => True
  | .free p => p ∈ pool.allocated
  | .setDataValue p _ => p ∈ pool.allocated
  | .reset => True

def call (pool : Pool α) : Request α → Exec (Pool α)
  | .malloc => do
    let (p, list) ← pool.list.malloc
    .ok { list := list
          allocated := if p = null then pool.allocated else insert p.toNat pool.allocated }
  | .free p => do
    let list ← pool.list.freeNode p
    .ok { list := list, allocated := pool.allocated.erase p }
  | .setDataValue p val => do
    let list ← pool.list.setDataValue p val
    .ok { pool with list := list }
  | .reset => do
    let list ← pool.list.reset
    .ok { list := list, allocated := ∅ }

/-- The free chain visits exactly the slots that are not allocated, each once, and
ends in `null`. -/
def Chained (size : Nat) (pool : Pool α) : Prop :=
  ∃ frees : List Ptr, FreeChain pool.list.datas.read pool.list.free frees ∧ frees.Nodup ∧
    ∀ p, p ∈ frees ↔ p < size ∧ p ∉ pool.allocated

/-- `Malloc` returns `null` when all slots are allocated, and otherwise one that is
not allocated and whose data satisfies `content`. -/
def HandsOut (size : Nat) (content : α → Prop) (pool : Pool α) : Prop :=
  ∃ p list, pool.list.malloc = .ok (p, list) ∧
    (p = null ↔ ∀ slot < size, slot ∈ pool.allocated) ∧
    (p ≠ null → ∃ slot < size, p = slot ∧ slot ∉ pool.allocated ∧
      ∃ data, list.getDataValue p = .ok data ∧ content data)

variable {pool : Pool α} {size : Nat} {content : α → Prop} {p : Int} {list : StaticList α}

theorem HandsOut.data (h : pool.HandsOut size content) (hmalloc : pool.list.malloc = .ok (p, list))
    (hsome : p ≠ null) : ∃ data, list.getDataValue p = .ok data ∧ content data := by
  obtain ⟨q, list', hmalloc', -, hslot⟩ := h
  obtain ⟨rfl, rfl⟩ := Prod.mk.inj (Except.ok.inj (hmalloc.symm.trans hmalloc'))
  obtain ⟨-, -, -, -, hdata⟩ := hslot hsome
  exact hdata

end Pool

open Pool

/-- The histories of a list.  A state is what the calls so far have led to, which is
a fault when one of them panicked. -/
def allocation (size : Nat) (zero : α) : System (Exec (Pool α)) (Request α) where
  init := Pool.new size zero
  Enabled s request := ∀ pool, s = .ok pool → pool.Legal request
  next s request := s >>= fun pool => pool.call request

/-- What a list of `size` slots promises: no call has panicked, the free chain is in
order, and `Malloc` hands out a clean slot as long as one is left. -/
def Promised (size : Nat) (zero : α) (s : Exec (Pool α)) : Prop :=
  ∃ pool, s = .ok pool ∧ pool.Chained size ∧ pool.HandsOut size (· = zero)

/-- A `Reset` is made while the last slot holds the zero value. -/
def ResetsClean (size : Nat) (zero : α) (s : Exec (Pool α)) (request : Request α) : Prop :=
  request = .reset → ∀ pool, s = .ok pool →
    pool.list.getDataValue ((size : Int) - 1) = .ok zero

/-- A history can be tried out. -/
instance (pool : Pool α) (request : Request α) : Decidable (pool.Legal request) := by
  cases request <;> unfold Pool.Legal <;> infer_instance

instance (size : Nat) (zero : α) (s : Exec (Pool α)) (request : Request α) :
    Decidable ((allocation size zero).Enabled s request) :=
  inferInstanceAs (Decidable (∀ pool, s = .ok pool → pool.Legal request))

instance [DecidableEq α] (size : Nat) (zero : α) (s : Exec (Pool α)) (request : Request α) :
    Decidable (ResetsClean size zero s request) :=
  inferInstanceAs (Decidable (request = .reset → ∀ pool, s = .ok pool →
    pool.list.getDataValue ((size : Int) - 1) = .ok zero))

variable {s : Exec (Pool α)}

/-- Where the promise is kept, what `Malloc` hands out next is clean. -/
theorem Promised.data_eq {size : Nat} {zero data : α} (h : Promised size zero s)
    (hdata : (s >>= fun pool => pool.list.malloc >>= fun result =>
      result.2.getDataValue result.1) = .ok data) : data = zero := by
  obtain ⟨pool, rfl, -, hhands⟩ := h
  rw [Exec.ok_bind] at hdata
  obtain ⟨⟨p, list⟩, hmalloc, hvalue⟩ := Exec.bind_eq_ok_iff.mp hdata
  have hsome : p ≠ null := by
    rintro rfl
    simp [StaticList.getDataValue, StaticList.getNode, null] at hvalue
  obtain ⟨data', hvalue', rfl⟩ := hhands.data hmalloc hsome
  exact Except.ok.inj (hvalue.symm.trans hvalue')

/-! ## The chain in every history -/

/-- The free slots among `0, …, last` hold the zero value. -/
def Pool.Clean (last : Nat) (zero : α) (pool : Pool α) : Prop :=
  ∀ p ≤ last, p ∉ pool.allocated →
    ∃ next, pool.list.datas.read p = some { data := zero, next := next }

/-- What holds in every history of a list with the slots `0, …, last`. -/
structure Tracks (last : Nat) (zero : α) (pool : Pool α) : Prop where
  zero : pool.list.zero = zero
  fresh : pool.list.datas.fresh = last + 1
  allocated : ∀ p ∈ pool.allocated, p ≤ last
  chained : pool.Chained (last + 1)

variable {request : Request α}

namespace Tracks

variable {last : Nat} {zero : α} {pool : Pool α}

theorem read (h : Tracks last zero pool) {p : Ptr} (hp : p ≤ last) :
    ∃ node, pool.list.datas.read p = some node := by
  have hlength : pool.list.datas.cells.length = last + 1 := h.fresh
  have hlt : p < pool.list.datas.cells.length := hlength ▸ Nat.lt_succ_of_le hp
  exact ⟨_, List.getElem?_eq_getElem hlt⟩

/-- A new list. -/
theorem new (last : Nat) (zero : α) :
    ∃ pool, Pool.new (1 + last) zero = .ok pool ∧ Tracks last zero pool ∧
      pool.Clean last zero := by
  obtain ⟨list, hnew, hzero, hfresh, hclean, hchain⟩ := StaticList.newStaticList_spec last zero
  refine ⟨{ list := list, allocated := ∅ }, ?_, ?_, fun p hp _ => hclean p hp⟩
  · rw [Pool.new, hnew, Exec.ok_bind]
  · refine ⟨hzero, hfresh, fun p hp => absurd hp (Finset.notMem_empty p), _, hchain,
      List.nodup_range, fun p => ?_⟩
    simp

/-- **Malloc.**  The first slot of the chain, if there is one, becomes allocated; no data
changes. -/
theorem malloc (h : Tracks last zero pool) :
    ∃ p list, pool.list.malloc = .ok (p, list) ∧
      ((p = null ∧ list = pool.list ∧ ∀ slot < last + 1, slot ∈ pool.allocated) ∨
        ∃ slot ≤ last, p = slot ∧ slot ∉ pool.allocated ∧
          ∃ node, pool.list.datas.read slot = some node ∧
            list.datas.read =
              Function.update pool.list.datas.read slot (some { node with next := null }) ∧
            Tracks last zero { list := list, allocated := insert slot pool.allocated }) := by
  obtain ⟨frees, hchain, hnodup, hmem⟩ := h.chained
  cases frees with
  | nil =>
    refine ⟨null, pool.list, StaticList.malloc_nil hchain, .inl ⟨rfl, rfl, ?_⟩⟩
    intro slot hslot
    by_contra hfree
    exact absurd ((hmem slot).mpr ⟨hslot, hfree⟩) List.not_mem_nil
  | cons slot rest =>
    obtain ⟨hslot, hfree⟩ := (hmem slot).mp List.mem_cons_self
    obtain ⟨node, list, hread, hmalloc, hlist, hfresh, hzero, hrest⟩ :=
      StaticList.malloc_cons hchain
    obtain ⟨hnot, hnodup⟩ := List.nodup_cons.mp hnodup
    refine ⟨slot, list, hmalloc, .inr ⟨slot, Nat.le_of_lt_succ hslot, rfl, hfree, node, hread,
      hlist, hzero.trans h.zero, hfresh.trans h.fresh, ?_, rest, ?_, hnodup, fun p => ?_⟩⟩
    · intro p hp
      rcases Finset.mem_insert.mp hp with rfl | hp
      · exact Nat.le_of_lt_succ hslot
      · exact h.allocated p hp
    · show FreeChain list.datas.read list.free rest
      rw [hlist]
      exact hrest.update hnot _
    · have hold := hmem p
      by_cases heq : p = slot
      · subst heq
        simp [hnot]
      · simpa [heq] using hold

/-- The call of `Malloc` that hands out a slot. -/
theorem call_malloc {slot : Ptr} {list : StaticList α}
    (hmalloc : pool.list.malloc = .ok ((slot : Int), list)) :
    pool.call .malloc = .ok { list := list, allocated := insert slot pool.allocated } := by
  simp [Pool.call, hmalloc, natCast_ne_null slot]

/-- **Free.**  The slot is cleared and leads the chain. -/
theorem free (h : Tracks last zero pool) {p : Ptr} (hp : p ∈ pool.allocated) :
    ∃ pool', pool.call (.free p) = .ok pool' ∧ Tracks last zero pool' ∧
      (pool.Clean last zero → pool'.Clean last zero) := by
  obtain ⟨node, hread⟩ := h.read (h.allocated p hp)
  obtain ⟨list, hfree, hlist, hfresh, hzero, hhead⟩ := StaticList.freeNode_spec pool.list hread
  obtain ⟨frees, hchain, hnodup, hmem⟩ := h.chained
  have hnot : p ∉ frees := fun hfrees => ((hmem p).mp hfrees).2 hp
  refine ⟨{ list := list, allocated := pool.allocated.erase p }, ?_, ?_, ?_⟩
  · rw [Pool.call, hfree, Exec.ok_bind]
  · refine ⟨hzero.trans h.zero, hfresh.trans h.fresh,
      fun q hq => h.allocated q (Finset.mem_of_mem_erase hq), p :: frees, ?_,
      List.nodup_cons.mpr ⟨hnot, hnodup⟩, fun q => ?_⟩
    · show FreeChain list.datas.read list.free (p :: frees)
      rw [hlist, hhead]
      exact StaticList.freeChain_cons hchain hnot _
    · by_cases heq : q = p
      · subst heq
        simpa using Nat.lt_succ_of_le (h.allocated q hp)
      · simp [heq, hmem q]
  · intro hclean q hq hallocated
    show ∃ next, list.datas.read q = _
    rw [hlist]
    by_cases heq : q = p
    · rw [heq, Function.update_self, h.zero]
      exact ⟨_, rfl⟩
    · rw [Function.update_of_ne heq]
      exact hclean q hq fun hmem => hallocated (Finset.mem_erase.mpr ⟨heq, hmem⟩)

/-- **SetDataValue.**  Only an allocated slot is written. -/
theorem setDataValue (h : Tracks last zero pool) {p : Ptr} (hp : p ∈ pool.allocated) (val : α) :
    ∃ pool', pool.call (.setDataValue p val) = .ok pool' ∧ Tracks last zero pool' ∧
      (pool.Clean last zero → pool'.Clean last zero) := by
  obtain ⟨node, hread⟩ := h.read (h.allocated p hp)
  obtain ⟨list, hset, hlist, hfresh, hzero, hhead⟩ := StaticList.setDataValue_spec hread val
  obtain ⟨frees, hchain, hnodup, hmem⟩ := h.chained
  refine ⟨{ pool with list := list }, ?_, ?_, ?_⟩
  · rw [Pool.call, hset, Exec.ok_bind]
  · refine ⟨hzero.trans h.zero, hfresh.trans h.fresh, h.allocated, frees, ?_, hnodup, hmem⟩
    show FreeChain list.datas.read list.free frees
    rw [hlist, hhead]
    exact hchain.update (fun hfrees => ((hmem p).mp hfrees).2 hp) _
  · intro hclean q hq hallocated
    show ∃ next, list.datas.read q = _
    have hne : q ≠ p := fun heq => hallocated (heq ▸ hp)
    rw [hlist, Function.update_of_ne hne]
    exact hclean q hq hallocated

/-- **Reset.**  All slots are free, and they are clean exactly if the last one was. -/
theorem reset (h : Tracks last zero pool) :
    ∃ pool', pool.call .reset = .ok pool' ∧ Tracks last zero pool' ∧
      (pool'.Clean last zero ↔ pool.list.getDataValue last = .ok zero) := by
  obtain ⟨node, hread⟩ := h.read (Nat.le_refl last)
  obtain ⟨list, hreset, hzero, hfresh, hbefore, hlast, hchain⟩ := StaticList.reset_spec h.fresh
  refine ⟨{ list := list, allocated := ∅ }, ?_, ?_, ?_⟩
  · rw [Pool.call, hreset, Exec.ok_bind]
  · refine ⟨hzero.trans h.zero, hfresh, fun p hp => absurd hp (Finset.notMem_empty p), _, hchain,
      List.nodup_range, fun p => ?_⟩
    simp
  · rw [StaticList.getDataValue_spec hread]
    constructor
    · intro hclean
      obtain ⟨next, hnext⟩ := hclean last (Nat.le_refl last) (Finset.notMem_empty last)
      have hsame := (hlast node hread).symm.trans hnext
      rw [(Node.mk.inj (Option.some.inj hsame)).1]
    · intro hdata p hp _
      rcases Nat.lt_or_eq_of_le hp with hlt | rfl
      · exact ⟨_, (hbefore p hlt).trans (by rw [h.zero])⟩
      · exact ⟨_, (hlast node hread).trans (by rw [Except.ok.inj hdata])⟩

/-- **The step lemma.**  A legal call does not panic and keeps the chain in order, and it
keeps the free slots clean unless it is a `Reset` with a dirty last slot. -/
theorem call (h : Tracks last zero pool) (hlegal : pool.Legal request) :
    ∃ pool', pool.call request = .ok pool' ∧ Tracks last zero pool' ∧
      (pool.Clean last zero → (request = .reset → pool.list.getDataValue last = .ok zero) →
        pool'.Clean last zero) := by
  cases request with
  | malloc =>
    obtain ⟨p, list, hmalloc, ⟨rfl, rfl, -⟩ | hslot⟩ := h.malloc
    · refine ⟨pool, ?_, h, fun hclean _ => hclean⟩
      simp [Pool.call, hmalloc]
    · obtain ⟨slot, -, rfl, -, node, -, hlist, htracks⟩ := hslot
      refine ⟨_, call_malloc hmalloc, htracks, fun hclean _ q hq hallocated => ?_⟩
      obtain ⟨hne, hfree⟩ := not_or.mp (mt Finset.mem_insert.mpr hallocated)
      show ∃ next, list.datas.read q = _
      rw [hlist, Function.update_of_ne hne]
      exact hclean q hq hfree
  | free p =>
    obtain ⟨pool', hcall, htracks, hclean⟩ := h.free hlegal
    exact ⟨pool', hcall, htracks, fun hpool _ => hclean hpool⟩
  | setDataValue p val =>
    obtain ⟨pool', hcall, htracks, hclean⟩ := h.setDataValue hlegal val
    exact ⟨pool', hcall, htracks, fun hpool _ => hclean hpool⟩
  | reset =>
    obtain ⟨pool', hcall, htracks, hclean⟩ := h.reset
    exact ⟨pool', hcall, htracks, fun _ hlast => hclean.mpr (hlast rfl)⟩

/-- What `Malloc` returns, with what is known of the data in the free slots. -/
theorem handsOut (h : Tracks last zero pool) {content : α → Prop}
    (hcontent : ∀ p ≤ last, p ∉ pool.allocated → ∀ node,
      pool.list.datas.read p = some node → content node.data) :
    pool.HandsOut (last + 1) content := by
  obtain ⟨p, list, hmalloc, ⟨rfl, rfl, hall⟩ | hslot⟩ := h.malloc
  · exact ⟨null, pool.list, hmalloc, iff_of_true rfl hall, fun hne => absurd rfl hne⟩
  · obtain ⟨slot, hle, rfl, hfree, node, hread, hlist, -⟩ := hslot
    have hlt : slot < last + 1 := Nat.lt_succ_of_le hle
    have hdata : list.datas.read slot = some { node with next := null } := by
      rw [hlist, Function.update_self]
    have hleft : ¬ ∀ slot < last + 1, slot ∈ pool.allocated := fun hall => hfree (hall slot hlt)
    exact ⟨slot, list, hmalloc, iff_of_false (natCast_ne_null slot) hleft, fun _ =>
      ⟨slot, hlt, rfl, hfree, node.data, StaticList.getDataValue_spec hdata,
        hcontent slot hle hfree node hread⟩⟩

/-- A list whose free slots are clean keeps its promise. -/
theorem promised (h : Tracks last zero pool) (hclean : pool.Clean last zero) :
    Promised (last + 1) zero (.ok pool) := by
  refine ⟨pool, rfl, h.chained, h.handsOut fun p hp hfree node hread => ?_⟩
  obtain ⟨next, hnext⟩ := hclean p hp hfree
  rw [Option.some.inj (hread.symm.trans hnext)]

end Tracks

/-! ## Which histories keep the promise -/

section Histories

variable {last : Nat} {zero : α} {pool : Pool α}

/-- In every history the chain is in order, and `Malloc` returns a slot that is not
allocated unless there is none. -/
theorem run_chained (hrun : (allocation (1 + last) zero).Run (fun _ _ => True) s) :
    ∃ pool, s = .ok pool ∧ pool.Chained (1 + last) ∧ pool.HandsOut (1 + last) fun _ => True := by
  have htracks : ∃ pool, s = .ok pool ∧ Tracks last zero pool := by
    apply hrun.invariant
    · obtain ⟨pool, hnew, htracks, -⟩ := Tracks.new last zero
      exact ⟨pool, hnew, htracks⟩
    · rintro _ request ⟨pool, rfl, htracks⟩ hlegal -
      obtain ⟨pool', hcall, htracks', -⟩ := htracks.call (hlegal pool rfl)
      exact ⟨pool', hcall, htracks'⟩
  obtain ⟨pool, rfl, htracks⟩ := htracks
  rw [Nat.add_comm]
  exact ⟨pool, rfl, htracks.chained, htracks.handsOut fun _ _ _ _ _ => trivial⟩

/-- The list keeps its promise now and however often `Malloc` is called next. -/
def KeepsPromise (size : Nat) (zero : α) (s : Exec (Pool α)) : Prop :=
  ∀ more, Promised size zero ((allocation size zero).after (List.replicate more .malloc) s)

theorem KeepsPromise.malloc {size : Nat} (h : KeepsPromise size zero s) :
    KeepsPromise size zero (s >>= fun pool => pool.call .malloc) :=
  fun more => h (more + 1)

/-- Clean slots stay clean while they are handed out. -/
theorem Tracks.keepsPromise (h : Tracks last zero pool) (hclean : pool.Clean last zero) :
    KeepsPromise (last + 1) zero (.ok pool) := by
  intro more
  induction more generalizing pool with
  | zero => exact h.promised hclean
  | succ more ih =>
    obtain ⟨pool', hcall, htracks, hclean'⟩ := h.call (show pool.Legal .malloc from trivial)
    have hnext := ih htracks (hclean' hclean (by simp))
    rw [← hcall] at hnext
    exact hnext

/-- A dirty slot is handed out sooner or later: the slots in front of it in the chain go
first. -/
theorem Tracks.clean_of_keepsPromise (h : Tracks last zero pool)
    (hkeeps : KeepsPromise (last + 1) zero (.ok pool)) : pool.Clean last zero := by
  intro p hp hfree
  induction hcard : (Finset.range (last + 1) \ pool.allocated).card
    using Nat.strong_induction_on generalizing pool with
  | _ n ih =>
    obtain ⟨q, list, hmalloc, ⟨rfl, rfl, hall⟩ | hslot⟩ := h.malloc
    · exact absurd (hall p (Nat.lt_succ_of_le hp)) hfree
    · obtain ⟨slot, hle, rfl, hslot, node, hread, hlist, htracks⟩ := hslot
      have hdata : list.datas.read slot = some { node with next := null } := by
        rw [hlist, Function.update_self]
      by_cases heq : p = slot
      · subst heq
        obtain ⟨pool', hpool, -, hhands⟩ := hkeeps 0
        rw [← Except.ok.inj hpool] at hhands
        obtain ⟨data, hvalue, rfl⟩ := hhands.data hmalloc (natCast_ne_null p)
        rw [StaticList.getDataValue_spec hdata] at hvalue
        exact ⟨node.next, by rw [hread, ← Except.ok.inj hvalue]⟩
      · have hkeeps' := hkeeps.malloc
        rw [Exec.ok_bind, Tracks.call_malloc hmalloc] at hkeeps'
        have hfewer : (Finset.range (last + 1) \ insert slot pool.allocated).card < n := by
          rw [← hcard, Finset.sdiff_insert]
          apply Finset.card_erase_lt_of_mem
          exact Finset.mem_sdiff.mpr ⟨Finset.mem_range.mpr (Nat.lt_succ_of_le hle), hslot⟩
        have hfree' : p ∉ insert slot pool.allocated := by simp [heq, hfree]
        obtain ⟨next, hnext⟩ := ih _ hfewer htracks hkeeps' hfree' rfl
        exact ⟨next, by rw [← hnext, hlist, Function.update_of_ne heq]⟩

theorem resetsClean_ok_iff :
    ResetsClean (last + 1) zero (.ok pool) request ↔
      (request = .reset → pool.list.getDataValue last = .ok zero) := by
  have hlast : ((last + 1 : Nat) : Int) - 1 = last := by simp
  rw [ResetsClean, hlast]
  exact ⟨fun h heq => h heq pool rfl, fun h heq _ hpool => Except.ok.inj hpool ▸ h heq⟩

/-- Only a `Reset` that finds the last slot clean leaves clean slots. -/
theorem Tracks.resetsClean {pool' : Pool α} (h : Tracks last zero pool)
    (hcall : pool.call request = .ok pool') (hclean : pool'.Clean last zero) :
    ResetsClean (last + 1) zero (.ok pool) request := by
  rw [resetsClean_ok_iff]
  rintro rfl
  obtain ⟨pool'', hcall', -, hiff⟩ := h.reset
  rw [Except.ok.inj (hcall.symm.trans hcall')] at hclean
  exact hiff.mp hclean

/-- The promise is kept along a history that starts with clean slots exactly if every
`Reset` of it finds the last slot clean. -/
theorem Tracks.keepsPromise_iff {requests : List (Request α)} (h : Tracks last zero pool)
    (hclean : pool.Clean last zero)
    (hlegal : (allocation (last + 1) zero).Admits (fun _ _ => True) requests (.ok pool)) :
    (∀ before, before <+: requests →
        KeepsPromise (last + 1) zero ((allocation (last + 1) zero).after before (.ok pool))) ↔
      (allocation (last + 1) zero).Admits (ResetsClean (last + 1) zero) requests (.ok pool) := by
  induction requests generalizing pool with
  | nil =>
    refine iff_of_true (fun before hbefore => ?_) trivial
    rw [List.prefix_nil.mp hbefore]
    exact h.keepsPromise hclean
  | cons request rest ih =>
    obtain ⟨hrequest, -, hlegal⟩ := hlegal
    obtain ⟨pool', hcall, htracks, hkeeps⟩ := h.call (hrequest pool rfl)
    have hnext : (allocation (last + 1) zero).next (.ok pool) request = .ok pool' := hcall
    rw [hnext] at hlegal
    constructor
    · intro hpromise
      have hrest : ∀ before, before <+: rest → KeepsPromise (last + 1) zero
          ((allocation (last + 1) zero).after before (.ok pool')) := by
        intro before hbefore
        have hlonger := hpromise (request :: before) (List.cons_prefix_cons.mpr ⟨rfl, hbefore⟩)
        rwa [System.after, List.foldl_cons, hnext] at hlonger
      have hclean' := htracks.clean_of_keepsPromise (hrest [] List.nil_prefix)
      exact ⟨hrequest, h.resetsClean hcall hclean',
        hnext ▸ (ih htracks hclean' hlegal).mp hrest⟩
    · rintro ⟨-, hreset, hresets⟩ before hbefore
      rw [hnext] at hresets
      have hclean' := hkeeps hclean (resetsClean_ok_iff.mp hreset)
      rcases List.prefix_cons_iff.mp hbefore with rfl | ⟨before, rfl, hshorter⟩
      · exact h.keepsPromise hclean
      · rw [System.after, List.foldl_cons, hnext]
        exact (ih htracks hclean' hlegal).mpr hresets before hshorter

/-- **Which histories hand out clean slots.**  Take any history of a list of `size ≥ 1`
slots.  At every point of it, and however often `Malloc` is called from there on, the
free chain visits exactly the slots that are not allocated and `Malloc` hands out a
clean one of them, if and only if every `Reset` of the history was made while the last
slot held the zero value. -/
theorem history_keepsPromise_iff {size : Nat} (hsize : 1 ≤ size) (zero : α)
    (requests : List (Request α))
    (hlegal : (allocation size zero).Admits (fun _ _ => True) requests
      (allocation size zero).init) :
    (∀ before, before <+: requests → KeepsPromise size zero
        ((allocation size zero).after before (allocation size zero).init)) ↔
      (allocation size zero).Admits (ResetsClean size zero) requests
        (allocation size zero).init := by
  obtain ⟨last, rfl⟩ := Nat.exists_eq_add_of_le' hsize
  obtain ⟨pool, hnew, htracks, hclean⟩ := Tracks.new last zero
  have hinit : (allocation (last + 1) zero).init = .ok pool := by
    rw [← hnew, Nat.add_comm]
    rfl
  rw [hinit] at hlegal ⊢
  exact htracks.keepsPromise_iff hclean hlegal

/-- The last slot is written and given back before the `Reset`. -/
theorem history_keepsPromise_free_reset :
    KeepsPromise 1 0 ((allocation 1 0).after [.malloc, .setDataValue 0 7, .free 0, .reset]
      (allocation 1 0).init) :=
  (history_keepsPromise_iff (Nat.le_refl 1) 0 [.malloc, .setDataValue 0 7, .free 0, .reset]
    (by decide)).mpr (by decide) _ (List.prefix_refl _)

/-- Both slots are taken and `7` is written to the last one.  After a `Reset` the second
`Malloc` hands it out with the `7` still in it. -/
theorem reset_keeps_last_data :
    (allocation 2 0).Admits (fun _ _ => True)
        [.malloc, .malloc, .setDataValue 1 7, .reset, .malloc] (allocation 2 0).init ∧
      ¬ Promised 2 0 ((allocation 2 0).after
        [.malloc, .malloc, .setDataValue 1 7, .reset, .malloc] (allocation 2 0).init) := by
  refine ⟨by decide, fun hpromised => ?_⟩
  have hdata : 7 = 0 := hpromised.data_eq rfl
  exact absurd hdata (by decide)

end Histories

end Gokit.Ds.Static
