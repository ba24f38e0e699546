/-
# The static list and the queue over it

A `StaticList` is a pool of slots in one array.  The free slots form a chain
through their `next` fields; `malloc` takes the first of them and `freeNode` puts
one back.  A `Queue` takes its nodes from such a pool and links them into a ring
through a sentinel, which is a slot of the pool as well.  While a slot is in use
its `next` field has no meaning for the pool, and the queue keeps the slot's own
index there, so that a node can be given back without a search.

A pointer to a slot, and the pointer to the queue node that is its first field,
are both modelled by the position of the slot.
-/

import Gokit.Math.Ring

namespace Gokit.Ds.Static

open Gokit.Math

/-! ## The pool -/

/-- `Node[T]`, a slot of the pool. -/
structure Node (α : Type) where
  data : α
  next : Int
  deriving DecidableEq, Repr

/-- `Null`, the end of the free chain. -/
def null : Int := -1

structure StaticList (α : Type) where
  datas : Store (Node α)
  free : Int
  zero : α
  deriving DecidableEq, Repr

namespace StaticList

variable {α : Type}

def getNode (list : StaticList α) (p : Int) : Exec Ptr :=
  if 0 ≤ p ∧ p < list.datas.fresh then .ok p.toNat else .error .indexOutOfRange

/-- What `Reset` does to the slot `i`: the loop clears it and chains it to the one
behind it. The loop stops before the last slot, whose data stays as it is. -/
def resetSlot (zero : α) (last i : Nat) (slot : Node α) : Node α :=
  if i < last then { data := zero, next := i + 1 } else { slot with next := null }

def reset (list : StaticList α) : Exec (StaticList α) :=
  match list.datas.cells.length with
  | 0 => .error .indexOutOfRange
  | last + 1 =>
    .ok { list with
      datas := ⟨list.datas.cells.mapIdx (resetSlot list.zero last)⟩
      free := 0 }

/-- `NewStaticList`; `make` fills the slots with zero values. -/
def newStaticList (size : Nat) (zero : α) : Exec (StaticList α) :=
  reset { datas := ⟨List.replicate size { data := zero, next := 0 }⟩, free := 0, zero := zero }

/-- `Malloc`: the first free slot, or `null`. -/
def malloc (list : StaticList α) : Exec (Int × StaticList α) :=
  if list.free = null then .ok (list.free, list)
  else do
    let slot ← list.getNode list.free
    let node ← list.datas.deref slot
    let datas ← list.datas.modify slot fun node => { node with next := null }
    .ok (list.free, { list with datas := datas, free := node.next })

/-- `Free`: clear a slot and put it in front of the free chain. -/
def freeNode (list : StaticList α) (p : Int) : Exec (StaticList α) := do
  let slot ← list.getNode p
  let datas ← list.datas.modify slot fun _ => { data := list.zero, next := list.free }
  .ok { list with datas := datas, free := p }

end StaticList

/-! ## The queue -/

structure QNode (T : Type) where
  value : T
  prev : Option Ptr
  next : Option Ptr
  deriving DecidableEq, Repr

structure Queue (T : Type) where
  pool : StaticList (QNode T)
  root : Ptr
  len : Int
  cap : Nat
  deriving DecidableEq, Repr

section Fields

variable {T : Type} (datas : Store (Node (QNode T))) (p : Ptr)

def getPrev : Exec (Option Ptr) := do
  let node ← datas.deref p
  .ok node.data.prev

def getNext : Exec (Option Ptr) := do
  let node ← datas.deref p
  .ok node.data.next

def setPrev (prev : Option Ptr) : Exec (Store (Node (QNode T))) :=
  datas.modify p fun node => { node with data := { node.data with prev := prev } }

def setNext (next : Option Ptr) : Exec (Store (Node (QNode T))) :=
  datas.modify p fun node => { node with data := { node.data with next := next } }

end Fields

namespace Queue

variable {T : Type}

/-- `init`: the first slot of the pool becomes the sentinel. -/
def init (pool : StaticList (QNode T)) (cap : Nat) : Exec (Queue T) := do
  let (p, pool) ← pool.malloc
  let root ← pool.getNode p
  let datas ← setPrev pool.datas root (some root)
  let datas ← setNext datas root (some root)
  .ok { pool := { pool with datas := datas }, root := root, len := 0, cap := cap }

def newQueue (cap : Nat) (zero : T) : Exec (Queue T) := do
  let pool ← StaticList.newStaticList (1 + cap) { value := zero, prev := none, next := none }
  init pool cap

/-- The last four assignments of `Push` and of `MoveToBack`: link a node in front
of the sentinel. -/
def linkBack (datas : Store (Node (QNode T))) (root node : Ptr) :
    Exec (Store (Node (QNode T))) := do
  let tail ← nonNil (← getPrev datas root)
  let datas ← setNext datas tail (some node)
  let datas ← setPrev datas node (some tail)
  let datas ← setNext datas node (some root)
  setPrev datas root (some node)

/-- The two assignments of `Remove` and of `MoveToBack` that close the gap. -/
def bypass (datas : Store (Node (QNode T))) (node : Ptr) : Exec (Store (Node (QNode T))) := do
  let prev ← nonNil (← getPrev datas node)
  let datas ← setNext datas prev (← getNext datas node)
  let next ← nonNil (← getNext datas node)
  setPrev datas next (← getPrev datas node)

/-- `Push`; no node is returned when the pool is full. -/
def push (q : Queue T) (data : T) : Exec (Option Ptr × Queue T) := do
  let (p, pool) ← q.pool.malloc
  if p = null then .ok (none, { q with pool := pool })
  else
    let node ← pool.getNode p
    let datas ← pool.datas.modify node fun slot => { slot with next := p }
    let datas ← datas.modify node fun slot => { slot with data := { slot.data with value := data } }
    let datas ← linkBack datas q.root node
    .ok (some node, { q with pool := { pool with datas := datas }, len := q.len + 1 })

def remove (q : Queue T) (node : Ptr) : Exec (Queue T) := do
  let slot ← q.pool.datas.deref node
  let datas ← bypass q.pool.datas node
  let pool ← { q.pool with datas := datas }.freeNode slot.next
  .ok { q with pool := pool, len := q.len - 1 }

def isEmpty (q : Queue T) : Exec Bool := do
  .ok ((← getNext q.pool.datas q.root) = some q.root)

/-- `Pop`; the zero value is returned when the queue is empty. -/
def pop (q : Queue T) : Exec (T × Queue T) := do
  if ← q.isEmpty then .ok (q.pool.zero.value, q)
  else
    let node ← nonNil (← getNext q.pool.datas q.root)
    let slot ← q.pool.datas.deref node
    let q ← q.remove node
    .ok (slot.data.value, q)

def moveToBack (q : Queue T) (node : Ptr) : Exec (Queue T) := do
  if (← getPrev q.pool.datas q.root) = some node then .ok q
  else
    let datas ← bypass q.pool.datas node
    let datas ← linkBack datas q.root node
    .ok { q with pool := { q.pool with datas := datas } }

/-- `PopRange`, for at most `fuel` rounds. The callback gets a copy of the value;
its answer may depend on the values it has seen before. -/
def popRange (fn : List T → T → Bool) : Nat → List T → Queue T → Exec (Queue T)
  | 0, _, _ => .error .diverges
  | fuel + 1, seen, q => do
    if ← q.isEmpty then .ok q
    else
      let node ← nonNil (← getNext q.pool.datas q.root)
      let slot ← q.pool.datas.deref node
      if fn seen slot.data.value then
        let q ← q.remove node
        popRange fn fuel (slot.data.value :: seen) q
      else .ok q

def clear (fuel : Nat) (q : Queue T) : Exec (Queue T) := popRange (fun _ _ => true) fuel [] q

end Queue

end Gokit.Ds.Static
