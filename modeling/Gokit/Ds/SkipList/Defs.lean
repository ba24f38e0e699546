/-
# The skip list of `ds/skiplist`

A skip list is a header node with `maxLevel` levels and a population of data
nodes, each tall enough to take part in its own number of levels.  Level `i` of
a node holds a pointer to the next node that reaches level `i`, together with
the span, the number of level-0 steps that pointer jumps over.

The functions here follow `skiplist.go` statement by statement over an explicit
heap: a node is a cell of a `Store`, the arrays `update` and `rank` of a search
are one list of pairs whose entry `i` belongs to level `i`, and the height drawn
by `randomLevel` is an argument of the operations that draw one.  Nothing is
assumed about the shape of the heap, so each operation may fault.
-/

import Gokit.Math.Store

namespace Gokit.Ds

open Gokit.Math

def maxLevel : Nat := 32

/-- The constraint `ElemType[T]` of `generics.go`. -/
class ElemType (T : Type) where
  compare : T → T → Int

export ElemType (compare)

/-- What the callers of `ds/skiplist` promise: `Compare` decides a strict total
order and answers zero on equal elements only. -/
class LawfulElemType (T : Type) [ElemType T] : Prop where
  compare_eq_zero_iff : ∀ a b : T, compare a b = 0 ↔ a = b
  compare_neg_iff : ∀ a b : T, compare a b < 0 ↔ 0 < compare b a
  compare_trans : ∀ a b c : T, compare a b < 0 → compare b c < 0 → compare a c < 0

/-- A height `randomLevel` can return. -/
abbrev DrawnLevel : Type := { level : Nat // 1 ≤ level ∧ level ≤ maxLevel }

/-- `randomLevel`: `coin k` is the outcome of the `k`-th test
`r.Float32() < skipListP`; `budget` counts the levels still below `maxLevel`. -/
def randomLevelFrom (coin : Nat → Bool) : (budget draw : Nat) → Nat → Nat
  | 0, _, level => level
  | budget + 1, draw, level =>
    if coin draw then randomLevelFrom coin budget (draw + 1) (level + 1) else level

theorem randomLevelFrom_bounds (coin : Nat → Bool) :
    ∀ budget draw level, level ≤ randomLevelFrom coin budget draw level ∧
      randomLevelFrom coin budget draw level ≤ level + budget := by
  intro budget
  induction budget with
  | zero => intro draw level; simp [randomLevelFrom]
  | succ budget ih =>
    intro draw level
    have hstep := ih (draw + 1) (level + 1)
    simp only [randomLevelFrom]
    split <;> omega

/-- The height drawn for a new node: one, plus one for each success before the
first failure, and never more than `maxLevel`. -/
def randomLevel (coin : Nat → Bool) : DrawnLevel :=
  ⟨randomLevelFrom coin (maxLevel - 1) 0 1, by
    have hbounds := randomLevelFrom_bounds coin (maxLevel - 1) 0 1
    simp only [maxLevel] at hbounds ⊢
    omega⟩

structure SkiplistLevel where
  next : Option Ptr
  span : Int
  deriving DecidableEq, Repr

/-- The zero value of a level, as `make` leaves it. -/
def SkiplistLevel.zero : SkiplistLevel := ⟨none, 0⟩

structure Node (T : Type) where
  data : T
  level : List SkiplistLevel
  deriving DecidableEq, Repr

structure SkipList (T : Type) where
  heap : Store (Node T)
  header : Ptr
  level : Nat
  length : Int
  deriving DecidableEq, Repr

section Heap

variable {T : Type}

def levelAt (heap : Store (Node T)) (x : Ptr) (i : Nat) : Exec SkiplistLevel := do
  let node ← heap.deref x
  match node.level[i]? with
  | some level => .ok level
  | none => .error .indexOutOfRange

def dataAt (heap : Store (Node T)) (x : Ptr) : Exec T := do
  let node ← heap.deref x
  .ok node.data

def setLevelAt (heap : Store (Node T)) (x : Ptr) (i : Nat) (level : SkiplistLevel) :
    Exec (Store (Node T)) := do
  let node ← heap.deref x
  if i < node.level.length then
    .ok (heap.write x { node with level := node.level.set i level })
  else
    .error .indexOutOfRange

def setNext (heap : Store (Node T)) (x : Ptr) (i : Nat) (next : Option Ptr) :
    Exec (Store (Node T)) := do
  let level ← levelAt heap x i
  setLevelAt heap x i { level with next }

def setSpan (heap : Store (Node T)) (x : Ptr) (i : Nat) (span : Int) : Exec (Store (Node T)) := do
  let level ← levelAt heap x i
  setLevelAt heap x i { level with span }

def setData (heap : Store (Node T)) (x : Ptr) (data : T) : Exec (Store (Node T)) := do
  let node ← heap.deref x
  .ok (heap.write x { node with data })

/-- A `for` loop over consecutive levels, starting at level `i`: each round is
given its level and that level's entry of the `update` and `rank` arrays. -/
def forLevels (body : Store (Node T) → Nat → Ptr × Int → Exec (Store (Node T))) :
    Store (Node T) → Nat → List (Ptr × Int) → Exec (Store (Node T))
  | heap, _, [] => .ok heap
  | heap, i, entry :: path => do
    let heap ← body heap i entry
    forLevels body heap (i + 1) path

end Heap

section Operations

variable {T : Type} [ElemType T]

/-- The inner loop of every search: advance along level `i` while the next node
holds smaller data, adding up the spans passed. -/
def walk (heap : Store (Node T)) (data : T) (i : Nat) : (fuel : Nat) → Ptr → Int → Exec (Ptr × Int)
  | 0, _, _ => .error .diverges
  | fuel + 1, x, rank => do
    let level ← levelAt heap x i
    match level.next with
    | none => .ok (x, rank)
    | some next => do
      let nextData ← dataAt heap next
      if compare nextData data < 0 then
        walk heap data i fuel next (rank + level.span)
      else
        .ok (x, rank)

/-- The outer loop of every search, from level `i - 1` down to level 0.  The
result lists `(update[j], rank[j])` by increasing level and ends with the node
the loop stopped at. -/
def descend (heap : Store (Node T)) (data : T) (fuel : Nat) :
    Nat → Ptr → Int → List (Ptr × Int) → Exec (List (Ptr × Int) × Ptr × Int)
  | 0, x, rank, path => .ok (path, x, rank)
  | i + 1, x, rank, path => do
    let (x, rank) ← walk heap data i fuel x rank
    descend heap data fuel i x rank ((x, rank) :: path)

/-- A complete search. No level holds more nodes than the heap, so the heap
bounds the rounds of each inner loop. -/
def SkipList.search (sl : SkipList T) (data : T) : Exec (List (Ptr × Int) × Ptr × Int) :=
  descend sl.heap data (sl.heap.fresh + 1) sl.level sl.header 0 []

omit [ElemType T] in
def newSkipList [Inhabited T] : SkipList T where
  heap := ⟨[{ data := default, level := List.replicate maxLevel .zero }]⟩
  header := 0
  level := 1
  length := 0

/-- The body of the loop that opens a level: the header becomes the predecessor
there and its span covers the whole list. -/
def openLevel (length : Int) (heap : Store (Node T)) (i : Nat) (entry : Ptr × Int) :
    Exec (Store (Node T)) :=
  setSpan heap entry.1 i length

/-- The body of the loop that links the new node `x` behind `update[i]`. -/
def linkLevel (x : Ptr) (rank0 : Int) (heap : Store (Node T)) (i : Nat)
    (entry : Ptr × Int) : Exec (Store (Node T)) := do
  let (update, rank) := entry
  let level ← levelAt heap update i
  let heap ← setNext heap x i level.next
  let heap ← setNext heap update i (some x)
  let heap ← setSpan heap x i (level.span - (rank0 - rank))
  setSpan heap update i ((rank0 - rank) + 1)

/-- The body of the loop over the levels above the new node. -/
def bumpLevel (heap : Store (Node T)) (i : Nat) (entry : Ptr × Int) : Exec (Store (Node T)) := do
  let level ← levelAt heap entry.1 i
  setSpan heap entry.1 i (level.span + 1)

/-- `SkipList.Insert`, with the height that `randomLevel` draws. -/
def SkipList.insert (sl : SkipList T) (data : T) (drawn : DrawnLevel) :
    Exec (SkipList T × Int) := do
  let (path, _, _) ← sl.search data
  let level := drawn.1
  let opened := List.replicate (level - sl.level) (sl.header, (0 : Int))
  let heap ← forLevels (openLevel sl.length) sl.heap sl.level opened
  let path := path ++ opened
  let rank0 := (path.headD (sl.header, 0)).2
  let x := heap.fresh
  let heap := heap.alloc { data, level := List.replicate level .zero }
  let heap ← forLevels (linkLevel x rank0) heap 0 (path.take level)
  let heap ← forLevels bumpLevel heap level (path.drop level)
  .ok ({ sl with heap, level := max sl.level level, length := sl.length + 1 }, rank0 + 1)

/-- The body of the loop that unlinks `x` behind `update[i]`; `x` may be nil. -/
def unlinkLevel (x : Option Ptr) (heap : Store (Node T)) (i : Nat) (entry : Ptr × Int) :
    Exec (Store (Node T)) := do
  let level ← levelAt heap entry.1 i
  if level.next = x then do
    let x ← nonNil x
    let own ← levelAt heap x i
    let heap ← setSpan heap entry.1 i (level.span + (own.span - 1))
    setNext heap entry.1 i own.next
  else
    setSpan heap entry.1 i (level.span - 1)

/-- The loop that drops empty levels from the top, down to level 1. -/
def shrinkLevel (heap : Store (Node T)) (header : Ptr) : Nat → Exec Nat
  | 0 => .ok 0
  | 1 => .ok 1
  | level + 2 => do
    let top ← levelAt heap header (level + 1)
    match top.next with
    | none => shrinkLevel heap header (level + 1)
    | some _ => .ok (level + 2)

/-- The statements `Remove` and `Update` share: unlink `x`, drop the levels that
became empty, and count one node less. -/
def SkipList.deleteNode (sl : SkipList T) (path : List (Ptr × Int)) (x : Option Ptr) :
    Exec (SkipList T) := do
  let heap ← forLevels (unlinkLevel x) sl.heap 0 path
  let level ← shrinkLevel heap sl.header sl.level
  .ok { sl with heap, level, length := sl.length - 1 }

def SkipList.remove (sl : SkipList T) (data : T) : Exec (SkipList T × Bool) := do
  let (path, last, _) ← sl.search data
  let front ← levelAt sl.heap last 0
  match front.next with
  | none => .ok (sl, false)
  | some x => do
    let found ← dataAt sl.heap x
    if compare found data = 0 then do
      let sl ← sl.deleteNode path (some x)
      .ok (sl, true)
    else
      .ok (sl, false)

def SkipList.contains (sl : SkipList T) (data : T) : Exec Bool := do
  let (_, last, _) ← sl.search data
  let front ← levelAt sl.heap last 0
  match front.next with
  | none => .ok false
  | some x => do
    let found ← dataAt sl.heap x
    .ok (decide (compare found data = 0))

/-- The condition of the in-place branch of `Update`, evaluated left to right
with Go's short circuits; `x` may be nil. -/
def SkipList.staysInPlace (sl : SkipList T) (prev : Ptr) (x : Option Ptr) (data : T) :
    Exec Bool := do
  let afterPrev ←
    if prev = sl.header then .ok true
    else do
      let prevData ← dataAt sl.heap prev
      .ok (decide (compare prevData data < 0))
  if afterPrev then do
    let x ← nonNil x
    let front ← levelAt sl.heap x 0
    match front.next with
    | none => .ok true
    | some next => do
      let nextData ← dataAt sl.heap next
      .ok (decide (compare nextData data > 0))
  else
    .ok false

/-- `SkipList.Update`, with the height drawn if the element moves. -/
def SkipList.update (sl : SkipList T) (old data : T) (drawn : DrawnLevel) :
    Exec (SkipList T × Int) := do
  let (path, prev, _) ← sl.search old
  let front ← levelAt sl.heap prev 0
  if ← sl.staysInPlace prev front.next data then do
    let x ← nonNil front.next
    let heap ← setData sl.heap x data
    .ok ({ sl with heap }, 0)
  else do
    let sl ← sl.deleteNode path front.next
    sl.insert data drawn

def SkipList.getRank (sl : SkipList T) (data : T) : Exec Int := do
  let (_, last, rank) ← sl.search data
  let front ← levelAt sl.heap last 0
  match front.next with
  | none => .ok (-1)
  | some x => do
    let found ← dataAt sl.heap x
    .ok (if compare found data = 0 then rank + 1 else -1)

omit [ElemType T] in
/-- `SkipList.Clear`: the header is reset, the data nodes are left to the
collector. -/
def SkipList.clear (sl : SkipList T) : Exec (SkipList T) := do
  let node ← sl.heap.deref sl.header
  let heap := sl.heap.write sl.header
    { node with level := List.replicate maxLevel .zero ++ node.level.drop maxLevel }
  if maxLevel ≤ node.level.length then
    .ok { sl with heap, level := 1, length := 0 }
  else
    .error .indexOutOfRange

def SkipList.len (sl : SkipList T) : Int := sl.length

end Operations

end Gokit.Ds
