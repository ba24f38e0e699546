/-
# The timing wheel of the clock package

`Clock` keeps its timers in a wheel of four levels.  A level is an array of
slots, a slot is a doubly linked ring of timers with a sentinel, and each level
has a pointer to its current slot.  One tick moves the pointer of level 0 on by
one slot and serves the timers found there; whenever a pointer comes round to
zero the pointer of the next level moves on too, and the timers found there are
put back closer to the bottom.  The map `locs` finds a timer by its id.

Everything here runs on the clock's own goroutine: tasks (`NewTimer`,
`CancelTimer`, `UpdateTimer`) and ticks never overlap, so a run is a sequence of
them.  The heap is explicit and holds all `_Timer` cells, the sentinels among
them.  Times and slots are 64-bit integers with the machine's arithmetic; ids
count without bound, which is what an `int64` does for the first `2 ^ 63 - 1` timers.

What the outside world decides is passed in as an `Env`: whether a receiver
channel has room at an attempt to send, and in which order Go iterates over the
map of batches.  What the outside world sees is recorded in `log`.
-/

import Gokit.Math.Ring
import Mathlib.Data.Fintype.Basic

namespace Gokit

open Math

namespace Clock

/-! ## Constants -/

/-- `_SI`, the milliseconds of a tick: `10 * (1 << _SIEXP)` with `_SIEXP = 1`. -/
def si : Int64 := (10 : Int64) * ((1 : Int64) <<< 1)

/-- A level of the wheel, of which there are `_TIME_WHEEL_LEVEL`. -/
abbrev Level : Type := Fin 4

def levelDivis : Level → Int64
  | 0 => 0
  | 1 => 10
  | 2 => 18
  | 3 => 24

def levelSlots : Level → Int64
  | 0 => (1 : Int64) <<< 10
  | 1 => (1 : Int64) <<< 8
  | 2 => (1 : Int64) <<< 6
  | 3 => (1 : Int64) <<< 6

/-- `_LEVEL_MASKS`, as `init` computes it. -/
def levelMasks (level : Level) : Int64 := levelSlots level - 1

/-- `_LEVEL_TICKS`, as `init` computes it: the slots of a level times the ticks of
the level below. -/
def levelTicks : Level → Int64
  | 0 => levelSlots 0
  | 1 => levelSlots 1 * levelSlots 0
  | 2 => levelSlots 2 * (levelSlots 1 * levelSlots 0)
  | 3 => levelSlots 3 * (levelSlots 2 * (levelSlots 1 * levelSlots 0))

/-! ## Timers and promises -/

/-- A channel, by identity. -/
abbrev Chan : Type := Nat

/-- `_Timer`, without its two links. -/
structure Timer (D : Type) where
  id : Int
  when : Int64
  data : D
  receiver : Option Chan
  batch : Option Chan
  deriving DecidableEq, Repr, Inhabited

/-- `_Timer`, with its links. -/
abbrev TimerCell (D : Type) : Type := LinkCell (Timer D)

structure Promise (D : Type) where
  timerId : Int
  nowTs : Int64
  data : D
  deriving DecidableEq, Repr

/-- The promises gathered for each batch channel, `batchs` of `trigger`. -/
abbrev Batches (D : Type) : Type := List (Chan × List (Promise D))

/-- What crosses the interface of the clock. -/
inductive Event (D : Type)
  | created (timer : Timer D)
  | cancelled (id : Int) (ok : Bool)
  | updated (id : Int) (when : Int64) (ok : Bool)
  | sent (receiver : Chan) (promise : Promise D)
  | refused (id : Int)
  | sentBatch (batch : Chan) (promises : List (Promise D))
  deriving DecidableEq, Repr

/-- The choices of the outside world during a tick. An attempt to send may depend
on everything that happened before it, refused attempts included. -/
structure Env (D : Type) where
  room : List (Event D) → Chan → Bool
  order : Batches D → Batches D
  order_perm : ∀ batchs, (order batchs).Perm batchs

end Clock

/-- `Clock`. A slot of a level that has no list yet is `none`. -/
structure Clock (D : Type) where
  genId : Int
  lastTime : Int64
  slot : Clock.Level → Int64
  tw : Clock.Level × Int64 → Option Ptr
  locs : Int → Option Ptr
  heap : Store (Clock.TimerCell D)
  log : List (Clock.Event D)

namespace Clock

/-! ## Timer lists -/

section Lists

variable {D : Type}

/-- `newTimerList`: the sentinel points at itself. The pointer is the store's
`fresh` one. -/
def newTimerList [Inhabited D] (heap : Store (TimerCell D)) : Store (TimerCell D) :=
  heap.alloc ⟨default, some heap.fresh, some heap.fresh⟩

def pushBack (heap : Store (TimerCell D)) (root t : Ptr) : Exec (Store (TimerCell D)) := do
  let tail ← nonNil (← getPrev heap root)
  let heap ← setNext heap tail (some t)
  let heap ← setPrev heap t (some tail)
  let heap ← setNext heap t (some root)
  setPrev heap root (some t)

/-- The assignments that `removeFromList` and `_List.Remove` share. -/
def unlink (heap : Store (TimerCell D)) (t : Ptr) : Exec (Store (TimerCell D)) := do
  let prev ← nonNil (← getPrev heap t)
  let heap ← setNext heap prev (← getNext heap t)
  let next ← nonNil (← getNext heap t)
  let heap ← setPrev heap next (← getPrev heap t)
  let heap ← setPrev heap t none
  setNext heap t none

def removeFromList (heap : Store (TimerCell D)) (t : Ptr) : Exec (Store (TimerCell D) × Bool) := do
  if (← getPrev heap t) = none ∨ (← getNext heap t) = none then
    .ok (heap, false)
  else
    let heap ← unlink heap t
    .ok (heap, true)

/-- `_List.Remove`. -/
def listRemove (heap : Store (TimerCell D)) (root t : Ptr) : Exec (Store (TimerCell D) × Bool) :=
  if t = root then
    .ok (heap, false)
  else do
    let heap ← unlink heap t
    .ok (heap, true)

def isEmpty (heap : Store (TimerCell D)) (root : Ptr) : Exec Bool := do
  .ok ((← getNext heap root) = some root)

end Lists

/-! ## The wheel -/

section Wheel

variable {D : Type}

def newClock : Clock D where
  genId := 0
  lastTime := 0
  slot _ := 0
  tw _ := none
  locs _ := none
  heap := ⟨[]⟩
  log := []

/-- The slots an index expression into a level may name. -/
def InWheel (place : Level × Int64) : Prop := 0 ≤ place.2 ∧ place.2 < levelSlots place.1

instance (place : Level × Int64) : Decidable (InWheel place) :=
  inferInstanceAs (Decidable (_ ∧ _))

/-- `c.tw[level][slot]`. -/
def listAt (c : Clock D) (place : Level × Int64) : Exec (Option Ptr) :=
  if InWheel place then .ok (c.tw place) else .error .indexOutOfRange

/-- The ticks from `base` until `when`, rounded up, and at least one. -/
def ticksUntil (when base : Int64) : Int64 :=
  let ticks := (when - base + si - 1) / si
  if ticks ≤ 0 then 1 else ticks

/-- The level and slot chosen for a timer, counted from the time `base`. It is
the computation of `addTimer`, which `tick` repeats with its own base. -/
def place (slot : Level → Int64) (when base : Int64) : Level × Int64 :=
  let ticks := ticksUntil when base
  match (List.finRange 4).find? fun level => ticks < levelTicks level with
  | some level => (level, ((ticks >>> levelDivis level) + slot level) &&& levelMasks level)
  | none => (3, levelMasks 3)

def deleteLoc (c : Clock D) (id : Int) : Clock D :=
  { c with locs := Function.update c.locs id none }

def emit (c : Clock D) (event : Event D) : Clock D := { c with log := c.log ++ [event] }

variable [Inhabited D]

/-- The root of the list at `place`, with a new list if there is none. -/
def rootAt (c : Clock D) (place : Level × Int64) : Exec (Clock D × Ptr) := do
  match ← c.listAt place with
  | some root => .ok (c, root)
  | none =>
    .ok ({ c with heap := newTimerList c.heap, tw := Function.update c.tw place c.heap.fresh },
      c.heap.fresh)

def putTimer (c : Clock D) (place : Level × Int64) (t : Ptr) : Exec (Clock D) := do
  let (c, root) ← c.rootAt place
  let heap ← pushBack c.heap root t
  let timer ← getValue heap t
  .ok { c with heap, locs := Function.update c.locs timer.id (some t) }

def addTimer (c : Clock D) (t : Ptr) : Exec (Clock D) := do
  let timer ← getValue c.heap t
  c.putTimer (place c.slot timer.when c.lastTime) t

omit [Inhabited D] in
def delTimer (c : Clock D) (id : Int) : Exec (Clock D × Option Ptr) :=
  match c.locs id with
  | some t => do
    let (heap, _) ← removeFromList c.heap t
    .ok ({ c with heap }.deleteLoc id, some t)
  | none => .ok (c, none)

def updateTimer (c : Clock D) (id : Int) (when : Int64) : Exec (Clock D × Bool) := do
  match ← c.delTimer id with
  | (c, some t) =>
    let timer ← getValue c.heap t
    let heap ← setValue c.heap t { timer with when }
    let c ← { c with heap }.addTimer t
    .ok (c, true)
  | (c, none) => .ok (c, false)

/-! ## Tasks -/

def newTimerTask (c : Clock D) (when : Int64) (data : D) (receiver batch : Option Chan) :
    Exec (Clock D) := do
  let timer : Timer D := ⟨c.genId + 1, when, data, receiver, batch⟩
  let t := c.heap.fresh
  let c ← { c with genId := c.genId + 1, heap := c.heap.alloc ⟨timer, none, none⟩ }.addTimer t
  .ok (c.emit (.created timer))

omit [Inhabited D] in
def cancelTimerTask (c : Clock D) (id : Int) : Exec (Clock D) := do
  let (c, t) ← c.delTimer id
  .ok (c.emit (.cancelled id (t ≠ none)))

def updateTimerTask (c : Clock D) (id : Int) (when : Int64) : Exec (Clock D) := do
  let (c, ok) ← c.updateTimer id when
  .ok (c.emit (.updated id when ok))

/-! ## Ticks -/

/-- `_List.PopRange` for a callback that always returns true. The callback works
on the clock and on a state of its own. -/
def popRange {S : Type} (fn : Clock D × S → Ptr → Exec (Clock D × S)) (root : Ptr) :
    (fuel : Nat) → Clock D × S → Exec (Clock D × S)
  | 0, _ => .error .diverges
  | fuel + 1, (c, s) => do
    if ← isEmpty c.heap root then
      .ok (c, s)
    else
      let t ← nonNil (← getNext c.heap root)
      let (heap, _) ← listRemove c.heap root t
      let next ← fn ({ c with heap }, s) t
      popRange fn root fuel next

def appendBatch : Batches D → Chan → Promise D → Batches D
  | [], ch, promise => [(ch, [promise])]
  | (other, promises) :: rest, ch, promise =>
    if other = ch then
      (other, promises ++ [promise]) :: rest
    else
      (other, promises) :: appendBatch rest ch promise

def nextSlot (c : Clock D) (level : Level) : Int64 := (c.slot level + 1) &&& levelMasks level

/-- A receiver that is nil or full: the timer goes to the next tick. -/
def requeue (c : Clock D) (timer : Timer D) (t : Ptr) : Exec (Clock D) :=
  (c.emit (.refused timer.id)).putTimer (0, c.nextSlot 0) t

/-- The callback of `trigger`. -/
def fire (env : Env D) (nowMs : Int64) (state : Clock D × Batches D) (t : Ptr) :
    Exec (Clock D × Batches D) := do
  let (c, batchs) := state
  let timer ← getValue c.heap t
  let c := c.deleteLoc timer.id
  if timer.when ≤ nowMs then
    let promise : Promise D := ⟨timer.id, nowMs, timer.data⟩
    match timer.batch, timer.receiver with
    | some ch, _ => .ok (c, appendBatch batchs ch promise)
    | none, some ch =>
      if env.room c.log ch then
        .ok (c.emit (.sent ch promise), batchs)
      else
        let c ← c.requeue timer t
        .ok (c, batchs)
    | none, none =>
      let c ← c.requeue timer t
      .ok (c, batchs)
  else
    let c ← c.addTimer t
    .ok (c, batchs)

def sendBatches (c : Clock D) : Batches D → Clock D
  | [] => c
  | (ch, promises) :: rest => (c.emit (.sentBatch ch promises)).sendBatches rest

def trigger (env : Env D) (fuel : Nat) (c : Clock D) (nowMs : Int64) : Exec (Clock D) := do
  match ← c.listAt (0, c.slot 0) with
  | none => .ok c
  | some root =>
    let (c, batchs) ← popRange (fire env nowMs) root fuel (c, [])
    .ok (c.sendBatches (env.order batchs))

/-- The callback of the cascade in `tick`. -/
def demote (tkTime : Int64) (state : Clock D × Unit) (t : Ptr) : Exec (Clock D × Unit) := do
  let (c, _) := state
  let timer ← getValue c.heap t
  let c ← c.putTimer (place c.slot timer.when tkTime) t
  .ok (c, ())

/-- The body of the loop of `tick` over the higher levels: move the pointer of
level `i` on and put the timers of its slot back into the wheel. -/
def moveLevel (fuel : Nat) (tkTime : Int64) (c : Clock D) (i : Level) : Exec (Clock D) := do
  let c := { c with slot := Function.update c.slot i (c.nextSlot i) }
  match ← c.listAt (i, c.slot i) with
  | none => .ok c
  | some root =>
    let (c, _) ← popRange (demote tkTime) root fuel (c, ())
    .ok c

/-- The loop of `tick` over the higher levels. It stops at the first level whose
predecessor has not come round to zero. -/
def cascade (fuel : Nat) (tkTime : Int64) : List Level → Clock D → Exec (Clock D)
  | [], c => .ok c
  | i :: levels, c =>
    if c.slot (i - 1) ≠ 0 then
      .ok c
    else do
      let c ← c.moveLevel fuel tkTime i
      cascade fuel tkTime levels c

def tick (env : Env D) (fuel : Nat) (c : Clock D) (nowMs tkTime : Int64) : Exec (Clock D) := do
  let c := { c with slot := Function.update c.slot 0 (c.nextSlot 0) }
  let c ← c.trigger env fuel nowMs
  c.cascade fuel tkTime [1, 2, 3]

end Wheel

end Clock

end Gokit
