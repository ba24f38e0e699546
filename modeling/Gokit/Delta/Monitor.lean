/-
# The delta monitor

An entity collects its changes in an array; the monitor turns the array into an update
of the document of the entity and hands it to a worker goroutine, which applies the
updates one after the other.  The owner of the entities makes all calls; the channel
to the worker is bounded, and `SaveChangedDatas` leaves an entity alone when it is
full.

The model is a system of the steps of the owner, of the worker and of the context.
What the owner does between two operations on the channel is one step: no other
goroutine reads the collectors or `changes`.  An update is written as the list of the
changes it was made from, and every database operation succeeds.  There is one
collector for each id, bound to the monitor and to a model that collects a change and
then calls the callback.
-/

import Gokit.Math.Transition
import Mathlib.Logic.Function.Basic

namespace Gokit.Delta

open Gokit.Math

/-! ## The state -/

/-- What the worker is sent: an update made from a batch of changes, or the flag that
deletes the entity. -/
inductive Item (ID P : Type)
  | update (id : ID) (batch : List P)
  | delete (id : ID)
  deriving DecidableEq, Repr

/-- Where the owner is; `todo` are the entities that the `range` over `changes` has still to
visit. -/
inductive Owner (ID : Type)
  | idle
  /-- in the loop of `SaveChangedDatas`, or about to return from `SaveEntity` -/
  | ranging (todo : List ID)
  /-- in `saveEntity`, about to put the update -/
  | saving (must : Bool) (id : ID) (todo : List ID)
  /-- `PutEntity` has returned true -/
  | resetting (id : ID) (todo : List ID)
  /-- in `DeleteEntity`, about to put the flag -/
  | deleting (id : ID)
  /-- in `Stop`: the channel is closed -/
  | cancelling
  | waiting
  /-- in the loop of `Stop` that writes what is left -/
  | flushing (todo : List ID)
  | stopped
  deriving DecidableEq, Repr

inductive Worker (ID P : Type)
  | select
  | processing (item : Item ID P)
  /-- the context is done: in the loop over the channel -/
  | draining
  | finishing (item : Item ID P)
  | done
  deriving DecidableEq, Repr

structure Monitor (ID P : Type) where
  /-- the collectors -/
  array : ID → List P := fun _ => []
  isDataChange : ID → Bool := fun _ => false
  isDelete : ID → Bool := fun _ => false
  /-- the keys of `m.changes` -/
  changes : List ID := []
  deltas : List (Item ID P) := []
  closed : Bool := false
  ctxDone : Bool := false
  owner : Owner ID := .idle
  worker : Worker ID P := .select
  /-- history: the database operations, in order -/
  applied : List (Item ID P) := []
  /-- history: the changes collected for an entity -/
  collected : ID → List P := fun _ => []
  /-- history: those collected since its last `DeleteEntity` -/
  since : ID → List P := fun _ => []

inductive Action (ID P : Type)
  /-- the model of an entity changes -/
  | change (id : ID) (p : P)
  | saveEntity (id : ID)
  | saveChangedDatas
  /-- the loop visits the next entity -/
  | visit (id : ID)
  | put
  | refuse
  | reset
  | return
  | deleteEntity (id : ID)
  | putDelete
  | stop
  | cancel
  /-- `wg.Wait` returns -/
  | wait
  | flush (id : ID)
  | finish
  /-- the parent context is cancelled -/
  | parentDone
  | recv
  | notice
  | apply
  | exit
  deriving DecidableEq, Repr

def chanSize : Nat := 1024

section System

variable {ID P : Type} [DecidableEq ID]

namespace Monitor

/-! ## The owner -/

/-- `Collect`, then the callback of `BindMonitor`. -/
def change (m : Monitor ID P) (id : ID) (p : P) : Monitor ID P :=
  let m := { m with
    array := Function.update m.array id (m.array id ++ [p])
    collected := Function.update m.collected id (m.collected id ++ [p])
    since := Function.update m.since id (m.since id ++ [p]) }
  if m.isDataChange id then m
  else
    { m with
      isDataChange := Function.update m.isDataChange id true
      changes := if id ∈ m.changes then m.changes else m.changes ++ [id] }

/-- `CatchDeltaData` and the send of `PutEntity`. -/
def put (m : Monitor ID P) : Monitor ID P :=
  match m.owner with
  | .saving _ id todo =>
    { m with deltas := m.deltas ++ [.update id (m.array id)], owner := .resetting id todo }
  | _ => m

/-- `PutEntity` returns false. -/
def refuse (m : Monitor ID P) : Monitor ID P :=
  match m.owner with
  | .saving _ _ todo => { m with owner := .ranging todo }
  | _ => m

/-- `Reset`, `SetDataChange(false)` and the removal from `changes`. -/
def reset (m : Monitor ID P) : Monitor ID P :=
  match m.owner with
  | .resetting id todo =>
    { m with
      array := Function.update m.array id []
      isDataChange := Function.update m.isDataChange id false
      changes := m.changes.filter (· ≠ id)
      owner := .ranging todo }
  | _ => m

/-- `SetDelete(true)`, `SetDataChange(false)` and the removal from `changes`; the array
stays. -/
def deleteEntity (m : Monitor ID P) (id : ID) : Monitor ID P :=
  { m with
    isDelete := Function.update m.isDelete id true
    isDataChange := Function.update m.isDataChange id false
    changes := m.changes.filter (· ≠ id)
    owner := .deleting id }

def putDelete (m : Monitor ID P) : Monitor ID P :=
  match m.owner with
  | .deleting id =>
    { m with
      deltas := m.deltas ++ [.delete id], owner := .idle
      since := Function.update m.since id [] }
  | _ => m

/-- One round of the loop of `Stop`: the update goes to the database, the collector stays
as it is. -/
def flush (m : Monitor ID P) (id : ID) : Monitor ID P :=
  match m.owner with
  | .flushing todo =>
    { m with
      applied := m.applied ++ [.update id (m.array id)]
      owner := .flushing (todo.filter (· ≠ id)) }
  | _ => m

/-! ## The worker -/

def recv (m : Monitor ID P) : Monitor ID P :=
  match m.worker, m.deltas with
  | .select, item :: rest => { m with worker := .processing item, deltas := rest }
  | .draining, item :: rest => { m with worker := .finishing item, deltas := rest }
  | _, _ => m

def apply (m : Monitor ID P) : Monitor ID P :=
  match m.worker with
  | .processing item => { m with worker := .select, applied := m.applied ++ [item] }
  | .finishing item => { m with worker := .draining, applied := m.applied ++ [item] }
  | _ => m

/-! ## The system -/

/-- When a step can be made.  With `must` set, `PutEntity` waits for room. -/
def Enabled (m : Monitor ID P) : Action ID P → Prop
  | .change _ _ | .saveEntity _ | .saveChangedDatas | .deleteEntity _ | .stop => m.owner = .idle
  | .visit id => ∃ todo, m.owner = .ranging todo ∧ id ∈ todo
  | .put => (∃ must id todo, m.owner = .saving must id todo) ∧ m.deltas.length < chanSize
  | .refuse => (∃ id todo, m.owner = .saving false id todo) ∧ m.deltas.length = chanSize
  | .reset => ∃ id todo, m.owner = .resetting id todo
  | .return => m.owner = .ranging []
  | .putDelete => (∃ id, m.owner = .deleting id) ∧ m.deltas.length < chanSize
  | .cancel => m.owner = .cancelling
  | .wait => m.owner = .waiting ∧ m.worker = .done
  | .flush id => ∃ todo, m.owner = .flushing todo ∧ id ∈ todo
  | .finish => m.owner = .flushing []
  | .parentDone => True
  | .recv => (m.worker = .select ∨ m.worker = .draining) ∧ m.deltas ≠ []
  | .notice => m.worker = .select ∧ m.ctxDone = true
  | .apply => ∃ item, m.worker = .processing item ∨ m.worker = .finishing item
  | .exit => m.worker = .draining ∧ m.deltas = [] ∧ m.closed = true

def next (m : Monitor ID P) : Action ID P → Monitor ID P
  | .change id p => m.change id p
  | .saveEntity id => { m with owner := .saving true id [] }
  | .saveChangedDatas => { m with owner := .ranging m.changes }
  | .visit id =>
    match m.owner with
    | .ranging todo => { m with owner := .saving false id (todo.filter (· ≠ id)) }
    | _ => m
  | .put => m.put
  | .refuse => m.refuse
  | .reset => m.reset
  | .return => { m with owner := .idle }
  | .deleteEntity id => m.deleteEntity id
  | .putDelete => m.putDelete
  | .stop => { m with closed := true, owner := .cancelling }
  | .cancel => { m with ctxDone := true, owner := .waiting }
  | .wait => { m with owner := .flushing m.changes }
  | .flush id => m.flush id
  | .finish => { m with owner := .stopped }
  | .parentDone => { m with ctxDone := true }
  | .recv => m.recv
  | .notice => { m with worker := .draining }
  | .apply => m.apply
  | .exit => { m with worker := .done }

end Monitor

variable (ID P) in
/-- A monitor that has been started. -/
def monitor : System (Monitor ID P) (Action ID P) where
  init := {}
  Enabled := Monitor.Enabled
  next := Monitor.next

end System

end Gokit.Delta
