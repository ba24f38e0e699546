/-
# The lock in Redis

`RedLock` keeps a lock under a key: `Lock` and `TryLock` store the entity of the instance
with SETNX, and `UnLock` runs a script that deletes the key if it has this entity.  Redis
executes a command at once, but some time after it was sent, and the answer arrives some
time later; a key may expire at any moment, and a command or its answer may get lost, in
which case the client reports an error.

We follow any number of calls by any number of instances.  Next to the state we keep what
has happened in Redis, last first.  For each key this is the history of a lease, and it is
legal: SETNX succeeds only when the key is free, and the script deletes only what its own
instance has stored, because entities differ.
-/

import Gokit.Math.Lease
import Gokit.Math.Transition
import Mathlib.Logic.Function.Basic

namespace Gokit.Lock

open Gokit.Math

/-! ## Redis -/

/-- The keys of Redis. -/
abbrev Keys : Type := String → Option String

/-- SETNX: whether the key was set, and what is stored afterwards.  When the key expires is
left open. -/
def setNX (store : Keys) (key value : String) : Bool × Keys :=
  match store key with
  | none => (true, Function.update store key (some value))
  | some _ => (false, store)

def unlockScript (store : Keys) (key arg : String) : Int64 × Keys :=
  if store key = some arg then
    (1, Function.update store key none)
  else
    (0, store)

/-! ## Calls -/

/-- What a call of `Lock` or `UnLock` reports: `ErrFailedLock`, an error of the client, or an
answer of the script that is no integer. -/
inductive Err
  | failedLock
  | client
  | notInt
  deriving DecidableEq

inductive Reply
  | int (num : Int64)
  | other
  deriving DecidableEq

/-- The variables of the loop in `Lock`. -/
structure Loop where
  expiry : Int64
  checkInterval : Int64
  lockTries : Int64
  i : Int64
  deriving DecidableEq

/-- Where a call is. A command is on its way to Redis until it is executed, and its answer is on
its way back until the call goes on. -/
inductive Pc
  | loop (l : Loop)
  | sleep (l : Loop)
  | lockSetNX (l : Loop)
  | lockAnswer (l : Loop) (val : Bool)
  | lockReturned (err : Option Err)
  | trySetNX (expiry : Int64)
  | tryAnswer (val : Bool)
  | tryReturned (ok : Bool)
  | script
  | scriptAnswer (val : Reply)
  | unlockReturned (ok : Bool) (err : Option Err)
  | panicked
  deriving DecidableEq

/-- `Lock` begins; the division panics for an interval of zero. -/
def Pc.lock (expiry checkInterval : Int64) : Pc :=
  if checkInterval = 0 then .panicked
  else .loop ⟨expiry, checkInterval, expiry / checkInterval + 1, 0⟩

/-- The next step of a call, where it does not wait for Redis. -/
def Pc.advance : Pc → Option Pc
  | .loop l =>
    if l.i < l.lockTries then
      if l.i ≠ 0 then some (.sleep l) else some (.lockSetNX l)
    else
      some (.lockReturned (some .failedLock))
  | .sleep l => some (.lockSetNX l)
  | .lockAnswer l val =>
    if val then some (.lockReturned none) else some (.loop { l with i := l.i + 1 })
  | .tryAnswer val => some (.tryReturned val)
  | .scriptAnswer (.int num) => some (.unlockReturned (num ≠ 0) none)
  | .scriptAnswer .other => some (.unlockReturned false (some .notInt))
  | _ => none

/-- The client reports an error: the command or its answer got lost. -/
def Pc.fail : Pc → Option Pc
  | .lockSetNX _ | .lockAnswer _ _ => some (.lockReturned (some .client))
  | .trySetNX _ | .tryAnswer _ => some (.tryReturned false)
  | .script | .scriptAnswer _ => some (.unlockReturned false (some .client))
  | _ => none

/-- A call of a method of the instance `inst`. -/
structure Call (ι : Type) where
  inst : ι
  key : String
  pc : Pc
  deriving DecidableEq

/-! ## The system -/

/-- What happens in Redis: a key is set or deleted for a call, the script leaves it, or it
expires. -/
inductive Event (ι : Type)
  | acquired (key : String) (inst : ι) (id : Nat)
  | unlocked (key : String) (inst : ι) (id : Nat)
  | kept (key : String) (inst : ι) (id : Nat)
  | expired (key : String)
  deriving DecidableEq

/-- Redis, the calls made so far, and what has happened, last first. -/
structure State (ι : Type) where
  store : Keys
  calls : Nat → Option (Call ι)
  history : List (Event ι)

inductive Action (ι : Type)
  | lock (id : Nat) (inst : ι) (key : String) (expiry checkInterval : Int64)
  | tryLock (id : Nat) (inst : ι) (key : String) (expiry : Int64)
  | unLock (id : Nat) (inst : ι) (key : String)
  | advance (id : Nat)
  | fail (id : Nat)
  | execute (id : Nat)
  | expire (key : String)

variable {ι : Type}

namespace State

/-- A call is made or goes on. -/
def setCall (s : State ι) (id : Nat) (call : Call ι) : State ι :=
  { s with calls := Function.update s.calls id (some call) }

/-- Redis executes the SETNX of a call, whose next point is `answer`. -/
def execSetNX (entity : ι → String) (s : State ι) (id : Nat) (call : Call ι)
    (answer : Bool → Pc) : State ι :=
  let (val, store) := setNX s.store call.key (entity call.inst)
  { store
    calls := Function.update s.calls id (some { call with pc := answer val })
    history := if val then .acquired call.key call.inst id :: s.history else s.history }

/-- Redis executes the script of a call. -/
def execScript (entity : ι → String) (s : State ι) (id : Nat) (call : Call ι) : State ι :=
  let (num, store) := unlockScript s.store call.key (entity call.inst)
  { store
    calls := Function.update s.calls id (some { call with pc := .scriptAnswer (.int num) })
    history :=
      if num ≠ 0 then .unlocked call.key call.inst id :: s.history
      else .kept call.key call.inst id :: s.history }

/-- Redis executes the command of a call, if there is one. -/
def execute (entity : ι → String) (s : State ι) (id : Nat) (call : Call ι) : Option (State ι) :=
  match call.pc with
  | .lockSetNX l => some (s.execSetNX entity id call (.lockAnswer l))
  | .trySetNX _ => some (s.execSetNX entity id call .tryAnswer)
  | .script => some (s.execScript entity id call)
  | _ => none

def expire (s : State ι) (key : String) : State ι :=
  { s with store := Function.update s.store key none, history := .expired key :: s.history }

def step (entity : ι → String) (s : State ι) : Action ι → Option (State ι)
  | .lock id inst key expiry checkInterval =>
    if (s.calls id).isNone then some (s.setCall id ⟨inst, key, .lock expiry checkInterval⟩)
    else none
  | .tryLock id inst key expiry =>
    if (s.calls id).isNone then some (s.setCall id ⟨inst, key, .trySetNX expiry⟩) else none
  | .unLock id inst key =>
    if (s.calls id).isNone then some (s.setCall id ⟨inst, key, .script⟩) else none
  | .advance id => do
    let call ← s.calls id
    let pc ← call.pc.advance
    some (s.setCall id { call with pc })
  | .fail id => do
    let call ← s.calls id
    let pc ← call.pc.fail
    some (s.setCall id { call with pc })
  | .execute id => do
    let call ← s.calls id
    s.execute entity id call
  | .expire key => if (s.store key).isSome then some (s.expire key) else none

end State

/-- The calls of any number of instances, over one Redis. -/
def redLock (entity : ι → String) : System (State ι) (Action ι) where
  init := ⟨fun _ => none, fun _ => none, []⟩
  Enabled s a := (s.step entity a).isSome
  next s a := (s.step entity a).getD s

/-! ## Ownership -/

/-- What an event is for the lease on a key. -/
def Event.lease (key : String) : Event ι → Option (Lease.Event ι)
  | .acquired other inst _ => if other = key then some (.acquired inst) else none
  | .unlocked other inst _ => if other = key then some (.released inst) else none
  | .kept _ _ _ => none
  | .expired other => if other = key then some .expired else none

def leases (history : List (Event ι)) (key : String) : List (Lease.Event ι) :=
  history.filterMap (Event.lease key)

/-- The instance has an acquisition of the key that succeeded and has neither expired nor been
unlocked. -/
def LiveIn (history : List (Event ι)) (key : String) (inst : ι) : Prop :=
  Lease.Live inst (leases history key)

/-- What the script of a call does: it answers whether the instance has the lock, and ends the
acquisition of this instance and no other. -/
structure Unlocks (s s' : State ι) (id : Nat) (call : Call ι) : Prop where
  answer : ∃ num, s'.calls id = some { call with pc := .scriptAnswer (.int num) } ∧
    (num ≠ 0 ↔ LiveIn s.history call.key call.inst)
  removes : LiveIn s.history call.key call.inst →
    s'.store = Function.update s.store call.key none
  leaves : ¬ LiveIn s.history call.key call.inst → s'.store = s.store
  live : ∀ key inst, LiveIn s'.history key inst ↔
    LiveIn s.history key inst ∧ ¬ (key = call.key ∧ inst = call.inst)

/-- The locks belong to the instances that have acquired them. -/
structure Ownership (entity : ι → String) (s : State ι) : Prop where
  unique : ∀ key i j, LiveIn s.history key i → LiveIn s.history key j → i = j
  stored : ∀ key i, LiveIn s.history key i → s.store key = some (entity i)
  free : ∀ key, (∀ i, ¬ LiveIn s.history key i) → s.store key = none
  acquired : ∀ id call, s.calls id = some call →
    call.pc = .lockReturned none ∨ call.pc = .tryReturned true →
    .acquired call.key call.inst id ∈ s.history
  answered : ∀ id call ok, s.calls id = some call → call.pc = .unlockReturned ok none →
    ∃ later earlier, s.history = later ++
      (if ok then .unlocked call.key call.inst id else .kept call.key call.inst id) :: earlier ∧
      (ok = true ↔ LiveIn earlier call.key call.inst)
  unlocks : ∀ id call, s.calls id = some call → call.pc = .script →
    Unlocks s ((redLock entity).next s (.execute id)) id call

/-! ## The invariant -/

/-- The script finds the lock of its instance exactly when the instance has it. -/
def Truthful : List (Event ι) → Prop
  | [] => True
  | .unlocked key inst _ :: earlier => LiveIn earlier key inst ∧ Truthful earlier
  | .kept key inst _ :: earlier => ¬ LiveIn earlier key inst ∧ Truthful earlier
  | _ :: earlier => Truthful earlier

/-- What a call reports has happened. -/
def Pc.Backed (history : List (Event ι)) (key : String) (inst : ι) (id : Nat) : Pc → Prop
  | .lockAnswer _ val | .tryAnswer val | .tryReturned val =>
    val = true → .acquired key inst id ∈ history
  | .lockReturned none => .acquired key inst id ∈ history
  | .scriptAnswer (.int num) =>
    (if num ≠ 0 then .unlocked key inst id else .kept key inst id) ∈ history
  | .unlockReturned ok none => (if ok then .unlocked key inst id else .kept key inst id) ∈ history
  | _ => True

/-- The call is backed by the history. -/
def Call.Backed (history : List (Event ι)) (id : Nat) (call : Call ι) : Prop :=
  call.pc.Backed history call.key call.inst id

/-- Redis holds the entity of the holder of each lease. -/
structure Inv (entity : ι → String) (s : State ι) : Prop where
  legal : ∀ key, Lease.Legal (leases s.history key)
  stored : ∀ key, s.store key = (Lease.holder (leases s.history key)).map entity
  truthful : Truthful s.history
  backed : ∀ id call, s.calls id = some call → call.Backed s.history id

section Steps

variable {entity : ι → String} {s s' : State ι} {history : List (Event ι)} {key : String} {inst : ι}
  {id : Nat} {call : Call ι}

theorem leases_cons (event : Event ι) :
    leases (event :: history) key =
      (event.lease key).toList ++ leases history key := by
  cases h : event.lease key <;> simp [leases, h]

theorem Pc.Backed.mono {history' : List (Event ι)} (hsub : history ⊆ history') {pc : Pc}
    (hbacked : pc.Backed history key inst id) : pc.Backed history' key inst id := by
  cases pc with
  | lockAnswer l val => exact fun h => hsub (hbacked h)
  | tryAnswer val => exact fun h => hsub (hbacked h)
  | tryReturned ok => exact fun h => hsub (hbacked h)
  | lockReturned err =>
    cases err with
    | none => exact hsub hbacked
    | some err => trivial
  | scriptAnswer val =>
    cases val with
    | int num => exact hsub hbacked
    | other => trivial
  | unlockReturned ok err =>
    cases err with
    | none => exact hsub hbacked
    | some err => trivial
  | _ => trivial

theorem Pc.advance_loop (l : Loop) :
    (Pc.loop l).advance = if l.i < l.lockTries then
      if l.i ≠ 0 then some (.sleep l) else some (.lockSetNX l)
    else some (.lockReturned (some .failedLock)) := rfl

/-- Going on, a call reports what Redis has answered. -/
theorem Pc.Backed.advance {pc next : Pc} (hbacked : pc.Backed history key inst id)
    (hnext : pc.advance = some next) : next.Backed history key inst id := by
  cases pc with
  | loop l =>
    rw [Pc.advance_loop] at hnext
    split_ifs at hnext <;> obtain rfl := Option.some.inj hnext <;> trivial
  | sleep l =>
    obtain rfl := Option.some.inj hnext
    trivial
  | lockAnswer l val =>
    cases val with
    | true =>
      obtain rfl := Option.some.inj hnext
      exact hbacked rfl
    | false =>
      obtain rfl := Option.some.inj hnext
      trivial
  | tryAnswer val =>
    obtain rfl := Option.some.inj hnext
    exact hbacked
  | scriptAnswer val =>
    cases val with
    | int num =>
      obtain rfl := Option.some.inj hnext
      simpa [Pc.Backed] using hbacked
    | other =>
      obtain rfl := Option.some.inj hnext
      trivial
  | _ => cases hnext

theorem Pc.backed_fail {pc next : Pc} (hnext : pc.fail = some next) :
    next.Backed history key inst id := by
  cases pc with
  | lockSetNX | lockAnswer | script | scriptAnswer =>
    obtain rfl := Option.some.inj hnext
    trivial
  | trySetNX | tryAnswer =>
    obtain rfl := Option.some.inj hnext
    exact fun h => absurd h (by decide)
  | _ => cases hnext

theorem Pc.backed_lock (expiry checkInterval : Int64) :
    (Pc.lock expiry checkInterval).Backed history key inst id := by
  unfold Pc.lock
  split_ifs <;> trivial

/-! ### What a step does -/

/-- The kinds of steps. Those of the calls themselves do not touch Redis. -/
inductive Effect (entity : ι → String) (s : State ι) : State ι → Prop
  | moved (id : Nat) (call : Call ι)
      (hbacked : (∀ old, s.calls id = some old → old.Backed s.history id) →
        call.Backed s.history id) : Effect entity s (s.setCall id call)
  | setNX (id : Nat) (call : Call ι) (answer : Bool → Pc)
      (hanswer : (∃ l, answer = .lockAnswer l) ∨ answer = .tryAnswer) :
      Effect entity s (s.execSetNX entity id call answer)
  | script (id : Nat) (call : Call ι) : Effect entity s (s.execScript entity id call)
  | expired (key : String) : Effect entity s (s.expire key)

theorem execute_of_script (hpc : call.pc = .script) :
    s.execute entity id call = some (s.execScript entity id call) := by
  obtain ⟨inst, key, pc⟩ := call
  cases hpc
  rfl

theorem execute_effect (hexecute : s.execute entity id call = some s') : Effect entity s s' := by
  obtain ⟨inst, key, pc⟩ := call
  cases pc with
  | lockSetNX l =>
    obtain rfl := Option.some.inj hexecute
    exact .setNX id _ _ (Or.inl ⟨l, rfl⟩)
  | trySetNX expiry =>
    obtain rfl := Option.some.inj hexecute
    exact .setNX id _ _ (Or.inr rfl)
  | script =>
    obtain rfl := Option.some.inj hexecute
    exact .script id _
  | _ => cases hexecute

theorem step_effect {a : Action ι} (hstep : s.step entity a = some s') : Effect entity s s' := by
  cases a with
  | lock id inst key expiry checkInterval =>
    simp only [State.step] at hstep
    split_ifs at hstep
    obtain rfl := Option.some.inj hstep
    exact .moved id _ fun _ => Pc.backed_lock expiry checkInterval
  | tryLock id inst key expiry =>
    simp only [State.step] at hstep
    split_ifs at hstep
    obtain rfl := Option.some.inj hstep
    exact .moved id _ fun _ => trivial
  | unLock id inst key =>
    simp only [State.step] at hstep
    split_ifs at hstep
    obtain rfl := Option.some.inj hstep
    exact .moved id _ fun _ => trivial
  | advance id =>
    obtain ⟨call, hcall, hpc⟩ := Option.bind_eq_some_iff.mp hstep
    obtain ⟨pc, hadvance, hmoved⟩ := Option.bind_eq_some_iff.mp hpc
    obtain rfl := Option.some.inj hmoved
    exact .moved id _ fun hbacked => (hbacked call hcall).advance hadvance
  | fail id =>
    obtain ⟨call, hcall, hpc⟩ := Option.bind_eq_some_iff.mp hstep
    obtain ⟨pc, hfail, hmoved⟩ := Option.bind_eq_some_iff.mp hpc
    obtain rfl := Option.some.inj hmoved
    exact .moved id _ fun _ => Pc.backed_fail hfail
  | execute id =>
    obtain ⟨call, -, hexecute⟩ := Option.bind_eq_some_iff.mp hstep
    exact execute_effect hexecute
  | expire key =>
    simp only [State.step] at hstep
    split_ifs at hstep
    obtain rfl := Option.some.inj hstep
    exact .expired key

/-! ### Redis and the leases -/

theorem Inv.holder_eq_none (hinv : Inv entity s) (hstore : s.store key = none) :
    Lease.holder (leases s.history key) = none := by
  rw [hinv.stored key] at hstore
  exact Option.map_eq_none_iff.mp hstore

theorem Inv.holder_eq_some (hinv : Inv entity s) (hentity : Function.Injective entity)
    (hstore : s.store key = some (entity inst)) :
    Lease.holder (leases s.history key) = some inst := by
  rw [hinv.stored key, Option.map_eq_some_iff] at hstore
  obtain ⟨other, hholder, hsame⟩ := hstore
  rw [hholder, hentity hsame]

/-- An instance has the lock exactly when its entity is stored. -/
theorem Inv.liveIn_iff (hinv : Inv entity s) (hentity : Function.Injective entity) :
    LiveIn s.history key inst ↔ s.store key = some (entity inst) := by
  rw [LiveIn, (hinv.legal key).live_iff]
  constructor
  · intro hholder
    rw [hinv.stored key, hholder, Option.map_some]
  · exact hinv.holder_eq_some hentity

/-- Another call at one point: the others are where they were. -/
theorem backed_update {calls : Nat → Option (Call ι)} {history' : List (Event ι)}
    (hbacked : ∀ id call, calls id = some call → call.Backed history id)
    (hsub : history ⊆ history') (hcall : call.Backed history' id) (other : Nat) (call' : Call ι)
    (hother : Function.update calls id (some call) other = some call') :
    call'.Backed history' other := by
  by_cases heq : other = id
  · subst heq
    rw [Function.update_self] at hother
    obtain rfl := Option.some.inj hother
    exact hcall
  · rw [Function.update_of_ne heq] at hother
    exact (hbacked other call' hother).mono hsub

/-- Something happens to one key. -/
theorem Inv.record (hinv : Inv entity s) (event : Event ι) {lease : Lease.Event ι}
    {value : Option String}
    (hevent : ∀ other, event.lease other = if key = other then some lease else none)
    (hlegal : Lease.Legal (lease :: leases s.history key))
    (hvalue : value = (Lease.holder (lease :: leases s.history key)).map entity) :
    (∀ other, Lease.Legal (leases (event :: s.history) other)) ∧
      ∀ other, Function.update s.store key value other =
        (Lease.holder (leases (event :: s.history) other)).map entity := by
  have hhere : leases (event :: s.history) key = lease :: leases s.history key := by
    rw [leases_cons, hevent, if_pos rfl]
    rfl
  have hthere : ∀ other ≠ key, leases (event :: s.history) other = leases s.history other := by
    intro other hne
    rw [leases_cons, hevent, if_neg (Ne.symm hne)]
    rfl
  constructor
  · intro other
    by_cases heq : other = key
    · rw [heq, hhere]
      exact hlegal
    · rw [hthere other heq]
      exact hinv.legal other
  · intro other
    by_cases heq : other = key
    · rw [heq, hhere, Function.update_self]
      exact hvalue
    · rw [hthere other heq, Function.update_of_ne heq]
      exact hinv.stored other

/-- SETNX succeeds on a free key only. -/
theorem Inv.execSetNX (hinv : Inv entity s) {answer : Bool → Pc}
    (hanswer : (∃ l, answer = .lockAnswer l) ∨ answer = .tryAnswer) :
    Inv entity (s.execSetNX entity id call answer) := by
  have hbacked : ∀ val history, (val = true → .acquired call.key call.inst id ∈ history) →
      (answer val).Backed history call.key call.inst id := by
    rcases hanswer with ⟨l, rfl⟩ | rfl
    · exact fun _ _ h => h
    · exact fun _ _ h => h
  cases hstore : s.store call.key with
  | none =>
    have hset : s.execSetNX entity id call answer =
        { store := Function.update s.store call.key (some (entity call.inst))
          calls := Function.update s.calls id (some { call with pc := answer true })
          history := .acquired call.key call.inst id :: s.history } := by
      simp [State.execSetNX, setNX, hstore]
    rw [hset]
    obtain ⟨hlegal, hstored⟩ := hinv.record (.acquired call.key call.inst id)
      (fun _ => rfl) ⟨hinv.holder_eq_none hstore, hinv.legal call.key⟩ rfl
    exact ⟨hlegal, hstored, hinv.truthful, backed_update hinv.backed (List.subset_cons_self _ _)
      (hbacked true _ fun _ => List.mem_cons_self)⟩
  | some value =>
    have hset : s.execSetNX entity id call answer =
        s.setCall id { call with pc := answer false } := by
      simp [State.execSetNX, setNX, hstore, State.setCall]
    rw [hset]
    exact ⟨hinv.legal, hinv.stored, hinv.truthful,
      backed_update hinv.backed (List.Subset.refl _)
        (hbacked false _ fun h => absurd h (by decide))⟩

/-- The script when it finds the entity of its instance. -/
theorem execScript_of_stored (hstore : s.store call.key = some (entity call.inst)) :
    s.execScript entity id call =
      { store := Function.update s.store call.key none
        calls := Function.update s.calls id (some { call with pc := .scriptAnswer (.int 1) })
        history := .unlocked call.key call.inst id :: s.history } := by
  simp [State.execScript, unlockScript, hstore]

/-- The script when it finds something else. -/
theorem execScript_of_other (hstore : s.store call.key ≠ some (entity call.inst)) :
    s.execScript entity id call =
      { s with
        calls := Function.update s.calls id (some { call with pc := .scriptAnswer (.int 0) })
        history := .kept call.key call.inst id :: s.history } := by
  simp [State.execScript, unlockScript, hstore]

/-- The script deletes what its own instance has stored. -/
theorem Inv.execScript (hinv : Inv entity s) (hentity : Function.Injective entity) :
    Inv entity (s.execScript entity id call) := by
  have hlive : LiveIn s.history call.key call.inst ↔ s.store call.key = some (entity call.inst) :=
    hinv.liveIn_iff hentity
  by_cases hstore : s.store call.key = some (entity call.inst)
  · rw [execScript_of_stored hstore]
    obtain ⟨hlegal, hstored⟩ := hinv.record (.unlocked call.key call.inst id)
      (fun _ => rfl) ⟨hinv.holder_eq_some hentity hstore, hinv.legal call.key⟩ rfl
    exact ⟨hlegal, hstored, ⟨hlive.mpr hstore, hinv.truthful⟩,
      backed_update hinv.backed (List.subset_cons_self _ _) List.mem_cons_self⟩
  · rw [execScript_of_other hstore]
    exact ⟨hinv.legal, hinv.stored, ⟨mt hlive.mp hstore, hinv.truthful⟩,
      backed_update hinv.backed (List.subset_cons_self _ _) List.mem_cons_self⟩

theorem Inv.expire (hinv : Inv entity s) (key : String) : Inv entity (s.expire key) := by
  obtain ⟨hlegal, hstored⟩ := hinv.record (.expired key) (fun _ => rfl)
    (hinv.legal key) rfl
  exact ⟨hlegal, hstored, hinv.truthful, fun id call hcall =>
    (hinv.backed id call hcall).mono (List.subset_cons_self _ _)⟩

theorem inv_init : Inv entity (redLock entity).init where
  legal _ := trivial
  stored _ := rfl
  truthful := trivial
  backed _ _ hcall := by cases hcall

theorem Inv.effect (hinv : Inv entity s) (hentity : Function.Injective entity)
    (heffect : Effect entity s s') : Inv entity s' := by
  cases heffect with
  | moved id call hbacked =>
    exact ⟨hinv.legal, hinv.stored, hinv.truthful,
      backed_update hinv.backed (List.Subset.refl _) (hbacked (hinv.backed id))⟩
  | setNX id call answer hanswer => exact hinv.execSetNX hanswer
  | script id call => exact hinv.execScript hentity
  | expired key => exact hinv.expire key

/-! ## The theorem -/

/-- The script of a call in a state of the invariant. -/
theorem Inv.unlocks (hinv : Inv entity s) (hentity : Function.Injective entity) :
    Unlocks s (s.execScript entity id call) id call := by
  have hstored : LiveIn s.history call.key call.inst ↔ s.store call.key = some (entity call.inst) :=
    hinv.liveIn_iff hentity
  by_cases hlive : LiveIn s.history call.key call.inst
  · rw [execScript_of_stored (hstored.mp hlive)]
    refine ⟨⟨1, Function.update_self _ _ _, by simp [hlive]⟩, fun _ => rfl, absurd hlive, ?_⟩
    intro key inst
    show Lease.Live inst (leases (.unlocked call.key call.inst id :: s.history) key) ↔ _
    rw [leases_cons]
    by_cases heq : call.key = key
    · simp [Event.lease, heq, Lease.Live, LiveIn, and_comm, eq_comm]
    · simp [Event.lease, heq, LiveIn, Ne.symm heq]
  · rw [execScript_of_other (mt hstored.mpr hlive)]
    refine ⟨⟨0, Function.update_self _ _ _, by simp [hlive]⟩, (absurd · hlive), fun _ => rfl, ?_⟩
    intro key inst
    show LiveIn s.history key inst ↔ _
    refine ⟨fun h => ⟨h, ?_⟩, And.left⟩
    rintro ⟨rfl, rfl⟩
    exact hlive h

theorem Truthful.of_append {later earlier : List (Event ι)} (h : Truthful (later ++ earlier)) :
    Truthful earlier := by
  induction later with
  | nil => exact h
  | cons event later ih =>
    cases event with
    | acquired | expired => exact ih h
    | unlocked | kept => exact ih h.2

theorem Inv.ownership (hinv : Inv entity s) (hentity : Function.Injective entity) :
    Ownership entity s where
  unique key _ _ hi hj := (hinv.legal key).live_unique hi hj
  stored _ _ hi := (hinv.liveIn_iff hentity).mp hi
  free key hfree := by
    rw [hinv.stored key, Option.map_eq_none_iff, Option.eq_none_iff_forall_ne_some]
    exact fun i hholder => hfree i ((hinv.legal key).live_iff.mpr hholder)
  acquired id call hcall hpc := by
    have hbacked := hinv.backed id call hcall
    rcases hpc with hpc | hpc
    · rw [Call.Backed, hpc] at hbacked
      exact hbacked
    · rw [Call.Backed, hpc] at hbacked
      exact hbacked rfl
  answered id call ok hcall hpc := by
    have hbacked := hinv.backed id call hcall
    rw [Call.Backed, hpc] at hbacked
    obtain ⟨later, earlier, hhistory⟩ := List.append_of_mem hbacked
    refine ⟨later, earlier, hhistory, ?_⟩
    have htruthful := hinv.truthful
    rw [hhistory] at htruthful
    cases ok with
    | true => exact iff_of_true rfl htruthful.of_append.1
    | false => exact iff_of_false (by decide) htruthful.of_append.1
  unlocks id call hcall hpc := by
    have hstep : s.step entity (.execute id) = some (s.execScript entity id call) :=
      Option.bind_eq_some_iff.mpr ⟨call, hcall, execute_of_script hpc⟩
    have hnext : (redLock entity).next s (.execute id) = s.execScript entity id call := by
      show (s.step entity (.execute id)).getD s = _
      rw [hstep]
      rfl
    rw [hnext]
    exact hinv.unlocks hentity

end Steps

/-- **Ownership.** In every run of any number of calls of `Lock`, `TryLock` and `UnLock` by
instances with different entities, with commands and answers delayed or lost and keys expiring
at any time: at most one instance has the lock, its entity is stored, `UnLock` returns true
exactly if its instance had the lock when the script was executed, and the script ends no
acquisition but this one. -/
theorem run_ownership {entity : ι → String} (hentity : Function.Injective entity) {s : State ι}
    (hrun : (redLock entity).Run (fun _ _ => True) s) : Ownership entity s := by
  refine Inv.ownership (hrun.invariant inv_init ?_) hentity
  intro s a hinv henabled _
  obtain ⟨s', hstep⟩ := Option.isSome_iff_exists.mp henabled
  have hnext : (redLock entity).next s a = s' := by
    show (s.step entity a).getD s = s'
    rw [hstep, Option.getD_some]
  rw [hnext]
  exact hinv.effect hentity (step_effect hstep)

/-- The entities of two instances. -/
def twoEntities : Bool → String
  | true => "a"
  | false => "b"

/-- One instance takes the lock, the lock expires, the other one takes it, and then the first
one gives it back. -/
def lateUnLock : List (Action Bool) :=
  [.tryLock 0 true "k" 10, .execute 0, .advance 0, .expire "k", .lock 1 false "k" 10 5, .advance 1,
    .execute 1, .advance 1, .unLock 2 true "k", .execute 2, .advance 2]

/-- The theorem after an `UnLock` that comes too late. -/
theorem run_ownership_lateUnLock :
    ∃ s : State Bool, s.calls 2 = some ⟨true, "k", .unlockReturned false none⟩ ∧
      s.store "k" = some "b" ∧ Ownership twoEntities s := by
  have hentity : Function.Injective twoEntities := by
    intro i j
    cases i <;> cases j <;> decide
  have hadmits : (redLock twoEntities).Admits (fun _ _ => True) lateUnLock
      (redLock twoEntities).init :=
    ⟨rfl, trivial, rfl, trivial, rfl, trivial, rfl, trivial, rfl, trivial, rfl, trivial, rfl,
      trivial, rfl, trivial, rfl, trivial, rfl, trivial, rfl, trivial, trivial⟩
  exact ⟨(redLock twoEntities).after lateUnLock (redLock twoEntities).init, by decide, by decide,
    run_ownership hentity (.of_admits .start hadmits)⟩

end Gokit.Lock
