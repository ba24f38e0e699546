/-
# The lock of an agent is given back

Every method of an agent takes the read lock, and `Close` has to wait until it has been given
back.  `SyncRunFunc`, `TryRunFunc` and `MustRunFunc` give it back before they return.
`CtxRunFunc` gives it back only if the agent is closed: neither of the two exits of its
`select` does.  So one call of `CtxRunFunc` on an open agent blocks `Close` for ever.
-/

import Gokit.Framework.Agent

namespace Gokit.Framework

open Gokit.Math

namespace Agent

variable {size : Int} {kind : CallId → Kind} {s : Agent} {c : CallId}

/-- No call is in progress. -/
def Quiet (kind : CallId → Kind) (s : Agent) : Prop :=
  ∀ c, kind c ≠ .close → s.pc c = .idle ∨ ∃ err, s.pc c = .returned err

/-- A call that has returned holds no lock, and if no call is in progress then `Close` gets the
write lock. -/
structure Balanced (size : Int) (kind : CallId → Kind) (s : Agent) : Prop where
  returned : ∀ c err, s.pc c = .returned err → c ∉ s.mutex.readers
  announce : ∀ c, Quiet kind s → kind c = .close → s.pc c = .idle → s.mutex.writer = none →
    (system size kind).Enabled s (.announce c) ∧
      (system size kind).Enabled ((system size kind).next s (.announce c)) (.lock c)
  lock : ∀ c, Quiet kind s → s.pc c = .announced → (system size kind).Enabled s (.lock c)

/-- No `CtxRunFunc` finds the agent open. -/
def CtxShut (kind : CallId → Kind) (s : Agent) : Action → Prop
  | .check c => kind c = .ctxRunFunc → s.isClosed = true
  | _ => True

/-! ## What a returned call holds -/

/-- **A call that has returned holds the read lock exactly if it is a `CtxRunFunc` that has found
the agent open.** -/
theorem Inv.mem_readers_iff (hinv : Inv kind s) {err : Option Err} (hpc : s.pc c = .returned err) :
    c ∈ s.mutex.readers ↔ kind c = .ctxRunFunc ∧ err ≠ some .routineClosed := by
  rw [hinv.guards.readers c]
  simp only [hpc, role]
  split_ifs with h
  · exact iff_of_true rfl h
  · exact iff_of_false (by decide) h

/-- When no call is in progress, the readers are the calls of `CtxRunFunc` that have found the
agent open. -/
theorem Inv.not_reading (hinv : Inv kind s) (hquiet : Quiet kind s)
    (hctx : ∀ c err, kind c = .ctxRunFunc → s.pc c = .returned err → err = some .routineClosed)
    (c : CallId) : role (kind c) (s.pc c) ≠ .reading := by
  intro hreading
  by_cases hclose : kind c = .close
  · have hfits := hinv.fits c
    rw [hclose] at hreading hfits
    generalize s.pc c = pc at hreading hfits
    cases pc with
    | entered => exact hfits rfl
    | opened | leaving => exact hfits.1 rfl
    | releasing => cases hfits
    | panicked => exact hfits
    | idle | waiting | returned | announced | locked | unlocking => cases hreading
  · rcases hquiet c hclose with hpc | ⟨err, hpc⟩
    · rw [hpc] at hreading
      cases hreading
    · have hmem := (hinv.guards.readers c).mpr hreading
      obtain ⟨hkind, hne⟩ := (hinv.mem_readers_iff hpc).mp hmem
      exact hne (hctx c err hkind hpc)

/-- **A state is balanced exactly if every `CtxRunFunc` that has returned has found the agent
closed.** -/
theorem Inv.balanced_iff (hinv : Inv kind s) :
    Balanced size kind s ↔
      ∀ c err, kind c = .ctxRunFunc → s.pc c = .returned err → err = some .routineClosed := by
  constructor
  · intro hbalanced c err hkind hpc
    by_contra hne
    exact hbalanced.returned c err hpc ((hinv.mem_readers_iff hpc).mpr ⟨hkind, hne⟩)
  · intro hctx
    refine ⟨?_, ?_, ?_⟩
    · intro c err hpc hmem
      obtain ⟨hkind, hne⟩ := (hinv.mem_readers_iff hpc).mp hmem
      exact hne (hctx c err hkind hpc)
    · intro c hquiet hclose hpc hwriter
      have henabled : (system size kind).Enabled s (.announce c) := ⟨hpc, hclose, hwriter⟩
      have hnobody := hinv.not_reading hquiet hctx
      refine ⟨henabled, Function.update_self .., rfl, List.eq_nil_iff_forall_not_mem.mpr ?_⟩
      intro u hu
      exact hnobody u ((hinv.guards.readers u).mp hu)
    · intro c hquiet hpc
      have hannounced : role (kind c) (s.pc c) = .announced := by rw [hpc]; rfl
      exact ⟨hpc, hinv.guards.canLock hannounced (hinv.not_reading hquiet hctx)⟩

/-! ## Runs in which no `CtxRunFunc` finds the agent open -/

/-- Where a `CtxRunFunc` is that has not found the agent open. -/
def Shut : Pc → Prop
  | .opened | .waiting | .releasing => False
  | .returned err => err = some .routineClosed
  | _ => True

/-- No `CtxRunFunc` has found the agent open. -/
def NeverOpen (kind : CallId → Kind) (s : Agent) : Prop := ∀ c, kind c = .ctxRunFunc → Shut (s.pc c)

theorem NeverOpen.step (hshut : NeverOpen kind s) (hinv : Inv kind s) {a : Action}
    (henabled : (system size kind).Enabled s a) (hok : CtxShut kind s a) :
    NeverOpen kind ((system size kind).next s a) := by
  intro c hkind
  have hbefore := hshut c hkind
  rcases hinv.next_pc henabled with hnext | ⟨c', pc, hmoves, hnext⟩
  · rw [hnext]
    exact hbefore
  · rw [hnext]
    by_cases heq : c = c'
    · subst heq
      rw [Function.update_self]
      have hfits := hinv.fits c
      generalize s.pc c = from' at hmoves hbefore hfits
      cases hmoves with
      | rLock | shut | full | announced | locked | closed => trivial
      | opened c hopen =>
        rw [hok hkind] at hopen
        cases hopen
      | sent | released | received | ctxDone => exact False.elim hbefore
      | left c err => exact hfits.2 hkind
      | unlocked =>
        rw [hkind] at hfits
        cases hfits
    · rw [Function.update_of_ne heq]
      exact hbefore

/-- **The lock is given back**, in every run in which no `CtxRunFunc` finds the agent open. -/
theorem run_givesBack (hrun : (system size kind).Run (CtxShut kind) s) : Balanced size kind s := by
  have hinv := inv_of_run hrun
  rw [hinv.balanced_iff]
  have hshut : NeverOpen kind s :=
    hrun.invariant_of (fun _ h => inv_of_run h) (fun _ _ => trivial)
      fun _ _ hinv hshut henabled hok => hshut.step hinv henabled hok
  intro c err hkind hpc
  have hreturned := hshut c hkind
  rw [hpc] at hreturned
  exact hreturned

/-- Call 0 is one of `SyncRunFunc`, call 1 one of `Close`, and the others of `CtxRunFunc`. -/
def someKinds : CallId → Kind
  | 0 => .syncRunFunc
  | 1 => .close
  | _ => .ctxRunFunc

/-- A function is run, the agent is closed, and then a `CtxRunFunc` comes. -/
def lateCall : List Action :=
  [.start, .rLock 0, .check 0, .submit 0, .rUnlock 0, .recvTask, .execute, .finish true, .handled,
    .receive 0, .announce 1, .lock 1, .close 1, .unlock 1, .rLock 2, .check 2, .rUnlock 2]

/-- The theorem after a `CtxRunFunc` on a closed agent. -/
theorem run_givesBack_lateCall :
    ∃ s : Agent, s.pc 0 = .returned none ∧ s.pc 2 = .returned (some .routineClosed) ∧
      Balanced 0 someKinds s := by
  have hadmits : (system 0 someKinds).Admits (CtxShut someKinds) lateCall
      (system 0 someKinds).init :=
    ⟨rfl, trivial, ⟨rfl, by decide, rfl⟩, trivial, rfl, fun h => absurd h (by decide),
      ⟨rfl, fun h => absurd h (by decide)⟩, trivial, Or.inl rfl, trivial,
      ⟨rfl, List.cons_ne_nil _ _⟩, trivial, ⟨0, false, rfl⟩, trivial, ⟨0, false, rfl⟩, trivial,
      ⟨false, rfl⟩, trivial, ⟨rfl, List.cons_ne_nil _ _⟩, trivial, ⟨rfl, rfl, rfl⟩, trivial,
      ⟨rfl, rfl, rfl⟩, trivial, rfl, trivial, rfl, trivial, ⟨rfl, by decide, rfl⟩, trivial,
      rfl, fun _ => rfl, Or.inr ⟨_, rfl⟩, trivial, trivial⟩
  exact ⟨(system 0 someKinds).after lateCall (system 0 someKinds).init, rfl, rfl,
    run_givesBack (.of_admits .start hadmits)⟩

/-! ## A `Close` that never returns -/

def HasReturned (kind : CallId → Kind) (c : CallId) (err : Option Err) (s : Agent) : Prop :=
  Inv kind s ∧ s.pc c = .returned err

/-- A read lock that is not given back on return is never given back. -/
theorem Inv.leaked {ok : Agent → Action → Prop} (hinv : Inv kind s) {err : Option Err}
    (hpc : s.pc c = .returned err) (hkind : kind c = .ctxRunFunc) (herr : err ≠ some .routineClosed)
    {actions : List Action} (hadmits : (system size kind).Admits ok actions s) :
    c ∈ ((system size kind).after actions s).mutex.readers := by
  have hafter : HasReturned kind c err ((system size kind).after actions s) :=
    hadmits.invariant ⟨hinv, hpc⟩
      fun _ _ h henabled => ⟨h.1.step henabled, h.1.next_pc_of_returned henabled h.2⟩
  exact (hafter.1.mem_readers_iff hafter.2).mpr ⟨hkind, herr⟩

/-- One `CtxRunFunc` on an open agent, whose context is done first, and then a `Close`. -/
def abandoned : List Action := [.rLock 2, .check 2, .submit 2, .ctxDone 2, .announce 1]

/-- **`Close` waits for ever** after one call of `CtxRunFunc` that has returned. -/
theorem close_blocked : ∃ s : Agent, (system 0 someKinds).Run (fun _ _ => True) s ∧
    Quiet someKinds s ∧ s.pc 2 = .returned (some .context) ∧ 2 ∈ s.mutex.readers ∧
    s.pc 1 = .announced ∧
    ∀ actions, (system 0 someKinds).Admits (fun _ _ => True) actions s →
      ¬ (system 0 someKinds).Enabled ((system 0 someKinds).after actions s) (.lock 1) := by
  have hadmits : (system 0 someKinds).Admits (fun _ _ => True) abandoned
      (system 0 someKinds).init :=
    ⟨⟨rfl, by decide, rfl⟩, trivial, rfl, trivial, ⟨rfl, fun h => absurd h (by decide)⟩, trivial,
      ⟨rfl, rfl⟩, trivial, ⟨rfl, rfl, rfl⟩, trivial, trivial⟩
  have hrun := System.Run.of_admits .start hadmits
  refine ⟨_, hrun, ?_, rfl, List.mem_cons_self, rfl, ?_⟩
  · intro c hkind
    match c with
    | 0 => exact Or.inl rfl
    | 1 => exact absurd rfl hkind
    | 2 => exact Or.inr ⟨_, rfl⟩
    | _ + 3 => exact Or.inl rfl
  · intro actions hcontinued henabled
    have hleaked := (inv_of_run hrun).leaked (c := 2) rfl rfl (by decide) hcontinued
    rw [henabled.2.2] at hleaked
    exact List.not_mem_nil hleaked

end Agent

end Gokit.Framework
