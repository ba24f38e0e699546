/-
# Labelled transition systems

A concurrent program is the set of atomic actions its threads can take.  An
action is enabled in a state or not, and leads from it to one next state; all
freedom of the scheduler, of the clock and of the environment is in the choice
of the action.  Assumptions on a run are conditions on its single steps.

An invariant is proved once for the initial state and once for a step.  For a
concrete run it is enough to check its list of actions.
-/

import Mathlib.Data.List.Basic

namespace Gokit.Math

/-- A system of atomic actions. -/
structure System (σ α : Type) where
  init : σ
  Enabled : σ → α → Prop
  next : σ → α → σ

namespace System

variable {σ α : Type} {S : System σ α} {ok ok' : σ → α → Prop}

/-- The states of the runs whose steps all satisfy `ok`. -/
inductive Run (S : System σ α) (ok : σ → α → Prop) : σ → Prop
  | start : Run S ok S.init
  | step {s : σ} {a : α} (hrun : Run S ok s) (henabled : S.Enabled s a) (hok : ok s a) :
      Run S ok (S.next s a)

variable {Inv : σ → Prop} {s : σ}

/-- **The invariant rule.** -/
theorem Run.invariant (hrun : S.Run ok s) (hinit : Inv S.init)
    (hstep : ∀ s a, Inv s → S.Enabled s a → ok s a → Inv (S.next s a)) : Inv s := by
  induction hrun with
  | start => exact hinit
  | step _ henabled hok ih => exact hstep _ _ ih henabled hok

/-- The invariant rule on top of an invariant that is known already. -/
theorem Run.invariant_of {Base : σ → Prop} (hrun : S.Run ok s) (hbase : ∀ s, S.Run ok s → Base s)
    (hinit : Inv S.init)
    (hstep : ∀ s a, Base s → Inv s → S.Enabled s a → ok s a → Inv (S.next s a)) : Inv s := by
  induction hrun with
  | start => exact hinit
  | step hrun henabled hok ih => exact hstep _ _ (hbase _ hrun) ih henabled hok

/-- Weaker assumptions admit more runs. -/
theorem Run.mono (hrun : S.Run ok s) (himp : ∀ s a, ok s a → ok' s a) : S.Run ok' s := by
  induction hrun with
  | start => exact .start
  | step _ henabled hok ih => exact .step ih henabled (himp _ _ hok)

/-- **The simulation rule.**  If every step of a system is a step of another one on the
states that stand for its own, or none at all, then its runs are runs of the other. -/
theorem Run.simulation {τ β : Type} {T : System τ β} {okT : τ → β → Prop} (f : σ → τ)
    (hinit : f S.init = T.init) (hstep : ∀ s a, S.Enabled s a → ok s a → f (S.next s a) = f s ∨
      ∃ b, T.Enabled (f s) b ∧ okT (f s) b ∧ T.next (f s) b = f (S.next s a)) (hrun : S.Run ok s) :
    T.Run okT (f s) := by
  induction hrun with
  | start =>
    rw [hinit]
    exact .start
  | @step s a _ henabled hok ih =>
    rcases hstep s a henabled hok with hsame | ⟨b, hb, hokb, hnext⟩
    · rw [hsame]
      exact ih
    · rw [← hnext]
      exact .step ih hb hokb

/-- The state a list of actions leads to. -/
def after (S : System σ α) (actions : List α) (s : σ) : σ := actions.foldl S.next s

/-- Every action of the list is enabled when its turn comes, and satisfies `ok`. -/
def Admits (S : System σ α) (ok : σ → α → Prop) : List α → σ → Prop
  | [], _ => True
  | a :: rest, s => S.Enabled s a ∧ ok s a ∧ S.Admits ok rest (S.next s a)

/-- A list of actions can be tried out. -/
instance Admits.decidable [∀ s a, Decidable (S.Enabled s a)] [∀ s a, Decidable (ok s a)] :
    (actions : List α) → (s : σ) → Decidable (S.Admits ok actions s)
  | [], _ => inferInstanceAs (Decidable True)
  | a :: rest, s =>
    have := Admits.decidable rest (S.next s a)
    inferInstanceAs (Decidable (S.Enabled s a ∧ ok s a ∧ S.Admits ok rest (S.next s a)))

/-- A concrete run, from its actions. -/
theorem Run.of_admits {actions : List α} (hrun : S.Run ok s) (hadmits : S.Admits ok actions s) :
    S.Run ok (S.after actions s) := by
  induction actions generalizing s with
  | nil => exact hrun
  | cons a rest ih => exact ih (.step hrun hadmits.1 hadmits.2.1) hadmits.2.2

/-- What every step keeps is true after any list of actions. -/
theorem Admits.invariant {actions : List α} (hadmits : S.Admits ok actions s) (hstart : Inv s)
    (hstep : ∀ s a, Inv s → S.Enabled s a → Inv (S.next s a)) : Inv (S.after actions s) := by
  induction actions generalizing s with
  | nil => exact hstart
  | cons a rest ih => exact ih hadmits.2.2 (hstep s a hstart hadmits.1)

end System

/-- What is left of a list of things to do when one of them is taken up. -/
theorem mem_filter_ne {β : Type} [DecidableEq β] {todo : List β} {b b' : β} :
    b' ∈ todo.filter (· ≠ b) ↔ b' ∈ todo ∧ b' ≠ b := by
  rw [List.mem_filter, decide_eq_true_iff]

end Gokit.Math
