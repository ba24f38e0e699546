/-
# Incremental readers

A reader that is called whenever more input has arrived keeps what it could not
use yet in its own state.  It works in rounds: a round either makes progress,
or finds that it has to wait for more input, or fails for good.  A call runs
rounds until one of the last two happens.

The question for such a reader is whether the places at which its input happens
to be cut can be told from what it does.  Three laws about a *single* round are
enough to rule that out: progress and failure are not changed by input that
comes later, and a round that waits can be resumed where it stopped.  From them
this module derives that every way of delivering an input agrees with
delivering it whole, up to input that was never looked at because the reader
had failed before it arrived.
-/

import Gokit.Math.Store

namespace Gokit.Math

/-- What one round of a reader came to. -/
inductive Flow (ε : Type)
  | next
  | wait
  | fail (err : ε)
  deriving DecidableEq, Repr

/-- A reader over the state `σ`: how arriving input is added to the state, and
what one round does. -/
structure Reader (σ β ε : Type) where
  push : σ → List β → σ
  step : σ → Exec (σ × Flow ε)

namespace Reader

variable {σ β ε : Type}

/-- Rounds until one waits or fails, at most `fuel` of them. -/
def loop (R : Reader σ β ε) : Nat → σ → Exec (σ × Option ε)
  | 0, _ => .error .diverges
  | fuel + 1, s => do
    let (s', flow) ← R.step s
    match flow with
    | .next => R.loop fuel s'
    | .wait => .ok (s', none)
    | .fail err => .ok (s', some err)

/-- Hand the pieces of an input over one by one, a call after each of them;
nothing is handed over once a call has failed. -/
def deliver (R : Reader σ β ε) (fuel : σ → Nat) : List (List β) → σ → Exec (σ × Option ε)
  | [], s => .ok (s, none)
  | piece :: rest, s => do
    let (s', err) ← R.loop (fuel (R.push s piece)) (R.push s piece)
    match err with
    | none => R.deliver fuel rest s'
    | some err => .ok (s', some err)

/-- The laws of an incremental reader on the states that satisfy `Ok`; `size`
bounds the number of rounds left. -/
structure Lawful (R : Reader σ β ε) (Ok : σ → Prop) (size : σ → Nat) : Prop where
  push_nil : ∀ s, R.push s [] = s
  push_push : ∀ s xs ys, R.push (R.push s xs) ys = R.push s (xs ++ ys)
  ok_push : ∀ s xs, Ok s → Ok (R.push s xs)
  /-- A round returns. -/
  step_ok : ∀ s, Ok s → ∃ s' flow, R.step s = .ok (s', flow)
  /-- A round that makes progress leaves less to do. -/
  next_size : ∀ s s', Ok s → R.step s = .ok (s', .next) → Ok s' ∧ size s' < size s
  wait_ok : ∀ s s', Ok s → R.step s = .ok (s', .wait) → Ok s'
  /-- Progress does not depend on later input. -/
  next_push : ∀ s s' ys, Ok s → R.step s = .ok (s', .next) →
    R.step (R.push s ys) = .ok (R.push s' ys, .next)
  /-- Failure does not depend on later input. -/
  fail_push : ∀ s s' err ys, Ok s → R.step s = .ok (s', .fail err) →
    R.step (R.push s ys) = .ok (R.push s' ys, .fail err)
  /-- A round that waited is resumed where it stopped. -/
  wait_push : ∀ s s' ys, Ok s → R.step s = .ok (s', .wait) →
    R.step (R.push s ys) = R.step (R.push s' ys)

/-- All the rounds of one call, as a relation between the state it starts in
and what it returns. -/
inductive Runs (R : Reader σ β ε) : σ → σ × Option ε → Prop
  | wait {s s' : σ} (hstep : R.step s = .ok (s', .wait)) : Runs R s (s', none)
  | fail {s s' : σ} {err : ε} (hstep : R.step s = .ok (s', .fail err)) : Runs R s (s', some err)
  | next {s s' : σ} {out : σ × Option ε} (hstep : R.step s = .ok (s', .next))
      (hrest : Runs R s' out) : Runs R s out

variable {R : Reader σ β ε} {Ok : σ → Prop} {size : σ → Nat} {out : σ × Option ε}

/-- What a call returns is determined by the state it starts in. -/
theorem Runs.unique {s : σ} {out' : σ × Option ε} (hruns : R.Runs s out) (hruns' : R.Runs s out') :
    out = out' := by
  induction hruns with
  | wait hstep =>
    cases hruns' with
    | wait hstep' => simp_all
    | fail hstep' => simp_all
    | next hstep' _ => simp_all
  | fail hstep =>
    cases hruns' with
    | wait hstep' => simp_all
    | fail hstep' => simp_all
    | next hstep' _ => simp_all
  | next hstep _ ih =>
    cases hruns' with
    | wait hstep' => simp_all
    | fail hstep' => simp_all
    | next hstep' hrest' =>
      apply ih
      have hsame := hstep.symm.trans hstep'
      simp only [Except.ok.injEq, Prod.mk.injEq, and_true] at hsame
      exact hsame ▸ hrest'

/-- Two states whose next rounds agree run alike. -/
theorem Runs.of_step_eq {s t : σ} (heq : R.step s = R.step t) (hruns : R.Runs t out) :
    R.Runs s out := by
  cases hruns with
  | wait hstep => exact .wait (heq.trans hstep)
  | fail hstep => exact .fail (heq.trans hstep)
  | next hstep hrest => exact .next (heq.trans hstep) hrest

variable {fuel : σ → Nat}

namespace Lawful

variable {s : σ}

/-- **Enough fuel gives the result**: a call comes back within `size` rounds
and one. -/
theorem exists_runs (hR : R.Lawful Ok size) {fuel : Nat} (hok : Ok s) (hfuel : size s < fuel) :
    ∃ out, R.loop fuel s = .ok out ∧ R.Runs s out ∧ (out.2 = none → Ok out.1) := by
  induction fuel generalizing s with
  | zero => exact absurd hfuel (Nat.not_lt_zero _)
  | succ fuel ih =>
    obtain ⟨s', flow, hstep⟩ := hR.step_ok s hok
    unfold loop
    rw [hstep]
    cases flow with
    | wait => exact ⟨(s', none), rfl, .wait hstep, fun _ => hR.wait_ok s s' hok hstep⟩
    | fail err => exact ⟨(s', some err), rfl, .fail hstep, by simp⟩
    | next =>
      have hless := hR.next_size s s' hok hstep
      obtain ⟨out, hloop, hruns, hafter⟩ := ih hless.1 (by omega)
      exact ⟨out, hloop, .next hstep hruns, hafter⟩

variable {out : σ × Option ε}

/-- After a call that did not fail there is nothing to do until more input
arrives. -/
theorem settled (hR : R.Lawful Ok size) (hok : Ok s) (hruns : R.Runs s out) (hnone : out.2 = none) :
    R.step out.1 = .ok (out.1, .wait) := by
  induction hruns with
  | @wait s s' hstep =>
    have hresume := hR.wait_push s s' [] hok hstep
    rw [hR.push_nil, hR.push_nil] at hresume
    exact hresume ▸ hstep
  | fail hstep => exact absurd hnone (by simp)
  | next hstep _ ih => exact ih (hR.next_size _ _ hok hstep).1 hnone

/-- A call that failed fails the same way when more input had arrived before it. -/
theorem runs_push_of_fail (hR : R.Lawful Ok size) (ys : List β) (hok : Ok s) (hruns : R.Runs s out)
    (hfail : out.2.isSome) : R.Runs (R.push s ys) (R.push out.1 ys, out.2) := by
  induction hruns with
  | wait hstep => simp at hfail
  | fail hstep => exact .fail (hR.fail_push _ _ _ ys hok hstep)
  | next hstep _ ih =>
    exact .next (hR.next_push _ _ ys hok hstep) (ih (hR.next_size _ _ hok hstep).1 hfail)

/-- A call that is left waiting and then resumed with more input amounts to one
call on all of it. -/
theorem runs_push_of_wait (hR : R.Lawful Ok size) {later : σ × Option ε} (ys : List β) (hok : Ok s)
    (hruns : R.Runs s out) (hwait : out.2 = none) (hlater : R.Runs (R.push out.1 ys) later) :
    R.Runs (R.push s ys) later := by
  induction hruns with
  | wait hstep => exact hlater.of_step_eq (hR.wait_push _ _ ys hok hstep)
  | fail hstep => simp at hwait
  | next hstep _ ih =>
    exact .next (hR.next_push _ _ ys hok hstep)
      (ih (hR.next_size _ _ hok hstep).1 hwait hlater)

/-- **Delivering an input in pieces agrees with delivering it whole.** What the
whole delivery leaves is what the pieces leave, followed by the pieces that
were held back because the reader had failed. -/
theorem deliver_runs (hR : R.Lawful Ok size) (hfuel : ∀ s, size s < fuel s) (pieces : List (List β))
    (hok : Ok s) (hrest : R.step s = .ok (s, .wait)) :
    ∃ out unread, R.deliver fuel pieces s = .ok out ∧
      R.Runs (R.push s pieces.flatten) (R.push out.1 unread, out.2) ∧
      (out.2 = none → unread = [] ∧ Ok out.1) := by
  induction pieces generalizing s with
  | nil =>
    refine ⟨(s, none), [], rfl, ?_, fun _ => ⟨rfl, hok⟩⟩
    rw [List.flatten_nil, hR.push_nil]
    exact .wait hrest
  | cons piece rest ih =>
    have hpushed := hR.ok_push s piece hok
    obtain ⟨⟨s', err⟩, hloop, hruns, hafter⟩ := hR.exists_runs hpushed (hfuel _)
    unfold deliver
    rw [hloop, List.flatten_cons, ← hR.push_push]
    cases err with
    | some err =>
      refine ⟨(s', some err), rest.flatten, rfl, ?_, by simp⟩
      exact hR.runs_push_of_fail rest.flatten hpushed hruns rfl
    | none =>
      obtain ⟨out, unread, hdeliver, hlater, hnone⟩ :=
        ih (hafter rfl) (hR.settled hpushed hruns rfl)
      exact ⟨out, unread, hdeliver,
        hR.runs_push_of_wait rest.flatten hpushed hruns rfl hlater, hnone⟩

end Lawful

/-! ## The rounds of a delivery -/

/-- The states in which a round begins while pieces are handed over one by one; the list is
what has been handed over so far. -/
inductive Visits (R : Reader σ β ε) (start : σ) : List (List β) → σ → Prop
  | first (piece : List β) : Visits R start [piece] (R.push start piece)
  | next {pieces : List (List β)} {s s' : σ} (hvisits : Visits R start pieces s)
      (hstep : R.step s = .ok (s', .next)) : Visits R start pieces s'
  | call {pieces : List (List β)} {s s' : σ} (hvisits : Visits R start pieces s)
      (hstep : R.step s = .ok (s', .wait)) (piece : List β) :
      Visits R start (pieces ++ [piece]) (R.push s' piece)

variable {start : σ} {pieces : List (List β)}

/-- A call ends with the last of its rounds. -/
theorem Visits.of_loop {fuel : Nat} {s : σ} (hvisits : R.Visits start pieces s)
    (hloop : R.loop fuel s = .ok out) :
    ∃ s' flow, R.Visits start pieces s' ∧ R.step s' = .ok (out.1, flow) ∧
      (out.2 = none → flow = .wait) := by
  induction fuel generalizing s with
  | zero => cases hloop
  | succ fuel ih =>
    unfold loop at hloop
    obtain ⟨⟨s', flow⟩, hstep, hrest⟩ := Exec.bind_eq_ok_iff.mp hloop
    cases flow with
    | next => exact ih (hvisits.next hstep) hrest
    | wait =>
      cases hrest
      exact ⟨s, .wait, hvisits, hstep, fun _ => rfl⟩
    | fail err =>
      cases hrest
      exact ⟨s, .fail err, hvisits, hstep, by simp⟩

theorem Visits.of_deliver_wait {rest : List (List β)} {s s' : σ} (hvisits : R.Visits start pieces s)
    (hwait : R.step s = .ok (s', .wait)) (hdeliver : R.deliver fuel rest s' = .ok out) :
    ∃ seen t flow, seen <+: pieces ++ rest ∧ R.Visits start seen t ∧
      R.step t = .ok (out.1, flow) := by
  induction rest generalizing pieces s s' with
  | nil =>
    cases hdeliver
    exact ⟨pieces, s, .wait, by simp, hvisits, hwait⟩
  | cons piece rest ih =>
    have hcall := hvisits.call hwait piece
    unfold deliver at hdeliver
    obtain ⟨⟨s'', err⟩, hloop, hrest⟩ := Exec.bind_eq_ok_iff.mp hdeliver
    obtain ⟨t, flow, ht, hstep, hflow⟩ := hcall.of_loop hloop
    cases err with
    | none =>
      cases hflow rfl
      simpa using ih ht hstep hrest
    | some err =>
      cases hrest
      exact ⟨_, t, flow, by simp, ht, hstep⟩

/-- **A delivery ends with a round**: what it leaves is what the last one leaves. -/
theorem Visits.of_deliver (hsome : pieces ≠ []) (hdeliver : R.deliver fuel pieces start = .ok out) :
    ∃ seen t flow, seen <+: pieces ∧ R.Visits start seen t ∧ R.step t = .ok (out.1, flow) := by
  cases pieces with
  | nil => exact absurd rfl hsome
  | cons piece rest =>
    unfold deliver at hdeliver
    obtain ⟨⟨s', err⟩, hloop, hrest⟩ := Exec.bind_eq_ok_iff.mp hdeliver
    obtain ⟨t, flow, ht, hstep, hflow⟩ := (Visits.first piece).of_loop hloop
    cases err with
    | none =>
      cases hflow rfl
      exact ht.of_deliver_wait hstep hrest
    | some err =>
      cases hrest
      exact ⟨_, t, flow, by simp, ht, hstep⟩

end Reader

end Gokit.Math
