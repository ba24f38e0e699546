/-
# Shutting the clock down

Callers hand their tasks to the goroutine of the clock through the channel `taskch`, and
wait until it has performed them.  When the goroutine receives `quit` it sets `closed`,
closes the channel and returns.  It does not look into the channel again: a task that is
still queued is never performed, and its caller waits for ever.  A caller that has found
`closed` unset and has not sent yet sends on a closed channel, which panics.

Once `closed` is set no further caller gets as far as its send.  So what decides is the
moment at which the channel is closed: the clock shuts down cleanly if no task is queued
then, and no caller is about to send one.
-/

import Gokit.Clock.Run
import Gokit.Math.Transition

namespace Gokit.Clock

open Gokit.Math

/-- The calls of `NewTimer`, `CancelTimer` and `UpdateTimer`, in some enumeration. -/
abbrev CallId : Type := Nat

/-- The errors of `pushTask`. -/
inductive PushError
  /-- "clock is closed" -/
  | closed
  /-- "pushTask falied timer task channel full" -/
  | full
  deriving DecidableEq, Repr

/-- Where a call is in `pushTask`. -/
inductive Pc
  | idle
  /-- has found `closed` unset -/
  | checked
  /-- has sent its task and receives from `done` -/
  | waiting
  | returned (err : Option PushError)
  /-- has sent on a closed channel -/
  | panicked
  deriving DecidableEq, Repr

/-- Where the goroutine is in `run`. -/
inductive Loop
  | created
  | selecting
  | ticking (nowMs tk : Int64)
  /-- has received `quit` -/
  | quitting
  /-- has set `closed` -/
  | closing
  | returned
  /-- a task has panicked -/
  | crashed
  deriving DecidableEq, Repr

/-- What the goroutine has done to the clock: the task of a call, or its own work. -/
inductive Entry (D : Type)
  | call (c : CallId)
  | own (op : Op D)

def Entry.op {D : Type} (tasks : CallId → Task D) : Entry D → Op D
  | .call c => .task (tasks c)
  | .own op => op

/-- The clock with its goroutine and its callers.  A queued task is the call it is from;
`history` is what the goroutine has done so far. -/
structure Service (D : Type) where
  clock : Clock D := newClock
  taskch : List CallId := []
  chanClosed : Bool := false
  closed : Bool := false
  loop : Loop := .created
  pc : CallId → Pc := fun _ => .idle
  done : CallId → Bool := fun _ => false
  history : List (Entry D) := []

namespace Service

variable {D : Type}

inductive Action (D : Type)
  | check (c : CallId)
  | push (c : CallId)
  | wait (c : CallId)
  | start (nowMs : Int64)
  | runTask
  | timer (nowMs : Int64)
  | tick (env : Env D) (fuel : Nat) (nowMs tk : Int64)
  | leave (nowMs tk : Int64)
  | recvQuit
  | storeClosed
  | closeChan

/-- The operation with which the goroutine moves `lastTime` towards a reading. -/
def catchUp (s : Service D) (nowMs : Int64) : Op D :=
  .setTime (s.clock.lastTime + si * ((nowMs - s.clock.lastTime) / si))

def setPc (s : Service D) (c : CallId) (pc : Pc) : Service D :=
  { s with pc := Function.update s.pc c pc }

/-- `if c.closed.Load()`. -/
def check (s : Service D) (c : CallId) : Service D :=
  s.setPc c (if s.closed then .returned (some .closed) else .checked)

/-- The `select` of `pushTask`. -/
def push (cap : Nat) (s : Service D) (c : CallId) : Service D :=
  if s.chanClosed then s.setPc c .panicked
  else if s.taskch.length < cap then
    { s with taskch := s.taskch ++ [c], pc := Function.update s.pc c .waiting }
  else s.setPc c (.returned (some .full))

variable [Inhabited D]

/-- The goroutine receives a task and performs it. -/
def runTask (tasks : CallId → Task D) (s : Service D) : Service D :=
  match s.taskch with
  | [] => s
  | c :: rest =>
    match s.clock.perform (tasks c) with
    | .ok clock =>
      { s with
        clock
        taskch := rest
        done := Function.update s.done c true
        history := s.history ++ [.call c] }
    | .error _ => { s with taskch := rest, loop := .crashed }

/-- The goroutine works on the clock and goes on at `loop`. -/
def advance (s : Service D) (op : Op D) (loop : Loop) : Service D :=
  match s.clock.apply op with
  | .ok clock => { s with clock, loop, history := s.history ++ [.own op] }
  | .error _ => s

/-- A clock whose channel has room for `cap` tasks. The task of call `c` is `tasks c`. -/
def system (cap : Nat) (tasks : CallId → Task D) : System (Service D) (Action D) where
  init := {}
  Enabled s
    | .check c => s.pc c = .idle
    | .push c => s.pc c = .checked
    | .wait c => s.pc c = .waiting ∧ s.done c = true
    | .start _ => s.loop = .created
    | .runTask => s.loop = .selecting ∧ s.taskch ≠ []
    | .timer _ => s.loop = .selecting
    | .tick env fuel nowMs tk => s.loop = .ticking nowMs tk ∧ tk ≤ s.clock.lastTime ∧
        (s.clock.apply (.tick env fuel nowMs tk)).isOk = true
    | .leave nowMs tk => s.loop = .ticking nowMs tk ∧ ¬ tk ≤ s.clock.lastTime
    | .recvQuit => s.loop = .selecting
    | .storeClosed => s.loop = .quitting
    | .closeChan => s.loop = .closing
  next s
    | .check c => s.check c
    | .push c => s.push cap c
    | .wait c => s.setPc c (.returned none)
    | .start nowMs => s.advance (.setTime nowMs) .selecting
    | .runTask => s.runTask tasks
    | .timer nowMs => s.advance (s.catchUp nowMs) (.ticking nowMs (s.clock.lastTime + si))
    | .tick env fuel nowMs tk => s.advance (.tick env fuel nowMs tk) (.ticking nowMs (tk + si))
    | .leave _ _ => { s with loop := .selecting }
    | .recvQuit => { s with loop := .quitting }
    | .storeClosed => { s with closed := true, loop := .closing }
    | .closeChan => { s with chanClosed := true, loop := .returned }

instance (cap : Nat) (tasks : CallId → Task D) (s : Service D) :
    (a : Action D) → Decidable ((system cap tasks).Enabled s a)
  | .check c => inferInstanceAs (Decidable (s.pc c = .idle))
  | .push c => inferInstanceAs (Decidable (s.pc c = .checked))
  | .wait c => inferInstanceAs (Decidable (s.pc c = .waiting ∧ s.done c = true))
  | .start _ => inferInstanceAs (Decidable (s.loop = .created))
  | .runTask => inferInstanceAs (Decidable (s.loop = .selecting ∧ s.taskch ≠ []))
  | .timer _ => inferInstanceAs (Decidable (s.loop = .selecting))
  | .tick env fuel nowMs tk =>
    inferInstanceAs (Decidable (s.loop = .ticking nowMs tk ∧ tk ≤ s.clock.lastTime ∧
      (s.clock.apply (.tick env fuel nowMs tk)).isOk = true))
  | .leave nowMs tk =>
    inferInstanceAs (Decidable (s.loop = .ticking nowMs tk ∧ ¬ tk ≤ s.clock.lastTime))
  | .recvQuit => inferInstanceAs (Decidable (s.loop = .selecting))
  | .storeClosed => inferInstanceAs (Decidable (s.loop = .quitting))
  | .closeChan => inferInstanceAs (Decidable (s.loop = .closing))

/-! ## What holds in every run -/

section Frames

variable {c c' : CallId} (s : Service D)

omit [Inhabited D] in
@[simp]
theorem setPc_pc_self (c : CallId) (pc : Pc) : (s.setPc c pc).pc c = pc := Function.update_self ..

omit [Inhabited D] in
@[simp]
theorem setPc_pc_of_ne (h : c' ≠ c) (pc : Pc) : (s.setPc c pc).pc c' = s.pc c' :=
  Function.update_of_ne h ..

omit [Inhabited D] in
@[simp]
theorem check_pc_of_ne (h : c' ≠ c) : (s.check c).pc c' = s.pc c' := setPc_pc_of_ne s h _

omit [Inhabited D] in
@[simp]
theorem push_pc_of_ne (cap : Nat) (h : c' ≠ c) : (s.push cap c).pc c' = s.pc c' := by
  unfold push
  split_ifs
  · exact setPc_pc_of_ne s h _
  · exact Function.update_of_ne h ..
  · exact setPc_pc_of_ne s h _

@[simp]
theorem runTask_pc (tasks : CallId → Task D) : (s.runTask tasks).pc = s.pc := by
  unfold runTask
  split
  · rfl
  · split <;> rfl

@[simp]
theorem advance_pc (op : Op D) (loop : Loop) : (s.advance op loop).pc = s.pc := by
  unfold advance
  split <;> rfl

theorem advance_loop (op : Op D) (loop : Loop) :
    (s.advance op loop).loop = loop ∨ (s.advance op loop).loop = s.loop := by
  unfold advance
  split
  · exact .inl rfl
  · exact .inr rfl

end Frames

/-- The invariant of all runs: the clock is what the history has made of it, a call's `done`
is closed exactly when its task has been performed, and the calls that wait are those
that are queued or done. -/
structure Inv (tasks : CallId → Task D) (s : Service D) : Prop where
  clock : (newClock : Clock D).run (s.history.map (Entry.op tasks)) = .ok s.clock
  done : ∀ c, s.done c = true ↔ .call c ∈ s.history
  sent : ∀ c, s.done c = true → s.pc c = .waiting ∨ s.pc c = .returned none
  returned : ∀ c, s.pc c = .returned none → s.done c = true
  waiting : ∀ c, s.pc c = .waiting → c ∈ s.taskch ∨ s.done c = true
  queued : ∀ c ∈ s.taskch, s.pc c = .waiting ∧ s.done c = false
  nodup : s.taskch.Nodup
  running : s.loop ≠ .crashed
  closed : s.loop = .closing ∨ s.loop = .returned → s.closed = true
  chanClosed : s.chanClosed = true → s.loop = .returned

variable {tasks : CallId → Task D} {cap : Nat} {s : Service D}

theorem inv_init : Inv tasks ({} : Service D) where
  clock := rfl
  done _ := ⟨nofun, fun h => absurd h List.not_mem_nil⟩
  sent _ := nofun
  returned _ := nofun
  waiting _ := nofun
  queued _ h := absurd h List.not_mem_nil
  nodup := List.nodup_nil
  running := nofun
  closed := by simp
  chanClosed := nofun

variable {c : CallId}

/-- A call that has not sent its task is neither queued nor done. -/
theorem Inv.unsent (hinv : Inv tasks s) (hpc : s.pc c = .idle ∨ s.pc c = .checked) :
    c ∉ s.taskch ∧ s.done c = false := by
  constructor
  · intro hmem
    have hwaiting := (hinv.queued c hmem).1
    simp [hwaiting] at hpc
  · rw [← Bool.not_eq_true]
    intro hdone
    rcases hinv.sent c hdone with h | h <;> simp [h] at hpc

/-- A call that is not queued moves on. -/
theorem Inv.setPc (hinv : Inv tasks s) {pc : Pc} (hmem : c ∉ s.taskch)
    (hreturned : pc = .returned none ↔ s.done c = true) (hwaiting : pc ≠ .waiting) :
    Inv tasks (s.setPc c pc) :=
  { hinv with
    sent := by
      intro c' hdone
      by_cases hc : c' = c
      · subst hc
        exact .inr (by simpa using hreturned.2 hdone)
      · simpa [hc] using hinv.sent c' hdone
    returned := by
      intro c' hpc
      by_cases hc : c' = c
      · subst hc
        exact hreturned.1 (by simpa using hpc)
      · exact hinv.returned c' (by simpa [hc] using hpc)
    waiting := by
      intro c' hpc
      by_cases hc : c' = c
      · subst hc
        exact absurd (by simpa using hpc) hwaiting
      · exact hinv.waiting c' (by simpa [hc] using hpc)
    queued := by
      intro c' hmem'
      have hc : c' ≠ c := ne_of_mem_of_not_mem hmem' hmem
      rw [setPc_pc_of_ne s hc]
      exact hinv.queued c' hmem' }

/-- A call that has not sent its task moves on without sending it. -/
theorem Inv.setPc_of_unsent (hinv : Inv tasks s) {pc : Pc}
    (hpc : s.pc c = .idle ∨ s.pc c = .checked) (hreturned : pc ≠ .returned none)
    (hwaiting : pc ≠ .waiting) : Inv tasks (s.setPc c pc) := by
  obtain ⟨hmem, hdone⟩ := hinv.unsent hpc
  exact hinv.setPc hmem (by simp [hreturned, hdone]) hwaiting

/-- The task of a call is queued. -/
theorem Inv.enqueue (hinv : Inv tasks s) (hpc : s.pc c = .checked) :
    Inv tasks { s with taskch := s.taskch ++ [c], pc := Function.update s.pc c .waiting } := by
  obtain ⟨hmem, hdone⟩ := hinv.unsent (.inr hpc)
  exact
    { hinv with
      sent := by
        intro c' hdone'
        have hc : c' ≠ c := fun hc => by simp [hc, hdone] at hdone'
        simpa [hc] using hinv.sent c' hdone'
      returned := by
        intro c' hpc'
        have hc : c' ≠ c := fun hc => by simp [hc] at hpc'
        exact hinv.returned c' (by simpa [hc] using hpc')
      waiting := by
        intro c' hpc'
        by_cases hc : c' = c
        · simp [hc]
        · simpa [hc] using hinv.waiting c' (by simpa [hc] using hpc')
      queued := by
        intro c' hmem'
        by_cases hc : c' = c
        · simp [hc, hdone]
        · simpa [hc] using hinv.queued c' (by simpa [hc] using hmem')
      nodup := List.concat_eq_append ▸ hinv.nodup.concat hmem }

theorem Inv.push (hinv : Inv tasks s) (hpc : s.pc c = .checked) : Inv tasks (s.push cap c) := by
  unfold Service.push
  split_ifs
  · exact hinv.setPc_of_unsent (.inr hpc) nofun nofun
  · exact hinv.enqueue hpc
  · exact hinv.setPc_of_unsent (.inr hpc) nofun nofun

theorem Inv.check (hinv : Inv tasks s) (hpc : s.pc c = .idle) : Inv tasks (s.check c) := by
  unfold Service.check
  split_ifs
  · exact hinv.setPc_of_unsent (.inl hpc) nofun nofun
  · exact hinv.setPc_of_unsent (.inl hpc) nofun nofun

theorem Inv.wait (hinv : Inv tasks s) (hdone : s.done c = true) :
    Inv tasks (s.setPc c (.returned none)) := by
  have hmem : c ∉ s.taskch := fun hmem => by simp [(hinv.queued c hmem).2] at hdone
  exact hinv.setPc hmem (by simp [hdone]) nofun

/-- The clock after one more entry of the history. -/
theorem Inv.run_history (hinv : Inv tasks s) (entry : Entry D) :
    (newClock : Clock D).run ((s.history ++ [entry]).map (Entry.op tasks)) =
      s.clock.apply (entry.op tasks) := by
  rw [List.map_append, List.map_singleton]
  exact run_concat (entry.op tasks) hinv.clock

theorem Inv.perform_ok (hinv : Inv tasks s) (task : Task D) :
    ∃ clock, s.clock.perform task = .ok clock := by
  have hsafe := Clock.Inv.run_safe (s.history.map (Entry.op tasks)) (inv_newClock .any)
  rw [hinv.clock, Exec.safe_ok] at hsafe
  obtain ⟨lists, hclock⟩ := hsafe
  obtain ⟨clock, -, hperform, -⟩ := hclock.perform_spec task fun _ _ _ => trivial
  exact ⟨clock, hperform⟩

theorem runTask_eq {rest : List CallId} {clock : Clock D} (htaskch : s.taskch = c :: rest)
    (hperform : s.clock.perform (tasks c) = .ok clock) :
    s.runTask tasks =
      { s with
        clock
        taskch := rest
        done := Function.update s.done c true
        history := s.history ++ [.call c] } := by
  simp only [runTask, htaskch, hperform]

theorem Inv.runTask (hinv : Inv tasks s) (hne : s.taskch ≠ []) : Inv tasks (s.runTask tasks) := by
  obtain ⟨c, rest, htaskch⟩ := List.exists_cons_of_ne_nil hne
  obtain ⟨clock, hperform⟩ := hinv.perform_ok (tasks c)
  have hnodup := hinv.nodup
  rw [htaskch, List.nodup_cons] at hnodup
  obtain ⟨hnot, hrest⟩ := hnodup
  have hwaiting : s.pc c = .waiting := (hinv.queued c (by simp [htaskch])).1
  rw [runTask_eq htaskch hperform]
  exact
    { hinv with
      clock := (hinv.run_history (.call c)).trans hperform
      done := by
        intro c'
        by_cases hc : c' = c
        · simp [hc]
        · simpa [hc] using hinv.done c'
      sent := by
        intro c' hdone
        by_cases hc : c' = c
        · exact .inl (hc ▸ hwaiting)
        · exact hinv.sent c' (by simpa [hc] using hdone)
      returned := by
        intro c' hpc
        have hc : c' ≠ c := fun hc => by simp [hc, hwaiting] at hpc
        simpa [hc] using hinv.returned c' hpc
      waiting := by
        intro c' hpc
        by_cases hc : c' = c
        · simp [hc]
        · simpa [htaskch, hc] using hinv.waiting c' hpc
      queued := by
        intro c' hmem
        have hc : c' ≠ c := ne_of_mem_of_not_mem hmem hnot
        simpa [hc] using hinv.queued c' (by simp [htaskch, hmem])
      nodup := hrest }

theorem Inv.chanOpen (hinv : Inv tasks s) (hloop : s.loop ≠ .returned) : s.chanClosed = false := by
  rw [← Bool.not_eq_true]
  intro hclosed
  exact hloop (hinv.chanClosed hclosed)

/-- The goroutine goes on, and is not about to close the channel. -/
theorem Inv.goto (hinv : Inv tasks s) {loop : Loop} (hbefore : s.loop ≠ .returned)
    (hloop : loop ≠ .crashed ∧ loop ≠ .closing ∧ loop ≠ .returned) : Inv tasks { s with loop } :=
  { hinv with
    running := hloop.1
    closed := by simp [hloop]
    chanClosed := by simp [hinv.chanOpen hbefore] }

theorem Inv.advance (hinv : Inv tasks s) (op : Op D) {loop : Loop} (hbefore : s.loop ≠ .returned)
    (hloop : loop ≠ .crashed ∧ loop ≠ .closing ∧ loop ≠ .returned) :
    Inv tasks (s.advance op loop) := by
  unfold Service.advance
  cases happly : s.clock.apply op with
  | error fault => exact hinv
  | ok clock =>
    exact
      { hinv.goto hbefore hloop with
        clock := (hinv.run_history (.own op)).trans happly
        done := by
          intro c
          simpa using hinv.done c }

theorem Inv.step (hinv : Inv tasks s) {a : Action D} (henabled : (system cap tasks).Enabled s a) :
    Inv tasks ((system cap tasks).next s a) := by
  cases a with
  | check c => exact hinv.check henabled
  | push c => exact hinv.push henabled
  | wait c => exact hinv.wait henabled.2
  | start nowMs =>
    have hloop : s.loop = .created := henabled
    exact hinv.advance (.setTime nowMs) (by simp [hloop]) (by simp)
  | runTask => exact hinv.runTask henabled.2
  | timer nowMs =>
    have hloop : s.loop = .selecting := henabled
    exact hinv.advance (s.catchUp nowMs) (by simp [hloop]) (by simp)
  | tick env fuel nowMs tk =>
    exact hinv.advance (.tick env fuel nowMs tk) (by simp [henabled.1]) (by simp)
  | leave nowMs tk => exact hinv.goto (by simp [henabled.1]) (by simp)
  | recvQuit =>
    have hloop : s.loop = .selecting := henabled
    exact hinv.goto (by simp [hloop]) (by simp)
  | storeClosed =>
    have hloop : s.loop = .quitting := henabled
    have hopen : s.chanClosed = false := hinv.chanOpen (by simp [hloop])
    exact
      { hinv with
        running := nofun
        closed := fun _ => rfl
        chanClosed := fun hclosed => absurd hclosed (by simp [system, hopen]) }
  | closeChan =>
    have hloop : s.loop = .closing := henabled
    exact
      { hinv with
        running := nofun
        closed := fun _ => hinv.closed (.inl hloop)
        chanClosed := fun _ => rfl }

theorem run_inv {ok : Service D → Action D → Prop} (hrun : (system cap tasks).Run ok s) :
    Inv tasks s :=
  hrun.invariant inv_init fun _ _ hinv henabled _ => hinv.step henabled

/-! ## A clean shutdown -/

/-- The task of the call has been performed on the clock, and the clock is what its
history has made of that. -/
def Applied (tasks : CallId → Task D) (s : Service D) (c : CallId) : Prop :=
  ∃ before after clock clock', s.history = before ++ .call c :: after ∧
    (newClock : Clock D).run (before.map (Entry.op tasks)) = .ok clock ∧
    clock.perform (tasks c) = .ok clock' ∧
    clock'.run (after.map (Entry.op tasks)) = .ok s.clock

/-- The task of the call has been accepted into the channel. -/
def Accepted (s : Service D) (c : CallId) : Prop := s.pc c = .waiting ∨ s.pc c = .returned none

/-- What callers rely on when the clock is shut down. -/
structure Settles (tasks : CallId → Task D) (s : Service D) : Prop where
  sends : ∀ c, s.pc c ≠ .panicked
  executed : s.loop = .returned → ∀ c, s.Accepted c → s.done c = true ∧ s.Applied tasks c
  applied : ∀ c, s.pc c = .returned none → s.Applied tasks c

/-- No task is queued, and no call is between its check of `closed` and its send. -/
def Drained (s : Service D) : Prop := s.taskch = [] ∧ ∀ c, s.pc c ≠ .checked

/-- The channel is closed only when the clock is drained. -/
def ClosesDrained (s : Service D) : Action D → Prop
  | .closeChan => s.Drained
  | _ => True

/-- The invariant of the runs in which the channel is closed in time. -/
structure Clean (s : Service D) : Prop where
  sends : ∀ c, s.pc c ≠ .panicked
  drained : s.loop = .returned → s.Drained

omit [Inhabited D] in
/-- Before the channel is closed, and where no call changes, nothing is to be shown. -/
theorem Clean.of_pc_eq {s' : Service D} (hclean : Clean s) (hpc : s'.pc = s.pc)
    (hloop : s'.loop ≠ .returned) : Clean s' :=
  ⟨hpc ▸ hclean.sends, fun h => absurd h hloop⟩

omit [Inhabited D] in
theorem Clean.setPc (hclean : Clean s) {pc : Pc} (hpanicked : pc ≠ .panicked)
    (hchecked : s.loop = .returned → pc ≠ .checked) : Clean (s.setPc c pc) where
  sends c' := by
    by_cases hc : c' = c
    · simpa [hc] using hpanicked
    · simpa [hc] using hclean.sends c'
  drained hloop := by
    obtain ⟨htaskch, hpcs⟩ := hclean.drained hloop
    refine ⟨htaskch, fun c' => ?_⟩
    by_cases hc : c' = c
    · simpa [hc] using hchecked hloop
    · simpa [hc] using hpcs c'

/-- After the channel is closed no call is about to send. -/
theorem Clean.push (hclean : Clean s) (hinv : Inv tasks s) (hpc : s.pc c = .checked) :
    Clean (s.push cap c) := by
  have hloop : s.loop ≠ .returned := fun h => (hclean.drained h).2 c hpc
  unfold Service.push
  rw [if_neg (by simp [hinv.chanOpen hloop])]
  split
  · constructor
    · intro c'
      by_cases hc : c' = c
      · simp [hc]
      · simpa [hc] using hclean.sends c'
    · intro h
      exact absurd h hloop
  · exact hclean.setPc nofun nofun

/-- After the channel is closed every call finds `closed` set. -/
theorem Clean.check (hclean : Clean s) (hinv : Inv tasks s) (c : CallId) : Clean (s.check c) := by
  unfold Service.check
  split_ifs with hclosed
  · exact hclean.setPc nofun nofun
  · exact hclean.setPc nofun fun hloop => absurd (hinv.closed (.inr hloop)) hclosed

theorem Clean.advance (hclean : Clean s) (op : Op D) {loop : Loop} (hbefore : s.loop ≠ .returned)
    (hloop : loop ≠ .returned) : Clean (s.advance op loop) := by
  apply hclean.of_pc_eq (advance_pc s op loop)
  rcases advance_loop s op loop with h | h <;> rw [h] <;> assumption

theorem Clean.step (hclean : Clean s) (hinv : Inv tasks s) {a : Action D}
    (henabled : (system cap tasks).Enabled s a) (hok : ClosesDrained s a) :
    Clean ((system cap tasks).next s a) := by
  cases a with
  | check c => exact hclean.check hinv c
  | push c => exact hclean.push hinv henabled
  | wait c => exact hclean.setPc nofun nofun
  | start nowMs =>
    have hloop : s.loop = .created := henabled
    exact hclean.advance (.setTime nowMs) (by simp [hloop]) nofun
  | runTask =>
    obtain ⟨c, rest, htaskch⟩ := List.exists_cons_of_ne_nil henabled.2
    obtain ⟨clock, hperform⟩ := hinv.perform_ok (tasks c)
    show Clean (s.runTask tasks)
    rw [runTask_eq htaskch hperform]
    exact hclean.of_pc_eq rfl (by simp [henabled.1])
  | timer nowMs =>
    have hloop : s.loop = .selecting := henabled
    exact hclean.advance (s.catchUp nowMs) (by simp [hloop]) nofun
  | tick env fuel nowMs tk =>
    exact hclean.advance (.tick env fuel nowMs tk) (by simp [henabled.1]) nofun
  | leave nowMs tk => exact hclean.of_pc_eq rfl nofun
  | recvQuit => exact hclean.of_pc_eq rfl nofun
  | storeClosed => exact hclean.of_pc_eq rfl nofun
  | closeChan => exact ⟨hclean.sends, fun _ => hok⟩

/-- A call that is done has been performed. -/
theorem Inv.applied (hinv : Inv tasks s) (hdone : s.done c = true) : s.Applied tasks c := by
  obtain ⟨before, after, hhistory⟩ := List.append_of_mem ((hinv.done c).1 hdone)
  have hclock := hinv.clock
  rw [hhistory, List.map_append, List.map_cons] at hclock
  obtain ⟨clock, clock', hbefore, hperform, hafter⟩ := run_split hclock
  exact ⟨before, after, clock, clock', hhistory, hbefore, hperform, hafter⟩

/-- When the channel is empty every accepted task has been performed. -/
theorem Inv.done_of_accepted (hinv : Inv tasks s) (htaskch : s.taskch = [])
    (haccepted : s.Accepted c) : s.done c = true := by
  rcases haccepted with hwaiting | hreturned
  · exact (hinv.waiting c hwaiting).resolve_left (by simp [htaskch])
  · exact hinv.returned c hreturned

/-- **A clock that is drained when it closes its channel settles every task.**  In every
interleaving no call sends on the closed channel, a call that returns without an error has
had its effect, and when the goroutine has returned every accepted task has been
performed. -/
theorem run_settles {cap : Nat} {tasks : CallId → Task D} {s : Service D}
    (hrun : (system cap tasks).Run ClosesDrained s) : Settles tasks s := by
  have hinv : Inv tasks s := run_inv hrun
  have hclean : Clean s := hrun.invariant_of (fun _ => run_inv) ⟨nofun, nofun⟩
    fun _ _ hinv hclean => hclean.step hinv
  constructor
  · exact hclean.sends
  · intro hloop c haccepted
    have hdone := hinv.done_of_accepted (hclean.drained hloop).1 haccepted
    exact ⟨hdone, hinv.applied hdone⟩
  · intro c hreturned
    exact hinv.applied (hinv.returned c hreturned)

/-- A timer is created and the clock shut down when the call has returned. A later call
is refused. -/
theorem run_settles_created :
    ∃ s : Service Nat, (system 10240 fun _ => .newTimer 15 7 (some 1) none).Run ClosesDrained s ∧
      s.loop = .returned ∧ s.pc 0 = .returned none ∧ s.pc 1 = .returned (some .closed) ∧
      s.Settles fun _ => .newTimer 15 7 (some 1) none := by
  let tasks : CallId → Task Nat := fun _ => .newTimer 15 7 (some 1) none
  let actions : List (Action Nat) :=
    [.start 0, .check 0, .push 0, .runTask, .wait 0, .recvQuit, .storeClosed, .check 1]
  have hrun : (system 10240 tasks).Run ClosesDrained ((system 10240 tasks).after actions {}) := by
    apply System.Run.of_admits .start
    exact ⟨by decide +kernel, trivial, by decide +kernel, trivial, by decide +kernel, trivial,
      by decide +kernel, trivial, by decide +kernel, trivial, by decide +kernel, trivial,
      by decide +kernel, trivial, by decide +kernel, trivial, trivial⟩
  have hdrained : ((system 10240 tasks).after actions {}).Drained := by
    refine ⟨by decide +kernel, fun c => ?_⟩
    rcases c with _ | _ | c
    · decide +kernel
    · decide +kernel
    · simp [System.after, actions, system]
  have hclose := hrun.step (a := Action.closeChan) (by decide +kernel) hdrained
  exact ⟨_, hclose, by decide +kernel, by decide +kernel, by decide +kernel, run_settles hclose⟩

/-- The clock is shut down while a task is queued: its caller waits for ever. In another run
`quit` comes between the check of `closed` and the send: the caller panics. -/
theorem quit_strands :
    (∃ s : Service Nat, (system 10240 fun _ => .newTimer 15 7 (some 1) none).Run
        (fun _ _ => True) s ∧ s.loop = .returned ∧ s.pc 0 = .waiting ∧ s.done 0 = false ∧
        ¬ s.Settles fun _ => .newTimer 15 7 (some 1) none) ∧
      ∃ s : Service Nat, (system 10240 fun _ => .newTimer 15 7 (some 1) none).Run
        (fun _ _ => True) s ∧ s.pc 0 = .panicked ∧
        ¬ s.Settles fun _ => .newTimer 15 7 (some 1) none := by
  let tasks : CallId → Task Nat := fun _ => .newTimer 15 7 (some 1) none
  constructor
  · let actions : List (Action Nat) :=
      [.start 0, .check 0, .push 0, .recvQuit, .storeClosed, .closeChan]
    have hrun : (system 10240 tasks).Run (fun _ _ => True)
        ((system 10240 tasks).after actions {}) := by
      apply System.Run.of_admits .start
      exact ⟨rfl, trivial, rfl, trivial, rfl, trivial, rfl, trivial, rfl, trivial, rfl, trivial,
        trivial⟩
    refine ⟨_, hrun, rfl, rfl, rfl, fun hsettles => ?_⟩
    exact absurd (hsettles.executed rfl 0 (.inl rfl)).1 nofun
  · let actions : List (Action Nat) :=
      [.start 0, .check 0, .recvQuit, .storeClosed, .closeChan, .push 0]
    have hrun : (system 10240 tasks).Run (fun _ _ => True)
        ((system 10240 tasks).after actions {}) := by
      apply System.Run.of_admits .start
      exact ⟨rfl, trivial, rfl, trivial, rfl, trivial, rfl, trivial, rfl, trivial, rfl, trivial,
        trivial⟩
    exact ⟨_, hrun, rfl, fun hsettles => hsettles.sends 0 rfl⟩

/-- **The condition cannot be weakened.**  Whenever the goroutine closes the channel of a
clock that is not drained, an accepted task is never performed, or a caller can panic in
its next step. -/
theorem not_settles_of_not_drained (hrun : (system cap tasks).Run (fun _ _ => True) s)
    (hclosing : (system cap tasks).Enabled s .closeChan) (hdrained : ¬ s.Drained) :
    ∃ s', (system cap tasks).Run (fun _ _ => True) s' ∧ ¬ Settles tasks s' := by
  have hinv : Inv tasks s := run_inv hrun
  have hclose := hrun.step hclosing trivial
  by_cases htaskch : s.taskch = []
  · have hchecked : ∃ c, s.pc c = .checked := by
      by_contra hnone
      exact hdrained ⟨htaskch, fun c hpc => hnone ⟨c, hpc⟩⟩
    obtain ⟨c, hpc⟩ := hchecked
    have hpush := hclose.step (a := Action.push c) hpc trivial
    refine ⟨_, hpush, fun hsettles => hsettles.sends c ?_⟩
    simp [system, Service.push, Service.setPc]
  · obtain ⟨c, rest, hcons⟩ := List.exists_cons_of_ne_nil htaskch
    obtain ⟨hwaiting, hdone⟩ := hinv.queued c (by simp [hcons])
    refine ⟨_, hclose, fun hsettles => ?_⟩
    have hexecuted : s.done c = true := (hsettles.executed rfl c (.inl hwaiting)).1
    simp [hdone] at hexecuted

end Service

end Gokit.Clock
