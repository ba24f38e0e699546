/-
# Every accepted call is answered

The tasks that are sent on the channel are received by the goroutine in the order in which
they were sent, each of them once.  A task that is received in the loop calls its function
and closes its result channel; one that is received while the channel is drained sends
`ErrGoChanClosed`.  The goroutine returns when the channel is closed and empty, and nobody
sends on it any more: so at this point each task that was ever sent has been dealt with.
-/

import Gokit.Framework.Agent

namespace Gokit.Framework

open Gokit.Math

/-- The task the goroutine works on. -/
def Loop.current : Loop → Option CallId
  | .executing c _ | .running c _ => some c
  | _ => none

/-- The call whose function the goroutine is in. -/
def Loop.inside : Loop → Option CallId
  | .running c _ => some c
  | _ => none

theorem Loop.current_ne {loop : Loop} (hnone : loop.current = none) (c : CallId) :
    loop.current ≠ some c := by
  rw [hnone]
  exact (Option.some_ne_none c).symm

/-- The call has not yet sent its task. -/
def Pc.Unsent : Pc → Prop
  | .idle | .entered | .opened => True
  | _ => False

namespace Agent

/-- The result channel of the call was closed after its function, or has `ErrGoChanClosed`. -/
def Settled (s : Agent) (c : CallId) : Prop :=
  (s.errCh c = [.done] ∧ c ∈ s.started) ∨ (s.errCh c = [.chanClosed] ∧ c ∉ s.started)

/-- No call sends on a closed channel, no function is called twice or while another one runs, and
when `Run` has returned every accepted `SyncRunFunc` has exactly one outcome. -/
structure Served (kind : CallId → Kind) (s : Agent) : Prop where
  safe : ∀ c, s.pc c ≠ .panicked
  once : s.started.Nodup
  alone : s.active.length ≤ 1
  answered : s.loop = .returned → ∀ c ∈ s.accepted, kind c = .syncRunFunc →
    c ∉ s.active ∧ s.Settled c

/-! ## The tasks -/

/-- Each task is queued, or the goroutine works on it, or it has been dealt with. -/
structure Tasks (kind : CallId → Kind) (s : Agent) : Prop where
  nodup : s.accepted.Nodup
  unsent : ∀ c, (s.pc c).Unsent → c ∉ s.accepted ∧ s.errCh c = []
  queued : ∀ c ∈ s.chanCb, s.errCh c = []
  taken : ∀ c ∈ s.started, c ∈ s.taken
  once : s.started.Nodup
  current : ∀ c, s.loop.current = some c → c ∈ s.taken ∧ s.errCh c = []
  inside : ∀ c, s.loop.current = some c → (c ∈ s.started ↔ s.loop.inside = some c)
  active : s.active = s.loop.inside.toList
  settled : ∀ c ∈ s.taken, s.loop.current ≠ some c → (kind c).Answers → s.Settled c
  returned : s.loop = .returned → s.chanCb = []

section Tasks

variable {size : Int} {kind : CallId → Kind} {s : Agent} {c : CallId}

theorem tasks_init : Tasks kind {} where
  nodup := List.nodup_nil
  unsent _ _ := ⟨List.not_mem_nil, rfl⟩
  queued _ h := absurd h List.not_mem_nil
  taken _ h := absurd h List.not_mem_nil
  once := List.nodup_nil
  current _ h := by cases h
  inside _ h := by cases h
  active := rfl
  settled _ h := absurd h List.not_mem_nil
  returned h := by cases h

/-- A task that the goroutine has received is not queued any more. -/
theorem Tasks.not_queued (htasks : Tasks kind s) (htaken : c ∈ s.taken) : c ∉ s.chanCb := by
  have hnodup := htasks.nodup
  rw [accepted, List.nodup_append] at hnodup
  exact fun hqueued => hnodup.2.2 c htaken c hqueued rfl

theorem Tasks.move (htasks : Tasks kind s) {mutex : RWMutex CallId} {isClosed closeSig : Bool}
    {pc : Pc} (hunsent : pc.Unsent → (s.pc c).Unsent) :
    Tasks kind { s with mutex, isClosed, closeSig, pc := Function.update s.pc c pc } :=
  { htasks with
    unsent := by
      intro c' hc'
      by_cases heq : c' = c
      · subst heq
        exact htasks.unsent c' (hunsent (by simpa using hc'))
      · exact htasks.unsent c' (by simpa [heq] using hc') }

theorem Tasks.setLoop (htasks : Tasks kind s) {loop : Loop} {closed chanClosed : Bool}
    (hbefore : s.loop.current = none) (hactive : s.loop.inside = none)
    (hafter : loop.current = none) (hinside : loop.inside = none)
    (hreturned : loop = .returned → s.chanCb = []) :
    Tasks kind { s with loop, closed, chanClosed } :=
  { htasks with
    current := fun c hc => absurd hc (Loop.current_ne hafter c)
    inside := fun c hc => absurd hc (Loop.current_ne hafter c)
    active := by
      show s.active = loop.inside.toList
      rw [hinside, htasks.active, hactive]
    settled := fun c hc _ => htasks.settled c hc (Loop.current_ne hbefore c)
    returned := hreturned }

/-- Of the calls that have not sent their task yet, one has. -/
theorem unsent_of_sent {c' : CallId}
    (hc' : (Function.update s.pc c (kind c).sent c').Unsent) : c' ≠ c ∧ (s.pc c').Unsent := by
  have hsent : ¬ (kind c).sent.Unsent := by cases kind c <;> exact id
  have hne : c' ≠ c := by
    rintro rfl
    rw [Function.update_self] at hc'
    exact hsent hc'
  rw [Function.update_of_ne hne] at hc'
  exact ⟨hne, hc'⟩

/-- A task is sent. -/
theorem Tasks.send (htasks : Tasks kind s) (hpc : s.pc c = .opened) (hloop : s.loop ≠ .returned) :
    Tasks kind
      { s with chanCb := s.chanCb ++ [c], pc := Function.update s.pc c (kind c).sent } := by
  obtain ⟨hnew, herrCh⟩ := htasks.unsent c (by rw [hpc]; trivial)
  have haccepted : s.taken ++ (s.chanCb ++ [c]) = s.accepted ++ [c] := (List.append_assoc ..).symm
  exact
    { htasks with
      nodup := by
        show (s.taken ++ (s.chanCb ++ [c])).Nodup
        rw [haccepted, ← List.concat_eq_append]
        exact htasks.nodup.concat hnew
      unsent := by
        intro c' hc'
        obtain ⟨hne, hunsent⟩ := unsent_of_sent hc'
        obtain ⟨hnew', herrCh'⟩ := htasks.unsent c' hunsent
        refine ⟨?_, herrCh'⟩
        show c' ∉ s.taken ++ (s.chanCb ++ [c])
        rw [haccepted, List.mem_append, List.mem_singleton]
        exact fun h => h.elim hnew' hne
      queued := by
        intro c' hc'
        rcases List.mem_append.mp hc' with hold | hsame
        · exact htasks.queued c' hold
        · rw [List.mem_singleton.mp hsame]
          exact herrCh
      returned := fun h => absurd h hloop }

/-- A task with a result channel finds no room. -/
theorem Tasks.refuse (htasks : Tasks kind s) (hpc : s.pc c = .opened) :
    Tasks kind
      { s with
        errCh := Function.update s.errCh c [.chanFull]
        pc := Function.update s.pc c (kind c).sent } := by
  obtain ⟨hnew, -⟩ := htasks.unsent c (by rw [hpc]; trivial)
  have hother : ∀ c' ∈ s.accepted, Function.update s.errCh c [.chanFull] c' = s.errCh c' := by
    intro c' hc'
    exact Function.update_of_ne (ne_of_mem_of_not_mem hc' hnew) _ _
  have htaken : ∀ c' ∈ s.taken, c' ∈ s.accepted := fun c' h => List.mem_append_left _ h
  exact
    { htasks with
      unsent := by
        intro c' hc'
        obtain ⟨hne, hunsent⟩ := unsent_of_sent hc'
        obtain ⟨hnew', herrCh'⟩ := htasks.unsent c' hunsent
        exact ⟨hnew', by simpa [hne] using herrCh'⟩
      queued := by
        intro c' hc'
        exact (hother c' (List.mem_append_right _ hc')).trans (htasks.queued c' hc')
      current := by
        intro c' hc'
        obtain ⟨hmem, herrCh⟩ := htasks.current c' hc'
        exact ⟨hmem, (hother c' (htaken c' hmem)).trans herrCh⟩
      settled := by
        intro c' hmem hcurrent hanswers
        have hsettled := htasks.settled c' hmem hcurrent hanswers
        rw [Settled, ← hother c' (htaken c' hmem)] at hsettled
        exact hsettled }

variable {drain : Bool}

/-- The goroutine receives a task. -/
theorem Tasks.receive (htasks : Tasks kind s) {rest : List CallId} (hchan : s.chanCb = c :: rest)
    (hcurrent : s.loop.current = none) (hinside : s.loop.inside = none) :
    Tasks kind { s with chanCb := rest, taken := s.taken ++ [c], loop := .executing c drain } := by
  have haccepted : s.taken ++ [c] ++ rest = s.accepted := by
    rw [accepted, hchan, List.append_assoc]
    rfl
  have hqueued : c ∈ s.chanCb := by
    rw [hchan]
    exact List.mem_cons_self
  exact
    { nodup := by
        show (s.taken ++ [c] ++ rest).Nodup
        rw [haccepted]
        exact htasks.nodup
      unsent := by
        intro c' hc'
        show c' ∉ s.taken ++ [c] ++ rest ∧ _
        rw [haccepted]
        exact htasks.unsent c' hc'
      queued := by
        intro c' hc'
        refine htasks.queued c' ?_
        rw [hchan]
        exact List.mem_cons_of_mem c hc'
      taken := fun c' hc' => List.mem_append_left _ (htasks.taken c' hc')
      once := htasks.once
      current := by
        intro c' hc'
        obtain rfl := Option.some.inj hc'
        exact ⟨List.mem_append_right _ List.mem_cons_self, htasks.queued _ hqueued⟩
      inside := by
        intro c' hc'
        obtain rfl := Option.some.inj hc'
        refine iff_of_false (fun hstarted => ?_) (by simp [Loop.inside])
        exact htasks.not_queued (htasks.taken _ hstarted) hqueued
      active := by
        show s.active = []
        rw [htasks.active, hinside]
        rfl
      settled := by
        intro c' hc' hne hanswers
        have hne' : c' ≠ c := fun h => hne (h ▸ rfl)
        have hmem : c' ∈ s.taken :=
          (List.mem_append.mp hc').resolve_right fun h => hne' (List.mem_singleton.mp h)
        exact htasks.settled c' hmem (by simp [hcurrent]) hanswers
      returned := fun h => by cases h }

theorem answer_of_ne {c' : CallId} (hne : c' ≠ c) (outcome : Outcome) :
    s.answer kind c outcome c' = s.errCh c' := by
  unfold answer
  split_ifs
  · exact Function.update_of_ne hne _ _
  · rfl

/-- The goroutine is done with a task. -/
theorem Tasks.answer (htasks : Tasks kind s) (hcurrent : s.loop.current = some c)
    {outcome : Outcome} {active : List CallId} {loop : Loop} (hactive : active = [])
    (hafter : loop.current = none) (hinside : loop.inside = none) (hloop : loop ≠ .returned)
    (houtcome : (outcome = .done ∧ c ∈ s.started) ∨ (outcome = .chanClosed ∧ c ∉ s.started)) :
    Tasks kind { s with errCh := s.answer kind c outcome, active, loop } := by
  obtain ⟨htaken, herrCh⟩ := htasks.current c hcurrent
  have hmem : c ∈ s.accepted := List.mem_append_left _ htaken
  exact
    { htasks with
      unsent := by
        intro c' hc'
        obtain ⟨hnew, herrCh'⟩ := htasks.unsent c' hc'
        exact ⟨hnew, (answer_of_ne (ne_of_mem_of_not_mem hmem hnew).symm outcome).trans herrCh'⟩
      queued := by
        intro c' hc'
        have hne : c' ≠ c := ne_of_mem_of_not_mem hc' (htasks.not_queued htaken)
        exact (answer_of_ne hne outcome).trans (htasks.queued c' hc')
      current := fun c' hc' => absurd hc' (Loop.current_ne hafter c')
      inside := fun c' hc' => absurd hc' (Loop.current_ne hafter c')
      active := by
        show active = loop.inside.toList
        rw [hactive, hinside]
        rfl
      settled := by
        intro c' hc' _ hanswers
        show (s.answer kind c outcome c' = _ ∧ _) ∨ (s.answer kind c outcome c' = _ ∧ _)
        by_cases heq : c' = c
        · subst heq
          have hanswer : s.answer kind c' outcome c' = [outcome] := by
            rw [Agent.answer, if_pos hanswers, Function.update_self, herrCh]
            rfl
          rw [hanswer]
          rcases houtcome with ⟨rfl, hstarted⟩ | ⟨rfl, hstarted⟩
          · exact Or.inl ⟨rfl, hstarted⟩
          · exact Or.inr ⟨rfl, hstarted⟩
        · rw [answer_of_ne heq]
          refine htasks.settled c' hc' ?_ hanswers
          rw [hcurrent]
          exact fun h => heq (Option.some.inj h).symm
      returned := fun h => absurd h hloop }

theorem Tasks.begin (htasks : Tasks kind s) (hloop : s.loop = .executing c drain) :
    Tasks kind
      { s with
        started := s.started ++ [c]
        active := c :: s.active
        loop := .running c drain } := by
  have hcurrent : s.loop.current = some c := by rw [hloop]; rfl
  have hfresh : c ∉ s.started := by
    rw [htasks.inside c hcurrent, hloop]
    simp [Loop.inside]
  obtain ⟨htaken, herrCh⟩ := htasks.current c hcurrent
  exact
    { htasks with
      taken := by
        intro c' hc'
        rcases List.mem_append.mp hc' with hold | hsame
        · exact htasks.taken c' hold
        · rw [List.mem_singleton.mp hsame]
          exact htaken
      once := by
        rw [← List.concat_eq_append]
        exact htasks.once.concat hfresh
      current := by
        intro c' hc'
        obtain rfl := Option.some.inj hc'
        exact ⟨htaken, herrCh⟩
      inside := by
        intro c' hc'
        obtain rfl := Option.some.inj hc'
        exact iff_of_true (List.mem_append_right _ List.mem_cons_self) rfl
      active := by
        show c :: s.active = [c]
        rw [htasks.active, hloop]
        rfl
      settled := by
        intro c' hc' hne hanswers
        have hne' : c' ≠ c := fun h => hne (h ▸ rfl)
        have hsettled := htasks.settled c' hc'
          (by rw [hcurrent]; exact fun h => hne' (Option.some.inj h).symm) hanswers
        refine hsettled.imp (And.imp_right (List.mem_append_left _)) (And.imp_right fun h => ?_)
        rw [List.mem_append, List.mem_singleton]
        exact fun h' => h'.elim h hne'
      returned := fun h => by cases h }

/-- A call sends its task, if there is room. -/
theorem Tasks.submit (htasks : Tasks kind s) (hinv : Inv kind s) {size : Nat}
    (hpc : s.pc c = .opened) : Tasks kind (s.submit size kind c) := by
  have hchan : ¬ s.chanClosed = true := by simp [hinv.chan_open hpc]
  have hloop : s.loop ≠ .returned := by
    intro hreturned
    apply hchan
    rw [hinv.chan, hreturned]
    trivial
  unfold Agent.submit
  rw [if_neg hchan]
  split_ifs
  · exact htasks.send hpc hloop
  · exact htasks.refuse hpc
  · exact htasks.move False.elim

theorem Tasks.recvTask (htasks : Tasks kind s) (hcurrent : s.loop.current = none)
    (hinside : s.loop.inside = none) : Tasks kind (s.recvTask drain) := by
  unfold Agent.recvTask
  split
  · next c rest hchan => exact htasks.receive hchan hcurrent hinside
  · exact htasks

theorem Tasks.execute (htasks : Tasks kind s) : Tasks kind (s.execute kind) := by
  unfold Agent.execute
  split
  · next c drain hloop =>
      have hcurrent : s.loop.current = some c := by rw [hloop]; rfl
      have hinside : s.loop.inside = none := by rw [hloop]; rfl
      split_ifs
      · have hfresh : c ∉ s.started := by
          rw [htasks.inside c hcurrent, hinside]
          simp
        have hactive : s.active = [] := by
          rw [htasks.active, hinside]
          rfl
        exact htasks.answer hcurrent hactive (by cases drain <;> rfl) (by cases drain <;> rfl)
          (by cases drain <;> decide) (Or.inr ⟨rfl, hfresh⟩)
      · exact htasks.begin hloop
  · exact htasks

theorem Tasks.finish (htasks : Tasks kind s) (panics : Bool) :
    Tasks kind (s.finish kind panics) := by
  unfold Agent.finish
  split
  · next c drain hloop =>
      have hcurrent : s.loop.current = some c := by rw [hloop]; rfl
      have hinside : s.loop.inside = some c := by rw [hloop]; rfl
      have hactive : s.active.erase c = [] := by
        rw [htasks.active, hinside]
        simp
      have hstarted : c ∈ s.started := (htasks.inside c hcurrent).mpr hinside
      exact htasks.answer hcurrent hactive (by cases panics <;> cases drain <;> rfl)
        (by cases panics <;> cases drain <;> rfl) (by cases panics <;> cases drain <;> decide)
        (Or.inl ⟨rfl, hstarted⟩)
  · exact htasks

theorem Tasks.handled (htasks : Tasks kind s) : Tasks kind s.handled := by
  unfold Agent.handled
  split
  · next drain hloop =>
      exact htasks.setLoop (by rw [hloop]; rfl) (by rw [hloop]; rfl) (by cases drain <;> rfl)
        (by cases drain <;> rfl) fun h => absurd h (by cases drain <;> decide)
  · exact htasks

/-- **Every step deals with one task at most.** -/
theorem Tasks.step (htasks : Tasks kind s) (hinv : Inv kind s) {a : Action}
    (henabled : (system size kind).Enabled s a) : Tasks kind ((system size kind).next s a) := by
  cases a with
  | rLock c => exact htasks.move fun _ => by rw [henabled.1]; trivial
  | check c =>
    have hpc : s.pc c = .entered := henabled
    exact htasks.move fun _ => by rw [hpc]; trivial
  | submit c => exact htasks.submit hinv henabled.1
  | rUnlock c =>
    show Tasks kind (s.rUnlock c)
    unfold Agent.rUnlock
    split
    · exact htasks.move False.elim
    · exact htasks.move False.elim
    · exact htasks
  | receive c =>
    show Tasks kind (s.receive c)
    unfold Agent.receive
    split
    · exact htasks.move False.elim
    · exact htasks
  | ctxDone c | announce c | lock c | unlock c => exact htasks.move False.elim
  | close c =>
    show Tasks kind (s.close c)
    unfold Agent.close
    split_ifs
    · exact htasks.move False.elim
    · exact htasks.move False.elim
  | start =>
    have hloop : s.loop = .created := henabled
    exact htasks.setLoop (by rw [hloop]; rfl) (by rw [hloop]; rfl) rfl rfl
      fun h => absurd h (by decide)
  | recvClose =>
    obtain ⟨hloop, -⟩ := henabled
    exact htasks.setLoop (by rw [hloop]; rfl) (by rw [hloop]; rfl) rfl rfl
      fun h => absurd h (by decide)
  | recvTask => exact htasks.recvTask (by rw [henabled.1]; rfl) (by rw [henabled.1]; rfl)
  | recvTimer =>
    have hloop : s.loop = .selecting := henabled
    exact htasks.setLoop (by rw [hloop]; rfl) (by rw [hloop]; rfl) rfl rfl
      fun h => absurd h (by decide)
  | timerDone =>
    have hloop : s.loop = .timing := henabled
    exact htasks.setLoop (by rw [hloop]; rfl) (by rw [hloop]; rfl) rfl rfl
      fun h => absurd h (by decide)
  | execute => exact htasks.execute
  | finish panics => exact htasks.finish panics
  | handled => exact htasks.handled
  | beforeClose =>
    have hloop : s.loop = .closing := henabled
    exact htasks.setLoop (by rw [hloop]; rfl) (by rw [hloop]; rfl) rfl rfl
      fun h => absurd h (by decide)
  | closeChan =>
    have hloop : s.loop = .closingChan := henabled
    exact htasks.setLoop (by rw [hloop]; rfl) (by rw [hloop]; rfl) rfl rfl
      fun h => absurd h (by decide)
  | drainTask => exact htasks.recvTask (by rw [henabled.1]; rfl) (by rw [henabled.1]; rfl)
  | drainEnd =>
    obtain ⟨hloop, hempty, -⟩ := henabled
    exact htasks.setLoop (by rw [hloop]; rfl) (by rw [hloop]; rfl) rfl rfl fun _ => hempty

theorem tasks_of_run {ok : Agent → Action → Prop} (hrun : (system size kind).Run ok s) :
    Tasks kind s :=
  hrun.invariant_of (fun _ h => inv_of_run h) tasks_init
    fun _ _ hinv htasks henabled _ => htasks.step hinv henabled

end Tasks

/-- **Every accepted call is answered**, in every run of any number of callers, of `Close` and of
`Run`: no goroutine sends on the channel after it was closed, each function is called at most
once and never while another one runs, and when `Run` has returned every accepted `SyncRunFunc`
has exactly one outcome on its result channel. -/
theorem run_served {size : Int} {kind : CallId → Kind} {s : Agent}
    (hrun : (system size kind).Run (fun _ _ => True) s) : Served kind s := by
  have hinv := inv_of_run hrun
  have htasks := tasks_of_run hrun
  refine ⟨?_, htasks.once, ?_, ?_⟩
  · intro c hpc
    have hfits := hinv.fits c
    rw [hpc] at hfits
    exact hfits
  · rw [htasks.active]
    cases s.loop.inside <;> simp
  · intro hloop c hc hkind
    have htaken : c ∈ s.taken := by
      rw [accepted, htasks.returned hloop, List.append_nil] at hc
      exact hc
    have hidle : s.active = [] := by
      rw [htasks.active, hloop]
      rfl
    rw [hidle]
    refine ⟨List.not_mem_nil, htasks.settled c htaken ?_ ?_⟩
    · rw [hloop]
      exact (Option.some_ne_none c).symm
    · rw [hkind]
      trivial

/-- Calls 0 and 1 are of `SyncRunFunc`, call 2 is one of `Close`, and the others of
`MustRunFunc`. -/
def fewKinds : CallId → Kind
  | 0 | 1 => .syncRunFunc
  | 2 => .close
  | _ => .mustRunFunc

/-- One function is run and panics; the next one is still queued when the agent is closed. -/
def shutdown : List Action :=
  [.start, .rLock 0, .check 0, .submit 0, .rUnlock 0, .recvTask, .execute, .finish true, .handled,
    .rLock 1, .check 1, .submit 1, .rUnlock 1, .announce 2, .lock 2, .close 2, .unlock 2,
    .recvClose, .beforeClose, .closeChan, .drainTask, .execute, .drainEnd]

/-- The theorem after a shutdown. -/
theorem run_served_shutdown :
    ∃ s : Agent, s.loop = .returned ∧ s.errCh 0 = [.done] ∧ s.errCh 1 = [.chanClosed] ∧
      Served fewKinds s := by
  have hadmits : (system 0 fewKinds).Admits (fun _ _ => True) shutdown (system 0 fewKinds).init :=
    ⟨rfl, trivial, ⟨rfl, by decide, rfl⟩, trivial, rfl, trivial,
      ⟨rfl, fun h => absurd h (by decide)⟩, trivial, Or.inl rfl, trivial,
      ⟨rfl, List.cons_ne_nil _ _⟩, trivial, ⟨0, false, rfl⟩, trivial, ⟨0, false, rfl⟩, trivial,
      ⟨false, rfl⟩, trivial, ⟨rfl, by decide, rfl⟩, trivial, rfl, trivial,
      ⟨rfl, fun h => absurd h (by decide)⟩, trivial, Or.inl rfl, trivial, ⟨rfl, rfl, rfl⟩, trivial,
      ⟨rfl, rfl, rfl⟩, trivial, rfl, trivial, rfl, trivial, ⟨rfl, rfl⟩, trivial, rfl, trivial, rfl,
      trivial, ⟨rfl, List.cons_ne_nil _ _⟩, trivial, ⟨1, true, rfl⟩, trivial, ⟨rfl, rfl, rfl⟩,
      trivial, trivial⟩
  exact ⟨(system 0 fewKinds).after shutdown (system 0 fewKinds).init, rfl, rfl, rfl,
    run_served (.of_admits .start hadmits)⟩

end Agent

end Gokit.Framework
