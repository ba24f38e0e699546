/-
# What a call reports about its function

`SyncRunFunc` and `CtxRunFunc` return what they receive from the result channel.  The task
closes this channel in a deferred call, and a closed channel yields `nil`.  A deferred call is
made when the function returns, but also when it panics: the panic is recovered further up, in
`Exec`, and goes to the panic handler.  So the caller of a function that panicked is told that
it succeeded.

How a function ended cannot be read off from the agent.  We carry along which functions have
returned and which have panicked, and which calls were given up by their context.  A run with
this record is a run of the agent, and everything known about the agent is true of it.
-/

import Gokit.Framework.Answers

namespace Gokit.Framework

open Gokit.Math

/-- The goroutine works on the task whose function it is in. -/
theorem Loop.current_of_inside {loop : Loop} {c : CallId} (hinside : loop.inside = some c) :
    loop.current = some c := by
  cases loop with
  | running c' drain => exact hinside
  | _ => cases hinside

namespace Agent

/-! ## The record of a run -/

/-- The function that ends in a step, by a panic or not. -/
def ends (s : Agent) (panics : Bool) : Action → List CallId
  | .finish panics' => if panics' = panics then s.loop.inside.toList else []
  | _ => []

/-- The call that is given up in a step because its context is done. -/
def Action.cancels : Action → List CallId
  | .ctxDone c => [c]
  | _ => []

/-- An agent, the calls whose function has returned, those whose function has panicked, and
those that were given up. -/
structure Recorded where
  agent : Agent := {}
  completed : List CallId := []
  crashed : List CallId := []
  cancelled : List CallId := []

/-- The agent with its record. -/
def recorded (size : Int) (kind : CallId → Kind) : System Recorded Action where
  init := {}
  Enabled s a := (system size kind).Enabled s.agent a
  next s a :=
    { agent := (system size kind).next s.agent a
      completed := s.completed ++ s.agent.ends false a
      crashed := s.crashed ++ s.agent.ends true a
      cancelled := s.cancelled ++ a.cancels }

/-- What a call that returns `err` should say about its function. -/
structure Reports (kind : CallId → Kind) (s : Recorded) (c : CallId) (err : Option Err) : Prop where
  sync : kind c = .syncRunFunc → (err = none ↔ c ∈ s.completed)
  ctx : kind c = .ctxRunFunc → err = none → c ∈ s.completed
  failed : c ∉ s.agent.accepted ∨ c ∉ s.agent.started ∨ c ∈ s.crashed → err ≠ none

section Recorded

variable {size : Int} {kind : CallId → Kind}

/-- A run with its record is a run of the agent. -/
theorem run_agent {ok : Recorded → Action → Prop} {s : Recorded}
    (hrun : (recorded size kind).Run ok s) : (system size kind).Run (fun _ _ => True) s.agent :=
  hrun.simulation Recorded.agent rfl fun _ a henabled _ => Or.inr ⟨a, henabled, trivial, rfl⟩

end Recorded

/-! ## What a step does to the tasks -/

/-- The tasks of an agent. -/
structure TaskView where
  chanCb : List CallId
  taken : List CallId
  started : List CallId
  errCh : CallId → List Outcome
  current : Option CallId
  inside : Option CallId

def TaskView.accepted (view : TaskView) : List CallId := view.taken ++ view.chanCb

def tasks (s : Agent) : TaskView where
  chanCb := s.chanCb
  taken := s.taken
  started := s.started
  errCh := s.errCh
  current := s.loop.current
  inside := s.loop.inside

/-- What a step does to the tasks. -/
inductive Works (kind : CallId → Kind) (s : Agent) : Action → TaskView → Prop
  | idle (a : Action) (hother : ∀ panics, a ≠ .finish panics) : Works kind s a s.tasks
  | sent (c : CallId) (hpc : s.pc c = .opened) :
      Works kind s (.submit c) { s.tasks with chanCb := s.chanCb ++ [c] }
  | refused (c : CallId) (hpc : s.pc c = .opened) :
      Works kind s (.submit c) { s.tasks with errCh := Function.update s.errCh c [.chanFull] }
  | received (a : Action) (c : CallId) (rest : List CallId) (hother : ∀ panics, a ≠ .finish panics)
      (hchan : s.chanCb = c :: rest) (hcurrent : s.loop.current = none) :
      Works kind s a
        { s.tasks with chanCb := rest, taken := s.taken ++ [c], current := some c }
  | began (c : CallId) (hcurrent : s.loop.current = some c) (hinside : s.loop.inside = none) :
      Works kind s .execute { s.tasks with started := s.started ++ [c], inside := some c }
  | dropped (c : CallId) (hcurrent : s.loop.current = some c) (hinside : s.loop.inside = none) :
      Works kind s .execute
        { s.tasks with errCh := s.answer kind c .chanClosed, current := none }
  | ended (c : CallId) (panics : Bool) (hcurrent : s.loop.current = some c)
      (hinside : s.loop.inside = some c) :
      Works kind s (.finish panics)
        { s.tasks with errCh := s.answer kind c .done, current := none, inside := none }

section Works

variable {size : Int} {kind : CallId → Kind} {s : Agent} {c : CallId}

theorem works_setLoop {a : Action} {loop : Loop} {closed chanClosed : Bool}
    (hother : ∀ panics, a ≠ .finish panics) (hcurrent : s.loop.current = none)
    (hinside : s.loop.inside = none) (hcurrent' : loop.current = none)
    (hinside' : loop.inside = none) :
    Works kind s a (Agent.tasks { s with loop, closed, chanClosed }) := by
  have hview : Agent.tasks { s with loop, closed, chanClosed } = s.tasks := by
    unfold tasks
    rw [hcurrent, hinside, hcurrent', hinside']
  rw [hview]
  exact .idle a hother

theorem works_recvTask {a : Action} (drain : Bool) (hother : ∀ panics, a ≠ .finish panics)
    (hcurrent : s.loop.current = none) (hinside : s.loop.inside = none) :
    Works kind s a (s.recvTask drain).tasks := by
  unfold Agent.recvTask
  split
  · next c rest hchan =>
      have hworks : Works kind s a _ := .received a c rest hother hchan hcurrent
      unfold tasks at hworks
      rw [hinside] at hworks
      exact hworks
  · exact .idle a hother

theorem works_submit {size : Nat} (hinv : Inv kind s) (hpc : s.pc c = .opened) :
    Works kind s (.submit c) (s.submit size kind c).tasks := by
  have hchan : ¬ s.chanClosed = true := by simp [hinv.chan_open hpc]
  unfold Agent.submit
  rw [if_neg hchan]
  split_ifs
  · exact .sent c hpc
  · exact .refused c hpc
  · exact .idle _ (by simp)

theorem works_execute : Works kind s .execute (s.execute kind).tasks := by
  unfold Agent.execute
  split
  · next c drain hloop =>
      have hcurrent : s.loop.current = some c := by rw [hloop]; rfl
      have hinside : s.loop.inside = none := by rw [hloop]; rfl
      split_ifs
      · have hworks : Works kind s .execute _ := .dropped c hcurrent hinside
        unfold tasks at hworks
        rw [hinside] at hworks
        cases drain with
        | true => exact hworks
        | false => exact hworks
      · have hworks : Works kind s .execute _ := .began c hcurrent hinside
        unfold tasks at hworks
        rw [hcurrent] at hworks
        exact hworks
  · exact .idle _ (by simp)

theorem works_finish {panics : Bool} (hrunning : ∃ c drain, s.loop = .running c drain) :
    Works kind s (.finish panics) (s.finish kind panics).tasks := by
  obtain ⟨c, drain, hloop⟩ := hrunning
  have hworks : Works kind s (.finish panics) _ :=
    .ended c panics (by rw [hloop]; rfl) (by rw [hloop]; rfl)
  unfold Agent.finish
  rw [hloop]
  cases panics <;> cases drain <;> exact hworks

/-- **What each step does to the tasks.** -/
theorem Inv.next_tasks (hinv : Inv kind s) {a : Action}
    (henabled : (system size kind).Enabled s a) :
    Works kind s a ((system size kind).next s a).tasks := by
  cases a with
  | rLock c | check c | ctxDone c | announce c | lock c | unlock c => exact .idle _ (by simp)
  | submit c => exact works_submit hinv henabled.1
  | rUnlock c =>
    show Works kind s _ (s.rUnlock c).tasks
    unfold Agent.rUnlock
    split <;> exact .idle _ (by simp)
  | receive c =>
    show Works kind s _ (s.receive c).tasks
    unfold Agent.receive
    split <;> exact .idle _ (by simp)
  | close c =>
    show Works kind s _ (s.close c).tasks
    unfold Agent.close
    split_ifs <;> exact .idle _ (by simp)
  | start | recvTimer | timerDone | beforeClose | closeChan =>
    have hloop : s.loop = _ := henabled
    exact works_setLoop (by simp) (by rw [hloop]; rfl) (by rw [hloop]; rfl) rfl rfl
  | recvClose | drainEnd =>
    have hloop : s.loop = _ := henabled.1
    exact works_setLoop (by simp) (by rw [hloop]; rfl) (by rw [hloop]; rfl) rfl rfl
  | recvTask | drainTask =>
    have hloop : s.loop = _ := henabled.1
    exact works_recvTask _ (by simp) (by rw [hloop]; rfl) (by rw [hloop]; rfl)
  | execute => exact works_execute
  | finish panics => exact works_finish henabled
  | handled =>
    obtain ⟨drain, hloop⟩ := henabled
    show Works kind s _ s.handled.tasks
    unfold Agent.handled
    rw [hloop]
    cases drain with
    | true => exact works_setLoop (by simp) (by rw [hloop]; rfl) (by rw [hloop]; rfl) rfl rfl
    | false => exact works_setLoop (by simp) (by rw [hloop]; rfl) (by rw [hloop]; rfl) rfl rfl

end Works

/-! ## How the functions ended -/

/-- Each function that was called is still running, or has returned, or has panicked. -/
structure Log (view : TaskView) (completed crashed : List CallId) : Prop where
  started : ∀ c, c ∈ view.started ↔ view.inside = some c ∨ c ∈ completed ∨ c ∈ crashed
  inside : ∀ c, view.inside = some c → c ∉ completed ∧ c ∉ crashed
  apart : ∀ c ∈ completed, c ∉ crashed

section Log

variable {size : Int} {kind : CallId → Kind} {s : Agent} {c : CallId} {a : Action}
  {view : TaskView} {completed crashed : List CallId}

theorem append_ends_of_ne (hother : ∀ panics, a ≠ .finish panics) (panics : Bool)
    (ended : List CallId) : ended ++ s.ends panics a = ended := by
  cases a with
  | finish panics' => exact absurd rfl (hother panics')
  | _ => exact List.append_nil ended

/-- The function that ends in a step ends in one way. -/
theorem mem_ends_finish (hinside : s.loop.inside = some c) (panics panics' : Bool) (c' : CallId) :
    c' ∈ s.ends panics (.finish panics') ↔ panics' = panics ∧ c' = c := by
  rw [ends, hinside]
  split_ifs with h <;> simp [h]

/-- The goroutine calls a function. -/
theorem Log.began (hlog : Log view completed crashed) (hinside : view.inside = none)
    (hnew : c ∉ view.started) :
    Log { view with started := view.started ++ [c], inside := some c } completed crashed := by
  have hbefore := mt (hlog.started c).mpr hnew
  refine ⟨fun c' => ?_, fun c' hc' => ?_, hlog.apart⟩
  · show c' ∈ view.started ++ [c] ↔ some c = some c' ∨ _
    have hc' := hlog.started c'
    simp only [hinside, reduceCtorEq, false_or] at hc'
    rw [List.mem_append, hc', List.mem_singleton, Option.some_inj, or_comm, eq_comm]
  · obtain rfl := Option.some.inj hc'
    exact not_or.mp (not_or.mp hbefore).2

/-- The function that is running ends. -/
theorem Log.ended (hlog : Log view completed crashed) (hinside : view.inside = some c)
    {done failed : List CallId} (hends : ∀ c', c' ∈ done ∨ c' ∈ failed ↔ c' = c)
    (hapart : ∀ c' ∈ done, c' ∉ failed) :
    Log { view with inside := none } (completed ++ done) (crashed ++ failed) := by
  obtain ⟨hcompleted, hcrashed⟩ := hlog.inside c hinside
  refine ⟨fun c' => ?_, fun c' hc' => absurd hc' (by simp), fun c' hdone hfailed => ?_⟩
  · show c' ∈ view.started ↔ none = some c' ∨ _
    have hsame : view.inside = some c' ↔ c' ∈ done ∨ c' ∈ failed := by
      rw [hinside, Option.some_inj, hends, eq_comm]
    rw [hlog.started, hsame, List.mem_append, List.mem_append]
    simp only [reduceCtorEq, false_or]
    grind
  · rcases List.mem_append.mp hdone with hold | hnew
    · rcases List.mem_append.mp hfailed with hold' | hnew'
      · exact hlog.apart c' hold hold'
      · exact hcompleted ((hends c').mp (Or.inr hnew') ▸ hold)
    · rcases List.mem_append.mp hfailed with hold' | hnew'
      · exact hcrashed ((hends c').mp (Or.inl hnew) ▸ hold')
      · exact hapart c' hnew hnew'

theorem Log.step (hlog : Log s.tasks completed crashed) (htasks : Tasks kind s)
    (hworks : Works kind s a view) :
    Log view (completed ++ s.ends false a) (crashed ++ s.ends true a) := by
  cases hworks with
  | idle _ hother | received _ _ _ hother =>
    rw [append_ends_of_ne hother, append_ends_of_ne hother]
    exact { hlog with }
  | sent c | refused c | dropped c =>
    rw [append_ends_of_ne (by simp), append_ends_of_ne (by simp)]
    exact { hlog with }
  | began c hcurrent hinside =>
    have hnew : c ∉ s.started := by
      rw [htasks.inside c hcurrent, hinside]
      exact (Option.some_ne_none c).symm
    rw [append_ends_of_ne (by simp), append_ends_of_ne (by simp)]
    exact hlog.began hinside hnew
  | ended c panics hcurrent hinside =>
    have hends : ∀ c', c' ∈ s.ends false (.finish panics) ∨ c' ∈ s.ends true (.finish panics) ↔
        c' = c := by
      intro c'
      rw [mem_ends_finish hinside, mem_ends_finish hinside, ← or_and_right]
      exact and_iff_right (Bool.eq_false_or_eq_true panics).symm
    have hapart : ∀ c' ∈ s.ends false (.finish panics), c' ∉ s.ends true (.finish panics) := by
      intro c' hreturns hpanics
      have hfalse := ((mem_ends_finish hinside ..).mp hreturns).1
      have htrue := ((mem_ends_finish hinside ..).mp hpanics).1
      exact Bool.false_ne_true (hfalse.symm.trans htrue)
    exact { hlog.ended hinside hends hapart with }

end Log

/-! ## Why a call returned -/

/-- What is true of a call that has returned `err`. -/
def TaskView.Explains (view : TaskView) (c : CallId) : Option Err → Prop
  | none => c ∈ view.started ∧ view.inside ≠ some c
  | some .chanClosed => c ∈ view.taken ∧ c ∉ view.started ∧ view.current ≠ some c
  | some .chanFull | some .routineClosed => c ∉ view.accepted
  | some .context => True

section Explains

variable {size : Int} {kind : CallId → Kind} {s : Agent} {c : CallId} {a : Action}
  {view : TaskView}

/-- A step adds at most one call to the accepted ones, which was about to send its task. -/
theorem Works.accepted (hworks : Works kind s a view) :
    view.accepted = s.accepted ∨
      ∃ c, s.pc c = .opened ∧ view.accepted = s.accepted ++ [c] := by
  cases hworks with
  | idle | refused | began | dropped | ended => exact Or.inl rfl
  | sent c hpc => exact Or.inr ⟨c, hpc, (List.append_assoc ..).symm⟩
  | received _ c rest _ hchan =>
    left
    show s.taken ++ [c] ++ rest = s.accepted
    rw [Agent.accepted, hchan, List.append_assoc]
    rfl

theorem Works.not_accepted (hworks : Works kind s a view) (hpc : s.pc c ≠ .opened)
    (hc : c ∉ s.accepted) : c ∉ view.accepted := by
  rcases hworks.accepted with hsame | ⟨c', hpc', hnew⟩
  · rw [hsame]
    exact hc
  · have hne : c ≠ c' := fun h => hpc (h ▸ hpc')
    rw [hnew]
    simp [hc, hne]

theorem Works.mem_accepted (hworks : Works kind s a view) (hc : c ∈ s.accepted) :
    c ∈ view.accepted := by
  rcases hworks.accepted with hsame | ⟨c', -, hnew⟩
  · rw [hsame]
    exact hc
  · rw [hnew]
    exact List.mem_append_left _ hc

/-- What is put on a result channel: `ErrGoChanFull` by the call itself, anything else by the
goroutine when it works on the task. -/
theorem Works.errCh (hworks : Works kind s a view) (c : CallId) :
    view.errCh c = s.errCh c ∨ view.errCh c = [.chanFull] ∨ s.loop.current = some c := by
  cases hworks with
  | idle | sent | received | began => exact Or.inl rfl
  | refused c' =>
    by_cases heq : c = c'
    · subst heq
      exact Or.inr (Or.inl (Function.update_self ..))
    · exact Or.inl (Function.update_of_ne heq ..)
  | dropped c' hcurrent | ended c' _ hcurrent =>
    by_cases heq : c = c'
    · exact Or.inr (Or.inr (heq ▸ hcurrent))
    · exact Or.inl (answer_of_ne heq _)

/-- What is known of a call that has returned stays true. -/
theorem Works.explains (hworks : Works kind s a view) (htasks : Tasks kind s)
    (hpc : s.pc c ≠ .opened) {err : Option Err} (hexplains : s.tasks.Explains c err) :
    view.Explains c err := by
  cases err with
  | none =>
    obtain ⟨hstarted, hinside⟩ := hexplains
    cases hworks with
    | idle | sent | refused | received | dropped => exact ⟨hstarted, hinside⟩
    | began c' hcurrent hnone =>
      refine ⟨List.mem_append_left _ hstarted, fun heq => ?_⟩
      obtain rfl := Option.some.inj heq
      have hrunning := (htasks.inside c' hcurrent).mp hstarted
      rw [hnone] at hrunning
      cases hrunning
    | ended => exact ⟨hstarted, (Option.some_ne_none c).symm⟩
  | some err =>
    cases err with
    | context => trivial
    | chanFull | routineClosed => exact hworks.not_accepted hpc hexplains
    | chanClosed =>
      obtain ⟨htaken, hstarted, hcurrent⟩ := hexplains
      cases hworks with
      | idle | sent | refused => exact ⟨htaken, hstarted, hcurrent⟩
      | received _ c' rest _ hchan =>
        refine ⟨List.mem_append_left _ htaken, hstarted, fun heq => ?_⟩
        obtain rfl := Option.some.inj heq
        exact htasks.not_queued htaken (hchan ▸ List.mem_cons_self)
      | began c' hcurrent' =>
        have hne : c ≠ c' := fun heq => hcurrent (heq ▸ hcurrent')
        exact ⟨htaken, by simp [hne, show c ∉ s.started from hstarted], hcurrent⟩
      | dropped | ended => exact ⟨htaken, hstarted, (Option.some_ne_none c).symm⟩

end Explains

/-- A call that was not accepted has at most `ErrGoChanFull` on its result channel, and each
call that has returned did so for a reason. -/
structure Explained (kind : CallId → Kind) (s : Agent) : Prop where
  refused : ∀ c, c ∉ s.accepted → ∀ outcome ∈ s.errCh c, outcome = .chanFull
  leaving : ∀ c err, (kind c).Answers → s.pc c = .leaving err →
    err = some .routineClosed ∧ c ∉ s.accepted
  returned : ∀ c err, (kind c).Answers → s.pc c = .returned err → s.tasks.Explains c err

section Explained

variable {size : Int} {kind : CallId → Kind} {s : Agent} {c : CallId} {a : Action}

theorem explained_init : Explained kind {} where
  refused _ _ _ h := absurd h List.not_mem_nil
  leaving _ _ _ h := by cases h
  returned _ _ _ h := by cases h

/-- What a call finds on its result channel is the truth. -/
theorem Explained.received (h : Explained kind s) (htasks : Tasks kind s)
    (hanswers : (kind c).Answers) {outcome : Outcome} {rest : List Outcome}
    (herrCh : s.errCh c = outcome :: rest) : s.tasks.Explains c outcome.err := by
  by_cases hc : c ∈ s.accepted
  · have hnotNil : s.errCh c ≠ [] := by simp [herrCh]
    have htaken : c ∈ s.taken :=
      (List.mem_append.mp hc).resolve_right fun hqueued => hnotNil (htasks.queued c hqueued)
    have hcurrent : s.loop.current ≠ some c := fun hcurrent =>
      hnotNil (htasks.current c hcurrent).2
    rcases htasks.settled c htaken hcurrent hanswers with ⟨hdone, hstarted⟩ | ⟨hclosed, hstarted⟩
    · obtain ⟨rfl, -⟩ := List.cons.inj (herrCh.symm.trans hdone)
      exact ⟨hstarted, fun hinside => hcurrent (Loop.current_of_inside hinside)⟩
    · obtain ⟨rfl, -⟩ := List.cons.inj (herrCh.symm.trans hclosed)
      exact ⟨htaken, hstarted, hcurrent⟩
  · have hfull := h.refused c hc outcome (by simp [herrCh])
    rw [hfull]
    exact hc

/-- A step moves a call, or leaves it where it is. -/
theorem Inv.next_pc_cases (hinv : Inv kind s) (henabled : (system size kind).Enabled s a)
    (c : CallId) :
    ((system size kind).next s a).pc c = s.pc c ∨
      Moves kind s a c (s.pc c) (((system size kind).next s a).pc c) := by
  rcases hinv.next_pc henabled with hnext | ⟨c', pc, hmoves, hnext⟩
  · rw [hnext]
    exact Or.inl rfl
  · by_cases heq : c = c'
    · subst heq
      rw [hnext, Function.update_self]
      exact Or.inr hmoves
    · rw [hnext, Function.update_of_ne heq]
      exact Or.inl rfl

theorem next_receive {outcome : Outcome} {rest : List Outcome}
    (herrCh : s.errCh c = outcome :: rest) :
    ((system size kind).next s (.receive c)).pc c = .returned outcome.err := by
  simp [system, Agent.receive, herrCh, Agent.setPc]

/-- A call that leaves without having waited has found the agent closed. -/
theorem Explained.next_leaving (h : Explained kind s) (hinv : Inv kind s) (htasks : Tasks kind s)
    (henabled : (system size kind).Enabled s a) (hanswers : (kind c).Answers) {err : Option Err}
    (hpc : ((system size kind).next s a).pc c = .leaving err) :
    err = some .routineClosed ∧ c ∉ ((system size kind).next s a).accepted := by
  have hworks := hinv.next_tasks henabled
  rcases hinv.next_pc_cases henabled c with hstay | hmoves
  · rw [hpc] at hstay
    obtain ⟨herr, hc⟩ := h.leaving c err hanswers hstay.symm
    exact ⟨herr, hworks.not_accepted (by simp [← hstay]) hc⟩
  · generalize hfrom : s.pc c = pc at hmoves
    generalize ((system size kind).next s a).pc c = pc' at hmoves hpc
    cases hmoves with
    | shut =>
      have hunsent : (s.pc c).Unsent := by
        rw [hfrom]
        trivial
      exact ⟨(Pc.leaving.inj hpc).symm,
        hworks.not_accepted (by simp [hfrom]) (htasks.unsent c hunsent).1⟩
    | full _ hkind => exact absurd hanswers hkind
    | sent =>
      generalize kind c = k at hpc hanswers
      cases k with
      | syncRunFunc | ctxRunFunc => cases hpc
      | tryRunFunc | mustRunFunc | close => exact hanswers.elim
    | _ => cases hpc

/-- A call that returns does so for a reason. -/
theorem Explained.next_returned (h : Explained kind s) (hinv : Inv kind s) (htasks : Tasks kind s)
    (henabled : (system size kind).Enabled s a) (hanswers : (kind c).Answers) {err : Option Err}
    (hpc : ((system size kind).next s a).pc c = .returned err) :
    ((system size kind).next s a).tasks.Explains c err := by
  have hworks := hinv.next_tasks henabled
  rcases hinv.next_pc_cases henabled c with hstay | hmoves
  · rw [hpc] at hstay
    exact hworks.explains htasks (by simp [← hstay]) (h.returned c err hanswers hstay.symm)
  · generalize hfrom : s.pc c = pc at hmoves
    generalize hto : ((system size kind).next s a).pc c = pc' at hmoves
    rw [hto] at hpc
    cases hmoves with
    | left _ err' =>
      obtain rfl := Pc.returned.inj hpc
      obtain ⟨rfl, hc⟩ := h.leaving c err' hanswers hfrom
      exact hworks.not_accepted (by simp [hfrom]) hc
    | received =>
      obtain ⟨outcome, rest, herrCh⟩ := List.exists_cons_of_ne_nil henabled.2
      obtain rfl := Pc.returned.inj ((next_receive herrCh).symm.trans (hto.trans hpc))
      exact hworks.explains htasks (by simp [hfrom]) (h.received htasks hanswers herrCh)
    | ctxDone =>
      obtain rfl := Pc.returned.inj hpc
      trivial
    | unlocked =>
      have hfits := hinv.fits c
      rw [hfrom] at hfits
      rw [show kind c = .close from hfits] at hanswers
      exact hanswers.elim
    | sent =>
      generalize kind c = k at hpc hanswers
      cases k <;> cases hpc
    | _ => cases hpc

theorem Explained.step (h : Explained kind s) (hinv : Inv kind s) (htasks : Tasks kind s)
    (henabled : (system size kind).Enabled s a) : Explained kind ((system size kind).next s a) := by
  have hworks := hinv.next_tasks henabled
  refine ⟨fun c hc => ?_, fun c err hanswers hpc => ?_, fun c err hanswers hpc => ?_⟩
  · have hold : c ∉ s.accepted := fun hold => hc (hworks.mem_accepted hold)
    rcases hworks.errCh c with hsame | hfull | hcurrent
    · intro outcome houtcome
      exact h.refused c hold outcome (hsame ▸ houtcome)
    · intro outcome houtcome
      have houtcome : outcome ∈ [Outcome.chanFull] := hfull ▸ houtcome
      exact List.mem_singleton.mp houtcome
    · exact absurd (List.mem_append_left _ (htasks.current c hcurrent).1) hold
  · exact h.next_leaving hinv htasks henabled hanswers hpc
  · exact h.next_returned hinv htasks henabled hanswers hpc

end Explained

/-! ## What the record says -/

/-- The calls that were given up are those that return the error of their context. -/
structure GivenUp (kind : CallId → Kind) (s : Recorded) : Prop where
  cancelled : ∀ c ∈ s.cancelled,
    kind c = .ctxRunFunc ∧ s.agent.pc c = .returned (some .context)
  returned : ∀ c, (kind c).Answers → s.agent.pc c = .returned (some .context) → c ∈ s.cancelled

/-- The record and the agent agree. -/
structure Truthful (kind : CallId → Kind) (s : Recorded) : Prop where
  log : Log s.agent.tasks s.completed s.crashed
  explained : Explained kind s.agent
  givenUp : GivenUp kind s

section Truthful

variable {size : Int} {kind : CallId → Kind} {s : Recorded} {c : CallId} {a : Action}

theorem truthful_init : Truthful kind {} where
  log :=
    { started := fun _ => iff_of_false List.not_mem_nil (by simp [tasks, Loop.inside])
      inside := fun _ h => by cases h
      apart := fun _ h => absurd h List.not_mem_nil }
  explained := explained_init
  givenUp :=
    { cancelled := fun _ h => absurd h List.not_mem_nil
      returned := fun _ _ h => by cases h }

theorem Action.mem_cancels (a : Action) (hc : c ∈ a.cancels) : a = .ctxDone c := by
  cases a with
  | ctxDone c' => rw [List.mem_singleton.mp hc]
  | _ => cases hc

theorem GivenUp.step (h : GivenUp kind s) (hinv : Inv kind s.agent)
    (hexplained : Explained kind s.agent) (henabled : (recorded size kind).Enabled s a) :
    GivenUp kind ((recorded size kind).next s a) := by
  refine ⟨fun c hc => ?_, fun c hanswers hpc => ?_⟩
  · rcases List.mem_append.mp hc with hold | hnew
    · obtain ⟨hkind, hpc⟩ := h.cancelled c hold
      exact ⟨hkind, hinv.next_pc_of_returned henabled hpc⟩
    · obtain rfl := a.mem_cancels hnew
      exact ⟨henabled.2, Function.update_self ..⟩
  · rcases hinv.next_pc_cases henabled c with hstay | hmoves
    · exact List.mem_append_left _ (h.returned c hanswers (hstay.symm.trans hpc))
    · have hpc : ((system size kind).next s.agent a).pc c = .returned (some .context) := hpc
      generalize hfrom : s.agent.pc c = pc at hmoves
      generalize ((system size kind).next s.agent a).pc c = pc' at hmoves hpc
      cases hmoves with
      | left _ err =>
        obtain rfl := Pc.returned.inj hpc
        cases (hexplained.leaving c _ hanswers hfrom).1
      | received _ outcome => cases outcome <;> cases hpc
      | ctxDone => exact List.mem_append_right _ List.mem_cons_self
      | sent =>
        generalize kind c = k at hpc
        cases k <;> cases hpc
      | _ => cases hpc

theorem Truthful.step (h : Truthful kind s) (hinv : Inv kind s.agent) (htasks : Tasks kind s.agent)
    (henabled : (recorded size kind).Enabled s a) :
    Truthful kind ((recorded size kind).next s a) where
  log := h.log.step htasks (hinv.next_tasks henabled)
  explained := h.explained.step hinv htasks henabled
  givenUp := h.givenUp.step hinv h.explained henabled

theorem truthful_of_run {ok : Recorded → Action → Prop} (hrun : (recorded size kind).Run ok s) :
    Truthful kind s :=
  hrun.invariant_of (fun _ h => run_agent h) truthful_init
    fun _ _ hrun htruthful henabled _ =>
      htruthful.step (inv_of_run hrun) (tasks_of_run hrun) henabled

/-- A call that returns an error says that its function has not succeeded. -/
theorem reports_error {err : Err} (hcompleted : kind c = .syncRunFunc → c ∉ s.completed) :
    Reports kind s c (some err) where
  sync hkind := iff_of_false (Option.some_ne_none err) (hcompleted hkind)
  ctx _ herr := absurd herr (Option.some_ne_none err)
  failed _ := Option.some_ne_none err

theorem Truthful.not_ended (h : Truthful kind s) (hc : c ∉ s.agent.started) :
    c ∉ s.completed ∧ c ∉ s.crashed :=
  ⟨fun hcompleted => hc ((h.log.started c).mpr (Or.inr (Or.inl hcompleted))),
    fun hcrashed => hc ((h.log.started c).mpr (Or.inr (Or.inr hcrashed)))⟩

/-- The function of a call that returned an error was not called, or the call was given up. -/
theorem Truthful.not_started (h : Truthful kind s) (htasks : Tasks kind s.agent)
    (hanswers : (kind c).Answers) {err : Err} (hpc : s.agent.pc c = .returned (some err)) :
    c ∉ s.agent.started ∨ c ∈ s.cancelled := by
  have hexplains := h.explained.returned c _ hanswers hpc
  cases err with
  | chanFull | routineClosed =>
    left
    intro hstarted
    exact hexplains (List.mem_append_left _ (htasks.taken c hstarted))
  | chanClosed => exact Or.inl hexplains.2.1
  | context => exact Or.inr (h.givenUp.returned c hanswers hpc)

/-- A call that returned `nil` has seen its function end, in one way or the other. -/
theorem Truthful.ended (h : Truthful kind s) (hanswers : (kind c).Answers)
    (hpc : s.agent.pc c = .returned none) :
    c ∈ s.agent.started ∧ (c ∈ s.completed ∨ c ∈ s.crashed) := by
  obtain ⟨hstarted, hinside⟩ := h.explained.returned c none hanswers hpc
  exact ⟨hstarted, ((h.log.started c).mp hstarted).resolve_left hinside⟩

theorem Truthful.reports_none_iff (h : Truthful kind s) (htasks : Tasks kind s.agent)
    (hanswers : (kind c).Answers) (hpc : s.agent.pc c = .returned none) :
    Reports kind s c none ↔ (c ∈ s.crashed → c ∈ s.cancelled) := by
  obtain ⟨hstarted, hended⟩ := h.ended hanswers hpc
  have hkept : c ∉ s.cancelled := by
    intro hc
    have hcontext := (h.givenUp.cancelled c hc).2
    rw [hpc] at hcontext
    cases hcontext
  constructor
  · intro hreports hcrashed
    exact absurd rfl (hreports.failed (Or.inr (Or.inr hcrashed)))
  · intro hcrashed
    have hfine : c ∉ s.crashed := fun hc => hkept (hcrashed hc)
    have hcompleted := hended.resolve_right hfine
    refine ⟨fun _ => iff_of_true rfl hcompleted, fun _ _ => hcompleted, fun hfailed => ?_⟩
    rcases hfailed with hrefused | hdropped | hpanicked
    · exact absurd (List.mem_append_left _ (htasks.taken c hstarted)) hrefused
    · exact absurd hstarted hdropped
    · exact absurd hpanicked hfine

theorem Truthful.reports_some_iff (h : Truthful kind s) (htasks : Tasks kind s.agent)
    (hanswers : (kind c).Answers) {err : Err} (hpc : s.agent.pc c = .returned (some err)) :
    Reports kind s c (some err) ↔ (c ∈ s.crashed → c ∈ s.cancelled) := by
  rcases h.not_started htasks hanswers hpc with hdropped | hcancelled
  · obtain ⟨hcompleted, hcrashed⟩ := h.not_ended hdropped
    exact iff_of_true (reports_error fun _ => hcompleted) fun hc => absurd hc hcrashed
  · refine iff_of_true (reports_error fun hsync => ?_) fun _ => hcancelled
    rw [(h.givenUp.cancelled c hcancelled).1] at hsync
    cases hsync

end Truthful

section Results

variable {size : Int} {kind : CallId → Kind} {s : Recorded} {c : CallId} {err : Option Err}

/-- **`SyncRunFunc` returns `nil` exactly if its function was called and has ended**, be it by
a panic. -/
theorem run_sync_nil_iff (hrun : (recorded size kind).Run (fun _ _ => True) s)
    (hkind : kind c = .syncRunFunc) (hpc : s.agent.pc c = .returned err) :
    err = none ↔ c ∈ s.completed ∨ c ∈ s.crashed := by
  have htruthful := truthful_of_run hrun
  have htasks := tasks_of_run (run_agent hrun)
  have hanswers : (kind c).Answers := by
    rw [hkind]
    trivial
  cases err with
  | none => exact iff_of_true rfl (htruthful.ended hanswers hpc).2
  | some err =>
    refine iff_of_false (Option.some_ne_none err) fun hended => ?_
    rcases htruthful.not_started htasks hanswers hpc with hdropped | hcancelled
    · obtain ⟨hcompleted, hcrashed⟩ := htruthful.not_ended hdropped
      exact hended.elim hcompleted hcrashed
    · rw [(htruthful.givenUp.cancelled c hcancelled).1] at hkind
      cases hkind

/-- **When a call tells the truth about its function.**  In every run of an agent, whatever its
callers, `Close` and the functions do, a call of `SyncRunFunc` or `CtxRunFunc` that has returned
reports success for a function that has returned, and an error for one that was not accepted,
was dropped or panicked, if and only if its function did not panic or its context was done
first. -/
theorem run_reports_iff (hrun : (recorded size kind).Run (fun _ _ => True) s)
    (hanswers : (kind c).Answers) (hpc : s.agent.pc c = .returned err) :
    Reports kind s c err ↔ (c ∈ s.crashed → c ∈ s.cancelled) := by
  have htruthful := truthful_of_run hrun
  have htasks := tasks_of_run (run_agent hrun)
  cases err with
  | none => exact htruthful.reports_none_iff htasks hanswers hpc
  | some err => exact htruthful.reports_some_iff htasks hanswers hpc

/-- A call of `SyncRunFunc` from beginning to end. -/
def syncCall (panics : Bool) : List Action :=
  [.start, .rLock 0, .check 0, .submit 0, .rUnlock 0, .recvTask, .execute, .finish panics,
    .receive 0]

theorem syncCall_admits (panics : Bool) :
    (recorded 0 fun _ => .syncRunFunc).Admits (fun _ _ => True) (syncCall panics)
      (recorded 0 fun _ => .syncRunFunc).init :=
  ⟨rfl, trivial, ⟨rfl, by decide, rfl⟩, trivial, rfl, trivial,
    ⟨rfl, fun h => absurd h (by decide)⟩, trivial, Or.inl rfl, trivial,
    ⟨rfl, List.cons_ne_nil _ _⟩, trivial, ⟨0, false, rfl⟩, trivial, ⟨0, false, rfl⟩, trivial,
    ⟨rfl, List.cons_ne_nil _ _⟩, trivial, trivial⟩

/-- The function returns, and the caller gets `nil`. -/
theorem run_reports_return :
    ∃ s : Recorded, s.agent.pc 0 = .returned none ∧ Reports (fun _ => .syncRunFunc) s 0 none :=
  have hrun := System.Run.of_admits .start (syncCall_admits false)
  ⟨_, rfl, (run_reports_iff hrun trivial rfl).mpr fun h => absurd h (by decide)⟩

/-- The function panics, and the caller gets `nil`. -/
theorem sync_nil_after_panic :
    ∃ s : Recorded, (recorded 0 fun _ => .syncRunFunc).Run (fun _ _ => True) s ∧
      s.agent.pc 0 = .returned none ∧ 0 ∈ s.crashed ∧
      ¬ Reports (fun _ => .syncRunFunc) s 0 none := by
  refine ⟨_, .of_admits .start (syncCall_admits true), rfl, List.mem_cons_self, fun hreports => ?_⟩
  exact absurd rfl (hreports.failed (Or.inr (Or.inr List.mem_cons_self)))

end Results

end Agent

end Gokit.Framework
