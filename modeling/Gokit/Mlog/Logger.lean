/-
# The file logger

The functions of the logger put a line on a channel.  A goroutine takes the lines from it and
writes them to a file.  From time to time it looks at the size of the file and starts a new one.
When the context is cancelled it drains the channel and ends.

What a look at the file finds is chosen by the environment.  Every write succeeds (the code ignores
its error), and a rename replaces no older file.  A line that was just taken from the channel
counts as written.
-/

import Gokit.Math.Transition

namespace Gokit.Mlog

open Gokit.Math

abbrev Level : Type := UInt32

namespace Level

def fatal : Level := 0
def error : Level := 1
def warn : Level := 2
def notice : Level := 3
def info : Level := 4
def debug : Level := 5
def trace : Level := 6

end Level

def isLevelEnabled (own level : Level) : Bool := own ≥ level

/-- A level without a name has no tag. -/
def getLevelTag (level : Level) : String :=
  if level = .fatal then "[fatal] "
  else if level = .error then "[error] "
  else if level = .warn then "[warn] "
  else if level = .notice then "[notice] "
  else if level = .info then "[info] "
  else if level = .debug then "[debug] "
  else if level = .trace then "[trace] "
  else ""

inductive Loop
  | select
  | draining
  | ended
  deriving DecidableEq

inductive Timer
  | armed
  | fired
  /-- neither running nor reset -/
  | idle
  deriving DecidableEq

/-- How a look at the file ends. -/
inductive Look
  | statFails
  | small
  | renameFails
  /-- the file has its new name, but no other one was created -/
  | createFails
  | rotates
  deriving DecidableEq

structure Logger where
  level : Level
  buff : List String := []
  loop : Loop := .select
  timer : Timer := .armed
  /-- The lines of the file that is open. -/
  file : List String := []
  /-- The files that were closed. -/
  rotated : List (List String) := []
  /-- The lines that were put on the channel. -/
  logged : List String := []
  /-- Those of them that were there when the context was cancelled. -/
  cancelled : Option (List String) := none

inductive Action
  /-- a call of `Trace`, …, `Fatal` or `Logf` with its text -/
  | log (level : Level) (text : String)
  | cancel
  | done
  | recv
  | drain
  | fire
  | look (result : Look)

namespace Logger

/-- `make(chan string, 0x10000)` -/
def capacity : Nat := 0x10000

def println (s : Logger) : Logger :=
  { s with buff := s.buff.tail, file := s.file ++ s.buff.head?.toList }

/-- A call waits as long as the channel is full. -/
def Enabled (s : Logger) : Action → Prop
  | .log level _ => isLevelEnabled s.level level = true → s.buff.length < capacity
  | .cancel => s.cancelled = none
  | .done => s.loop = .select ∧ s.cancelled ≠ none
  | .recv => s.loop = .select ∧ s.buff ≠ []
  | .drain => s.loop = .draining
  | .fire => s.timer = .armed
  | .look _ => s.loop = .select ∧ s.timer = .fired

def next (s : Logger) : Action → Logger
  | .log level text =>
    if isLevelEnabled s.level level then
      { s with
        buff := s.buff ++ [getLevelTag level ++ text]
        logged := s.logged ++ [getLevelTag level ++ text] }
    else s
  | .cancel => { s with cancelled := some s.logged }
  | .done => { s with loop := .draining }
  | .recv => s.println
  | .drain => if s.buff = [] then { s with loop := .ended } else s.println
  | .fire => { s with timer := .fired }
  -- a failure continues the loop without `timer.Reset`
  | .look .statFails | .look .renameFails | .look .createFails => { s with timer := .idle }
  | .look .small => { s with timer := .armed }
  | .look .rotates => { s with timer := .armed, rotated := s.rotated ++ [s.file], file := [] }

def written (s : Logger) : List String := s.rotated.flatten ++ s.file

end Logger

def logger (level : Level) : System Logger Action where
  init := { level := level }
  Enabled := Logger.Enabled
  next := Logger.next

namespace Logger

variable {level : Level} {s : Logger} {actions : List Action}

/-- Nothing is lost between the channel and the files, and the end comes after the last line that
was logged before the context was cancelled. -/
structure Ordered (s : Logger) : Prop where
  lines : s.written ++ s.buff = s.logged
  room : s.buff.length ≤ capacity
  cancelled : ∀ before ∈ s.cancelled, before <+: s.logged
  ended : s.loop = .ended → ∃ before ∈ s.cancelled, before <+: s.written
  stopping : s.loop ≠ .select → s.cancelled ≠ none

theorem Ordered.println (h : s.Ordered) (hloop : s.loop ≠ .ended) : s.println.Ordered := by
  have hlines : s.println.written ++ s.println.buff = s.logged := by
    rw [← h.lines]
    cases hbuff : s.buff <;> simp [Logger.println, written, hbuff]
  have hroom : s.println.buff.length ≤ s.buff.length := by
    rw [Logger.println, List.length_tail]
    exact Nat.sub_le _ _
  exact ⟨hlines, Nat.le_trans hroom h.room, h.cancelled, fun hended => absurd hended hloop,
    h.stopping⟩

theorem Ordered.next (h : s.Ordered) {a : Action} (henabled : s.Enabled a) :
    (s.next a).Ordered := by
  cases a with
  | log level text =>
    rw [Logger.next]
    split_ifs with hlevel
    · refine ⟨?_, ?_, fun before hbefore => ?_, h.ended, h.stopping⟩
      · rw [← h.lines, List.append_assoc]
        rfl
      · rw [List.length_append]
        exact henabled hlevel
      · exact (h.cancelled before hbefore).trans (List.prefix_append _ _)
    · exact h
  | cancel =>
    refine ⟨h.lines, h.room, ?_, fun hended => ?_, fun _ => Option.some_ne_none _⟩
    · rintro before ⟨⟩
      exact List.prefix_rfl
    · exact absurd henabled (h.stopping (hended ▸ Loop.noConfusion))
  | done =>
    exact ⟨h.lines, h.room, h.cancelled, fun hended => Loop.noConfusion hended,
      fun _ => henabled.2⟩
  | recv => exact h.println (henabled.1 ▸ Loop.noConfusion)
  | drain =>
    have hdraining : s.loop = .draining := henabled
    have hstopping := h.stopping (hdraining ▸ Loop.noConfusion)
    rw [Logger.next]
    split_ifs with hempty
    · refine ⟨h.lines, h.room, h.cancelled, fun _ => ?_, fun _ => hstopping⟩
      obtain ⟨before, hbefore⟩ := Option.ne_none_iff_exists'.mp hstopping
      have hall := h.lines
      rw [hempty, List.append_nil] at hall
      refine ⟨before, hbefore, ?_⟩
      show before <+: s.written
      rw [hall]
      exact h.cancelled before hbefore
    · exact h.println (hdraining ▸ Loop.noConfusion)
  | fire => exact ⟨h.lines, h.room, h.cancelled, h.ended, h.stopping⟩
  | look result =>
    cases result with
    | rotates =>
      have hsame : (s.next (.look .rotates)).written = s.written := by
        show (s.rotated ++ [s.file]).flatten ++ [] = s.rotated.flatten ++ s.file
        rw [List.flatten_append, List.flatten_singleton, List.append_nil]
      refine ⟨?_, h.room, h.cancelled, ?_, h.stopping⟩ <;> rw [hsame]
      · exact h.lines
      · exact h.ended
    | _ => exact ⟨h.lines, h.room, h.cancelled, h.ended, h.stopping⟩

/-- **No line is lost.**  The lines that were logged are in the files and on the channel, each once
and in the order in which they were put there, and when the goroutine has ended the files have all
that were logged before the context was cancelled. -/
theorem logger_in_order (hrun : (logger level).Run (fun _ _ => True) s) :
    s.written ++ s.buff = s.logged ∧ s.buff.length ≤ capacity ∧
      (s.loop = .ended → ∃ before ∈ s.cancelled, before <+: s.written) := by
  have hordered : s.Ordered := by
    apply hrun.invariant
    · exact ⟨rfl, Nat.zero_le _, fun _ hbefore => absurd hbefore (Option.not_mem_none _),
        fun hended => Loop.noConfusion hended, fun hloop => absurd rfl hloop⟩
    · exact fun s a h henabled _ => h.next henabled
  exact ⟨hordered.lines, hordered.room, hordered.ended⟩

def drained : List Action := [.log .info "up", .cancel, .done, .drain, .drain]

/-- A line is logged before the context is cancelled, and written after. -/
theorem logger_in_order_drained : let s := (logger .info).after drained (logger .info).init
    s.written = ["[info] up"] ∧ ∃ before ∈ s.cancelled, before <+: s.written :=
  have hadmits : (logger .info).Admits (fun _ _ => True) drained (logger .info).init :=
    ⟨fun _ => by decide, trivial, rfl, trivial, ⟨rfl, Option.some_ne_none _⟩, trivial, rfl,
      trivial, rfl, trivial, trivial⟩
  ⟨by decide, (logger_in_order (.of_admits .start hadmits)).2.2 rfl⟩

/-- While the timer does not run, nothing starts it again. -/
theorem idle_next (hidle : s.timer = .idle) {a : Action} (henabled : s.Enabled a) :
    (s.next a).timer = .idle ∧ (s.next a).rotated = s.rotated := by
  cases a with
  | log level text =>
    rw [next]
    split_ifs <;> exact ⟨hidle, rfl⟩
  | drain =>
    rw [next]
    split_ifs <;> exact ⟨hidle, rfl⟩
  | fire => exact Timer.noConfusion (hidle.symm.trans henabled)
  | look result => exact Timer.noConfusion (hidle.symm.trans henabled.2)
  | _ => exact ⟨hidle, rfl⟩

/-- **One failure ends the rotation.**  After the size of the file could not be read, or the file
could not be replaced, it is never replaced again, whatever happens. -/
theorem logger_stops_rotating {result : Look} (hsmall : result ≠ .small)
    (hrotates : result ≠ .rotates)
    (hadmits : (logger level).Admits (fun _ _ => True) actions (s.next (.look result))) :
    ((logger level).after actions (s.next (.look result))).rotated = s.rotated := by
  have hidle : (s.next (.look result)).timer = .idle ∧
      (s.next (.look result)).rotated = s.rotated := by
    cases result with
    | small => exact absurd rfl hsmall
    | rotates => exact absurd rfl hrotates
    | _ => exact ⟨rfl, rfl⟩
  generalize s.next (.look result) = start at hidle hadmits ⊢
  induction actions generalizing start with
  | nil => exact hidle.2
  | cons a rest ih =>
    obtain ⟨henabled, -, hrest⟩ := hadmits
    obtain ⟨htimer, hsame⟩ := idle_next hidle.1 henabled
    exact ih _ ⟨htimer, hsame.trans hidle.2⟩ hrest

/-- The file is gone for a moment, and grows for ever. -/
theorem logger_stops_rotating_line :
    let s : Logger := { level := .info, timer := .fired, rotated := [["[info] old"]] }
    ((logger .info).after [.log .info "new", .recv] (s.next (.look .statFails))).rotated =
      [["[info] old"]] :=
  logger_stops_rotating Look.noConfusion Look.noConfusion
    ⟨fun _ => by decide, trivial, ⟨rfl, List.cons_ne_nil _ _⟩, trivial, trivial⟩

end Logger

end Gokit.Mlog
