/-
# The tree of deadlines

What the operations of the client do to the set of a deadline, and when the tree
can be empty.  `processTimeout` dereferences the leftmost node at start-up and
whenever it has taken a signal.  A signal announces a deadline that has been
inserted; but it is kept in a channel, and nothing ties it to the deadline, which
a sweep may remove in the meantime.
-/

import Gokit.Rpc.Defs

namespace Gokit.Rpc

open Gokit.Math

namespace Timeouts

variable (tree : Timeouts) (expireAt key : Int) (seq x : UInt32)

/-- The number is in the set of the deadline. -/
def Has : Prop := ∃ set, tree[key]? = some set ∧ x ∈ set

theorem has_add : (tree.add expireAt seq).Has key x ↔
    tree.Has key x ∨ (key = expireAt ∧ x = seq) := by
  unfold Has add
  by_cases hkey : expireAt = key
  · subst hkey
    cases hset : tree[expireAt]? with
    | none => simp
    | some set => simp [or_comm]
  · have hne : ¬ key = expireAt := fun h => hkey h.symm
    simp [Std.TreeMap.getElem?_insert, hkey, hne]

theorem has_drop : (tree.drop expireAt seq).Has key x ↔
    tree.Has key x ∧ ¬ (key = expireAt ∧ x = seq) := by
  unfold Has drop
  cases hset : tree[expireAt]? with
  | none =>
    by_cases hkey : key = expireAt
    · simp [hkey, hset]
    · simp [hkey]
  | some set =>
    by_cases hkey : key = expireAt
    · simp [hkey, hset]
    · have hne : ¬ expireAt = key := fun h => hkey h.symm
      simp [Std.TreeMap.getElem?_insert, hkey, hne]

theorem has_removeAll (keys : List Int) : (tree.removeAll keys).Has key x ↔
    tree.Has key x ∧ key ∉ keys := by
  induction keys generalizing tree with
  | nil => simp [removeAll]
  | cons first rest ih =>
    have hstep : tree.removeAll (first :: rest) = removeAll (tree.erase first) rest := rfl
    rw [hstep, ih]
    unfold Has
    by_cases hkey : key = first
    · simp [hkey]
    · have hne : ¬ first = key := fun h => hkey h.symm
      simp [Std.TreeMap.getElem?_erase, hkey, hne]

/-- `Left()` is nil on an empty tree and only there. -/
theorem left_eq_none_iff : tree.left = none ↔ tree.isEmpty = true := by
  rw [left, List.head?_eq_none_iff, ← Std.TreeMap.isEmpty_keys, List.isEmpty_iff]

@[simp]
theorem isEmpty_add : (tree.add expireAt seq).isEmpty = false := Std.TreeMap.isEmpty_insert

/-- Deleting a number does not delete its deadline. -/
theorem mem_drop : key ∈ tree.drop expireAt seq ↔ key ∈ tree := by
  unfold drop
  cases hset : tree[expireAt]? with
  | none => rfl
  | some set =>
    have hmem : expireAt ∈ tree := by
      rw [Std.TreeMap.mem_iff_isSome_getElem?, hset]
      rfl
    rw [Std.TreeMap.mem_insert, Std.compare_eq_iff_eq]
    exact or_iff_right_of_imp fun h => h ▸ hmem

@[simp]
theorem isEmpty_drop : (tree.drop expireAt seq).isEmpty = tree.isEmpty := by
  rw [Bool.eq_iff_iff, Std.TreeMap.isEmpty_iff_forall_not_mem,
    Std.TreeMap.isEmpty_iff_forall_not_mem]
  simp only [mem_drop]

end Timeouts

namespace Client

/-- A call has entered its deadline and not told `processTimeout` yet. -/
def Announces (st : Client) (c : CallId) : Prop := st.pc c = .inserted ∨ st.pc c = .posting

/-- `processTimeout` is about to read the first deadline, or may yet be made to. -/
def Expects (st : Client) : Prop :=
  st.proc = .starting ∨ (∃ expireAt, st.proc = .reading expireAt) ∨ st.trig = true ∨
    ∃ c, st.Announces c

/-- Whoever is to read the first deadline finds one. -/
structure Expected (st : Client) : Prop where
  nonempty : st.Expects → st.timeouts.isEmpty = false
  alive : st.proc ≠ .crashed

/-- A sweep leaves a deadline behind, unless nobody has been told or is about to
tell of a deadline. -/
def SparesSignals (st : Client) : Action → Prop
  | .sweepEnd _ =>
    (st.timeouts.removeAll st.proc.swept).isEmpty = false ∨
      (st.trig = false ∧ ∀ c, ¬ st.Announces c)
  | _ => True

variable {opts : CallId → CallOption} {st : Client}

/-- The step of a caller that neither announces a deadline nor did before. -/
theorem announces_update {c : CallId} {pc : Pc} (hinserted : pc ≠ .inserted)
    (hposting : pc ≠ .posting) {d : CallId}
    (hannounces : Function.update st.pc c pc d = .inserted ∨
      Function.update st.pc c pc d = .posting) : st.Announces d := by
  by_cases hd : d = c
  · rw [hd, Function.update_self] at hannounces
    rcases hannounces with h | h
    · exact absurd h hinserted
    · exact absurd h hposting
  · rwa [Function.update_of_ne hd] at hannounces

/-- A step of a caller that announces nothing new, and leaves the tree alone. -/
theorem Expected.caller {st' : Client} (hst : st.Expected) {c : CallId} {pc : Pc}
    (hpc : st'.pc = Function.update st.pc c pc) (hproc : st'.proc = st.proc)
    (htrig : st'.trig = st.trig) (htimeouts : st'.timeouts = st.timeouts)
    (hinserted : pc ≠ .inserted) (hposting : pc ≠ .posting) : st'.Expected where
  nonempty hexpects := by
    rw [htimeouts]
    apply hst.nonempty
    unfold Expects Announces at hexpects
    rw [hpc, hproc, htrig] at hexpects
    rcases hexpects with h | h | h | ⟨d, h⟩
    · exact .inl h
    · exact .inr (.inl h)
    · exact .inr (.inr (.inl h))
    · exact .inr (.inr (.inr ⟨d, announces_update hinserted hposting h⟩))
  alive := by
    rw [hproc]
    exact hst.alive

/-- A step of `processTimeout` that does not bring it to a read. -/
theorem Expected.proc {st' : Client} (hst : st.Expected) {proc : Proc} (hproc : st'.proc = proc)
    (hpc : st'.pc = st.pc) (htrig : st'.trig = st.trig) (htimeouts : st'.timeouts = st.timeouts)
    (hstarting : proc ≠ .starting) (hreading : ∀ expireAt, proc ≠ .reading expireAt)
    (halive : proc ≠ .crashed) : st'.Expected where
  nonempty hexpects := by
    rw [htimeouts]
    apply hst.nonempty
    unfold Expects Announces at hexpects
    rw [hpc, htrig, hproc] at hexpects
    rcases hexpects with h | ⟨expireAt, h⟩ | h
    · exact absurd h hstarting
    · exact absurd h (hreading expireAt)
    · exact .inr (.inr h)
  alive := by
    rw [hproc]
    exact halive

/-- A read finds the first deadline. -/
theorem Expected.left (hst : st.Expected) (hexpects : st.Expects) :
    ∃ expireAt, st.timeouts.left = some expireAt := by
  apply Option.ne_none_iff_exists'.mp
  rw [Ne, Timeouts.left_eq_none_iff, hst.nonempty hexpects]
  exact Bool.false_ne_true

theorem Expected.step (hst : st.Expected) {a : Action} (henabled : st.Enabled a)
    (hspares : st.SparesSignals a) : (st.next opts a).Expected := by
  cases a with
  | begin c => exact hst.caller rfl rfl rfl rfl nofun nofun
  | write c => exact hst.caller rfl rfl rfl rfl nofun nofun
  | writeFails c => exact hst.caller rfl rfl rfl rfl nofun nofun
  | register c nowMs =>
    show (st.register opts c nowMs).Expected
    unfold register
    split
    · exact hst.caller rfl rfl rfl rfl nofun nofun
    · refine hst.caller rfl rfl rfl rfl ?_ ?_ <;> split <;> nofun
    · exact hst.caller rfl rfl rfl rfl nofun nofun
  | insert c => exact ⟨fun _ => Timeouts.isEmpty_add _ _ _, hst.alive⟩
  | swap c =>
    have hsome : st.timeouts.isEmpty = false := hst.nonempty (.inr (.inr (.inr ⟨c, .inl henabled⟩)))
    show (st.swap c).Expected
    unfold swap
    split
    · exact ⟨fun _ => hsome, hst.alive⟩
    · exact ⟨fun _ => hsome, nofun⟩
  | post c =>
    have hsome : st.timeouts.isEmpty = false := hst.nonempty (.inr (.inr (.inr ⟨c, .inr henabled⟩)))
    exact ⟨fun _ => hsome, hst.alive⟩
  | takeRet c => exact hst.caller rfl rfl rfl rfl nofun nofun
  | ctxDone c => exact hst.caller rfl rfl rfl rfl nofun nofun
  | lastLook c => exact hst.caller rfl rfl rfl rfl nofun nofun
  | deregister c =>
    obtain ⟨ret, hpc⟩ := henabled
    show (st.deregister c).Expected
    rw [deregister_of_leaving hpc]
    exact hst.caller rfl rfl rfl rfl nofun nofun
  | closeRet c =>
    obtain ⟨ret, hpc⟩ := henabled
    show (st.closeRet c).Expected
    rw [closeRet_of_closing hpc]
    exact hst.caller rfl rfl rfl rfl nofun nofun
  | recv msg =>
    show (st.recv msg).Expected
    unfold recv
    repeat' split
    all_goals exact ⟨hst.nonempty, hst.alive⟩
  | tidy held =>
    refine ⟨fun hexpects => ?_, hst.alive⟩
    show (st.tidy held).timeouts.isEmpty = false
    unfold tidy
    split
    · rw [Timeouts.isEmpty_drop]
      exact hst.nonempty hexpects
    · exact hst.nonempty hexpects
  | deliver held => exact ⟨hst.nonempty, hst.alive⟩
  | startRead =>
    obtain ⟨expireAt, hleft⟩ := hst.left (.inl henabled)
    show st.startRead.Expected
    rw [startRead_of_left hleft]
    exact hst.proc rfl rfl rfl rfl nofun nofun nofun
  | takeSignal =>
    obtain ⟨⟨expireAt, hproc⟩, htrig⟩ := henabled
    have hsome : st.timeouts.isEmpty = false := hst.nonempty (.inr (.inr (.inl htrig)))
    show st.takeSignal.Expected
    rw [takeSignal_of_waiting hproc]
    exact ⟨fun _ => hsome, nofun⟩
  | readLeft =>
    obtain ⟨expireAt, hproc⟩ := henabled
    obtain ⟨expireFirst, hleft⟩ := hst.left (.inr (.inl ⟨expireAt, hproc⟩))
    show st.readLeft.Expected
    rw [readLeft_of_left hproc hleft]
    exact hst.proc rfl rfl rfl rfl nofun nofun nofun
  | fire nowMs => exact hst.proc rfl rfl rfl rfl nofun nofun nofun
  | sweepKey order =>
    obtain ⟨key, left, swept, callInfos, hproc, -⟩ := henabled
    show (st.sweepKey order).Expected
    rw [sweepKey_of_sweeping hproc]
    exact hst.proc rfl rfl rfl rfl nofun nofun nofun
  | sweepEnd nowMs =>
    obtain ⟨swept, callInfos, hproc⟩ := henabled
    simp only [SparesSignals, hproc, Proc.swept] at hspares
    show (st.sweepEnd nowMs).Expected
    rw [sweepEnd_of_sweeping hproc]
    refine ⟨fun hexpects => ?_, nofun⟩
    rcases hspares with hleft | hquiet
    · exact hleft
    · rcases hexpects with h | ⟨expireAt, h⟩ | h | ⟨c, h⟩
      · cases h
      · cases h
      · exact absurd (hquiet.1.symm.trans h) nofun
      · exact absurd h (hquiet.2 c)
  | sendTimeout =>
    obtain ⟨expireAt, info, rest, hproc⟩ := henabled
    show st.sendTimeout.Expected
    rw [sendTimeout_of_sending hproc]
    split <;> exact hst.proc rfl rfl rfl rfl nofun nofun nofun
  | rearm =>
    obtain ⟨expireAt, hproc⟩ := henabled
    show st.rearm.Expected
    rw [rearm_of_sending hproc]
    exact hst.proc rfl rfl rfl rfl nofun nofun nofun
  | close => exact ⟨hst.nonempty, hst.alive⟩
  | quit => exact hst.proc rfl rfl rfl rfl nofun nofun nofun

theorem expected_init : ({} : Client).Expected where
  nonempty hexpects := by
    rcases hexpects with h | ⟨_, h⟩ | h | ⟨_, h | h⟩
    all_goals cases h
  alive := nofun

/-- **`processTimeout` does not dereference an empty tree**, in every run all of
whose sweeps leave a deadline or find no signal under way: whenever it is about
to read the first deadline there is one, and it has not crashed. -/
theorem run_left_ne_none (opts : CallId → CallOption) {st : Client}
    (hrun : (client opts).Run SparesSignals st) :
    (st.proc = .starting ∨ (∃ expireAt, st.proc = .reading expireAt) →
      st.timeouts.left ≠ none) ∧ st.proc ≠ .crashed := by
  have hst : st.Expected := hrun.invariant expected_init
    fun _ _ hs henabled hspares => hs.step henabled hspares
  refine ⟨fun hreads hleft => ?_, hst.alive⟩
  have hsome := hst.nonempty (hreads.imp_right .inl)
  rw [(Timeouts.left_eq_none_iff _).mp hleft] at hsome
  cases hsome

/-- Two asynchronous calls with a timeout of ten milliseconds, up to the moment
at which the second one has signalled. -/
def twoDeadlines : List Action :=
  [.begin 0, .write 0, .register 0 1, .insert 0, .swap 0, .startRead,
    .begin 1, .write 1, .register 1 1, .insert 1, .swap 1, .post 1]

/-- Every call is asynchronous, with a timeout of ten milliseconds. -/
def tenMillis : CallId → CallOption := fun c =>
  { kind := .async, timeout := some 10, passThrough := c }

theorem run_twoDeadlines :
    (client tenMillis).Run SparesSignals ((client tenMillis).after twoDeadlines {}) := by
  apply System.Run.of_admits .start
  exact ⟨rfl, trivial, ⟨rfl, rfl⟩, trivial, ⟨rfl, by decide⟩, trivial, ⟨rfl, rfl⟩, trivial,
    rfl, trivial, rfl, trivial, rfl, trivial, ⟨rfl, rfl⟩, trivial, ⟨rfl, by decide⟩, trivial,
    ⟨rfl, rfl⟩, trivial, rfl, trivial, rfl, trivial, trivial⟩

/-- The signal is taken while the deadline is in the tree. -/
theorem run_left_ne_none_twoDeadlines :
    ((client tenMillis).after [.takeSignal]
      ((client tenMillis).after twoDeadlines {})).timeouts.left ≠ none := by
  apply (run_left_ne_none tenMillis (run_twoDeadlines.of_admits ?_)).1
  · exact .inr ⟨11, rfl⟩
  · exact ⟨⟨⟨_, rfl⟩, rfl⟩, trivial, trivial⟩

/-- The timer fires before the signal is taken: the sweep removes the only
deadline, and `processTimeout` then takes the signal and looks for the first
deadline of an empty tree. -/
theorem signal_outlives_deadline :
    ∃ st, (client tenMillis).Run (fun _ _ => True) st ∧
      (∃ expireAt, st.proc = .reading expireAt) ∧ st.timeouts.left = none := by
  refine ⟨(client tenMillis).after [.fire 11, .sweepKey [2, 1], .sweepEnd 11, .sendTimeout,
    .sendTimeout, .rearm, .takeSignal] ((client tenMillis).after twoDeadlines {}),
    (run_twoDeadlines.mono fun _ _ _ => trivial).of_admits ?_, ⟨_, rfl⟩, rfl⟩
  exact ⟨⟨_, rfl⟩, trivial, ⟨_, _, _, _, rfl, .refl _⟩, trivial, ⟨_, _, rfl⟩, trivial,
    ⟨_, _, _, rfl⟩, trivial, ⟨_, _, _, rfl⟩, trivial, ⟨_, rfl⟩, trivial,
    ⟨⟨_, rfl⟩, rfl⟩, trivial, trivial⟩

end Client

end Gokit.Rpc
