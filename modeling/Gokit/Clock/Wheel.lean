/-
# The lists of the wheel

`Rep c lists` says that the wheel of `c` consists of the lists `lists`: the slot
at `place` is a ring through exactly the timers `lists place`, no cell is in two
rings, and `locs` finds exactly the linked timers, each under its own id.

Between being taken out of one list and put into another a timer is `Held`: it is
in no list, and whatever `locs` says about its id is about to be overwritten.
`unlink` turns a linked timer into a held one, `putTimer` turns a held timer into
a linked one, and every operation of the clock is made of the two.
-/

import Gokit.Clock.Defs
import Gokit.Math.MachineInt
import Mathlib.Tactic.FinCases

namespace Gokit.Clock

open Gokit.Math

/-! ## Slots -/

theorem toInt_levelSlots (level : Level) :
    ∃ k < 63, (levelMasks level).toInt = 2 ^ k - 1 ∧ (levelSlots level).toInt = 2 ^ k := by
  fin_cases level
  · exact ⟨10, by decide, by decide, by decide⟩
  · exact ⟨8, by decide, by decide, by decide⟩
  · exact ⟨6, by decide, by decide, by decide⟩
  · exact ⟨6, by decide, by decide, by decide⟩

theorem inWheel_iff {level : Level} {slot : Int64} :
    InWheel (level, slot) ↔ 0 ≤ slot.toInt ∧ slot.toInt < (levelSlots level).toInt := by
  rw [InWheel, Int64.le_iff_toInt_le, Int64.lt_iff_toInt_lt]
  rfl

/-- A masked index is a slot of its level. -/
theorem inWheel_mask (level : Level) (slot : Int64) :
    InWheel (level, slot &&& levelMasks level) := by
  obtain ⟨k, hk, hmask, hslots⟩ := toInt_levelSlots level
  have hpos : (0 : Int) < 2 ^ k := by positivity
  rw [inWheel_iff, toInt_and_mask hk hmask, hslots]
  exact ⟨Int.emod_nonneg _ hpos.ne', Int.emod_lt_of_pos _ hpos⟩

theorem inWheel_place (slot : Level → Int64) (when base : Int64) :
    InWheel (place slot when base) := by
  unfold place
  simp only
  split
  · exact inWheel_mask _ _
  · decide

section

variable {D : Type}

/-! ## List operations -/

variable {front back : List Ptr}

section Lists

variable {ι : Type} [DecidableEq ι] {heap : Store (TimerCell D)} {roots : ι → Option Ptr}
  {lists : ι → List Ptr} {i : ι}

theorem unlink_spec {t : Ptr} (hrings : (linksOf heap).Rings roots lists)
    (hlist : lists i = front ++ t :: back) :
    ∃ heap', unlink heap t = .ok heap' ∧
      (linksOf heap').Rings roots (Function.update lists i (front ++ back)) ∧
      valueOf heap' = valueOf heap := by
  obtain ⟨p, q, hpt, hqt, hp, hq, hrings'⟩ := hrings.unlink hlist
  obtain ⟨pvalue, hpvalue⟩ := exists_valueOf_of_next hp.1
  obtain ⟨tvalue, htvalue⟩ := exists_valueOf_of_next hq.1
  obtain ⟨qvalue, hqvalue⟩ := exists_valueOf_of_prev hq.2
  -- t.prev.next = t.next
  obtain ⟨heap₁, hset₁, hlinks₁, hvalue₁, -⟩ := setNext_spec hpvalue (some q)
  rw [← hvalue₁] at htvalue hqvalue
  have hnext₁ : getNext heap₁ t = .ok (some q) := by
    simp [getNext_spec htvalue, hlinks₁, Ne.symm hpt, hq.1]
  have hprev₁ : getPrev heap₁ t = .ok (some p) := by
    rw [getPrev_spec htvalue, hlinks₁, hp.2]
  -- t.next.prev = t.prev
  obtain ⟨heap₂, hset₂, hlinks₂, hvalue₂, -⟩ := setPrev_spec hqvalue (some p)
  rw [← hvalue₂] at htvalue
  -- t.prev = nil, t.next = nil
  obtain ⟨heap₃, hset₃, hlinks₃, hvalue₃, -⟩ := setPrev_spec htvalue none
  rw [← hvalue₃] at htvalue
  obtain ⟨heap₄, hset₄, hlinks₄, hvalue₄, -⟩ := setNext_spec htvalue none
  have hvalues : valueOf heap₄ = valueOf heap := by rw [hvalue₄, hvalue₃, hvalue₂, hvalue₁]
  have hlinks : linksOf heap₄ = (linksOf heap).unlink p t q := by
    rw [hlinks₄, hlinks₃, hlinks₂, hlinks₁]
    rfl
  rw [hvalue₃, hvalue₂, hvalue₁] at htvalue
  refine ⟨heap₄, ?_, hlinks ▸ hrings', hvalues⟩
  simp [unlink, getPrev_spec htvalue, getNext_spec htvalue, hp.2, hq.1, hset₁, hnext₁, hprev₁,
    hset₂, hset₃, hset₄]

theorem removeFromList_spec {t : Ptr} (hrings : (linksOf heap).Rings roots lists)
    (hlist : lists i = front ++ t :: back) :
    ∃ heap', removeFromList heap t = .ok (heap', true) ∧
      (linksOf heap').Rings roots (Function.update lists i (front ++ back)) ∧
      valueOf heap' = valueOf heap := by
  obtain ⟨heap', hunlink, hrings', hvalues⟩ := unlink_spec hrings hlist
  obtain ⟨p, q, -, -, hp, hq, -⟩ := hrings.unlink hlist
  obtain ⟨value, hvalue⟩ := exists_valueOf_of_next hq.1
  refine ⟨heap', ?_, hrings', hvalues⟩
  simp [removeFromList, getPrev_spec hvalue, getNext_spec hvalue, hp.2, hq.1, hunlink]

theorem pushBack_spec {root t : Ptr} {timer : Timer D}
    (hrings : (linksOf heap).Rings roots lists) (hroot : roots i = some root)
    (hvalue : valueOf heap t = some timer) (hfree : ∀ j, t ∉ Links.members roots lists j) :
    ∃ heap', pushBack heap root t = .ok heap' ∧
      (linksOf heap').Rings roots (Function.update lists i (lists i ++ [t])) ∧
      valueOf heap' = valueOf heap := by
  obtain ⟨p, hp, hrings'⟩ := hrings.pushBack hroot hfree
  obtain ⟨pvalue, hpvalue⟩ := exists_valueOf_of_next hp.1
  obtain ⟨rvalue, hrvalue⟩ := exists_valueOf_of_prev hp.2
  have hprev := getPrev_spec hrvalue
  obtain ⟨heap₁, hset₁, hlinks₁, hvalue₁, -⟩ := setNext_spec hpvalue (some t)
  rw [← hvalue₁] at hvalue hrvalue
  obtain ⟨heap₂, hset₂, hlinks₂, hvalue₂, -⟩ := setPrev_spec hvalue (some p)
  rw [← hvalue₂] at hvalue hrvalue
  obtain ⟨heap₃, hset₃, hlinks₃, hvalue₃, -⟩ := setNext_spec hvalue (some root)
  rw [← hvalue₃] at hrvalue
  obtain ⟨heap₄, hset₄, hlinks₄, hvalue₄, -⟩ := setPrev_spec hrvalue (some t)
  have hlinks : linksOf heap₄ = (linksOf heap).link p t root := by
    rw [hlinks₄, hlinks₃, hlinks₂, hlinks₁]
    rfl
  refine ⟨heap₄, ?_, hlinks ▸ hrings', by rw [hvalue₄, hvalue₃, hvalue₂, hvalue₁]⟩
  simp [pushBack, hprev, hp.2, hset₁, hset₂, hset₃, hset₄]

omit [DecidableEq ι] in
/-- `IsEmpty` tells whether the list is empty, and otherwise the sentinel points
at the first timer. -/
theorem isEmpty_spec {root : Ptr} (hrings : (linksOf heap).Rings roots lists)
    (hroot : roots i = some root) :
    isEmpty heap root = .ok (decide (lists i = [])) ∧
      ∀ t rest, lists i = t :: rest → t ≠ root ∧ getNext heap root = .ok (some t) := by
  have hring := hrings.ring i root hroot
  obtain ⟨first, -, hfirst⟩ := hring.seg.exists_first
  obtain ⟨value, hvalue⟩ := exists_valueOf_of_next hfirst.1
  have hnext := getNext_spec hvalue
  cases hlist : lists i with
  | nil =>
    have hself : (linksOf heap).Adj root root := by
      have hseg := hring.seg
      rwa [hlist] at hseg
    simp [isEmpty, hnext, hself.1]
  | cons t rest =>
    have hhead : (linksOf heap).Adj root t := by
      have hseg := hring.seg
      rw [hlist] at hseg
      exact hseg.1
    have hne : t ≠ root := by
      have hnodup := hring.nodup
      rw [hlist] at hnodup
      rintro rfl
      simp at hnodup
    refine ⟨by simp [isEmpty, hnext, hhead.1, hne], ?_⟩
    intro t' rest' heq
    injection heq with ht _
    subst ht
    exact ⟨hne, by rw [hnext, hhead.1]⟩

end Lists

/-! ## The representation -/

/-- The lists of the wheel, by level and slot. -/
abbrev Lists : Type := Level × Int64 → List Ptr

def Lists.put (lists : Lists) (i : Level × Int64) (t : Ptr) : Lists :=
  Function.update lists i (lists i ++ [t])

variable {i : Level × Int64}

theorem Lists.mem_put {lists : Lists} {j : Level × Int64} {t u : Ptr} :
    u ∈ lists.put i t j ↔ u ∈ lists j ∨ j = i ∧ u = t := by
  by_cases heq : j = i
  · subst heq
    simp [put]
  · simp [put, heq]

/-- The wheel of `c` consists of `lists`. -/
structure Rep (c : Clock D) (lists : Lists) : Prop where
  rings : (linksOf c.heap).Rings c.tw lists
  inWheel : ∀ i, lists i ≠ [] → InWheel i
  slots : ∀ level, InWheel (level, c.slot level)
  known : ∀ i, ∀ t ∈ lists i, ∃ timer, valueOf c.heap t = some timer ∧ c.locs timer.id = some t
  linked : ∀ id t, c.locs id = some t →
    (∃ i, t ∈ lists i) ∧ ∃ timer, valueOf c.heap t = some timer ∧ timer.id = id

/-- The timer `t` is in no list, and apart from its id the wheel consists of
`lists`. -/
structure Held (c : Clock D) (lists : Lists) (t : Ptr) (timer : Timer D) : Prop where
  rep : Rep (c.deleteLoc timer.id) lists
  value : valueOf c.heap t = some timer
  free : ∀ j, t ∉ Links.members c.tw lists j

def table (c : Clock D) (id : Int) : Option (Timer D) := (c.locs id).bind (valueOf c.heap)

variable {c : Clock D} {lists : Lists} {t : Ptr} {timer : Timer D}

theorem rep_newClock : Rep (newClock : Clock D) fun _ => [] where
  rings :=
    { ring := by simp [newClock]
      empty := by simp
      apart := by simp [Links.members, newClock] }
  inWheel := by simp
  slots := by
    show ∀ level : Level, InWheel (level, 0)
    decide
  known := by simp
  linked := by simp [newClock]

/-- The representation does not look at ids, times or the log. -/
theorem Rep.congr (hrep : Rep c lists) {c' : Clock D} (hheap : c'.heap = c.heap)
    (htw : c'.tw = c.tw) (hlocs : c'.locs = c.locs)
    (hslots : ∀ level, InWheel (level, c'.slot level)) : Rep c' lists where
  rings := by rw [hheap, htw]; exact hrep.rings
  inWheel := hrep.inWheel
  slots := hslots
  known := by rw [hheap, hlocs]; exact hrep.known
  linked := by rw [hheap, hlocs]; exact hrep.linked

theorem Rep.advance (hrep : Rep c lists) (level : Level) :
    Rep { c with slot := Function.update c.slot level (c.nextSlot level) } lists := by
  refine hrep.congr rfl rfl rfl fun other => ?_
  by_cases heq : other = level
  · subst heq
    simpa [nextSlot] using inWheel_mask other (c.slot other + 1)
  · simpa [heq] using hrep.slots other

/-- The values of all linked timers are there. -/
theorem Rep.exists_value (hrep : Rep c lists) (ht : t ∈ lists i) :
    ∃ timer, valueOf c.heap t = some timer :=
  (hrep.known i t ht).imp fun _ h => h.1

/-- Every cell of a list has a value, so none of them is the next to be
allocated. -/
theorem Rep.fresh_free (hrep : Rep c lists) (j : Level × Int64) :
    c.heap.fresh ∉ Links.members c.tw lists j := by
  intro hmem
  obtain ⟨value, hvalue⟩ : ∃ value, valueOf c.heap c.heap.fresh = some value := by
    rcases List.mem_append.mp hmem with hroot | hlist
    · obtain ⟨first, -, hfirst⟩ := (hrep.rings.ring j _ (by simpa using hroot)).seg.exists_first
      exact exists_valueOf_of_next hfirst.1
    · exact hrep.exists_value hlist
  simp [valueOf_fresh] at hvalue

/-- Taking a timer out of its list leaves it held. -/
theorem Rep.hold (hrep : Rep c lists) (hlist : lists i = front ++ t :: back)
    {heap : Store (TimerCell D)}
    (hrings : (linksOf heap).Rings c.tw (Function.update lists i (front ++ back)))
    (hvalues : valueOf heap = valueOf c.heap) :
    ∃ timer, c.locs timer.id = some t ∧
      Held { c with heap } (Function.update lists i (front ++ back)) t timer := by
  have ht : t ∈ lists i := by simp [hlist]
  obtain ⟨timer, hvalue, hloc⟩ := hrep.known i t ht
  have hnodup := hrep.rings.nodup i
  rw [hlist] at hnodup
  have hnot : t ∉ front ++ back := by
    simp only [List.nodup_append, List.nodup_cons, List.mem_append] at hnodup ⊢
    grind
  -- the timers still linked are the old ones other than `t`
  have hstill : ∀ j u, u ∈ Function.update lists i (front ++ back) j ↔ u ∈ lists j ∧ u ≠ t := by
    intro j u
    by_cases heq : j = i
    · subst heq
      rw [Function.update_self, hlist]
      simp only [List.mem_append, List.mem_cons] at hnot ⊢
      grind
    · rw [Function.update_of_ne heq]
      refine (and_iff_left_of_imp ?_).symm
      rintro hu rfl
      exact heq (hrep.rings.apart j i u (Links.mem_members_of_mem hu)
        (Links.mem_members_of_mem ht))
  refine ⟨timer, hloc, ?_, by simpa [hvalues] using hvalue, ?_⟩
  · exact
      { rings := hrings
        inWheel := by
          intro j hj
          refine hrep.inWheel j ?_
          obtain ⟨u, hu⟩ := List.exists_mem_of_ne_nil _ hj
          exact List.ne_nil_of_mem ((hstill j u).mp hu).1
        slots := hrep.slots
        known := by
          intro j u hu
          obtain ⟨hu, hne⟩ := (hstill j u).mp hu
          obtain ⟨other, hother, hotherLoc⟩ := hrep.known j u hu
          have hid : other.id ≠ timer.id := by
            intro hid
            rw [hid, hloc] at hotherLoc
            exact hne (Option.some.inj hotherLoc).symm
          exact ⟨other, by simpa [deleteLoc, hvalues] using hother,
            by simpa [deleteLoc, hid] using hotherLoc⟩
        linked := by
          intro id u hu
          have hid : id ≠ timer.id := fun h => by simp [deleteLoc, h] at hu
          have hu' : c.locs id = some u := by simpa [deleteLoc, hid] using hu
          obtain ⟨⟨j, hj⟩, other, hother, rfl⟩ := hrep.linked id u hu'
          refine ⟨⟨j, (hstill j u).mpr ⟨hj, ?_⟩⟩, other, by simpa [deleteLoc, hvalues] using hother,
            rfl⟩
          rintro rfl
          exact hid (congrArg Timer.id (Option.some.inj (hother.symm.trans hvalue))) }
  · intro j hmem
    rcases List.mem_append.mp hmem with hroot | hlist'
    · have hroot' : c.tw j = some t := by simpa using hroot
      have hj : j = i := hrep.rings.apart j i t
        (by rw [Links.members_eq_cons hroot']; exact List.mem_cons_self)
        (Links.mem_members_of_mem ht)
      subst hj
      have hring := (hrep.rings.ring j t hroot').nodup
      exact (List.nodup_cons.mp hring).1 ht
    · exact ((hstill j t).mp hlist').2 rfl

/-- `delete(c.locs, timer.id)` for a held timer. -/
theorem Held.deleteLoc (hheld : Held c lists t timer) :
    Held (c.deleteLoc timer.id) lists t timer where
  rep := hheld.rep.congr rfl rfl (by simp [Clock.deleteLoc]) hheld.rep.slots
  value := hheld.value
  free := hheld.free

theorem Held.emit (hheld : Held c lists t timer) (event : Event D) :
    Held (c.emit event) lists t timer where
  rep := hheld.rep.congr rfl rfl rfl hheld.rep.slots
  value := hheld.value
  free := hheld.free

/-! ## The table -/

@[simp]
theorem table_deleteLoc (c : Clock D) (id : Int) :
    (c.deleteLoc id).table = Function.update c.table id none := by
  funext other
  by_cases heq : other = id
  · simp [table, deleteLoc, heq]
  · simp [table, deleteLoc, heq]

@[simp]
theorem table_emit (c : Clock D) (event : Event D) : (c.emit event).table = c.table := rfl

/-- A timer is pending under its own id. -/
theorem Rep.id_of_table (hrep : Rep c lists) {id : Int} (htable : c.table id = some timer) :
    timer.id = id := by
  obtain ⟨t, hloc, hvalue⟩ := Option.bind_eq_some_iff.mp htable
  obtain ⟨-, other, hother, rfl⟩ := hrep.linked id t hloc
  rw [Option.some.inj (hvalue.symm.trans hother)]

theorem Rep.table_isSome (hrep : Rep c lists) (id : Int) :
    (c.table id).isSome = (c.locs id).isSome := by
  cases hloc : c.locs id with
  | none => simp [table, hloc]
  | some t =>
    obtain ⟨-, timer, hvalue, -⟩ := hrep.linked id t hloc
    simp [table, hloc, hvalue]

/-- Linking a held timer makes it pending. -/
theorem Held.table_put (hheld : Held c lists t timer) {heap : Store (TimerCell D)}
    {tw : Level × Int64 → Option Ptr}
    (hkeep : ∀ p value, valueOf c.heap p = some value → valueOf heap p = some value) :
    ({ c with heap, tw, locs := Function.update c.locs timer.id (some t) } : Clock D).table =
      Function.update c.table timer.id (some timer) := by
  funext id
  by_cases heq : id = timer.id
  · simp [table, heq, hkeep t timer hheld.value]
  · cases hloc : c.locs id with
    | none => simp [table, heq, hloc]
    | some u =>
      have hloc' : (c.deleteLoc timer.id).locs id = some u := by
        simpa [Clock.deleteLoc, heq] using hloc
      obtain ⟨-, other, hother, -⟩ := hheld.rep.linked id u hloc'
      have hvalue : valueOf c.heap u = some other := hother
      simp [table, heq, hloc, hvalue, hkeep u other hvalue]

/-! ## Linking -/

/-- What `putTimer` does to the clock: the timer is linked at the end of the list
`i`, it is pending, and everything else is as before. -/
structure Relinked (c c' : Clock D) (lists : Lists) (i : Level × Int64) (t : Ptr)
    (timer : Timer D) : Prop where
  rep : Rep c' (lists.put i t)
  table : c'.table = Function.update c.table timer.id (some timer)
  value : valueOf c'.heap t = some timer
  keep : ∀ p value, valueOf c.heap p = some value → valueOf c'.heap p = some value
  roots : ∀ j root, c.tw j = some root → c'.tw j = some root
  genId : c'.genId = c.genId
  lastTime : c'.lastTime = c.lastTime
  slot : c'.slot = c.slot
  log : c'.log = c.log

variable [Inhabited D]

/-- The list of a slot exists afterwards, and nothing else changes. -/
theorem Held.rootAt_spec (hheld : Held c lists t timer) (hwheel : InWheel i) :
    ∃ heap tw root, c.rootAt i = .ok ({ c with heap, tw }, root) ∧ tw i = some root ∧
      Held { c with heap, tw } lists t timer ∧
      (∀ p value, valueOf c.heap p = some value → valueOf heap p = some value) ∧
      ∀ j other, c.tw j = some other → tw j = some other := by
  have hrings : (linksOf c.heap).Rings c.tw lists := hheld.rep.rings
  cases htw : c.tw i with
  | some root =>
    refine ⟨c.heap, c.tw, root, ?_, htw, hheld, fun p value h => h, fun j other h => h⟩
    simp [rootAt, listAt, hwheel, htw]
  | none =>
    obtain ⟨hlinks, hvalues⟩ := views_alloc c.heap
      (⟨default, some c.heap.fresh, some c.heap.fresh⟩ : TimerCell D)
    have hkeep : ∀ p value, valueOf c.heap p = some value →
        valueOf (newTimerList c.heap) p = some value := by
      intro p value hp
      have hne : p ≠ c.heap.fresh := fun h => by simp [h, valueOf_fresh] at hp
      rw [newTimerList, hvalues, Function.update_of_ne hne, hp]
    have hfresh : ∀ j, c.heap.fresh ∉ Links.members c.tw lists j := hheld.rep.fresh_free
    have hne : t ≠ c.heap.fresh := fun h => by
      have hvalue := hheld.value
      simp [h, valueOf_fresh] at hvalue
    refine ⟨newTimerList c.heap, Function.update c.tw i (some c.heap.fresh), c.heap.fresh, ?_,
      by simp, ⟨?_, hkeep t timer hheld.value, ?_⟩, hkeep, ?_⟩
    · simp [rootAt, listAt, hwheel, htw]
    · exact
        { rings := by
            have hopen := hrings.openList htw hfresh
            rw [← hlinks] at hopen
            exact hopen
          inWheel := hheld.rep.inWheel
          slots := hheld.rep.slots
          known := by
            intro j u hu
            obtain ⟨other, hother, hloc⟩ := hheld.rep.known j u hu
            exact ⟨other, hkeep u other hother, hloc⟩
          linked := by
            intro id u hu
            obtain ⟨hlist, other, hother, hid⟩ := hheld.rep.linked id u hu
            exact ⟨hlist, other, hkeep u other hother, hid⟩ }
    · intro j hmem
      by_cases heq : j = i
      · subst heq
        rcases List.mem_append.mp hmem with hroot | hlist
        · simp only [Function.update_self, Option.toList_some, List.mem_singleton] at hroot
          exact hne hroot
        · exact hheld.free j (Links.mem_members_of_mem hlist)
      · refine hheld.free j ?_
        simpa [Links.members, Function.update_of_ne heq] using hmem
    · intro j other hother
      have heq : j ≠ i := fun h => by simp [h, htw] at hother
      rw [Function.update_of_ne heq, hother]

/-- `putTimer` links a held timer at the end of a list. -/
theorem Held.putTimer_spec (hheld : Held c lists t timer) (hwheel : InWheel i) :
    ∃ c', c.putTimer i t = .ok c' ∧ Relinked c c' lists i t timer := by
  obtain ⟨heap₁, tw, root, hrootAt, hroot, hheld₁, hkeep, hroots⟩ := hheld.rootAt_spec hwheel
  obtain ⟨heap, hpush, hrings, hvalues⟩ :=
    pushBack_spec hheld₁.rep.rings hroot hheld₁.value hheld₁.free
  have hvalue : valueOf heap t = some timer := by rw [hvalues]; exact hheld₁.value
  have hkeep' : ∀ p value, valueOf c.heap p = some value → valueOf heap p = some value := by
    intro p value hp
    rw [hvalues]
    exact hkeep p value hp
  have hpush' : pushBack heap₁ root t = .ok heap := hpush
  refine ⟨{ c with heap, tw, locs := Function.update c.locs timer.id (some t) },
    by simp [putTimer, hrootAt, hpush', getValue_spec hvalue],
    { rep := ?_, table := hheld.table_put hkeep', value := hvalue, keep := hkeep', roots := hroots,
      genId := rfl, lastTime := rfl, slot := rfl, log := rfl }⟩
  exact
    { rings := hrings
      inWheel := by
        intro j hj
        by_cases heq : j = i
        · rwa [heq]
        · rw [Lists.put, Function.update_of_ne heq] at hj
          exact hheld.rep.inWheel j hj
      slots := hheld.rep.slots
      known := by
        intro j u hu
        rcases Lists.mem_put.mp hu with hu | ⟨rfl, rfl⟩
        · obtain ⟨other, hother, hloc⟩ := hheld₁.rep.known j u hu
          have hid : other.id ≠ timer.id := fun h => by simp [Clock.deleteLoc, h] at hloc
          have hloc' : c.locs other.id = some u := by
            simpa [Clock.deleteLoc, hid] using hloc
          exact ⟨other, by rw [hvalues]; exact hother, by simpa [hid] using hloc'⟩
        · exact ⟨timer, hvalue, by simp⟩
      linked := by
        intro id u hu
        by_cases hid : id = timer.id
        · subst hid
          obtain rfl : t = u := by simpa using hu
          exact ⟨⟨i, Lists.mem_put.mpr (Or.inr ⟨rfl, rfl⟩)⟩, timer, hvalue, rfl⟩
        · have hu' : (c.deleteLoc timer.id).locs id = some u := by
            simpa [Clock.deleteLoc, hid] using hu
          obtain ⟨⟨j, hj⟩, other, hother, hother'⟩ := hheld₁.rep.linked id u hu'
          exact ⟨⟨j, Lists.mem_put.mpr (Or.inl hj)⟩, other, by rw [hvalues]; exact hother,
            hother'⟩ }

/-- `addTimer` links a held timer where `place` says. -/
theorem Held.addTimer_spec (hheld : Held c lists t timer) :
    ∃ c', c.addTimer t = .ok c' ∧
      Relinked c c' lists (place c.slot timer.when c.lastTime) t timer := by
  obtain ⟨c', hput, hrelinked⟩ := hheld.putTimer_spec (inWheel_place c.slot timer.when c.lastTime)
  exact ⟨c', by simp [addTimer, getValue_spec hheld.value, hput], hrelinked⟩

end

end Gokit.Clock
