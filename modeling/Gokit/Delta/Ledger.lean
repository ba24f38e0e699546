/-
# The changes of an entity are applied once, in order

The items of a monitor are the updates and deletions that have been applied, then the
one the worker is at, then those in the channel.  For each entity, the changes in its
items, followed by those in its collector, are all the changes collected, in order; and
the changes in the updates after its last deletion, followed by those in its collector,
are the changes collected since then.  This is what every step preserves, provided
that an entity is deleted only when its collector is empty.

`DeleteEntity` does not empty the collector.  A change that is in it at that time stays,
and is written with the next update of the entity.
-/

import Gokit.Delta.Monitor
import Mathlib.Data.List.Induction

namespace Gokit.Delta

open Gokit.Math

/-! ## Reading the changes off the items -/

section Items

variable {ID P : Type} [DecidableEq ID]

def Item.changesOf (id : ID) : Item ID P → List P
  | update id' batch => if id' = id then batch else []
  | delete _ => []

def covered (id : ID) (items : List (Item ID P)) : List P := items.flatMap (Item.changesOf id)

/-- The effect of an item on the changes written since the last deletion. -/
def Item.upsert (id : ID) (written : List P) : Item ID P → List P
  | update id' batch => if id' = id then written ++ batch else written
  | delete id' => if id' = id then [] else written

/-- The changes of an entity in the updates after its last deletion. -/
def upserted (id : ID) (items : List (Item ID P)) : List P := items.foldl (Item.upsert id) []

variable (ID P) in
/-- A way to read the changes of an entity off the items, in which each update counts. -/
structure Tally where
  read : ID → List (Item ID P) → List P
  update : ∀ id id' items batch, read id (items ++ [.update id' batch]) =
    if id' = id then read id items ++ batch else read id items

theorem covered_append (id : ID) (items items' : List (Item ID P)) :
    covered id (items ++ items') = covered id items ++ covered id items' := List.flatMap_append

theorem covered_singleton (id : ID) (item : Item ID P) : covered id [item] = item.changesOf id :=
  List.append_nil _

def allChanges : Tally ID P where
  read := covered
  update := by
    intro id id' items batch
    rw [covered_append, covered_singleton, Item.changesOf]
    split
    · rfl
    · exact List.append_nil _

def lifeChanges : Tally ID P where
  read := upserted
  update := by
    intro id id' items batch
    rw [upserted, List.foldl_append]
    rfl

theorem upserted_append_delete (id id' : ID) (items : List (Item ID P)) :
    upserted id (items ++ [.delete id']) = if id' = id then [] else upserted id items := by
  rw [upserted, List.foldl_append]
  rfl

end Items

/-! ## What is where -/

/-- The content of the collector has been handed over: it has been sent and not yet reset, or
`Stop` has written it. -/
def Owner.Handed {ID : Type} (id : ID) : Owner ID → Prop
  | resetting id' _ => id' = id
  | flushing todo => id ∉ todo
  | stopped => True
  | _ => False

instance {ID : Type} [DecidableEq ID] (id : ID) (owner : Owner ID) :
    Decidable (owner.Handed id) := by
  cases owner <;> unfold Owner.Handed <;> infer_instance

/-- The owner is in `Stop`, or has left it. -/
def Owner.Ending {ID : Type} : Owner ID → Prop
  | cancelling | waiting | flushing _ | stopped => True
  | _ => False

/-- `Stop` writes what is left, or has done so. -/
def Owner.Flushing {ID : Type} : Owner ID → Prop
  | flushing _ | stopped => True
  | _ => False

def Worker.current {ID P : Type} : Worker ID P → List (Item ID P)
  | processing item | finishing item => [item]
  | _ => []

/-! ## What is selected to be saved -/

/-- The owner has only entities with `Q` to save, and none of them twice. -/
def Owner.Selects {ID : Type} (Q : ID → Prop) : Owner ID → Prop
  | ranging todo | flushing todo => ∀ id ∈ todo, Q id
  | saving _ id todo | resetting id todo => Q id ∧ id ∉ todo ∧ ∀ id' ∈ todo, Q id'
  | _ => True

section Selected

variable {ID P : Type} {Q : List P → Bool → Prop}

/-- What the collector and the mark of an entity satisfy if it is in `changes` or about to be
saved. -/
structure Selected (Q : List P → Bool → Prop) (m : Monitor ID P) : Prop where
  listed : ∀ id ∈ m.changes, Q (m.array id) (m.isDataChange id)
  owner : m.owner.Selects fun id => Q (m.array id) (m.isDataChange id)

namespace Selected

variable {m : Monitor ID P}

theorem saving (hm : Selected Q m) {must : Bool} {id : ID} {todo : List ID}
    (howner : m.owner = .saving must id todo) : Q (m.array id) (m.isDataChange id) := by
  have hselects := hm.owner
  rw [howner] at hselects
  exact hselects.1

theorem flushing (hm : Selected Q m) {todo : List ID} (howner : m.owner = .flushing todo) :
    ∀ id ∈ todo, Q (m.array id) (m.isDataChange id) := by
  have hselects := hm.owner
  rw [howner] at hselects
  exact hselects

variable [DecidableEq ID]

theorem change (hm : Selected Q m) (hQ : ∀ array p, Q (array ++ [p]) true)
    (hidle : m.owner = .idle) (id : ID) (p : P) : Selected Q (m.change id p) := by
  -- the entity is marked, and the others are as they were
  have hkeep : ∀ flags : ID → Bool, flags id = true →
      (∀ id', id' ≠ id → flags id' = m.isDataChange id') → ∀ id', id' ∈ m.changes ∨ id' = id →
      Q (Function.update m.array id (m.array id ++ [p]) id') (flags id') := by
    intro flags hflag hother id' hmem
    by_cases heq : id' = id
    · rw [heq, Function.update_self, hflag]
      exact hQ _ p
    · rw [Function.update_of_ne heq, hother id' heq]
      exact hm.listed id' (hmem.resolve_right heq)
  have howner : ∀ Q' : ID → Prop, m.owner.Selects Q' := by
    rw [hidle]
    exact fun _ => trivial
  unfold Monitor.change
  dsimp only
  split
  · rename_i hflag
    exact ⟨fun id' hmem => hkeep _ hflag (fun _ _ => rfl) id' (.inl hmem), howner _⟩
  · refine ⟨fun id' hmem => ?_, howner _⟩
    refine hkeep _ (Function.update_self ..) (fun _ h => Function.update_of_ne h ..) id' ?_
    dsimp only at hmem
    split at hmem
    · exact .inl hmem
    · exact (List.mem_append.mp hmem).imp_right List.mem_singleton.mp

/-- The emptied collector leaves `changes`, and is not visited again. -/
theorem reset (hm : Selected Q m) : Selected Q m.reset := by
  unfold Monitor.reset
  split
  · rename_i id todo howner
    have hselects := hm.owner
    rw [howner] at hselects
    have hkeep : ∀ id', id' ≠ id → Q (m.array id') (m.isDataChange id') →
        Q (Function.update m.array id [] id') (Function.update m.isDataChange id false id') := by
      intro id' hne h
      rw [Function.update_of_ne hne, Function.update_of_ne hne]
      exact h
    refine ⟨fun id' hmem => ?_, fun id' hmem => ?_⟩
    · obtain ⟨hmem, hne⟩ := mem_filter_ne.mp hmem
      exact hkeep id' hne (hm.listed id' hmem)
    · exact hkeep id' (fun heq => hselects.2.1 (heq ▸ hmem)) (hselects.2.2 id' hmem)
  · exact hm

theorem deleteEntity (hm : Selected Q m) (id : ID) : Selected Q (m.deleteEntity id) := by
  refine ⟨fun id' hmem => ?_, trivial⟩
  obtain ⟨hmem, hne⟩ := mem_filter_ne.mp hmem
  show Q (m.array id') (Function.update m.isDataChange id false id')
  rw [Function.update_of_ne hne]
  exact hm.listed id' hmem

/-- **Every step selects only what has `Q`**, if `SaveEntity` does and a change makes it true. -/
theorem next (hm : Selected Q m) (hQ : ∀ array p, Q (array ++ [p]) true) {a : Action ID P}
    (henabled : m.Enabled a)
    (hsave : ∀ id, a = .saveEntity id → Q (m.array id) (m.isDataChange id)) :
    Selected Q (m.next a) := by
  have hselects := hm.owner
  cases a with
  | change id p => exact hm.change hQ henabled id p
  | saveEntity id =>
    exact ⟨hm.listed, hsave id rfl, List.not_mem_nil, fun _ h => absurd h List.not_mem_nil⟩
  | saveChangedDatas | wait => exact ⟨hm.listed, hm.listed⟩
  | visit id =>
    obtain ⟨todo, howner, hmem⟩ := henabled
    rw [howner] at hselects
    simp only [Monitor.next, howner]
    exact ⟨hm.listed, hselects id hmem, fun h => (mem_filter_ne.mp h).2 rfl,
      fun id' h => hselects id' (List.mem_filter.mp h).1⟩
  | put =>
    obtain ⟨⟨must, id, todo, howner⟩, -⟩ := henabled
    rw [howner] at hselects
    simp only [Monitor.next, Monitor.put, howner]
    exact ⟨hm.listed, hselects⟩
  | refuse =>
    obtain ⟨⟨id, todo, howner⟩, -⟩ := henabled
    rw [howner] at hselects
    simp only [Monitor.next, Monitor.refuse, howner]
    exact ⟨hm.listed, hselects.2.2⟩
  | reset => exact hm.reset
  | deleteEntity id => exact hm.deleteEntity id
  | putDelete =>
    obtain ⟨⟨id, howner⟩, -⟩ := henabled
    simp only [Monitor.next, Monitor.putDelete, howner]
    exact ⟨hm.listed, trivial⟩
  | flush id =>
    obtain ⟨todo, howner, -⟩ := henabled
    rw [howner] at hselects
    simp only [Monitor.next, Monitor.flush, howner]
    exact ⟨hm.listed, fun id' h => hselects id' (List.mem_filter.mp h).1⟩
  | recv | apply =>
    simp only [Monitor.next, Monitor.recv, Monitor.apply]
    split <;> exact ⟨hm.listed, hselects⟩
  | parentDone | notice | exit => exact ⟨hm.listed, hselects⟩
  | «return» | stop | cancel | finish => exact ⟨hm.listed, trivial⟩

end Selected

end Selected

/-- A collector has changes only while its entity is marked. -/
def Clean {P : Type} (array : List P) (isDataChange : Bool) : Prop :=
  isDataChange = false → array = []

section Ledger

variable {ID P : Type} [DecidableEq ID]

namespace Monitor

/-- `DeleteEntity` has left no changes in the collector. -/
def Clean (m : Monitor ID P) (id : ID) : Prop := Delta.Clean (m.array id) (m.isDataChange id)

/-- The items that are enqueued or being processed. -/
def underway (m : Monitor ID P) : List (Item ID P) := m.worker.current ++ m.deltas

def items (m : Monitor ID P) : List (Item ID P) := m.applied ++ m.underway

/-- The changes that are only in the collector. -/
def unsaved (m : Monitor ID P) (id : ID) : List P := if m.owner.Handed id then [] else m.array id

end Monitor

/-- The changes in the items begin a history, and if the collector is clean, those in the
collector complete it. -/
def Balanced (t : Tally ID P) (history : ID → List P) (m : Monitor ID P) : Prop :=
  ∀ id, t.read id m.items <+: history id ∧
    (m.Clean id → history id = t.read id m.items ++ m.unsaved id)

/-- Of two states of the owner, neither has handed anything over, or both the same. -/
theorem Balanced.of_eq {t : Tally ID P} {history : ID → List P} {m m' : Monitor ID P}
    (hb : Balanced t history m) (hitems : m'.items = m.items)
    (hunsaved : ∀ id, m'.Clean id → m.Clean id ∧ m'.unsaved id = m.unsaved id) :
    Balanced t history m' := by
  intro id
  rw [hitems]
  refine ⟨(hb id).1, fun hclean => ?_⟩
  rw [(hunsaved id hclean).2]
  exact (hb id).2 (hunsaved id hclean).1

/-- An update takes over the content of a collector. -/
theorem Balanced.of_update {t : Tally ID P} {history : ID → List P} {m m' : Monitor ID P}
    (hb : Balanced t history m) {id : ID} (hclean : m.Clean id) {batch : List P}
    (hitems : m'.items = m.items ++ [.update id batch]) (hbefore : m.unsaved id = batch)
    (hafter : m'.unsaved id = [])
    (hother : ∀ id', id ≠ id' → m'.Clean id' → m.Clean id' ∧ m'.unsaved id' = m.unsaved id') :
    Balanced t history m' := by
  intro id'
  rw [hitems, t.update]
  by_cases heq : id = id'
  · subst heq
    have hall : history id = t.read id m.items ++ batch := hbefore ▸ (hb id).2 hclean
    rw [if_pos rfl, hafter, List.append_nil, ← hall]
    exact ⟨List.prefix_rfl, fun _ => rfl⟩
  · rw [if_neg heq]
    refine ⟨(hb id').1, fun hclean' => ?_⟩
    rw [(hother id' heq hclean').2]
    exact (hb id').2 (hother id' heq hclean').1

/-- The books of a monitor. -/
structure Ledger (m : Monitor ID P) : Prop where
  whole : Balanced allChanges m.collected m
  life : Balanced lifeChanges m.since m
  listed : ∀ id, m.isDataChange id = true → id ∈ m.changes
  unmarked : ∀ id, m.owner = .deleting id → m.isDataChange id = false
  shut : m.closed = true → m.owner.Ending
  drained : m.worker = .done → m.closed = true ∧ m.deltas = []
  ended : m.owner.Flushing → m.worker = .done

/-- An entity whose collector was not empty when it was deleted is neither changed nor saved. -/
def CleanDeletes (m : Monitor ID P) : Action ID P → Prop
  | .change id _ | .saveEntity id => m.Clean id
  | _ => True

variable {a : Action ID P}

namespace Ledger

variable {m : Monitor ID P}

theorem not_done (hm : Ledger m) (hopen : ¬ m.owner.Ending) : m.worker ≠ .done :=
  fun hdone => hopen (hm.shut (hm.drained hdone).1)

theorem unsaved_eq (m : Monitor ID P) {owner : Owner ID} {id : ID} (howner : m.owner = owner)
    (hnot : ¬ owner.Handed id) : m.unsaved id = m.array id :=
  if_neg (howner ▸ hnot)

/-! ### The owner -/

/-- A step of the owner that touches neither the channel nor the collectors. -/
theorem move (hm : Ledger m) {owner : Owner ID} (hnot : ∀ id, ¬ m.owner.Handed id)
    (hnot' : ∀ id, ¬ owner.Handed id) (hdeleting : ∀ id, owner ≠ .deleting id)
    (hending : m.owner.Ending → owner.Ending) (hflushing : ¬ owner.Flushing) :
    Ledger { m with owner := owner } := by
  have hunsaved : ∀ id, m.Clean id → m.Clean id ∧
      Monitor.unsaved { m with owner := owner } id = m.unsaved id := by
    intro id hclean
    rw [unsaved_eq m rfl (hnot id)]
    exact ⟨hclean, if_neg (hnot' id)⟩
  exact
    { whole := hm.whole.of_eq rfl hunsaved
      life := hm.life.of_eq rfl hunsaved
      listed := hm.listed
      unmarked := fun id h => absurd h (hdeleting id)
      shut := fun h => hending (hm.shut h)
      drained := hm.drained
      ended := fun h => absurd h hflushing }

theorem listed_unmark (hm : Ledger m) (id : ID) :
    ∀ id', Function.update m.isDataChange id false id' = true →
      id' ∈ m.changes.filter (· ≠ id) := by
  intro id' hflag
  have hne : id' ≠ id := by
    rintro rfl
    exact Bool.false_ne_true ((Function.update_self ..).symm.trans hflag)
  exact mem_filter_ne.mpr
    ⟨hm.listed id' ((Function.update_of_ne hne ..).symm.trans hflag), hne⟩

theorem collect (hm : Ledger m) (hidle : m.owner = .idle) {id : ID} (hclean : m.Clean id) (p : P)
    {isDataChange : ID → Bool} {changes : List ID}
    (hother : ∀ id', id' ≠ id → isDataChange id' = m.isDataChange id')
    (hlisted : ∀ id', isDataChange id' = true → id' ∈ changes) :
    Ledger { m with
      array := Function.update m.array id (m.array id ++ [p])
      collected := Function.update m.collected id (m.collected id ++ [p])
      since := Function.update m.since id (m.since id ++ [p])
      isDataChange := isDataChange, changes := changes } := by
  have hnot : ∀ id, ¬ m.owner.Handed id := by
    rw [hidle]
    exact fun _ => not_false
  have hbalanced : ∀ (t : Tally ID P) (history : ID → List P), Balanced t history m → ∀ id',
      t.read id' m.items <+: Function.update history id (history id ++ [p]) id' ∧
        (Clean (Function.update m.array id (m.array id ++ [p]) id') (isDataChange id') →
          Function.update history id (history id ++ [p]) id' = t.read id' m.items ++
            (if m.owner.Handed id' then []
              else Function.update m.array id (m.array id ++ [p]) id')) := by
    intro t history hb id'
    obtain ⟨hbegin, hall⟩ := hb id'
    rw [unsaved_eq m rfl (hnot id')] at hall
    rw [if_neg (hnot id')]
    by_cases heq : id' = id
    · subst heq
      rw [Function.update_self, Function.update_self, hall hclean, List.append_assoc]
      exact ⟨List.prefix_append _ _, fun _ => rfl⟩
    · rw [Function.update_of_ne heq, Function.update_of_ne heq, hother id' heq]
      exact ⟨hbegin, hall⟩
  exact ⟨hbalanced _ _ hm.whole, hbalanced _ _ hm.life, hlisted,
    fun id' h => (nomatch hidle.symm.trans h), hm.shut, hm.drained, hm.ended⟩

theorem change (hm : Ledger m) (hidle : m.owner = .idle) {id : ID} (hclean : m.Clean id) (p : P) :
    Ledger (m.change id p) := by
  unfold Monitor.change
  dsimp only
  split
  · exact hm.collect hidle hclean p (fun _ _ => rfl) hm.listed
  · refine hm.collect hidle hclean p (fun _ h => Function.update_of_ne h ..) ?_
    intro id' h
    have hmem : id' = id ∨ id' ∈ m.changes := by
      by_cases heq : id' = id
      · exact .inl heq
      · rw [Function.update_of_ne heq] at h
        exact .inr (hm.listed id' h)
    split
    · rename_i hin
      rcases hmem with rfl | hmem
      · exact hin
      · exact hmem
    · rw [List.mem_append, List.mem_singleton]
      exact hmem.symm

/-- The update is in the channel, so the collector does not count any more. -/
theorem put (hm : Ledger m) (hselected : Selected Clean m) : Ledger m.put := by
  unfold Monitor.put
  split
  · rename_i must id todo howner
    have hopen : ¬ m.owner.Ending := by
      rw [howner]
      exact not_false
    have hnot : ∀ id', ¬ m.owner.Handed id' := by
      rw [howner]
      exact fun _ => not_false
    have hbalanced : ∀ (t : Tally ID P) (history : ID → List P), Balanced t history m →
        Balanced t history { m with
          deltas := m.deltas ++ [.update id (m.array id)], owner := .resetting id todo } := by
      intro t history hb
      refine hb.of_update (hselected.saving howner) ?_ (unsaved_eq m rfl (hnot id)) (if_pos rfl) ?_
      · simp only [Monitor.items, Monitor.underway, List.append_assoc]
      · intro id' hne hclean
        rw [unsaved_eq m rfl (hnot id')]
        exact ⟨hclean, if_neg hne⟩
    exact ⟨hbalanced _ _ hm.whole, hbalanced _ _ hm.life, hm.listed, nofun,
      fun h => absurd (hm.shut h) hopen, fun h => absurd h (hm.not_done hopen), False.elim⟩
  · exact hm

theorem refuse (hm : Ledger m) : Ledger m.refuse := by
  unfold Monitor.refuse
  split
  · rename_i must id todo howner
    refine hm.move ?_ (fun _ => not_false) nofun ?_ not_false
    · rw [howner]
      exact fun _ => not_false
    · rw [howner]
      exact False.elim
  · exact hm

theorem reset (hm : Ledger m) (hselected : Selected Clean m) : Ledger m.reset := by
  unfold Monitor.reset
  split
  · rename_i id todo howner
    have hopen : ¬ m.owner.Ending := by
      rw [howner]
      exact not_false
    have hselects := hselected.owner
    rw [howner] at hselects
    have hunsaved : ∀ id', Clean (Function.update m.array id [] id')
        (Function.update m.isDataChange id false id') →
        m.Clean id' ∧ Function.update m.array id [] id' = m.unsaved id' := by
      intro id' hclean
      rw [Monitor.unsaved, howner]
      show _ ∧ _ = if id = id' then [] else m.array id'
      by_cases heq : id = id'
      · rw [if_pos heq, ← heq, Function.update_self]
        exact ⟨hselects.1, rfl⟩
      · rw [Function.update_of_ne (Ne.symm heq), Function.update_of_ne (Ne.symm heq)] at hclean
        rw [if_neg heq, Function.update_of_ne (Ne.symm heq)]
        exact ⟨hclean, rfl⟩
    exact ⟨hm.whole.of_eq rfl hunsaved, hm.life.of_eq rfl hunsaved, hm.listed_unmark id, nofun,
      fun h => absurd (hm.shut h) hopen, fun h => absurd h (hm.not_done hopen), False.elim⟩
  · exact hm

theorem deleteEntity (hm : Ledger m) (hidle : m.owner = .idle) (id : ID) :
    Ledger (m.deleteEntity id) := by
  have hopen : ¬ m.owner.Ending := by
    rw [hidle]
    exact not_false
  have hunsaved : ∀ id', (m.deleteEntity id).Clean id' →
      m.Clean id' ∧ (m.deleteEntity id).unsaved id' = m.unsaved id' := by
    intro id' hclean
    rw [unsaved_eq m hidle not_false]
    refine ⟨fun hflag => hclean ?_, if_neg not_false⟩
    by_cases heq : id' = id
    · exact heq ▸ Function.update_self ..
    · exact (Function.update_of_ne heq ..).trans hflag
  refine ⟨hm.whole.of_eq rfl hunsaved, hm.life.of_eq rfl hunsaved, hm.listed_unmark id, ?_,
    fun h => absurd (hm.shut h) hopen, fun h => absurd h (hm.not_done hopen), False.elim⟩
  intro id' h
  obtain rfl := Owner.deleting.inj h
  exact Function.update_self ..

/-- The flag is in the channel: the entity starts anew. -/
theorem putDelete (hm : Ledger m) : Ledger m.putDelete := by
  unfold Monitor.putDelete
  split
  · rename_i id howner
    have hopen : ¬ m.owner.Ending := by
      rw [howner]
      exact not_false
    have hunsaved : ∀ id', m.unsaved id' = m.array id' := fun id' =>
      unsaved_eq m howner not_false
    have hunmarked := hm.unmarked id howner
    have hitems : Monitor.items { m with
        deltas := m.deltas ++ [.delete id], owner := .idle
        since := Function.update m.since id [] } = m.items ++ [.delete id] := by
      simp only [Monitor.items, Monitor.underway, List.append_assoc]
    refine ⟨?_, ?_, hm.listed, nofun, fun h => absurd (hm.shut h) hopen,
      fun h => absurd h (hm.not_done hopen), False.elim⟩
    · intro id'
      have hold := hm.whole id'
      rw [hunsaved] at hold
      rw [hitems]
      show covered id' (m.items ++ [.delete id]) <+: m.collected id' ∧ (m.Clean id' →
        m.collected id' = covered id' (m.items ++ [.delete id]) ++ m.array id')
      rw [covered_append, covered_singleton, Item.changesOf, List.append_nil]
      exact hold
    · intro id'
      have hold := hm.life id'
      rw [hunsaved] at hold
      rw [hitems]
      show upserted id' (m.items ++ [.delete id]) <+: Function.update m.since id [] id' ∧
        (m.Clean id' → Function.update m.since id [] id' =
          upserted id' (m.items ++ [.delete id]) ++ m.array id')
      rw [upserted_append_delete]
      by_cases heq : id = id'
      · subst heq
        rw [if_pos rfl, Function.update_self]
        exact ⟨List.prefix_rfl, fun hclean => (hclean hunmarked).symm⟩
      · rw [if_neg heq, Function.update_of_ne (Ne.symm heq)]
        exact hold
  · exact hm

/-! ### `Stop` -/

theorem stop (hm : Ledger m) (hidle : m.owner = .idle) :
    Ledger { m with closed := true, owner := .cancelling } := by
  have hopen : ¬ m.owner.Ending := by
    rw [hidle]
    exact not_false
  have hunsaved : ∀ id, m.Clean id → m.Clean id ∧
      Monitor.unsaved { m with closed := true, owner := .cancelling } id = m.unsaved id := by
    intro id hclean
    rw [unsaved_eq m hidle not_false]
    exact ⟨hclean, if_neg not_false⟩
  exact ⟨hm.whole.of_eq rfl hunsaved, hm.life.of_eq rfl hunsaved, hm.listed, nofun,
    fun _ => trivial, fun h => absurd h (hm.not_done hopen), False.elim⟩

/-- What is not in `changes` has nothing left. -/
theorem wait (hm : Ledger m) (howner : m.owner = .waiting) (hdone : m.worker = .done) :
    Ledger { m with owner := .flushing m.changes } := by
  have hunsaved : ∀ id, m.Clean id → m.Clean id ∧
      Monitor.unsaved { m with owner := .flushing m.changes } id = m.unsaved id := by
    intro id hclean
    rw [unsaved_eq m howner not_false]
    refine ⟨hclean, ?_⟩
    show (if id ∉ m.changes then [] else m.array id) = m.array id
    split
    · rename_i hnot
      exact (hclean (eq_false_of_ne_true fun hflag => hnot (hm.listed id hflag))).symm
    · rfl
  exact ⟨hm.whole.of_eq rfl hunsaved, hm.life.of_eq rfl hunsaved, hm.listed, nofun,
    fun _ => trivial, hm.drained, fun _ => hdone⟩

theorem flush (hm : Ledger m) (hselected : Selected Clean m) (id : ID)
    (hmem : ∀ todo, m.owner = .flushing todo → id ∈ todo) : Ledger (m.flush id) := by
  unfold Monitor.flush
  split
  · rename_i todo howner
    have hdone : m.worker = .done := hm.ended (by rw [howner]; trivial)
    have hdeltas := (hm.drained hdone).2
    have hunsaved : ∀ id', m.unsaved id' = if id' ∉ todo then [] else m.array id' := by
      intro id'
      rw [Monitor.unsaved, howner]
      rfl
    have hbalanced : ∀ (t : Tally ID P) (history : ID → List P), Balanced t history m →
        Balanced t history { m with
          applied := m.applied ++ [.update id (m.array id)]
          owner := .flushing (todo.filter (· ≠ id)) } := by
      intro t history hb
      have hitems : Monitor.items { m with
          applied := m.applied ++ [.update id (m.array id)]
          owner := .flushing (todo.filter (· ≠ id)) } = m.items ++ [.update id (m.array id)] := by
        simp [Monitor.items, Monitor.underway, hdone, hdeltas, Worker.current]
      refine hb.of_update (hselected.flushing howner id (hmem todo howner)) hitems ?_
        (if_pos fun h => (mem_filter_ne.mp h).2 rfl) ?_
      · rw [hunsaved, if_neg (not_not_intro (hmem todo howner))]
      · intro id' hne hclean
        rw [hunsaved]
        refine ⟨hclean, if_congr (not_congr ?_) rfl rfl⟩
        exact mem_filter_ne.trans (and_iff_left (Ne.symm hne))
    exact ⟨hbalanced _ _ hm.whole, hbalanced _ _ hm.life, hm.listed, nofun,
      fun _ => trivial, hm.drained, fun _ => hdone⟩
  · exact hm

theorem finish (hm : Ledger m) (howner : m.owner = .flushing []) :
    Ledger { m with owner := .stopped } := by
  have hdone : m.worker = .done := hm.ended (by rw [howner]; trivial)
  have hunsaved : ∀ id, m.Clean id → m.Clean id ∧
      Monitor.unsaved { m with owner := .stopped } id = m.unsaved id := by
    intro id hclean
    rw [Monitor.unsaved, Monitor.unsaved, howner]
    exact ⟨hclean, rfl⟩
  exact ⟨hm.whole.of_eq rfl hunsaved, hm.life.of_eq rfl hunsaved, hm.listed, nofun,
    fun _ => trivial, hm.drained, fun _ => hdone⟩

/-! ### The worker -/

theorem work (hm : Ledger m) {worker : Worker ID P} {deltas applied : List (Item ID P)}
    (hitems : applied ++ (worker.current ++ deltas) = m.items)
    (hdone : worker = .done → m.closed = true ∧ deltas = []) (hbusy : m.worker ≠ .done) :
    Ledger { m with worker := worker, deltas := deltas, applied := applied } where
  whole := hm.whole.of_eq hitems fun _ hclean => ⟨hclean, rfl⟩
  life := hm.life.of_eq hitems fun _ hclean => ⟨hclean, rfl⟩
  listed := hm.listed
  unmarked := hm.unmarked
  shut := hm.shut
  drained := hdone
  ended := fun h => absurd (hm.ended h) hbusy

theorem recv (hm : Ledger m) : Ledger m.recv := by
  unfold Monitor.recv
  split
  · rename_i item rest hworker hdeltas
    refine hm.work ?_ nofun (by rw [hworker]; nofun)
    rw [Monitor.items, Monitor.underway, hworker, hdeltas]
    rfl
  · rename_i item rest hworker hdeltas
    refine hm.work ?_ nofun (by rw [hworker]; nofun)
    rw [Monitor.items, Monitor.underway, hworker, hdeltas]
    rfl
  · exact hm

theorem apply (hm : Ledger m) : Ledger m.apply := by
  unfold Monitor.apply
  split
  · rename_i item hworker
    refine hm.work ?_ nofun (by rw [hworker]; nofun)
    rw [Monitor.items, Monitor.underway, hworker, List.append_assoc]
    rfl
  · rename_i item hworker
    refine hm.work ?_ nofun (by rw [hworker]; nofun)
    rw [Monitor.items, Monitor.underway, hworker, List.append_assoc]
    rfl
  · exact hm

/-- **Every step keeps the books**, if only clean entities are changed and saved. -/
theorem next (hm : Ledger m) (hselected : Selected Clean m) (henabled : m.Enabled a)
    (hok : CleanDeletes m a) : Ledger (m.next a) := by
  -- the states between two operations have nothing handed over, and are not in `Stop`
  have hplain : ∀ {owner : Owner ID}, (owner = .idle ∨ ∃ todo, owner = .ranging todo) →
      (∀ id, ¬ owner.Handed id) ∧ ¬ owner.Ending := by
    rintro owner (rfl | ⟨_, rfl⟩) <;> exact ⟨fun _ => not_false, not_false⟩
  cases a with
  | change id p => exact hm.change henabled hok p
  | saveEntity id | saveChangedDatas =>
    have hfrom := hplain (.inl henabled)
    exact hm.move hfrom.1 (fun _ => not_false) nofun (fun h => absurd h hfrom.2) not_false
  | visit id =>
    obtain ⟨todo, howner, _⟩ := henabled
    have hfrom := hplain (.inr ⟨todo, howner⟩)
    simp only [Monitor.next, howner]
    exact hm.move hfrom.1 (fun _ => not_false) nofun (fun h => absurd h hfrom.2) not_false
  | put => exact hm.put hselected
  | refuse => exact hm.refuse
  | reset => exact hm.reset hselected
  | «return» =>
    have hfrom := hplain (.inr ⟨[], henabled⟩)
    exact hm.move hfrom.1 (fun _ => not_false) nofun (fun h => absurd h hfrom.2) not_false
  | deleteEntity id => exact hm.deleteEntity henabled id
  | putDelete => exact hm.putDelete
  | stop => exact hm.stop henabled
  | cancel =>
    have howner : m.owner = .cancelling := henabled
    have hmoved : Ledger { m with owner := .waiting } := by
      refine hm.move ?_ (fun _ => not_false) nofun (fun _ => trivial) not_false
      rw [howner]
      exact fun _ => not_false
    exact { hmoved with }
  | wait => exact hm.wait henabled.1 henabled.2
  | flush id =>
    obtain ⟨todo, howner, hmem⟩ := henabled
    refine hm.flush hselected id fun todo' h => ?_
    rw [howner] at h
    rwa [← Owner.flushing.inj h]
  | finish => exact hm.finish henabled
  | parentDone => exact { hm with }
  | recv => exact hm.recv
  | notice =>
    refine hm.work ?_ nofun (by rw [henabled.1]; nofun)
    rw [Monitor.items, Monitor.underway, henabled.1]
    rfl
  | apply => exact hm.apply
  | exit =>
    refine hm.work ?_ (fun _ => ⟨henabled.2.2, henabled.2.1⟩) (by rw [henabled.1]; nofun)
    rw [Monitor.items, Monitor.underway, henabled.1]
    rfl

end Ledger

theorem ledger_init : Ledger (monitor ID P).init ∧ Selected Clean (monitor ID P).init where
  left := ⟨fun _ => ⟨List.prefix_rfl, fun _ => rfl⟩, fun _ => ⟨List.prefix_rfl, fun _ => rfl⟩,
    nofun, nofun, nofun, nofun, False.elim⟩
  right := ⟨nofun, trivial⟩

/-- What the two invariants need of a step. -/
theorem ledger_next {m : Monitor ID P} (hm : Ledger m ∧ Selected Clean m) (henabled : m.Enabled a)
    (hok : CleanDeletes m a) : Ledger (m.next a) ∧ Selected Clean (m.next a) where
  left := hm.1.next hm.2 henabled hok
  right := by
    refine hm.2.next (fun _ _ => nofun) henabled ?_
    rintro id rfl
    exact hok

def NoDeletes (_ : Monitor ID P) : Action ID P → Prop
  | .deleteEntity _ => False
  | _ => True

/-- Without deletions every collector is clean. -/
theorem clean_next {m : Monitor ID P} (hm : ∀ id, m.Clean id) (hok : NoDeletes m a) (id : ID) :
    (m.next a).Clean id := by
  cases a with
  | change id' p =>
    simp only [Monitor.next, Monitor.change]
    split
    · rename_i hflag
      intro hmark
      have hne : id ≠ id' := by
        rintro rfl
        exact Bool.false_ne_true (hmark.symm.trans hflag)
      exact (Function.update_of_ne hne ..).trans (hm id hmark)
    · intro hmark
      have hne : id ≠ id' := by
        rintro rfl
        exact Bool.false_ne_true (hmark.symm.trans (Function.update_self ..))
      exact (Function.update_of_ne hne ..).trans
        (hm id ((Function.update_of_ne hne ..).symm.trans hmark))
  | reset =>
    simp only [Monitor.next, Monitor.reset]
    split
    · rename_i id' todo howner
      intro hmark
      by_cases heq : id = id'
      · exact heq ▸ Function.update_self ..
      · exact (Function.update_of_ne heq ..).trans
          (hm id ((Function.update_of_ne heq ..).symm.trans hmark))
    · exact hm id
  | deleteEntity => exact hok.elim
  | visit | put | refuse | putDelete | flush | recv | apply =>
    simp only [Monitor.next, Monitor.put, Monitor.refuse, Monitor.putDelete, Monitor.flush,
      Monitor.recv, Monitor.apply]
    split <;> exact hm id
  | _ => exact hm id

end Ledger

/-! ## No change is lost or applied twice -/

/-- **No change is lost or duplicated.**  In every state of every run without deletions:
the changes collected for an entity are, each once and in order, those in its applied
updates, those in the updates enqueued or being processed, and those in its collector,
unless the content of the collector has just been handed over;
an entity whose collector is not empty is marked and in `changes`;
a refused `PutEntity` leaves the collectors and `changes` as they were;
and after `Stop` all changes have been applied, in the order they were collected. -/
theorem run_balanced {ID P : Type} [DecidableEq ID] {m : Monitor ID P}
    (hrun : (monitor ID P).Run NoDeletes m) :
    (∀ id, m.collected id = covered id m.applied ++ covered id m.underway ++
      (if m.owner.Handed id then [] else m.array id)) ∧
    (∀ id, m.array id ≠ [] → m.isDataChange id = true ∧ id ∈ m.changes) ∧
    (m.Enabled .refuse → (m.next .refuse).array = m.array ∧
      (m.next .refuse).isDataChange = m.isDataChange ∧ (m.next .refuse).changes = m.changes) ∧
    (m.owner = .stopped → ∀ id, covered id m.applied = m.collected id) := by
  have hinv : (Ledger m ∧ Selected Clean m) ∧ ∀ id, m.Clean id := by
    apply hrun.invariant
    · exact ⟨ledger_init, fun _ _ => rfl⟩
    · intro s a hs henabled hok
      have hclean : CleanDeletes s a := by
        cases a <;> first | exact hs.2 _ | trivial
      exact ⟨ledger_next hs.1 henabled hclean, clean_next hs.2 hok⟩
  obtain ⟨⟨hm, -⟩, hclean⟩ := hinv
  have hwhole : ∀ id, m.collected id = covered id m.applied ++ covered id m.underway ++
      (if m.owner.Handed id then [] else m.array id) := by
    intro id
    rw [← covered_append]
    exact (hm.whole id).2 (hclean id)
  refine ⟨hwhole, ?_, ?_, ?_⟩
  · intro id harray
    have hmark : m.isDataChange id = true :=
      eq_true_of_ne_false fun hmark => harray (hclean id hmark)
    exact ⟨hmark, hm.listed id hmark⟩
  · rintro ⟨⟨id, todo, howner⟩, _⟩
    simp only [Monitor.next, Monitor.refuse, howner, and_self]
  · intro hstopped id
    have hdone : m.worker = .done := hm.ended (by rw [hstopped]; trivial)
    have hunderway : m.underway = [] := by
      rw [Monitor.underway, hdone, (hm.drained hdone).2]
      rfl
    have hall := hwhole id
    rw [hunderway, hstopped, if_pos (show Owner.Handed id .stopped from trivial)] at hall
    rw [hall]
    simp [covered]

/-- One change is saved and applied before the collector is reset, and another one is left
for `Stop`. -/
theorem run_balanced_stop :
    ∃ m, (monitor Nat String).Run NoDeletes m ∧ m.owner = .stopped ∧
      m.collected 0 = ["x", "y"] ∧ covered 0 m.applied = m.collected 0 := by
  let actions : List (Action Nat String) :=
    [.change 0 "x", .saveEntity 0, .put, .recv, .apply, .reset, .return, .change 0 "y", .stop,
      .cancel, .notice, .exit, .wait, .flush 0, .finish]
  have hrun : (monitor Nat String).Run NoDeletes ((monitor Nat String).after actions
      (monitor Nat String).init) := by
    refine System.Run.start.of_admits ?_
    refine ⟨rfl, trivial, rfl, trivial, ⟨⟨_, _, _, rfl⟩, by decide⟩, trivial, ⟨.inl rfl, nofun⟩,
      trivial, ⟨_, .inl rfl⟩, trivial, ⟨_, _, rfl⟩, trivial, rfl, trivial, rfl, trivial, rfl,
      trivial, rfl, trivial, ⟨rfl, rfl⟩, trivial, ⟨rfl, rfl, rfl⟩, trivial, ⟨rfl, rfl⟩, trivial,
      ⟨_, rfl, by decide⟩, trivial, rfl, trivial, trivial⟩
  refine ⟨_, hrun, by decide +kernel, by decide +kernel, ?_⟩
  exact (run_balanced hrun).2.2.2 (by decide +kernel) 0

/-- After `Stop` has written it, a change is in the database and still in its collector. -/
theorem stop_keeps_array :
    ∃ m, (monitor Nat String).Run NoDeletes m ∧
      m.array 0 = ["x"] ∧ covered 0 m.applied = ["x"] := by
  let actions : List (Action Nat String) :=
    [.change 0 "x", .stop, .cancel, .notice, .exit, .wait, .flush 0, .finish]
  have hrun : (monitor Nat String).Run NoDeletes ((monitor Nat String).after actions
      (monitor Nat String).init) := by
    refine System.Run.start.of_admits ?_
    refine ⟨rfl, trivial, rfl, trivial, rfl, trivial, ⟨rfl, rfl⟩, trivial, ⟨rfl, rfl, rfl⟩,
      trivial, ⟨rfl, rfl⟩, trivial, ⟨_, rfl, by decide⟩, trivial, rfl, trivial, trivial⟩
  exact ⟨_, hrun, by decide +kernel, by decide +kernel⟩

/-! ## A deleted entity is not resurrected -/

/-- **The updates after a deletion contain only later changes**, in every run in which an
entity whose collector was not empty when it was deleted is neither changed nor saved: the changes
of its updates after the last deletion are the first of those collected since then, in order. -/
theorem run_upserted_since {ID P : Type} [DecidableEq ID] {m : Monitor ID P}
    (hrun : (monitor ID P).Run CleanDeletes m) (id : ID) : upserted id m.items <+: m.since id :=
  have hm : Ledger m ∧ Selected Clean m :=
    hrun.invariant ledger_init fun _ _ hs henabled hok => ledger_next hs henabled hok
  (hm.1.life id).1

/-- An entity is saved, deleted and changed again. -/
theorem run_upserted_since_new :
    ∃ m, (monitor Nat String).Run CleanDeletes m ∧
      m.deltas = [.update 0 ["old"], .delete 0, .update 0 ["new"]] ∧
      upserted 0 m.items <+: ["new"] := by
  let actions : List (Action Nat String) :=
    [.change 0 "old", .saveEntity 0, .put, .reset, .return, .deleteEntity 0, .putDelete,
      .change 0 "new", .saveEntity 0, .put]
  have hrun : (monitor Nat String).Run CleanDeletes ((monitor Nat String).after actions
      (monitor Nat String).init) := by
    refine System.Run.start.of_admits ?_
    refine ⟨rfl, fun _ => rfl, rfl, nofun, ⟨⟨_, _, _, rfl⟩, by decide⟩, trivial, ⟨_, _, rfl⟩,
      trivial, rfl, trivial, rfl, trivial, ⟨⟨_, rfl⟩, by decide⟩, trivial, rfl, fun _ => rfl, rfl,
      nofun, ⟨⟨_, _, _, rfl⟩, by decide⟩, trivial, trivial⟩
  have hsince : ((monitor Nat String).after actions (monitor Nat String).init).since 0 =
      ["new"] := by decide +kernel
  exact ⟨_, hrun, by decide +kernel, hsince ▸ run_upserted_since hrun 0⟩

/-- A change that was in the collector when its entity was deleted is written after the
deletion, together with the next one. -/
theorem deleted_resurrected :
    ∃ m, (monitor Nat String).Run (fun _ _ => True) m ∧
      m.deltas = [.delete 0, .update 0 ["old", "new"]] ∧ m.since 0 = ["new"] := by
  let actions : List (Action Nat String) :=
    [.change 0 "old", .deleteEntity 0, .putDelete, .change 0 "new", .saveEntity 0, .put]
  have hrun : (monitor Nat String).Run (fun _ _ => True) ((monitor Nat String).after actions
      (monitor Nat String).init) := by
    refine System.Run.start.of_admits ?_
    refine ⟨rfl, trivial, rfl, trivial, ⟨⟨_, rfl⟩, by decide⟩, trivial, rfl, trivial, rfl,
      trivial, ⟨⟨_, _, _, rfl⟩, by decide⟩, trivial, trivial⟩
  exact ⟨_, hrun, by decide +kernel, by decide +kernel⟩

end Gokit.Delta
