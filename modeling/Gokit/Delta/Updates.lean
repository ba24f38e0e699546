/-
# Empty updates

What `CatchDeltaData` returns goes to the database as a value of type `any`, and
`PutEntity`, `processEntity` and `saveEntityToDb` each stop at a nil.  But the nil slice
that `CatchDeltaData` returns for a collector without changes is not the nil of an
interface: it is boxed with its type, and passes all three checks.

`SaveChangedDatas` and `Stop` visit collectors with changes only, so this is a matter of
`SaveEntity` alone: as long as it is called for collectors with changes, every update
that is enqueued or issued sets or unsets something.
-/

import Gokit.Delta.Ledger
import Gokit.Delta.Topmost

namespace Gokit.Delta

open Gokit.Math

/-! ## The values of an interface -/

/-- A value of type `any`, on its way to the database. -/
inductive Boxed (B : Type)
  /-- the nil interface -/
  | nil
  /-- a `bson.D`; the nil slice has no operators -/
  | bsonD (d : List (Operator B))
  | str (s : Key)

inductive DbCall (B : Type)
  | updateOne (data : Boxed B)
  | deleteOne

def deleteEntityFlag : Key := "DELETE".toList

section Boxed

variable {B : Type}

/-- What `PutEntity` sends, if it sends anything. -/
def putEntity : Boxed B → Option (Boxed B)
  | .nil => none
  | data => some data

def saveEntityToDb : Boxed B → Option (DbCall B)
  | .nil => none
  | data => some (.updateOne data)

def processEntity : Boxed B → Option (DbCall B)
  | .nil => none
  | .str s => if s = deleteEntityFlag then some .deleteOne else saveEntityToDb (.str s)
  | .bsonD d => saveEntityToDb (.bsonD d)

/-- The call that an item of the monitor leads to.  What `CatchDeltaData` returns is boxed when
it is passed to `PutEntity`; if it panics, nothing is sent. -/
def Item.call {ID : Type} : Item ID (DeltaPair B) → Exec (Option (DbCall B))
  | .update _ batch => do
    let delta ← catchDeltaData batch
    .ok ((putEntity (.bsonD delta)).bind processEntity)
  | .delete _ => .ok ((putEntity (.str deleteEntityFlag)).bind processEntity)

/-- If the item leads to an `UpdateOne`, it carries a document with at least one entry. -/
def Item.Sound {ID : Type} (item : Item ID (DeltaPair B)) : Prop :=
  ∀ data, item.call = .ok (some (.updateOne data)) → ∃ doc, data = .bsonD doc ∧ ∃ k, HasKey doc k

/-- An update made from changes has an entry. -/
theorem hasKey_of_catchDeltaData {array : List (DeltaPair B)} {update : List (Operator B)}
    (hcatch : catchDeltaData array = .ok update) (hne : array ≠ []) : ∃ k, HasKey update k := by
  obtain ⟨pair, hmem⟩ := List.exists_mem_of_ne_nil array hne
  obtain ⟨k, v, hrec, -⟩ := exists_recorded hmem
  obtain ⟨-, rfl⟩ := catchDeltaData_eq_ok_iff.mp hcatch
  have hlookup := (lookup_foldl_record_iff array k v).mpr hrec
  refine ⟨k, ?_⟩
  cases hv : v.content with
  | none => exact Or.inr (unsets_result_iff.mpr (mem_unset_fieldsOf.mpr ⟨v, hlookup, hv⟩))
  | some d => exact Or.inl ⟨d, setsTo_result_iff.mpr (lookup_update_fieldsOf.mpr ⟨v, hlookup, hv⟩)⟩

/-- The three checks let every document through. -/
theorem call_update_eq_ok_iff {ID : Type} {id : ID} {batch : List (DeltaPair B)} {data : Boxed B} :
    (Item.update id batch).call = .ok (some (.updateOne data)) ↔
      ∃ doc, catchDeltaData batch = .ok doc ∧ data = .bsonD doc := by
  rw [Item.call, Exec.bind_eq_ok_iff]
  constructor
  · rintro ⟨doc, hcatch, hcall⟩
    cases hcall
    exact ⟨doc, hcatch, rfl⟩
  · rintro ⟨doc, hcatch, rfl⟩
    exact ⟨doc, hcatch, rfl⟩

theorem Item.sound_of_ne_nil {ID : Type} {id : ID} {batch : List (DeltaPair B)}
    (hne : batch ≠ []) : (Item.update id batch).Sound := by
  intro data hcall
  obtain ⟨doc, hcatch, rfl⟩ := call_update_eq_ok_iff.mp hcall
  exact ⟨doc, rfl, hasKey_of_catchDeltaData hcatch hne⟩

/-- The update of a collector without changes is issued, and has no entry. -/
theorem not_sound_nil {ID : Type} (id : ID) :
    ¬ (Item.update id ([] : List (DeltaPair B))).Sound := by
  intro hsound
  obtain ⟨doc, hdoc, k, hkey⟩ := hsound (.bsonD []) rfl
  obtain rfl := Boxed.bsonD.inj hdoc
  rcases hkey with ⟨_, _, hmem, _⟩ | ⟨_, hmem, _⟩ <;> exact List.not_mem_nil hmem

end Boxed

/-! ## Collectors with changes -/

/-- Updates made from changes. -/
def Item.Filled {ID P : Type} : Item ID P → Prop
  | update _ batch => batch ≠ []
  | delete _ => True

/-- `SaveEntity` is called for collectors with changes. -/
def SavesChanges {ID P : Type} (m : Monitor ID P) : Action ID P → Prop
  | .saveEntity id => m.array id ≠ []
  | _ => True

section Filled

variable {ID P : Type}

/-- What is saved is a collector with changes. -/
structure Filled (m : Monitor ID P) : Prop where
  selected : Selected (fun array _ => array ≠ []) m
  items : ∀ item ∈ m.items, item.Filled

variable [DecidableEq ID] {m : Monitor ID P}

/-- An item is added at the end, or passed on. -/
theorem Filled.items_next (hm : Filled m) {a : Action ID P} (henabled : m.Enabled a) :
    ∀ item ∈ (m.next a).items, item.Filled := by
  have hsame : ∀ {items : List (Item ID P)}, items = m.items → ∀ item ∈ items, item.Filled := by
    rintro _ rfl
    exact hm.items
  have hadd : ∀ {items : List (Item ID P)} {new : Item ID P}, items = m.items ++ [new] →
      new.Filled → ∀ item ∈ items, item.Filled := by
    rintro _ new rfl hnew item hmem
    rcases List.mem_append.mp hmem with hmem | hmem
    · exact hm.items item hmem
    · exact List.mem_singleton.mp hmem ▸ hnew
  cases a with
  | change id p =>
    simp only [Monitor.next, Monitor.change]
    split <;> exact hm.items
  | visit id =>
    obtain ⟨todo, howner, -⟩ := henabled
    simp only [Monitor.next, howner]
    exact hm.items
  | put =>
    obtain ⟨⟨must, id, todo, howner⟩, -⟩ := henabled
    have hnew : (Item.update id (m.array id)).Filled := hm.selected.saving howner
    refine hadd ?_ hnew
    simp only [Monitor.next, Monitor.put, howner, Monitor.items, Monitor.underway,
      List.append_assoc]
  | refuse =>
    obtain ⟨⟨id, todo, howner⟩, -⟩ := henabled
    simp only [Monitor.next, Monitor.refuse, howner]
    exact hm.items
  | reset =>
    obtain ⟨id, todo, howner⟩ := henabled
    simp only [Monitor.next, Monitor.reset, howner]
    exact hm.items
  | putDelete =>
    obtain ⟨⟨id, howner⟩, -⟩ := henabled
    refine hadd ?_ (show (Item.delete id : Item ID P).Filled from trivial)
    simp only [Monitor.next, Monitor.putDelete, howner, Monitor.items, Monitor.underway,
      List.append_assoc]
  | flush id =>
    obtain ⟨todo, howner, hmem⟩ := henabled
    have hnew : (Item.update id (m.array id)).Filled := hm.selected.flushing howner id hmem
    intro item hitem
    simp only [Monitor.next, Monitor.flush, howner, Monitor.items, Monitor.underway,
      List.mem_append, List.mem_singleton] at hitem
    rcases hitem with (hitem | rfl) | hitem
    · exact hm.items item (List.mem_append_left _ hitem)
    · exact hnew
    · exact hm.items item (List.mem_append_right _ (List.mem_append.mpr hitem))
  | recv =>
    refine hsame ?_
    rcases henabled with ⟨hworker | hworker, hne⟩
    all_goals
      obtain ⟨item, rest, hdeltas⟩ := List.exists_cons_of_ne_nil hne
      simp [Monitor.next, Monitor.recv, Monitor.items, Monitor.underway, hworker, hdeltas,
        Worker.current]
  | apply =>
    refine hsame ?_
    rcases henabled with ⟨item, hworker | hworker⟩
    all_goals
      simp [Monitor.next, Monitor.apply, Monitor.items, Monitor.underway, hworker,
        Worker.current]
  | notice | exit =>
    refine hsame ?_
    simp [Monitor.next, Monitor.items, Monitor.underway, henabled.1, Worker.current]
  | _ => exact hm.items

/-- **Every step saves changes only**, if `SaveEntity` does. -/
theorem Filled.next (hm : Filled m) {a : Action ID P} (henabled : m.Enabled a)
    (hok : SavesChanges m a) : Filled (m.next a) where
  selected := by
    refine hm.selected.next (fun _ _ => List.append_ne_nil_of_right_ne_nil _ (List.cons_ne_nil _ _))
      henabled ?_
    rintro id rfl
    exact hok
  items := hm.items_next henabled

theorem filled_run (hrun : (monitor ID P).Run SavesChanges m) : Filled m := by
  refine hrun.invariant ⟨⟨?_, trivial⟩, ?_⟩ fun s a hm => hm.next
  · exact fun _ h => absurd h List.not_mem_nil
  · exact fun _ h => absurd h List.not_mem_nil

end Filled

/-! ## What reaches the database -/

section Updates

variable {ID B : Type}

/-- Every `UpdateOne` that has been issued or is on its way has an entry, and saving a
collector without changes enqueues nothing. -/
structure OnlyNonEmpty (m : Monitor ID (DeltaPair B)) : Prop where
  issued : ∀ item ∈ m.applied, item.Sound
  underway : ∀ item ∈ m.underway, item.Sound
  quiet : ∀ must id todo, m.owner = .saving must id todo → m.array id = [] →
    m.put.deltas = m.deltas

theorem Item.Filled.sound {item : Item ID (DeltaPair B)} (hfilled : item.Filled) : item.Sound := by
  cases item with
  | update id batch => exact Item.sound_of_ne_nil hfilled
  | delete id => exact nofun

/-- `SaveEntity` on a collector without changes is about to enqueue an empty update. -/
theorem not_onlyNonEmpty_saveEntity [DecidableEq ID] {m : Monitor ID (DeltaPair B)} {id : ID}
    (hempty : m.array id = []) : ¬ OnlyNonEmpty (m.next (.saveEntity id)) := by
  intro honly
  have hsame := congrArg List.length (honly.quiet true id [] rfl hempty)
  simp [Monitor.next, Monitor.put] at hsame

end Updates

/-- **Only updates with an entry reach the database**, in every run in which `SaveEntity` is
called for collectors with changes: whether they are saved one by one, all together or by
`Stop`, and while entities are changed and deleted. -/
theorem run_onlyNonEmpty {ID B : Type} [DecidableEq ID] {m : Monitor ID (DeltaPair B)}
    (hrun : (monitor ID (DeltaPair B)).Run SavesChanges m) : OnlyNonEmpty m := by
  have hm := filled_run hrun
  refine ⟨?_, ?_, ?_⟩
  · exact fun item hmem => (hm.items item (List.mem_append_left _ hmem)).sound
  · exact fun item hmem => (hm.items item (List.mem_append_right _ hmem)).sound
  · intro must id todo howner hempty
    exact absurd hempty (hm.selected.saving howner)

/-- One change is saved by `SaveEntity` and another one is left for `Stop`. -/
theorem run_onlyNonEmpty_stop :
    ∃ m : Monitor Nat (DeltaPair Nat), (monitor Nat (DeltaPair Nat)).Run SavesChanges m ∧
      m.owner = .stopped ∧ m.applied.length = 2 ∧ OnlyNonEmpty m := by
  let actions : List (Action Nat (DeltaPair Nat)) :=
    [.change 0 (['a'], .str ['x']), .saveEntity 0, .put, .recv, .apply, .reset, .return,
      .change 0 (['b'], .str deleteMark), .stop, .cancel, .notice, .exit, .wait, .flush 0, .finish]
  have hrun : (monitor Nat (DeltaPair Nat)).Run SavesChanges
      ((monitor Nat (DeltaPair Nat)).after actions (monitor Nat (DeltaPair Nat)).init) := by
    refine System.Run.start.of_admits ?_
    refine ⟨rfl, trivial, rfl, ?_, ⟨⟨_, _, _, rfl⟩, by decide⟩, trivial, ⟨.inl rfl, ?_⟩,
      trivial, ⟨_, .inl rfl⟩, trivial, ⟨_, _, rfl⟩, trivial, rfl, trivial, rfl, trivial, rfl,
      trivial, rfl, trivial, ⟨rfl, rfl⟩, trivial, ⟨rfl, rfl, rfl⟩, trivial, ⟨rfl, rfl⟩, trivial,
      ⟨_, rfl, by decide⟩, trivial, rfl, trivial, trivial⟩
    · exact List.cons_ne_nil _ _
    · exact List.cons_ne_nil _ _
  exact ⟨_, hrun, rfl, rfl, run_onlyNonEmpty hrun⟩

/-- `SaveEntity` on a new collector: the worker issues an update without an entry. -/
theorem saveEntity_issues_empty :
    ∃ m : Monitor Nat (DeltaPair Nat), (monitor Nat (DeltaPair Nat)).Run (fun _ _ => True) m ∧
      m.collected 0 = [] ∧ ∃ item ∈ m.applied,
        item.call = .ok (some (.updateOne (.bsonD []))) ∧ ¬ item.Sound := by
  let actions : List (Action Nat (DeltaPair Nat)) := [.saveEntity 0, .put, .recv, .apply]
  have hrun : (monitor Nat (DeltaPair Nat)).Run (fun _ _ => True)
      ((monitor Nat (DeltaPair Nat)).after actions (monitor Nat (DeltaPair Nat)).init) := by
    refine System.Run.start.of_admits ?_
    refine ⟨rfl, trivial, ⟨⟨_, _, _, rfl⟩, by decide⟩, trivial, ⟨.inl rfl, ?_⟩, trivial,
      ⟨_, .inl rfl⟩, trivial, trivial⟩
    exact List.cons_ne_nil _ _
  exact ⟨_, hrun, rfl, .update 0 [], List.mem_singleton.mpr rfl, rfl, not_sound_nil 0⟩

end Gokit.Delta
