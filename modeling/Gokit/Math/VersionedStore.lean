/-
# Versioned stores and their replicas

A versioned store is the log of its changes; a revision is a position in the log.
A replica starts from the content at some revision and follows the changes.  One
that takes every write has the content of the store at every revision.  One that
keeps the first value it has seen for a key, until the key is deleted, has the right
keys at every revision; it has the right value for a key exactly if the value at
the revision is the one the key had at the start of its present life.
-/

import Mathlib.Data.List.Basic
import Mathlib.Logic.Function.Basic

namespace Gokit.Math

/-- A change of one key. -/
inductive Change (K V : Type)
  | put (k : K) (v : V)
  | delete (k : K)
  deriving DecidableEq, Repr

namespace Change

variable {K V : Type} [DecidableEq K]

def apply (content : K → Option V) : Change K V → K → Option V
  | put k v => Function.update content k (some v)
  | delete k => Function.update content k none

end Change

section Log

variable {K V : Type} [DecidableEq K] {log later : List (Change K V)} {k : K} {r m : Nat}

/-- The content of the store at a revision. -/
def contentAt (log : List (Change K V)) (m : Nat) : K → Option V :=
  (log.take m).foldl Change.apply fun _ => none

theorem contentAt_succ {c : Change K V} (hc : log[m]? = some c) :
    contentAt log (m + 1) = c.apply (contentAt log m) := by
  rw [contentAt, List.take_add_one, hc, Option.toList_some, List.foldl_append]
  rfl

/-- Later changes do not alter the content at a revision. -/
theorem contentAt_append (hm : m ≤ log.length) : contentAt (log ++ later) m = contentAt log m := by
  rw [contentAt, List.take_append_of_le_length hm, contentAt]

variable {changes : List (Change K V)} {content : K → Option V}

/-- A key that is not there appears only by being put. -/
theorem foldl_apply_eq_none (hnone : content k = none) (hput : ∀ v, Change.put k v ∉ changes) :
    changes.foldl Change.apply content k = none := by
  induction changes generalizing content with
  | nil => exact hnone
  | cons c changes ih =>
    refine ih ?_ fun v hmem => hput v (List.mem_cons_of_mem _ hmem)
    cases c with
    | put k' v =>
      have hne : k ≠ k' := by
        rintro rfl
        exact hput v List.mem_cons_self
      exact (Function.update_of_ne hne ..).trans hnone
    | delete k' =>
      by_cases heq : k = k'
      · rw [heq]
        exact Function.update_self ..
      · exact (Function.update_of_ne heq ..).trans hnone

/-- A key that is there disappears only by being deleted. -/
theorem foldl_apply_ne_none (halive : content k ≠ none) (hdelete : Change.delete k ∉ changes) :
    changes.foldl Change.apply content k ≠ none := by
  induction changes generalizing content with
  | nil => exact halive
  | cons c changes ih =>
    refine ih ?_ fun hmem => hdelete (List.mem_cons_of_mem _ hmem)
    cases c with
    | put k' v =>
      by_cases heq : k = k'
      · rw [heq]
        exact ne_of_eq_of_ne (Function.update_self ..) (Option.some_ne_none v)
      · exact ne_of_eq_of_ne (Function.update_of_ne heq ..) halive
    | delete k' =>
      have hne : k ≠ k' := by
        rintro rfl
        exact hdelete List.mem_cons_self
      exact ne_of_eq_of_ne (Function.update_of_ne hne ..) halive

/-- A key that is there has a value that was put. -/
theorem put_mem_of_foldl_apply {v : V} (hsome : changes.foldl Change.apply content k = some v)
    (hcontent : content k ≠ some v) : Change.put k v ∈ changes := by
  induction changes generalizing content with
  | nil => exact absurd hsome hcontent
  | cons c changes ih =>
    by_cases hfirst : c.apply content k = some v
    · cases c with
      | put k' v' =>
        by_cases heq : k = k'
        · subst heq
          rw [Change.apply, Function.update_self] at hfirst
          rw [Option.some.inj hfirst]
          exact List.mem_cons_self
        · exact absurd ((Function.update_of_ne heq ..).symm.trans hfirst) hcontent
      | delete k' =>
        by_cases heq : k = k'
        · subst heq
          rw [Change.apply, Function.update_self] at hfirst
          exact absurd hfirst.symm (Option.some_ne_none v)
        · exact absurd ((Function.update_of_ne heq ..).symm.trans hfirst) hcontent
    · exact List.mem_cons_of_mem _ (ih hsome hfirst)

/-- A key that has not been put since a revision was there at that revision already. -/
theorem contentAt_ne_none_of_not_put (halive : contentAt log log.length k ≠ none)
    (hput : ∀ v, Change.put k v ∉ log.drop m) : contentAt log m k ≠ none := by
  intro hnone
  refine halive ?_
  rw [contentAt, List.take_length, ← List.take_append_drop m log, List.foldl_append]
  exact foldl_apply_eq_none hnone hput

theorem contentAt_append_singleton (c : Change K V) :
    contentAt (log ++ [c]) (log.length + 1) = c.apply (contentAt log log.length) := by
  rw [contentAt_succ (List.getElem?_concat_length ..), contentAt_append (Nat.le_refl _)]

/-- The revision at which the present life of a key began, as seen by a replica that
started at `r`. -/
structure BornAt (log : List (Change K V)) (r m : Nat) (k : K) (i : Nat) : Prop where
  from_le : r ≤ i
  le : i ≤ m
  alive : ∀ j, i ≤ j → j ≤ m → contentAt log j k ≠ none
  first : i = r ∨ contentAt log (i - 1) k = none

/-- A life begins once. -/
theorem BornAt.unique {i j : Nat} (hi : BornAt log r m k i) (hj : BornAt log r m k j) : i = j := by
  have hle : ∀ {i j : Nat}, BornAt log r m k i → BornAt log r m k j → j ≤ i := by
    intro i j hi hj
    by_contra hlt
    have hlt : i < j := Nat.lt_of_not_le hlt
    rcases hj.first with heq | hnone
    · exact absurd hi.from_le (Nat.not_le_of_lt (heq ▸ hlt))
    · exact hi.alive (j - 1) (Nat.le_sub_one_of_lt hlt) (Nat.le_trans (Nat.sub_le j 1) hj.le) hnone
  exact Nat.le_antisymm (hle hj hi) (hle hi hj)

/-- The present life goes on. -/
theorem BornAt.succ {i : Nat} (hi : BornAt log r m k i) (halive : contentAt log (m + 1) k ≠ none) :
    BornAt log r (m + 1) k i where
  from_le := hi.from_le
  le := Nat.le_trans hi.le (Nat.le_succ m)
  alive := by
    intro j hij hjm
    rcases Nat.le_succ_iff.mp hjm with hjm | rfl
    · exact hi.alive j hij hjm
    · exact halive
  first := hi.first

/-- A new life begins. -/
theorem bornAt_succ_of_none (hle : r ≤ m) (hnone : contentAt log m k = none)
    (halive : contentAt log (m + 1) k ≠ none) : BornAt log r (m + 1) k (m + 1) where
  from_le := Nat.le_trans hle (Nat.le_succ m)
  le := Nat.le_refl _
  alive := by
    intro j hij hjm
    rw [Nat.le_antisymm hjm hij]
    exact halive
  first := .inr hnone

/-- A replica that keeps the first value: its value for a key at revision `m`, if it was
loaded at revision `r`. -/
structure Pinned (log : List (Change K V)) (r m : Nat) (k : K) (value : Option V) : Prop where
  none_iff : value = none ↔ contentAt log m k = none
  born : ∀ i, BornAt log r m k i → value = contentAt log i k
  exists_born : value ≠ none → ∃ i, BornAt log r m k i

variable {value : Option V}

/-- The replica has the right value iff the value is the one the key was born with. -/
theorem Pinned.eq_content_iff (hpinned : Pinned log r m k value) :
    value = contentAt log m k ↔
      ∀ i, BornAt log r m k i → contentAt log i k = contentAt log m k := by
  constructor
  · intro heq i hi
    rw [← heq, hpinned.born i hi]
  · intro hborn
    by_cases hnone : value = none
    · rw [hnone, hpinned.none_iff.mp hnone]
    · obtain ⟨i, hi⟩ := hpinned.exists_born hnone
      rw [hpinned.born i hi, hborn i hi]

/-- Only one value was put under the key: the replica has it. -/
theorem Pinned.eq_of_single (hpinned : Pinned log r m k value) {v : V}
    (halive : contentAt log m k ≠ none) (hput : ∀ v', Change.put k v' ∈ log.take m → v' = v) :
    value = some v := by
  have hvalue : value ≠ none := mt hpinned.none_iff.mp halive
  obtain ⟨i, hi⟩ := hpinned.exists_born hvalue
  obtain ⟨v', hv'⟩ := Option.ne_none_iff_exists'.mp hvalue
  have hmem : Change.put k v' ∈ log.take i :=
    put_mem_of_foldl_apply ((hpinned.born i hi).symm.trans hv') (Option.some_ne_none v').symm
  rw [hv', hput v' (List.take_subset_take_left log hi.le hmem)]

theorem pinned_load : Pinned log r r k (contentAt log r k) where
  none_iff := Iff.rfl
  born := by
    intro i hi
    rw [Nat.le_antisymm hi.le hi.from_le]
  exists_born := by
    intro halive
    refine ⟨r, Nat.le_refl r, Nat.le_refl r, ?_, .inl rfl⟩
    intro j hrj hjr
    rw [Nat.le_antisymm hjr hrj]
    exact halive

/-- A change that leaves the key alone. -/
theorem Pinned.skip (hpinned : Pinned log r m k value)
    (hsame : contentAt log (m + 1) k = contentAt log m k) (hle : r ≤ m) :
    Pinned log r (m + 1) k value := by
  have hborn : ∀ i, BornAt log r (m + 1) k i → BornAt log r m k i := by
    intro i hi
    refine ⟨hi.from_le, ?_, fun j hij hjm => hi.alive j hij (Nat.le_trans hjm (Nat.le_succ m)),
      hi.first⟩
    rcases Nat.le_succ_iff.mp hi.le with him | rfl
    · exact him
    · rcases hi.first with heq | hnone
      · exact absurd hle (Nat.not_le_of_lt (heq ▸ Nat.lt_succ_self m))
      · exact absurd (hsame.trans hnone) (hi.alive _ (Nat.le_refl _) (Nat.le_refl _))
  refine ⟨hsame ▸ hpinned.none_iff, fun i hi => hpinned.born i (hborn i hi), ?_⟩
  intro hvalue
  obtain ⟨i, hi⟩ := hpinned.exists_born hvalue
  refine ⟨i, hi.succ ?_⟩
  rw [hsame]
  exact fun hnone => hvalue (hpinned.none_iff.mpr hnone)

theorem pinned_of_none (hnone : contentAt log m k = none) : Pinned log r m k none where
  none_iff := iff_of_true rfl hnone
  born := fun _ hi => absurd hnone (hi.alive m hi.le (Nat.le_refl m))
  exists_born := fun hne => absurd rfl hne

/-- A key that the replica does not have is put. -/
theorem Pinned.first (hpinned : Pinned log r m k value) (hvalue : value = none) (hle : r ≤ m)
    (halive : contentAt log (m + 1) k ≠ none) :
    Pinned log r (m + 1) k (contentAt log (m + 1) k) := by
  have hborn := bornAt_succ_of_none hle (hpinned.none_iff.mp hvalue) halive
  exact ⟨Iff.rfl, fun i hi => by rw [hi.unique hborn], fun _ => ⟨m + 1, hborn⟩⟩

/-- A key that the replica has is put again. -/
theorem Pinned.again (hpinned : Pinned log r m k value) (hvalue : value ≠ none)
    (halive : contentAt log (m + 1) k ≠ none) : Pinned log r (m + 1) k value := by
  obtain ⟨i, hi⟩ := hpinned.exists_born hvalue
  have hborn := hi.succ halive
  refine ⟨iff_of_false hvalue halive, ?_, fun _ => ⟨i, hborn⟩⟩
  intro j hj
  rw [hj.unique hborn]
  exact hpinned.born i hi

end Log

end Gokit.Math
