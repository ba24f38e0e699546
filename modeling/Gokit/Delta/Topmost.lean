/-
# Which changes make it into an update

`CatchDeltaData` goes through the changes in the order in which they were collected, and
what it does with one of them depends on what it has recorded before.  What comes out of
it does not: a key is in the update iff it was collected and none of its dotted ancestors
was, before it or after it, and it is paired with the last value collected for it.

So the paths of an update are never in conflict, keys that only look alike do not affect
each other, and the order in which different keys are collected does not matter.
-/

import Gokit.Delta.Collector

namespace Gokit.Delta

open Gokit.Math

variable {B : Type}

/-- The first key is a proper ancestor of the second one. -/
def Above (k k' : Key) : Prop := k ++ ['.'] <+: k'

/-- The values collected for a key, in order. -/
def collects (k : Key) (array : List (DeltaPair B)) : List (Val B) :=
  (array.filter fun pair => pair.1 = k).map Prod.snd

/-- The value is the last one collected for the key, and no ancestor of the key was
collected at all. -/
def Kept (array : List (DeltaPair B)) (k : Key) (v : Val B) : Prop :=
  (collects k array).getLast? = some v ∧ ∀ pair ∈ array, ¬ Above pair.1 k

def SetsTo (update : List (Operator B)) (k : Key) (d : Doc B) : Prop :=
  ∃ fields, Operator.set fields ∈ update ∧ fields.lookup k = some d

def Unsets (update : List (Operator B)) (k : Key) : Prop :=
  ∃ fields, Operator.unset fields ∈ update ∧ k ∈ fields

def HasKey (update : List (Operator B)) (k : Key) : Prop :=
  (∃ d, SetsTo update k d) ∨ Unsets update k

/-! ## The records -/

theorem trace_eq_getLast? (k : Key) (array : List (DeltaPair B)) :
    (trace k array).map Prod.fst = (collects k array).getLast? := by
  induction array using List.reverseRecOn with
  | nil => rfl
  | append_singleton array pair ih =>
    rw [trace_append_singleton, collects, List.filter_append, List.map_append]
    by_cases hk : pair.1 = k
    · simp [hk]
    · rw [if_neg hk, Option.map_map]
      simpa [hk, collects, Function.comp_def] using ih

variable {array : List (DeltaPair B)} {k : Key}

theorem mem_of_getLast?_collects {v : Val B} (hlast : (collects k array).getLast? = some v) :
    (k, v) ∈ array := by
  obtain ⟨pair, hmem, rfl⟩ := List.mem_map.mp (List.mem_of_getLast? hlast)
  obtain ⟨hmem, hk⟩ := List.mem_filter.mp hmem
  rwa [← of_decide_eq_true hk]

theorem collects_eq_nil_iff : collects k array = [] ↔ ∀ pair ∈ array, pair.1 ≠ k := by
  simp [collects, List.map_eq_nil_iff, List.filter_eq_nil_iff]

theorem exists_kept_iff :
    (∃ v, Kept array k v) ↔
      (∃ pair ∈ array, pair.1 = k) ∧ ∀ pair ∈ array, ¬ Above pair.1 k := by
  constructor
  · rintro ⟨v, hlast, htop⟩
    exact ⟨⟨(k, v), mem_of_getLast?_collects hlast, rfl⟩, htop⟩
  · rintro ⟨⟨pair, hmem, hk⟩, htop⟩
    have hne : collects k array ≠ [] := fun hnil => collects_eq_nil_iff.mp hnil pair hmem hk
    exact ⟨_, List.getLast?_eq_some_getLast hne, htop⟩

/-- A recorded key is a kept one. -/
theorem recorded_iff_kept {v : Val B} : Recorded array k v ↔ Kept array k v := by
  have hlast : (∃ later, trace k array = some (v, later)) ↔
      (collects k array).getLast? = some v := by
    rw [← trace_eq_getLast?, Option.map_eq_some_iff]
    simp
  rw [Recorded, hlast, Kept, and_comm]
  refine and_congr_right fun hv => ?_
  have habove : ∀ pair : DeltaPair B, (path pair.1 <+: path k → path pair.1 = path k) ↔
      ¬ Above pair.1 k := by
    intro pair
    rw [Above, append_prefix_iff, path_inj]
    exact not_and_not_right.symm
  constructor
  · intro htop pair hmem
    exact (habove pair).mp (htop.2 (edit pair) (List.mem_map_of_mem hmem))
  · intro hnone
    refine ⟨⟨edit (k, v), List.mem_map_of_mem (mem_of_getLast?_collects hv), rfl⟩, ?_⟩
    intro e he
    obtain ⟨pair, hmem, rfl⟩ := List.mem_map.mp he
    exact (habove pair).mpr (hnone pair hmem)

theorem content_eq_none_iff {v : Val B} : v.content = none ↔ v = .str deleteMark := by
  cases v with
  | str s => simp [Val.content]
  | nil | model | plain => simp [Val.content]

/-! ## The operators -/

variable {fields : Fields B}

theorem set_mem_result_iff {found : AList fun _ : Key => Doc B} :
    Operator.set found ∈ fields.result ↔ fields.update.entries ≠ [] ∧ found = fields.update := by
  rw [Fields.result, List.mem_append]
  by_cases hset : fields.update.entries = [] <;>
    by_cases hunset : fields.unset.entries = [] <;> simp [hset, hunset]

theorem unset_mem_result_iff {found : AList fun _ : Key => Doc B} :
    Operator.unset found ∈ fields.result ↔ fields.unset.entries ≠ [] ∧ found = fields.unset := by
  rw [Fields.result, List.mem_append]
  by_cases hset : fields.update.entries = [] <;>
    by_cases hunset : fields.unset.entries = [] <;> simp [hset, hunset]

theorem setsTo_result_iff {d : Doc B} :
    SetsTo fields.result k d ↔ fields.update.lookup k = some d := by
  simp only [SetsTo, set_mem_result_iff]
  constructor
  · rintro ⟨_, ⟨_, rfl⟩, hlookup⟩
    exact hlookup
  · intro hlookup
    refine ⟨fields.update, ⟨?_, rfl⟩, hlookup⟩
    exact List.ne_nil_of_mem (AList.mem_lookup_iff.mp hlookup)

theorem unsets_result_iff : Unsets fields.result k ↔ k ∈ fields.unset := by
  simp only [Unsets, unset_mem_result_iff]
  constructor
  · rintro ⟨_, ⟨_, rfl⟩, hmem⟩
    exact hmem
  · intro hmem
    obtain ⟨d, hentry⟩ := List.mem_keys.mp hmem
    exact ⟨fields.unset, ⟨List.ne_nil_of_mem hentry, rfl⟩, hmem⟩

/-! ## The update -/

/-- Without nil values the changes are caught: what is set, and what is unset. -/
theorem catchDeltaData_kept (hvalues : ∀ pair ∈ array, pair.2 ≠ .nil) :
    ∃ update, catchDeltaData array = .ok update ∧
      (∀ k d, SetsTo update k d ↔ ∃ v, Kept array k v ∧ v.content = some d) ∧
      ∀ k, Unsets update k ↔ Kept array k (.str deleteMark) := by
  have hnil : ∀ k, ¬ Recorded array k .nil := by
    intro k hrec
    exact hvalues _ (mem_of_getLast?_collects (recorded_iff_kept.mp hrec).1) rfl
  refine ⟨_, catchDeltaData_eq_ok_iff.mpr ⟨hnil, rfl⟩, ?_, ?_⟩
  · intro k d
    simp only [setsTo_result_iff, lookup_update_fieldsOf, lookup_foldl_record_iff,
      recorded_iff_kept]
  · intro k
    simp only [unsets_result_iff, mem_unset_fieldsOf, lookup_foldl_record_iff, recorded_iff_kept,
      content_eq_none_iff, exists_eq_right]

/-- What is kept for a key depends on the changes of the key and of its ancestors only. -/
theorem kept_congr {array' : List (DeltaPair B)}
    (hsame : ∀ k', k' = k ∨ Above k' k → collects k' array = collects k' array') (v : Val B) :
    Kept array k v ↔ Kept array' k v := by
  have hancestors : ∀ {array array' : List (DeltaPair B)},
      (∀ k', Above k' k → collects k' array = collects k' array') →
      (∀ pair ∈ array, ¬ Above pair.1 k) → ∀ pair ∈ array', ¬ Above pair.1 k := by
    intro array array' hsame hfree pair hmem habove
    have hempty : collects pair.1 array = [] := collects_eq_nil_iff.mpr fun other hother heq =>
      hfree other hother (heq ▸ habove)
    exact collects_eq_nil_iff.mp (hsame pair.1 habove ▸ hempty) pair hmem rfl
  rw [Kept, Kept, hsame k (Or.inl rfl)]
  refine and_congr_right fun _ => ⟨hancestors fun k' h => hsame k' (Or.inr h), ?_⟩
  exact hancestors fun k' h => (hsame k' (Or.inr h)).symm

/-- **The update holds the topmost keys with their last values.** Of changes without nil
values, `CatchDeltaData` makes an update that sets or unsets exactly the keys with no
ancestor among the keys collected, to what was collected last; it unsets those whose last
value is the marker.  None of its keys is an ancestor of another one, and what it does with
a key is the same for all changes that agree on the key and its ancestors. -/
theorem catchDeltaData_topmost (array : List (DeltaPair B))
    (hvalues : ∀ pair ∈ array, pair.2 ≠ .nil) :
    ∃ update, catchDeltaData array = .ok update ∧
      (∀ k, HasKey update k ↔ (∃ pair ∈ array, pair.1 = k) ∧ ∀ pair ∈ array, ¬ Above pair.1 k) ∧
      (∀ k d, SetsTo update k d ↔ ∃ v, Kept array k v ∧ v.content = some d) ∧
      (∀ k, Unsets update k ↔ Kept array k (.str deleteMark)) ∧
      (∀ k k', HasKey update k → HasKey update k' → ¬ Above k k') ∧
      ∀ array' : List (DeltaPair B), (∀ pair ∈ array', pair.2 ≠ .nil) →
        ∃ update', catchDeltaData array' = .ok update' ∧
          ∀ k, (∀ k', k' = k ∨ Above k' k → collects k' array = collects k' array') →
            (∀ d, SetsTo update k d ↔ SetsTo update' k d) ∧
              (Unsets update k ↔ Unsets update' k) := by
  obtain ⟨update, hcatch, hset, hunset⟩ := catchDeltaData_kept hvalues
  have hkey : ∀ k, HasKey update k ↔
      (∃ pair ∈ array, pair.1 = k) ∧ ∀ pair ∈ array, ¬ Above pair.1 k := by
    intro k
    rw [HasKey, hunset, ← exists_kept_iff]
    simp only [hset]
    constructor
    · rintro (⟨d, v, hkept, _⟩ | hkept)
      · exact ⟨v, hkept⟩
      · exact ⟨_, hkept⟩
    · rintro ⟨v, hkept⟩
      cases hv : v.content with
      | none => exact Or.inr (content_eq_none_iff.mp hv ▸ hkept)
      | some d => exact Or.inl ⟨d, v, hkept, hv⟩
  refine ⟨update, hcatch, hkey, hset, hunset, ?_, ?_⟩
  · intro k k' hk hk'
    obtain ⟨pair, hmem, rfl⟩ := ((hkey k).mp hk).1
    exact ((hkey k').mp hk').2 pair hmem
  · intro array' hvalues'
    obtain ⟨update', hcatch', hset', hunset'⟩ := catchDeltaData_kept hvalues'
    refine ⟨update', hcatch', fun k hsame => ⟨fun d => ?_, ?_⟩⟩
    · simp only [hset, hset', kept_congr hsame]
    · rw [hunset, hunset', kept_congr hsame]

/-- A field of `a` is set, then `ab`, and then `a` is deleted. -/
def lookalike : List (DeltaPair Nat) :=
  [(['a', '.', 'b'], .plain (.leaf (.other 1))), (['a', 'b'], .plain (.leaf (.other 2))),
    (['a'], .str deleteMark)]

theorem catchDeltaData_topmost_lookalike :
    ∃ update, catchDeltaData lookalike = .ok update ∧
      (∀ k, HasKey update k ↔
        (∃ pair ∈ lookalike, pair.1 = k) ∧ ∀ pair ∈ lookalike, ¬ Above pair.1 k) ∧
      (∀ k d, SetsTo update k d ↔ ∃ v, Kept lookalike k v ∧ v.content = some d) ∧
      (∀ k, Unsets update k ↔ Kept lookalike k (.str deleteMark)) ∧
      (∀ k k', HasKey update k → HasKey update k' → ¬ Above k k') ∧
      ∀ array' : List (DeltaPair Nat), (∀ pair ∈ array', pair.2 ≠ .nil) →
        ∃ update', catchDeltaData array' = .ok update' ∧
          ∀ k, (∀ k', k' = k ∨ Above k' k → collects k' lookalike = collects k' array') →
            (∀ d, SetsTo update k d ↔ SetsTo update' k d) ∧
              (Unsets update k ↔ Unsets update' k) :=
  catchDeltaData_topmost lookalike (by simp [lookalike])

end Gokit.Delta
