/-
# Changes and the update made from them

A collector keeps the changes of an entity in an array, as pairs of a dotted path and a
value, or a marker if the path was deleted.  `CatchDeltaData` makes one update of the
document out of them: a change below a path that is already recorded is skipped, since
the value recorded there is a reference to what the model now holds, and a new record
takes the place of those below it.

We say when the update has the same effect as the changes one after the other.  The
radix tree is a map with string keys; a value stands for what it is when the changes are
caught, and arrays in a document are atomic.
-/

import Gokit.Math.Document
import Gokit.Math.Split
import Gokit.Math.Store
import Mathlib.Data.List.AList

namespace Gokit.Delta

open Gokit.Math

/-! ## The collector -/

abbrev Key : Type := List Char

/-- The values of a document without fields. -/
inductive Atom (B : Type)
  | null
  | str (s : Key)
  | other (b : B)
  deriving DecidableEq, Repr

abbrev Doc (B : Type) : Type := Value Key (Atom B)

inductive Val (B : Type)
  | nil
  | str (s : Key)
  /-- a value with the method `ToDB`, by what the method returns -/
  | model (toDB : Doc B)
  /-- any other value -/
  | plain (v : Doc B)

/-- `DeltaPair`: the key and the value. -/
abbrev DeltaPair (B : Type) : Type := Key × Val B

def deleteMark : Key := "__DELETE__".toList

abbrev Tree (B : Type) : Type := AList fun _ : Key => Val B

def Tree.deletePrefix {B : Type} (tree : Tree B) (pfx : Key) : Tree B where
  entries := tree.entries.filter fun e => !pfx.isPrefixOf e.1
  nodupKeys := tree.nodupKeys.sublist List.filter_sublist

/-- What `Walk` fills. -/
structure Fields (B : Type) where
  update : AList fun _ : Key => Doc B := ∅
  unset : AList fun _ : Key => Doc B := ∅

/-- An element of the result. -/
inductive Operator (B : Type)
  | set (fields : AList fun _ : Key => Doc B)
  | unset (fields : AList fun _ : Key => Doc B)

section Collector

variable {B : Type}

/-- The loop over the parts of a key, all but the last: is there a record at what they
join to?  `pfx` is what has been written to the builder. -/
def hasParent (tree : Tree B) (pfx : Key) : List Key → Bool
  | [] => false
  | [_] => false
  | part :: next :: rest =>
    (tree.lookup (pfx ++ part)).isSome || hasParent tree (pfx ++ part ++ ['.']) (next :: rest)

/-- The body of the loop over the array. -/
def record (tree : Tree B) (pair : DeltaPair B) : Tree B :=
  if hasParent tree [] (pair.1.splitOn '.') then tree
  else (tree.deletePrefix (pair.1 ++ ['.'])).insert pair.1 pair.2

/-- The function given to `Walk`.  The type of a nil value has no methods to look up. -/
def visit (fields : Fields B) (e : Σ _ : Key, Val B) : Exec (Fields B) :=
  match e.2 with
  | .nil => .error .nilDeref
  | .model toDB => .ok { fields with update := fields.update.insert e.1 toDB }
  | .str s =>
    if s = deleteMark then
      .ok { fields with unset := fields.unset.insert e.1 (.leaf (.str [])) }
    else .ok { fields with update := fields.update.insert e.1 (.leaf (.str s)) }
  | .plain v => .ok { fields with update := fields.update.insert e.1 v }

/-- What is returned. -/
def Fields.result (fields : Fields B) : List (Operator B) :=
  (if fields.update.entries = [] then [] else [.set fields.update]) ++
    if fields.unset.entries = [] then [] else [.unset fields.unset]

def catchDeltaData (array : List (DeltaPair B)) : Exec (List (Operator B)) :=
  let tree := array.foldl record ∅
  if tree.entries = [] then .ok []
  else do
    let fields ← tree.entries.foldlM visit {}
    return fields.result

/-! ## What it means for the document -/

/-- What a collected value sets its path to, or `none` if it deletes it. -/
def Val.content : Val B → Option (Doc B)
  | .nil => some (.leaf .null)
  | .str s => if s = deleteMark then none else some (.leaf (.str s))
  | .model toDB => some toDB
  | .plain v => some v

def path (key : Key) : List Key := key.splitOn '.'

def edit (pair : DeltaPair B) : Edit Key (Atom B) := pair.map path Val.content

def Operator.edits : Operator B → List (Edit Key (Atom B))
  | .set fields => fields.entries.map fun e => (path e.1, some e.2)
  | .unset fields => fields.entries.map fun e => (path e.1, none)

/-- An update of the database: it is refused if one of its paths is above another one. -/
def applyUpdate (stored : Slot Key (Atom B)) (update : List (Operator B)) :
    Option (Slot Key (Atom B)) :=
  let edits := update.flatMap Operator.edits
  if edits.Pairwise fun a b => ¬ a.1 <+: b.1 ∧ ¬ b.1 <+: a.1 then stored.edits edits else none

/-! ## Keys and paths -/

theorem path_injective : Function.Injective path := fun _ _ h => splitOn_inj.mp h

variable {k : Key}

theorem path_inj {k' : Key} : path k = path k' ↔ k = k' := path_injective.eq_iff

theorem lookup_deletePrefix (tree : Tree B) (pfx k : Key) :
    (tree.deletePrefix pfx).lookup k = if pfx <+: k then none else tree.lookup k := by
  ext v
  rw [← Option.mem_def, AList.mem_lookup_iff, Tree.deletePrefix, List.mem_filter]
  by_cases hpre : pfx <+: k
  · simp [hpre]
  · have hfalse : pfx.isPrefixOf k = false := by
      rwa [← Bool.not_eq_true, List.isPrefixOf_iff_prefix]
    rw [if_neg hpre, ← Option.mem_def, AList.mem_lookup_iff]
    simp [hfalse]

variable {tree : Tree B}

/-- The loop finds a record at the join of some of the parts, but not all. -/
theorem hasParent_iff {pfx : Key} {parts : List Key} :
    hasParent tree pfx parts = true ↔ ∃ front back, front ≠ [] ∧ back ≠ [] ∧
      front ++ back = parts ∧ (tree.lookup (pfx ++ ['.'].intercalate front)).isSome = true := by
  induction parts generalizing pfx with
  | nil =>
    refine iff_of_false nofun ?_
    rintro ⟨front, back, hfront, _, heq, _⟩
    exact hfront (List.append_eq_nil_iff.mp heq).1
  | cons part rest ih =>
    cases rest with
    | nil =>
      refine iff_of_false nofun ?_
      rintro ⟨front, back, hfront, hback, heq, _⟩
      rcases List.append_eq_singleton_iff.mp heq with ⟨h, _⟩ | ⟨_, h⟩
      · exact hfront h
      · exact hback h
    | cons next rest =>
      have hone : ['.'].intercalate [part] = part := by simp [List.intercalate]
      have hcons : ∀ {front : List Key}, front ≠ [] →
          pfx ++ ['.'].intercalate (part :: front) =
            pfx ++ part ++ ['.'] ++ ['.'].intercalate front := by
        intro front hfront
        rw [List.intercalate_cons_of_ne_nil hfront]
        simp only [List.append_assoc]
      rw [hasParent, Bool.or_eq_true, ih]
      constructor
      · rintro (h | ⟨front, back, hfront, hback, heq, h⟩)
        · exact ⟨[part], next :: rest, nofun, nofun, rfl, by rwa [hone]⟩
        · exact ⟨part :: front, back, nofun, hback, congrArg _ heq, by rwa [hcons hfront]⟩
      · rintro ⟨front, back, hfront, hback, heq, h⟩
        cases front with
        | nil => exact absurd rfl hfront
        | cons head front =>
          obtain ⟨rfl, htail⟩ := List.cons.inj heq
          by_cases hne : front = []
          · rw [hne, hone] at h
            exact .inl h
          · exact .inr ⟨front, back, hne, hback, htail, by rwa [hcons hne] at h⟩

/-- **A change is skipped** iff there is a record above its path. -/
theorem hasParent_path_iff :
    hasParent tree [] (path k) = true ↔
      ∃ k', (tree.lookup k').isSome = true ∧ path k' <+: path k ∧ k' ≠ k := by
  rw [hasParent_iff]
  constructor
  · rintro ⟨front, back, hfront, hback, heq, h⟩
    have hsub : front.Sublist (path k) := by
      rw [← heq]
      exact List.sublist_append_left ..
    have hpath : path (['.'].intercalate front) = front :=
      splitOn_intercalate_of_sublist hfront hsub
    refine ⟨['.'].intercalate front, h, ?_, ?_⟩
    · rw [hpath, ← heq]
      exact List.prefix_append ..
    · rintro rfl
      rw [hpath] at heq
      exact hback (List.append_right_eq_self.mp heq)
  · rintro ⟨k', h, ⟨back, hback⟩, hne⟩
    refine ⟨path k', back, List.splitOn_ne_nil '.' k', ?_, hback, ?_⟩
    · rintro rfl
      rw [List.append_nil] at hback
      exact hne (path_inj.mp hback)
    · rwa [path, List.intercalate_splitOn]

/-! ## The tree -/

def edits (array : List (DeltaPair B)) : List (Edit Key (Atom B)) := array.map edit

theorem edits_append (array : List (DeltaPair B)) (pair : DeltaPair B) :
    edits (array ++ [pair]) = edits array ++ [edit pair] := List.map_append

/-- A key whose path is topmost, and its last value. -/
def Recorded (array : List (DeltaPair B)) (k : Key) (v : Val B) : Prop :=
  Topmost (edits array) (path k) ∧ ∃ later, trace k array = some (v, later)

variable {array : List (DeltaPair B)} {pair : DeltaPair B}

theorem exists_recorded (hmem : pair ∈ array) :
    ∃ k v, Recorded array k v ∧ path k <+: path pair.1 := by
  obtain ⟨p, htop, hpre⟩ := exists_topmost (List.mem_map_of_mem (f := edit) hmem)
  obtain ⟨e, he, rfl⟩ := htop.1
  obtain ⟨pair', hmem', rfl⟩ := List.mem_map.mp he
  cases htrace : trace pair'.1 array with
  | none => exact absurd rfl (trace_eq_none_iff.mp htrace pair' hmem')
  | some t => exact ⟨pair'.1, t.1, ⟨htop, t.2, htrace⟩, hpre⟩

theorem trace_append_of_ne (hne : pair.1 ≠ k) {v : Val B} :
    (∃ later, trace k (array ++ [pair]) = some (v, later)) ↔
      ∃ later, trace k array = some (v, later) := by
  rw [trace_append_singleton, if_neg hne]
  simp [Option.map_eq_some_iff]

/-- A change below a record leaves the records as they are. -/
theorem recorded_append_of_below {k₀ : Key} {v₀ : Val B} (hrec : Recorded array k₀ v₀)
    (hpre : path k₀ <+: path pair.1) (hne : k₀ ≠ pair.1) (k : Key) (v : Val B) :
    Recorded (array ++ [pair]) k v ↔ Recorded array k v := by
  rw [Recorded, Recorded, edits_append, edit, Prod.map,
    topmost_append_of_below hrec.1 hpre (path_injective.ne hne)]
  refine and_congr_right fun htop => trace_append_of_ne ?_
  rintro rfl
  obtain ⟨e₀, he₀, heq⟩ := hrec.1.1
  have hsame := htop.2 e₀ he₀ (heq ▸ hpre)
  exact hne (path_inj.mp (heq ▸ hsame))

/-- A change below no record takes the place of those below it. -/
theorem recorded_append_of_not_below
    (hrec : ∀ k v, Recorded array k v → path k <+: path pair.1 → k = pair.1) (k : Key) (v : Val B) :
    Recorded (array ++ [pair]) k v ↔
      if k = pair.1 then v = pair.2
      else Recorded array k v ∧ ¬ path pair.1 <+: path k := by
  have htop : ∀ e ∈ edits array, e.1 <+: path pair.1 → e.1 = path pair.1 := by
    intro e he hpre
    obtain ⟨pair', hmem, rfl⟩ := List.mem_map.mp he
    obtain ⟨k', v', hrec', hpre'⟩ := exists_recorded hmem
    obtain rfl := hrec k' v' hrec' (hpre'.trans hpre)
    exact hpre.eq_of_length_le hpre'.length_le
  rw [Recorded, edits_append, edit, Prod.map, topmost_append_of_not_below htop]
  by_cases hk : k = pair.1
  · subst hk
    rw [if_pos rfl, trace_append_singleton, if_pos rfl]
    simp [eq_comm]
  · have hpath : path k ≠ path pair.1 := path_injective.ne hk
    rw [if_neg hk, trace_append_of_ne (Ne.symm hk), Recorded]
    simp only [hpath, false_or, ne_eq, not_false_eq_true, true_and]
    exact and_right_comm

/-- **The tree holds the topmost paths with their last values.** -/
theorem lookup_foldl_record_iff (array : List (DeltaPair B)) (k : Key) (v : Val B) :
    (array.foldl record ∅).lookup k = some v ↔ Recorded array k v := by
  induction array using List.reverseRecOn generalizing k v with
  | nil =>
    refine iff_of_false ?_ ?_
    · rw [List.foldl_nil, AList.lookup_empty]
      exact nofun
    · rintro ⟨_, later, htrace⟩
      exact nomatch htrace
  | append_singleton array pair ih =>
    rw [List.foldl_append, List.foldl_cons, List.foldl_nil, record]
    by_cases hparent : hasParent (array.foldl record ∅) [] (pair.1.splitOn '.') = true
    · obtain ⟨k₀, h₀, hpre, hne⟩ := hasParent_path_iff.mp hparent
      obtain ⟨v₀, hv₀⟩ := Option.isSome_iff_exists.mp h₀
      rw [if_pos hparent, ih, recorded_append_of_below ((ih _ _).mp hv₀) hpre hne]
    · have hrec : ∀ k v, Recorded array k v → path k <+: path pair.1 → k = pair.1 := by
        intro k v hrec hpre
        by_contra hne
        refine hparent (hasParent_path_iff.mpr ⟨k, ?_, hpre, hne⟩)
        rw [(ih k v).mpr hrec]
        rfl
      rw [if_neg hparent, recorded_append_of_not_below hrec]
      by_cases hk : k = pair.1
      · rw [hk, AList.lookup_insert, if_pos rfl, Option.some_inj]
        exact eq_comm
      · have hpath : pair.1 ++ ['.'] <+: k ↔ path pair.1 <+: path k :=
          append_prefix_iff.trans (and_iff_left (Ne.symm hk))
        rw [AList.lookup_insert_ne hk, if_neg hk, lookup_deletePrefix, if_congr hpath rfl rfl,
          ← ih]
        by_cases hpre : path pair.1 <+: path k <;> simp [hpre]

/-! ## The update -/

/-- What `visit` does with a value that is not nil. -/
def Fields.put (fields : Fields B) (e : Σ _ : Key, Val B) : Fields B :=
  match e.2.content with
  | some v => { fields with update := fields.update.insert e.1 v }
  | none => { fields with unset := fields.unset.insert e.1 (.leaf (.str [])) }

theorem visit_of_ne_nil (fields : Fields B) {e : Σ _ : Key, Val B} (hv : e.2 ≠ .nil) :
    visit fields e = .ok (fields.put e) := by
  obtain ⟨k, v⟩ := e
  cases v with
  | nil => exact absurd rfl hv
  | model toDB => rfl
  | plain v => rfl
  | str s =>
    by_cases hs : s = deleteMark
    · simp [visit, Fields.put, Val.content, hs]
    · simp [visit, Fields.put, Val.content, hs]

/-- The walk panics iff there is a nil value. -/
theorem foldlM_visit_eq_ok_iff {entries : List (Σ _ : Key, Val B)} {fields fields' : Fields B} :
    entries.foldlM visit fields = .ok fields' ↔
      (∀ e ∈ entries, e.2 ≠ .nil) ∧ fields' = entries.foldl Fields.put fields := by
  induction entries generalizing fields with
  | nil =>
    rw [List.foldlM_nil, List.foldl_nil]
    constructor
    · intro h
      exact ⟨nofun, (Except.ok.inj h).symm⟩
    · rintro ⟨_, rfl⟩
      rfl
  | cons e entries ih =>
    rw [List.foldlM_cons, List.foldl_cons, List.forall_mem_cons]
    by_cases hv : e.2 = .nil
    · have herror : visit fields e = .error .nilDeref := by rw [visit, hv]
      rw [herror]
      exact iff_of_false nofun fun h => h.1.1 hv
    · rw [visit_of_ne_nil fields hv]
      exact ih.trans (and_congr_left' (and_iff_right hv).symm)

theorem lookup_update_foldl_put {entries : List (Σ _ : Key, Val B)}
    (hnodup : entries.NodupKeys) (fields : Fields B) (k : Key) :
    (entries.foldl Fields.put fields).update.lookup k =
      ((entries.dlookup k).bind Val.content).or (fields.update.lookup k) := by
  induction entries generalizing fields with
  | nil => rfl
  | cons e entries ih =>
    obtain ⟨k', v⟩ := e
    rw [List.foldl_cons, ih (List.nodupKeys_of_nodupKeys_cons hnodup)]
    by_cases hk : k = k'
    · subst hk
      rw [List.dlookup_eq_none.mpr (List.notMem_keys_of_nodupKeys_cons hnodup),
        List.dlookup_cons_eq, Fields.put, Option.bind_some, Option.bind_none, Option.none_or]
      cases v.content with
      | none => rfl
      | some d => exact AList.lookup_insert _
    · rw [List.dlookup_cons_ne _ _ hk, Fields.put]
      cases v.content with
      | none => rfl
      | some d => exact congrArg _ (AList.lookup_insert_ne hk)

theorem mem_unset_foldl_put {entries : List (Σ _ : Key, Val B)} {fields : Fields B} :
    k ∈ (entries.foldl Fields.put fields).unset ↔
      (∃ v, ⟨k, v⟩ ∈ entries ∧ v.content = none) ∨ k ∈ fields.unset := by
  induction entries generalizing fields with
  | nil => simp
  | cons e entries ih =>
    obtain ⟨k', v⟩ := e
    rw [List.foldl_cons, ih, Fields.put]
    cases hv : v.content with
    | none =>
      simp only [AList.mem_insert, List.mem_cons, Sigma.mk.injEq, heq_eq_eq]
      grind
    | some d =>
      simp only [List.mem_cons, Sigma.mk.injEq, heq_eq_eq]
      grind

/-- The fields of the update made from a tree. -/
def fieldsOf (tree : Tree B) : Fields B := tree.entries.foldl Fields.put {}

theorem lookup_update_fieldsOf {d : Doc B} :
    (fieldsOf tree).update.lookup k = some d ↔
      ∃ v, tree.lookup k = some v ∧ v.content = some d := by
  rw [fieldsOf, lookup_update_foldl_put tree.nodupKeys, AList.lookup_empty, Option.or_none]
  exact Option.bind_eq_some_iff

theorem mem_unset_fieldsOf :
    k ∈ (fieldsOf tree).unset ↔ ∃ v, tree.lookup k = some v ∧ v.content = none := by
  rw [fieldsOf, mem_unset_foldl_put, or_iff_left (AList.notMem_empty k)]
  simp only [← AList.mem_lookup_iff, Option.mem_def]

theorem edits_result (fields : Fields B) :
    fields.result.flatMap Operator.edits =
      (fields.update.entries.map fun e => (path e.1, some e.2)) ++
        fields.unset.entries.map fun e => (path e.1, none) := by
  rw [Fields.result, List.flatMap_append]
  refine congrArg₂ _ ?_ ?_
  · by_cases hnil : fields.update.entries = []
    · rw [if_pos hnil, hnil]
      rfl
    · rw [if_neg hnil, List.flatMap_singleton]
      rfl
  · by_cases hnil : fields.unset.entries = []
    · rw [if_pos hnil, hnil]
      rfl
    · rw [if_neg hnil, List.flatMap_singleton]
      rfl

/-- The edits of the update are those of the tree. -/
theorem mem_edits_result {e : Edit Key (Atom B)} :
    e ∈ (fieldsOf tree).result.flatMap Operator.edits ↔
      ∃ k v, tree.lookup k = some v ∧ edit (k, v) = e := by
  obtain ⟨p, c⟩ := e
  have hset : (∃ e ∈ (fieldsOf tree).update.entries, (path e.1, some e.2) = (p, c)) ↔
      ∃ k v d, tree.lookup k = some v ∧ v.content = some d ∧ (path k, some d) = (p, c) := by
    constructor
    · rintro ⟨⟨k, d⟩, hmem, heq⟩
      obtain ⟨v, hv, hd⟩ := lookup_update_fieldsOf.mp (AList.mem_lookup_iff.mpr hmem)
      exact ⟨k, v, d, hv, hd, heq⟩
    · rintro ⟨k, v, d, hv, hd, heq⟩
      exact ⟨⟨k, d⟩, AList.mem_lookup_iff.mp (lookup_update_fieldsOf.mpr ⟨v, hv, hd⟩), heq⟩
  have hunset : (∃ e ∈ (fieldsOf tree).unset.entries, (path e.1, none) = (p, c)) ↔
      ∃ k v, tree.lookup k = some v ∧ v.content = none ∧ (path k, none) = (p, c) := by
    constructor
    · rintro ⟨⟨k, d⟩, hmem, heq⟩
      obtain ⟨v, hv, hd⟩ := mem_unset_fieldsOf.mp (List.mem_keys_of_mem hmem)
      exact ⟨k, v, hv, hd, heq⟩
    · rintro ⟨k, v, hv, hd, heq⟩
      obtain ⟨d, hmem⟩ := List.mem_keys.mp (mem_unset_fieldsOf.mpr ⟨v, hv, hd⟩)
      exact ⟨⟨k, d⟩, hmem, heq⟩
  rw [edits_result, List.mem_append, List.mem_map, List.mem_map, hset, hunset]
  constructor
  · rintro (⟨k, v, d, hv, hd, heq⟩ | ⟨k, v, hv, hd, heq⟩)
    · exact ⟨k, v, hv, by rw [← heq, edit, Prod.map, hd]⟩
    · exact ⟨k, v, hv, by rw [← heq, edit, Prod.map, hd]⟩
  · rintro ⟨k, v, hv, heq⟩
    cases hd : v.content with
    | none => exact .inr ⟨k, v, hv, hd, by rw [← heq, edit, Prod.map, hd]⟩
    | some d => exact .inl ⟨k, v, d, hv, hd, by rw [← heq, edit, Prod.map, hd]⟩

theorem pairwise_edits_result (tree : Tree B) :
    ((fieldsOf tree).result.flatMap Operator.edits).Pairwise fun a b => a.1 ≠ b.1 := by
  rw [edits_result, List.pairwise_append, List.pairwise_map, List.pairwise_map]
  refine ⟨?_, ?_, ?_⟩
  · exact (List.nodupKeys_iff_pairwise.mp (fieldsOf tree).update.nodupKeys).imp path_injective.ne
  · exact (List.nodupKeys_iff_pairwise.mp (fieldsOf tree).unset.nodupKeys).imp path_injective.ne
  · intro a ha b hb
    obtain ⟨⟨k, d⟩, hmem, rfl⟩ := List.mem_map.mp ha
    obtain ⟨⟨k', d'⟩, hmem', rfl⟩ := List.mem_map.mp hb
    obtain ⟨v, hv, hd⟩ := lookup_update_fieldsOf.mp (AList.mem_lookup_iff.mpr hmem)
    obtain ⟨v', hv', hd'⟩ := mem_unset_fieldsOf.mp (List.mem_keys_of_mem hmem')
    -- a value sets its path or deletes it
    refine path_injective.ne ?_
    rintro rfl
    obtain rfl := Option.some.inj (hv.symm.trans hv')
    exact nomatch hd.symm.trans hd'

/-! ## The effect of the update -/

/-- **The update is made of the last changes at the topmost paths.** -/
theorem compressed_result (array : List (DeltaPair B)) :
    Compressed (edits array)
      ((fieldsOf (array.foldl record ∅)).result.flatMap Operator.edits) := by
  intro e
  simp only [mem_edits_result, lookup_foldl_record_iff]
  have htrace : ∀ k, trace (path k) (edits array) =
      (trace k array).map fun t => (t.1.content, edits t.2) :=
    fun k => trace_map path_injective Val.content k array
  constructor
  · rintro ⟨k, v, ⟨htop, later, hlater⟩, rfl⟩
    refine ⟨htop, edits later, ?_⟩
    rw [edit, Prod.map, htrace, hlater]
    rfl
  · rintro ⟨htop, later, hlater⟩
    obtain ⟨e', he', heq⟩ := htop.1
    obtain ⟨⟨k, v⟩, _, rfl⟩ := List.mem_map.mp he'
    rw [← heq, edit, Prod.map, htrace, Option.map_eq_some_iff] at hlater
    obtain ⟨⟨v', later'⟩, htrace', hv'⟩ := hlater
    rw [← heq] at htop
    exact ⟨k, v', ⟨htop, later', htrace'⟩, Prod.ext heq (Prod.mk.inj hv').1⟩

theorem catchDeltaData_eq_ok_iff {update : List (Operator B)} :
    catchDeltaData array = .ok update ↔ (∀ k, ¬ Recorded array k .nil) ∧
      update = (fieldsOf (array.foldl record ∅)).result := by
  have hnil : (∀ e ∈ (array.foldl record ∅).entries, e.2 ≠ .nil) ↔
      ∀ k, ¬ Recorded array k .nil := by
    simp only [← lookup_foldl_record_iff, ← Option.mem_def, AList.mem_lookup_iff]
    constructor
    · exact fun h k hmem => h ⟨k, .nil⟩ hmem rfl
    · rintro h ⟨k, v⟩ hmem rfl
      exact h k hmem
  have hcatch : catchDeltaData array =
      if (array.foldl record ∅).entries = [] then .ok []
      else (array.foldl record ∅).entries.foldlM visit {} >>= fun fields => pure fields.result :=
    rfl
  rw [hcatch, ← hnil]
  by_cases hempty : (array.foldl record ∅).entries = []
  · rw [if_pos hempty, fieldsOf, hempty]
    constructor
    · intro h
      exact ⟨nofun, (Except.ok.inj h).symm⟩
    · rintro ⟨_, rfl⟩
      rfl
  · rw [if_neg hempty]
    simp only [Exec.bind_eq_ok_iff, foldlM_visit_eq_ok_iff]
    constructor
    · rintro ⟨_, ⟨hvalues, rfl⟩, h⟩
      exact ⟨hvalues, (Except.ok.inj h).symm⟩
    · rintro ⟨hvalues, rfl⟩
      exact ⟨_, ⟨hvalues, rfl⟩, rfl⟩

/-- What it takes for the update to have the effect of the changes. -/
structure Compressible (stored : Slot Key (Atom B)) (array : List (DeltaPair B)) : Prop where
  /-- nil is not the last value of a topmost path -/
  value : ∀ k, ¬ Recorded array k .nil
  faithful : Faithful stored (edits array)

/-- If every value collected is the content of its path, so is what is kept of them. -/
theorem live_of_forall_mem {model : Slot Key (Atom B)}
    (hlive : ∀ pair ∈ array, ∀ v, pair.2.content = some v → model.get (path pair.1) = some v) :
    Live (edits array) model := by
  intro k v later _ htrace
  obtain ⟨pair, hmem, heq⟩ := List.mem_map.mp (mem_of_trace htrace).1
  obtain ⟨rfl, hv⟩ := Prod.mk.inj heq
  exact hlive pair hmem v hv

/-- **The update has the effect of the changes one after the other** iff no topmost path ends
with nil, nothing is set below a topmost path after it was deleted for good, and no
document is created that no value of the update creates. -/
theorem catchDeltaData_effect_iff {stored stored' model₀ model : Slot Key (Atom B)}
    (hstored : stored.edits (edits array) = some stored')
    (hmodel : model₀.edits (edits array) = some model) (hlive : Live (edits array) model) :
    (∃ update, catchDeltaData array = .ok update ∧ applyUpdate stored update = some stored') ↔
      Compressible stored array := by
  have hcs := compressed_result array
  have happly : applyUpdate stored (fieldsOf (array.foldl record ∅)).result = some stored' ↔
      Faithful stored (edits array) := by
    rw [applyUpdate, if_pos (hcs.pairwise (pairwise_edits_result _))]
    exact edits_compressed_iff hcs ⟨model₀, model, hmodel, hlive⟩ hstored
  simp only [catchDeltaData_eq_ok_iff]
  constructor
  · rintro ⟨_, ⟨hvalue, rfl⟩, heffect⟩
    exact ⟨hvalue, happly.mp heffect⟩
  · intro h
    exact ⟨_, ⟨h.value, rfl⟩, happly.mpr h.faithful⟩

end Collector

def single (k : Key) (v : Doc Nat) : Doc Nat := .node (Function.update (fun _ => none) k (some v))

/-- A model is assigned to the field `a` and then changed, and the field `c` is deleted. -/
def assigned : List (DeltaPair Nat) :=
  [(['a'], .model (single ['b'] (.leaf (.other 2)))), (['a', '.', 'b'], .plain (.leaf (.other 2))),
    (['c'], .str deleteMark)]

theorem catchDeltaData_effect_assigned :
    ∃ stored', Slot.edits (some (single ['c'] (.leaf .null))) (edits assigned) = some stored' ∧
      Live (edits assigned) stored' ∧
      Compressible (some (single ['c'] (.leaf .null))) assigned := by
  obtain ⟨stored', hstored⟩ : ∃ stored',
      Slot.edits (some (single ['c'] (.leaf .null))) (edits assigned) = some stored' := ⟨_, rfl⟩
  have hlive : Live (edits assigned) stored' := by
    refine live_of_forall_mem ?_
    obtain rfl := Option.some.inj hstored
    intro pair hmem v hv
    simp only [assigned, List.mem_cons, List.not_mem_nil, or_false] at hmem
    rcases hmem with rfl | rfl | rfl
    · refine Eq.trans ?_ hv
      exact congrArg (fun f => some (Value.node f)) (Function.update_idem ..)
    · exact hv
    · exact nomatch hv
  refine ⟨stored', hstored, hlive, ?_⟩
  refine (catchDeltaData_effect_iff hstored hstored hlive).mp ⟨_, rfl, ?_⟩
  rw [← hstored]
  -- the second change sets the field to what it is
  show some (some (Value.node (Function.update (Function.update _ ['a'] _) ['c'] none))) =
    some (some (Value.node (Function.update (Function.update (Function.update _ ['a'] _) ['a']
      (some (Value.node (Function.update (Function.update _ ['b'] _) ['b'] _)))) ['c'] none)))
  rw [Function.update_idem, Function.update_idem]
  rfl

/-- The field `a` is deleted, and then a field of it is set. -/
def deletedThenSet : List (DeltaPair Nat) :=
  [(['a'], .str deleteMark), (['a', '.', 'b'], .plain (.leaf (.other 1)))]

theorem deletedThenSet_lost :
    ∃ stored' update,
      Slot.edits (some (.node fun _ => none)) (edits deletedThenSet) = some stored' ∧
      (∀ pair ∈ deletedThenSet, ∀ v, pair.2.content = some v →
        Slot.get stored' (path pair.1) = some v) ∧
      catchDeltaData deletedThenSet = .ok update ∧
      applyUpdate (some (.node fun _ => none)) update ≠ some stored' := by
  refine ⟨_, _, rfl, ?_, rfl, ?_⟩
  · intro pair hmem v hv
    simp only [deletedThenSet, List.mem_cons, List.not_mem_nil, or_false] at hmem
    rcases hmem with rfl | rfl
    · exact nomatch hv
    · exact hv
  · intro heq
    have hget := congrArg (Option.map fun s => Slot.get s [['a'], ['b']]) heq
    exact nomatch hget

end Gokit.Delta
