/-
# Documents and edits at paths

A document is a tree of named fields.  An edit sets a value at a path, creating the
documents on the way, or unsets what is there.  A list of edits can be compressed: of
the edits at a path, and of those below it, only the last one at the path is kept, for
every path that no other edited path is above.

We say exactly when the compressed edits do the same as all of them one after the
other.  It rests on one assumption, that a value which is kept is the content of its
path after all edits; then what can go wrong is that a value is set below a path that
has been unset, and that the only values set in a document that was not there are unset
again, which leaves an empty document behind.
-/

import Mathlib.Algebra.Order.BigOperators.Group.List
import Mathlib.Algebra.Order.Group.Nat
import Mathlib.Data.List.Basic
import Mathlib.Data.List.Induction
import Mathlib.Data.List.Nodup
import Mathlib.Logic.Function.Basic

namespace Gokit.Math

/-! ## Documents -/

/-- A value: atomic, or a document with fields. -/
inductive Value (F A : Type)
  | leaf (a : A)
  | node (fields : F → Option (Value F A))

/-- A place in a document, with a value or without. -/
abbrev Slot (F A : Type) : Type := Option (Value F A)

/-- An edit at a path: set a value, or unset. -/
abbrev Edit (F A : Type) : Type := List F × Option (Value F A)

variable {F A : Type} [DecidableEq F]

namespace Slot

/-- Set a value.  The documents on the way are created; a path through an atomic value is
an error. -/
def setAt (s : Slot F A) : List F → Value F A → Option (Slot F A)
  | [], v => some (some v)
  | x :: rest, v =>
    match s with
    | none => (setAt none rest v).map fun w => some (.node (Function.update (fun _ => none) x w))
    | some (.node f) => (setAt (f x) rest v).map fun w => some (.node (Function.update f x w))
    | some (.leaf _) => none

/-- Unset a path; nothing happens if it is not there. -/
def unsetAt (s : Slot F A) : List F → Slot F A
  | [] => none
  | x :: rest =>
    match s with
    | some (.node f) => some (.node (Function.update f x (unsetAt (f x) rest)))
    | s => s

def get (s : Slot F A) : List F → Slot F A
  | [] => s
  | x :: rest =>
    match s with
    | some (.node f) => get (f x) rest
    | _ => none

def edit (s : Slot F A) (e : Edit F A) : Option (Slot F A) :=
  match e.2 with
  | some v => s.setAt e.1 v
  | none => some (s.unsetAt e.1)

def edits (s : Slot F A) (es : List (Edit F A)) : Option (Slot F A) := es.foldlM edit s

theorem edits_cons (s : Slot F A) (e : Edit F A) (es : List (Edit F A)) :
    s.edits (e :: es) = (s.edit e).bind fun s' => s'.edits es := rfl

theorem edits_append_singleton (s : Slot F A) (es : List (Edit F A)) (e : Edit F A) :
    s.edits (es ++ [e]) = (s.edits es).bind fun s' => s'.edit e := by
  rw [edits, List.foldlM_append]
  refine congrArg _ (funext fun s' => ?_)
  exact bind_pure _

theorem edit_node (f : F → Slot F A) (x : F) (path : List F) (c : Option (Value F A)) :
    edit (some (.node f)) (x :: path, c) =
      (edit (f x) (path, c)).map fun w => some (.node (Function.update f x w)) := by
  cases c <;> rfl

theorem unsetAt_none (path : List F) : unsetAt (none : Slot F A) path = none := by
  cases path <;> rfl

end Slot

/-! ## The edits below a field -/

/-- The edits below a field, relative to it. -/
def under (x : F) (es : List (Edit F A)) : List (Edit F A) :=
  es.filterMap fun e =>
    match e.1 with
    | y :: rest => if y = x then some (rest, e.2) else none
    | [] => none

theorem under_append (x : F) (es es' : List (Edit F A)) :
    under x (es ++ es') = under x es ++ under x es' := List.filterMap_append

theorem under_cons_self (x : F) (path : List F) (c : Option (Value F A)) (es : List (Edit F A)) :
    under x ((x :: path, c) :: es) = (path, c) :: under x es :=
  List.filterMap_cons_some (if_pos rfl)

variable {x : F}

theorem under_cons_of_ne {y : F} (hne : y ≠ x) (path : List F) (c : Option (Value F A))
    (es : List (Edit F A)) : under x ((y :: path, c) :: es) = under x es :=
  List.filterMap_cons_none (if_neg hne)

variable {c : Option (Value F A)}

theorem mem_under {es : List (Edit F A)} {path : List F} :
    (path, c) ∈ under x es ↔ (x :: path, c) ∈ es := by
  induction es with
  | nil => exact iff_of_false List.not_mem_nil List.not_mem_nil
  | cons e es ih =>
    obtain ⟨p, d⟩ := e
    cases p with
    | nil =>
      rw [show under x (([], d) :: es) = under x es from List.filterMap_cons_none rfl, ih]
      simp
    | cons y rest =>
      by_cases hy : y = x
      · subst hy
        rw [under_cons_self, List.mem_cons, List.mem_cons, ih]
        simp
      · rw [under_cons_of_ne hy, ih, List.mem_cons]
        refine ⟨.inr, fun h => h.resolve_left fun heq => hy ?_⟩
        exact (List.cons.inj (Prod.mk.inj heq).1).1.symm

/-- The edits leave the root alone. -/
def Rootless (es : List (Edit F A)) : Prop := ∀ e ∈ es, e.1 ≠ []

omit [DecidableEq F] in
theorem Rootless.tail {e : Edit F A} {es : List (Edit F A)} (hroot : Rootless (e :: es)) :
    Rootless es := fun e' he' => hroot e' (List.mem_cons_of_mem _ he')

variable {f : F → Slot F A} {s : Slot F A}

/-- **Edits of a document are edits of its fields**, independently of one another. -/
theorem edits_node_iff {es : List (Edit F A)} (hroot : Rootless es) :
    Slot.edits (some (.node f)) es = some s ↔
      ∃ g, s = some (.node g) ∧ ∀ x, (f x).edits (under x es) = some (g x) := by
  induction es generalizing f with
  | nil =>
    constructor
    · intro h
      exact ⟨f, (Option.some.inj h).symm, fun _ => rfl⟩
    · rintro ⟨g, rfl, hg⟩
      rw [funext fun x => Option.some.inj (hg x)]
      rfl
  | cons e es ih =>
    obtain ⟨path, c⟩ := e
    cases path with
    | nil => exact absurd rfl (hroot ([], c) List.mem_cons_self)
    | cons y path =>
      have hfield : ∀ {w : Slot F A}, (f y).edit (path, c) = some w → ∀ x,
          (Function.update f y w x).edits (under x es) =
            (f x).edits (under x ((y :: path, c) :: es)) := by
        intro w hw x
        by_cases hx : y = x
        · subst hx
          rw [Function.update_self, under_cons_self, Slot.edits_cons, hw]
          rfl
        · rw [Function.update_of_ne (Ne.symm hx), under_cons_of_ne hx]
      rw [Slot.edits_cons, Slot.edit_node]
      cases hedit : (f y).edit (path, c) with
      | none =>
        refine iff_of_false nofun ?_
        rintro ⟨g, _, hg⟩
        have hy := hg y
        rw [under_cons_self, Slot.edits_cons, hedit] at hy
        exact nomatch hy
      | some w =>
        refine (ih hroot.tail).trans ?_
        simp only [hfield hedit]

/-! ### Places that are not documents -/

def HasSet (es : List (Edit F A)) : Prop := ∃ e ∈ es, e.2 ≠ none

omit [DecidableEq F] in
theorem not_hasSet_iff {es : List (Edit F A)} : ¬ HasSet es ↔ ∀ e ∈ es, e.2 = none := by
  simp [HasSet]

/-- Where nothing is, unsetting does nothing. -/
theorem edits_none_of_not_hasSet {es : List (Edit F A)} (hset : ¬ HasSet es) :
    Slot.edits (none : Slot F A) es = some none := by
  rw [not_hasSet_iff] at hset
  induction es with
  | nil => rfl
  | cons e es ih =>
    have hedit : Slot.edit (none : Slot F A) e = some none := by
      rw [Slot.edit, hset e List.mem_cons_self]
      exact congrArg some (Slot.unsetAt_none e.1)
    rw [Slot.edits_cons, hedit]
    exact ih fun e' he' => hset e' (List.mem_cons_of_mem _ he')

/-- The first value that is set creates the document. -/
theorem edits_none_of_hasSet {es : List (Edit F A)} (hroot : Rootless es) (hset : HasSet es) :
    Slot.edits (none : Slot F A) es = Slot.edits (some (.node fun _ => none)) es := by
  induction es with
  | nil =>
    obtain ⟨e, he, _⟩ := hset
    exact absurd he List.not_mem_nil
  | cons e es ih =>
    obtain ⟨path, c⟩ := e
    cases path with
    | nil => exact absurd rfl (hroot ([], c) List.mem_cons_self)
    | cons y path =>
      cases c with
      | some v => rfl
      | none =>
        have hempty : Slot.edit (some (.node fun _ => none) : Slot F A) (y :: path, none) =
            some (some (.node fun _ => none)) := by
          rw [Slot.edit_node]
          show some (some (Value.node (Function.update _ y (Slot.unsetAt none path)))) = _
          rw [Slot.unsetAt_none, Function.update_eq_self]
        rw [Slot.edits_cons, Slot.edits_cons, hempty]
        refine ih hroot.tail ?_
        obtain ⟨e, he, hv⟩ := hset
        rcases List.mem_cons.mp he with rfl | he
        · exact absurd rfl hv
        · exact ⟨e, he, hv⟩

/-- Where an atomic value is, unsetting below it does nothing. -/
theorem edits_leaf_of_not_hasSet {es : List (Edit F A)} (hroot : Rootless es) (hset : ¬ HasSet es)
    (a : A) : Slot.edits (some (.leaf a) : Slot F A) es = some (some (.leaf a)) := by
  rw [not_hasSet_iff] at hset
  induction es with
  | nil => rfl
  | cons e es ih =>
    obtain ⟨path, c⟩ := e
    obtain rfl : c = none := hset (path, c) List.mem_cons_self
    cases path with
    | nil => exact absurd rfl (hroot ([], none) List.mem_cons_self)
    | cons y path => exact ih hroot.tail fun e' he' => hset e' (List.mem_cons_of_mem _ he')

/-- And setting below it is an error. -/
theorem not_hasSet_of_edits_leaf {es : List (Edit F A)} (hroot : Rootless es) {a : A}
    (hedits : Slot.edits (some (.leaf a)) es = some s) : ¬ HasSet es := by
  rw [not_hasSet_iff]
  induction es with
  | nil => exact fun e he => absurd he List.not_mem_nil
  | cons e es ih =>
    obtain ⟨path, c⟩ := e
    cases path with
    | nil => exact absurd rfl (hroot ([], c) List.mem_cons_self)
    | cons y path =>
      cases c with
      | some v => exact nomatch hedits
      | none => exact List.forall_mem_cons.mpr ⟨rfl, ih hroot.tail hedits⟩

/-! ## The last edit at a path -/

section Trace

variable {K C : Type} [DecidableEq K]

/-- The last edit at a path, and the edits after it.  What a path and an edit are does not
matter. -/
def trace (k : K) (es : List (K × C)) : Option (C × List (K × C)) :=
  es.foldl (fun acc e =>
    if e.1 = k then some (e.2, []) else acc.map fun t => (t.1, t.2 ++ [e])) none

theorem trace_append_singleton (k : K) (es : List (K × C)) (e : K × C) :
    trace k (es ++ [e]) =
      if e.1 = k then some (e.2, []) else (trace k es).map fun t => (t.1, t.2 ++ [e]) := by
  rw [trace, List.foldl_append]
  rfl

theorem trace_eq_none_iff {k : K} {es : List (K × C)} : trace k es = none ↔ ∀ e ∈ es, e.1 ≠ k := by
  induction es using List.reverseRecOn with
  | nil => exact iff_of_true rfl fun e he => absurd he List.not_mem_nil
  | append_singleton es e ih =>
    rw [trace_append_singleton]
    simp only [List.mem_append, List.mem_singleton, or_imp, forall_and, forall_eq]
    by_cases he : e.1 = k
    · simp [he]
    · rw [if_neg he, Option.map_eq_none_iff, ih]
      exact (and_iff_left he).symm

theorem mem_of_trace {k : K} {es later : List (K × C)} {c : C}
    (htrace : trace k es = some (c, later)) : (k, c) ∈ es ∧ ∀ e ∈ later, e ∈ es ∧ e.1 ≠ k := by
  induction es using List.reverseRecOn generalizing later with
  | nil => exact nomatch htrace
  | append_singleton es e ih =>
    rw [trace_append_singleton] at htrace
    by_cases he : e.1 = k
    · rw [if_pos he] at htrace
      obtain ⟨rfl, rfl⟩ := Prod.mk.inj (Option.some.inj htrace)
      refine ⟨List.mem_append_right _ (List.mem_singleton.mpr ?_), nofun⟩
      rw [← he]
    · rw [if_neg he] at htrace
      obtain ⟨⟨c', later'⟩, htrace', heq⟩ := Option.map_eq_some_iff.mp htrace
      obtain ⟨rfl, rfl⟩ := Prod.mk.inj heq
      obtain ⟨hmem, hlater⟩ := ih htrace'
      refine ⟨List.mem_append_left _ hmem, fun e' he' => ?_⟩
      rcases List.mem_append.mp he' with he' | he'
      · exact ⟨List.mem_append_left _ (hlater e' he').1, (hlater e' he').2⟩
      · obtain rfl := List.mem_singleton.mp he'
        exact ⟨List.mem_append_right _ (List.mem_singleton_self _), he⟩

/-- The last edit is found whatever the paths and the edits are written as. -/
theorem trace_map {K' C' : Type} [DecidableEq K'] {f : K → K'} (hf : f.Injective) (g : C → C')
    (k : K) (es : List (K × C)) :
    trace (f k) (es.map (Prod.map f g)) =
      (trace k es).map fun t => (g t.1, t.2.map (Prod.map f g)) := by
  induction es using List.reverseRecOn with
  | nil => rfl
  | append_singleton es e ih =>
    rw [List.map_append, List.map_singleton, trace_append_singleton, trace_append_singleton, ih]
    by_cases he : e.1 = k
    · have hfe : (Prod.map f g e).1 = f k := congrArg f he
      rw [if_pos he, if_pos hfe]
      rfl
    · have hfe : (Prod.map f g e).1 ≠ f k := fun h => he (hf h)
      rw [if_neg he, if_neg hfe, Option.map_map, Option.map_map]
      simp only [Function.comp_def, List.map_append, List.map_singleton]

end Trace

variable {later : List (Edit F A)} {s' : Slot F A}

/-- What was before the last edit of the root does not matter. -/
theorem edits_of_trace_root {es : List (Edit F A)} (htrace : trace [] es = some (c, later))
    (hedits : s.edits es = some s') : Slot.edits c later = some s' := by
  induction es using List.reverseRecOn generalizing later s' with
  | nil => exact nomatch htrace
  | append_singleton es e ih =>
    rw [trace_append_singleton] at htrace
    rw [Slot.edits_append_singleton] at hedits
    obtain ⟨s'', hes, he''⟩ := Option.bind_eq_some_iff.mp hedits
    by_cases he : e.1 = []
    · rw [if_pos he] at htrace
      obtain ⟨rfl, rfl⟩ := Prod.mk.inj (Option.some.inj htrace)
      rw [← he'']
      obtain ⟨path, c⟩ := e
      obtain rfl : path = [] := he
      cases c <;> rfl
    · rw [if_neg he] at htrace
      obtain ⟨⟨c', later'⟩, htrace', heq⟩ := Option.map_eq_some_iff.mp htrace
      obtain ⟨rfl, rfl⟩ := Prod.mk.inj heq
      rw [Slot.edits_append_singleton, ih htrace' hes]
      exact he''

theorem trace_under (x : F) (k : List F) (es : List (Edit F A)) :
    trace k (under x es) = (trace (x :: k) es).map fun t => (t.1, under x t.2) := by
  induction es using List.reverseRecOn with
  | nil => rfl
  | append_singleton es e ih =>
    obtain ⟨path, c⟩ := e
    rw [under_append, trace_append_singleton]
    have hother : (Option.map (fun t => (t.1, t.2 ++ [(path, c)]))
        (trace (x :: k) es)).map (fun t => (t.1, under x t.2)) =
        (trace (x :: k) es).map fun t => (t.1, under x t.2 ++ under x [(path, c)]) := by
      rw [Option.map_map]
      exact congrArg (Option.map · _) (funext fun t => by
        simp only [Function.comp_apply, under_append])
    cases path with
    | nil =>
      rw [show under x [([], c)] = ([] : List (Edit F A)) from rfl, List.append_nil, ih,
        if_neg nofun, hother]
      simp [under]
    | cons y path =>
      by_cases hy : y = x
      · subst hy
        rw [show under y [(y :: path, c)] = [(path, c)] from under_cons_self y path c [],
          trace_append_singleton]
        by_cases hpath : path = k
        · rw [if_pos hpath, if_pos (congrArg _ hpath)]
          rfl
        · have hne : y :: path ≠ y :: k := fun h => hpath (List.cons.inj h).2
          rw [if_neg hpath, if_neg hne, hother, ih, Option.map_map,
            show under y [(y :: path, c)] = [(path, c)] from under_cons_self y path c []]
          rfl
      · have hnil : under x [(y :: path, c)] = ([] : List (Edit F A)) :=
          under_cons_of_ne hy path c []
        have hne : y :: path ≠ x :: k := fun h => hy (List.cons.inj h).1
        rw [hnil, List.append_nil, ih, if_neg hne, hother, hnil]
        simp

/-! ## Topmost paths -/

/-- An edited path with no edited path above it. -/
def Topmost {C : Type} (es : List (List F × C)) (k : List F) : Prop :=
  (∃ e ∈ es, e.1 = k) ∧ ∀ e ∈ es, e.1 <+: k → e.1 = k

section Topmost

variable {C : Type} {es : List (List F × C)} {k q : List F}

omit [DecidableEq F] in
/-- Every edited path is at or below a topmost one. -/
theorem exists_topmost {e : List F × C} (he : e ∈ es) : ∃ k, Topmost es k ∧ k <+: e.1 := by
  induction hlen : e.1.length using Nat.strongRecOn generalizing e with
  | ind n ih =>
    by_cases htop : ∀ e' ∈ es, e'.1 <+: e.1 → e'.1 = e.1
    · exact ⟨e.1, ⟨⟨e, he, rfl⟩, htop⟩, List.prefix_rfl⟩
    · push Not at htop
      obtain ⟨e', he', hpre, hne⟩ := htop
      have hlt : e'.1.length < n := by
        rw [← hlen]
        exact Nat.lt_of_le_of_ne hpre.length_le fun h => hne (hpre.eq_of_length h)
      obtain ⟨k, hk, hpre'⟩ := ih _ hlt he' rfl
      exact ⟨k, hk, hpre'.trans hpre⟩

omit [DecidableEq F] in
theorem Topmost.eq_of_prefix (hk : Topmost es k) (hq : Topmost es q) (hpre : k <+: q) : k = q := by
  obtain ⟨⟨e, he, rfl⟩, _⟩ := hk
  exact hq.2 e he hpre

omit [DecidableEq F] in
theorem topmost_append_iff {c : C} {p : List F} :
    Topmost (es ++ [(q, c)]) p ↔
      ((∃ e ∈ es, e.1 = p) ∨ q = p) ∧ (∀ e ∈ es, e.1 <+: p → e.1 = p) ∧ (q <+: p → q = p) := by
  rw [Topmost]
  refine and_congr ?_ ?_
  · simp only [List.mem_append, List.mem_singleton, or_and_right, exists_or, exists_eq_left]
  · simp only [List.mem_append, List.mem_singleton, or_imp, forall_and, forall_eq]

omit [DecidableEq F] in
/-- An edit below a topmost path changes nothing. -/
theorem topmost_append_of_below (hk : Topmost es k) (hpre : k <+: q) (hne : k ≠ q) (c : C)
    (p : List F) : Topmost (es ++ [(q, c)]) p ↔ Topmost es p := by
  obtain ⟨⟨e₀, he₀, rfl⟩, _⟩ := hk
  rw [topmost_append_iff]
  constructor
  · rintro ⟨hmem | rfl, habove, _⟩
    · exact ⟨hmem, habove⟩
    · exact absurd (habove e₀ he₀ hpre) hne
  · rintro ⟨hmem, habove⟩
    refine ⟨.inl hmem, habove, fun hqp => ?_⟩
    have hkp := habove e₀ he₀ (hpre.trans hqp)
    exact absurd (hpre.eq_of_length_le (hkp ▸ hqp.length_le)) hne

omit [DecidableEq F] in
/-- An edit that is below no edited path takes the place of those below it. -/
theorem topmost_append_of_not_below (htop : ∀ e ∈ es, e.1 <+: q → e.1 = q) (c : C) (p : List F) :
    Topmost (es ++ [(q, c)]) p ↔ p = q ∨ p ≠ q ∧ Topmost es p ∧ ¬ q <+: p := by
  rw [topmost_append_iff]
  constructor
  · rintro ⟨hmem, habove, hq⟩
    by_cases hpq : p = q
    · exact .inl hpq
    · refine .inr ⟨hpq, ⟨hmem.resolve_right (Ne.symm hpq), habove⟩, fun hpre => hpq ?_⟩
      exact (hq hpre).symm
  · rintro (rfl | ⟨_, ⟨hmem, habove⟩, hq⟩)
    · exact ⟨.inr rfl, htop, fun _ => rfl⟩
    · exact ⟨.inl hmem, habove, fun hpre => absurd hpre hq⟩

end Topmost

/-! ## Compressed edits -/

/-- The last edits at the topmost paths, in any order. -/
def Compressed (es cs : List (Edit F A)) : Prop :=
  ∀ e, e ∈ cs ↔ Topmost es e.1 ∧ ∃ later, trace e.1 es = some (e.2, later)

/-- A value that is kept is the content of its path. -/
def Live (es : List (Edit F A)) (m : Slot F A) : Prop :=
  ∀ k v later, Topmost es k → trace k es = some (some v, later) → m.get k = some v

/-- The edits have been made in some document, and what is kept is live there. -/
def Modelled (es : List (Edit F A)) : Prop := ∃ m₀ m : Slot F A, m₀.edits es = some m ∧ Live es m

/-- What it takes for the compressed edits to have the effect of all of them. -/
structure Faithful (s : Slot F A) (es : List (Edit F A)) : Prop where
  /-- nothing is set below a topmost path after it has been unset for good -/
  unset : ∀ k later, Topmost es k → trace k es = some (none, later) →
    ∀ e ∈ later, k <+: e.1 → e.2 = none
  /-- where a document is created and not replaced, some value that is kept creates it -/
  created : ∀ p, (∀ e ∈ es, ¬ e.1 <+: p) → s.get p = none →
    (∃ e ∈ es, p <+: e.1 ∧ e.2 ≠ none) →
    ∃ k v later, Topmost es k ∧ p <+: k ∧ trace k es = some (some v, later)

theorem topmost_under {es : List (Edit F A)} (hroot : Rootless es) {k : List F} :
    Topmost (under x es) k ↔ Topmost es (x :: k) := by
  constructor
  · rintro ⟨⟨⟨path, c⟩, he, rfl⟩, habove⟩
    refine ⟨⟨(x :: path, c), mem_under.mp he, rfl⟩, ?_⟩
    rintro ⟨path', c'⟩ he' hpre
    cases path' with
    | nil => exact absurd rfl (hroot _ he')
    | cons y path' =>
      obtain ⟨rfl, htail⟩ := List.cons_prefix_cons.mp hpre
      exact congrArg _ (habove (path', c') (mem_under.mpr he') htail)
  · rintro ⟨⟨⟨path, c⟩, he, rfl⟩, habove⟩
    refine ⟨⟨(k, c), mem_under.mpr he, rfl⟩, ?_⟩
    rintro ⟨path', c'⟩ he' hpre
    have heq := habove (x :: path', c') (mem_under.mp he')
      (List.cons_prefix_cons.mpr ⟨rfl, hpre⟩)
    exact (List.cons.inj heq).2

theorem trace_under_eq_some_iff {k : List F} {es : List (Edit F A)} :
    trace k (under x es) = some (c, later) ↔
      ∃ later', trace (x :: k) es = some (c, later') ∧ under x later' = later := by
  rw [trace_under, Option.map_eq_some_iff]
  constructor
  · rintro ⟨⟨c', later'⟩, htrace, heq⟩
    obtain ⟨rfl, rfl⟩ := Prod.mk.inj heq
    exact ⟨later', htrace, rfl⟩
  · rintro ⟨later', htrace, rfl⟩
    exact ⟨(c, later'), htrace, rfl⟩

variable {cs : List (Edit F A)}

theorem Compressed.under {es : List (Edit F A)} (hcs : Compressed es cs) (hroot : Rootless es)
    (x : F) : Compressed (under x es) (under x cs) := by
  rintro ⟨path, c⟩
  rw [mem_under, hcs, topmost_under hroot]
  refine and_congr_right fun _ => ?_
  simp only [trace_under_eq_some_iff]
  constructor
  · rintro ⟨later, htrace⟩
    exact ⟨_, later, htrace, rfl⟩
  · rintro ⟨_, later, htrace, _⟩
    exact ⟨later, htrace⟩

theorem Compressed.mem {es : List (Edit F A)} (hcs : Compressed es cs) {e : Edit F A}
    (he : e ∈ cs) : e ∈ es := by
  obtain ⟨_, later, htrace⟩ := (hcs e).mp he
  exact (mem_of_trace htrace).1

theorem Compressed.rootless {es : List (Edit F A)} (hcs : Compressed es cs) (hroot : Rootless es) :
    Rootless cs := fun e he => hroot e (hcs.mem he)

theorem Compressed.not_hasSet {es : List (Edit F A)} (hcs : Compressed es cs) (hset : ¬ HasSet es) :
    ¬ HasSet cs := by
  rintro ⟨e, he, hv⟩
  exact hset ⟨e, hcs.mem he, hv⟩

theorem Compressed.hasSet_iff {es : List (Edit F A)} (hcs : Compressed es cs) :
    HasSet cs ↔ ∃ k v later, Topmost es k ∧ trace k es = some (some v, later) := by
  constructor
  · rintro ⟨⟨k, c⟩, he, hv⟩
    obtain ⟨v, rfl⟩ := Option.ne_none_iff_exists'.mp hv
    obtain ⟨htop, later, htrace⟩ := (hcs (k, some v)).mp he
    exact ⟨k, v, later, htop, htrace⟩
  · rintro ⟨k, v, later, htop, htrace⟩
    exact ⟨(k, some v), (hcs _).mpr ⟨htop, later, htrace⟩, nofun⟩

/-- No path of the compressed edits is above another one. -/
theorem Compressed.pairwise {es : List (Edit F A)} (hcs : Compressed es cs)
    (hne : cs.Pairwise fun a b => a.1 ≠ b.1) :
    cs.Pairwise fun a b => ¬ a.1 <+: b.1 ∧ ¬ b.1 <+: a.1 := by
  refine hne.imp_of_mem fun {a b} ha hb hab => ?_
  have htopa := ((hcs a).mp ha).1
  have htopb := ((hcs b).mp hb).1
  exact ⟨fun hpre => hab (htopa.eq_of_prefix htopb hpre),
    fun hpre => hab (htopb.eq_of_prefix htopa hpre).symm⟩

/-! ### Field by field -/

theorem Live.of_not_hasSet {es : List (Edit F A)} (hset : ¬ HasSet es) (m : Slot F A) :
    Live es m := by
  intro k v later _ htrace
  exact absurd ⟨_, (mem_of_trace htrace).1, nofun⟩ hset

theorem Live.under {es : List (Edit F A)} {g : F → Slot F A} (hlive : Live es (some (.node g)))
    (hroot : Rootless es) (x : F) : Live (under x es) (g x) := by
  intro k v later htop htrace
  obtain ⟨later', htrace', _⟩ := trace_under_eq_some_iff.mp htrace
  exact hlive (x :: k) v later' ((topmost_under hroot).mp htop) htrace'

theorem HasSet.of_under {es : List (Edit F A)} (hset : HasSet (under x es)) : HasSet es := by
  obtain ⟨⟨path, c⟩, he, hv⟩ := hset
  exact ⟨(x :: path, c), mem_under.mp he, hv⟩

theorem Modelled.under {es : List (Edit F A)} (hmodel : Modelled es) (hroot : Rootless es)
    (x : F) : Modelled (under x es) := by
  obtain ⟨m₀, m, hm, hlive⟩ := hmodel
  by_cases hset : HasSet es
  · have hnode : ∃ f, Slot.edits (some (.node f)) es = some m := by
      cases m₀ with
      | none => exact ⟨_, (edits_none_of_hasSet hroot hset).symm.trans hm⟩
      | some v =>
        cases v with
        | leaf a => exact absurd hset (not_hasSet_of_edits_leaf hroot hm)
        | node f => exact ⟨f, hm⟩
    obtain ⟨f, hf⟩ := hnode
    obtain ⟨g, rfl, hg⟩ := (edits_node_iff hroot).mp hf
    exact ⟨f x, g x, hg x, hlive.under hroot x⟩
  · have hsetx : ¬ HasSet (Math.under x es) := fun h => hset h.of_under
    exact ⟨none, none, edits_none_of_not_hasSet hsetx, .of_not_hasSet hsetx none⟩

theorem Faithful.of_not_hasSet {es : List (Edit F A)} (hset : ¬ HasSet es) (s : Slot F A) :
    Faithful s es where
  unset := fun _ _ _ htrace e he _ => not_hasSet_iff.mp hset e ((mem_of_trace htrace).2 e he).1
  created := by
    rintro _ _ _ ⟨e, he, _, hv⟩
    exact absurd ⟨e, he, hv⟩ hset

theorem Faithful.under {es : List (Edit F A)} (hroot : Rootless es)
    (h : Faithful (some (.node f)) es) (x : F) : Faithful (f x) (under x es) where
  unset := by
    rintro k later htop htrace ⟨path, c⟩ he hpre
    obtain ⟨later', htrace', rfl⟩ := trace_under_eq_some_iff.mp htrace
    exact h.unset (x :: k) later' ((topmost_under hroot).mp htop) htrace' (x :: path, c)
      (mem_under.mp he) (List.cons_prefix_cons.mpr ⟨rfl, hpre⟩)
  created := by
    rintro p habove hnone ⟨⟨path, c⟩, he, hpre, hv⟩
    have habove' : ∀ e ∈ es, ¬ e.1 <+: x :: p := by
      rintro ⟨path', c'⟩ he' hpre'
      cases path' with
      | nil => exact hroot _ he' rfl
      | cons y path' =>
        obtain ⟨rfl, htail⟩ := List.cons_prefix_cons.mp hpre'
        exact habove (path', c') (mem_under.mpr he') htail
    obtain ⟨k, v, later, htop, hk, htrace⟩ := h.created (x :: p) habove' hnone
      ⟨(x :: path, c), mem_under.mp he, List.cons_prefix_cons.mpr ⟨rfl, hpre⟩, hv⟩
    cases k with
    | nil => exact absurd (List.prefix_nil.mp hk) nofun
    | cons y k =>
      obtain ⟨rfl, htail⟩ := List.cons_prefix_cons.mp hk
      exact ⟨k, v, _, (topmost_under hroot).mpr htop, htail,
        trace_under_eq_some_iff.mpr ⟨later, htrace, rfl⟩⟩

theorem Faithful.of_under {es : List (Edit F A)} (hroot : Rootless es)
    (h : ∀ x, Faithful (f x) (Math.under x es)) : Faithful (some (.node f)) es where
  unset := by
    rintro k later htop htrace ⟨path, c⟩ he hpre
    cases k with
    | nil =>
      obtain ⟨⟨e, he, hnil⟩, _⟩ := htop
      exact absurd hnil (hroot e he)
    | cons x k =>
      cases path with
      | nil => exact absurd (List.prefix_nil.mp hpre) nofun
      | cons y path =>
        obtain ⟨rfl, htail⟩ := List.cons_prefix_cons.mp hpre
        exact (h x).unset k _ ((topmost_under hroot).mpr htop)
          (trace_under_eq_some_iff.mpr ⟨later, htrace, rfl⟩) (path, c)
          (mem_under.mpr he) htail
  created := by
    rintro p habove hnone ⟨⟨path, c⟩, he, hpre, hv⟩
    cases p with
    | nil => exact nomatch hnone
    | cons x p =>
      cases path with
      | nil => exact absurd (List.prefix_nil.mp hpre) nofun
      | cons y path =>
        obtain ⟨rfl, htail⟩ := List.cons_prefix_cons.mp hpre
        obtain ⟨k, v, later, htop, hk, htrace⟩ := (h x).created p
          (fun e he' hpre' => habove (x :: e.1, e.2) (mem_under.mp he')
            (List.cons_prefix_cons.mpr ⟨rfl, hpre'⟩))
          hnone ⟨(path, c), mem_under.mpr he, htail, hv⟩
        obtain ⟨later', htrace', _⟩ := trace_under_eq_some_iff.mp htrace
        exact ⟨x :: k, v, later', (topmost_under hroot).mp htop,
          List.cons_prefix_cons.mpr ⟨rfl, hk⟩, htrace'⟩

theorem faithful_node_iff {es : List (Edit F A)} (hroot : Rootless es) :
    Faithful (some (.node f)) es ↔ ∀ x, Faithful (f x) (under x es) :=
  ⟨fun h x => h.under hroot x, Faithful.of_under hroot⟩

/-- Where nothing is, the document that is created has to be created by what is kept. -/
theorem faithful_none_iff {es : List (Edit F A)} (hroot : Rootless es) (hset : HasSet es) :
    Faithful none es ↔ Faithful (some (.node fun _ => none)) es ∧
      ∃ k v later, Topmost es k ∧ trace k es = some (some v, later) := by
  constructor
  · intro h
    refine ⟨⟨h.unset, fun p habove _ hbelow => h.created p habove ?_ hbelow⟩, ?_⟩
    · cases p <;> rfl
    · obtain ⟨e, he, hv⟩ := hset
      obtain ⟨k, v, later, htop, _, htrace⟩ := h.created []
        (fun e he hpre => hroot e he (List.prefix_nil.mp hpre)) rfl
        ⟨e, he, List.nil_prefix, hv⟩
      exact ⟨k, v, later, htop, htrace⟩
  · rintro ⟨h, k, v, later, htop, htrace⟩
    refine ⟨h.unset, fun p habove _ hbelow => ?_⟩
    cases p with
    | nil => exact ⟨k, v, later, htop, List.nil_prefix, htrace⟩
    | cons x p =>
      refine h.created (x :: p) habove ?_ hbelow
      cases p <;> rfl

/-! ### The root -/

theorem edits_root {es : List (Edit F A)} (hne : es ≠ []) (hes : ∀ e ∈ es, e = ([], c))
    (s : Slot F A) : s.edits es = some c := by
  induction es generalizing s with
  | nil => exact absurd rfl hne
  | cons e es ih =>
    obtain rfl := hes e List.mem_cons_self
    have hedit : s.edit ([], c) = some c := by cases c <;> rfl
    rw [Slot.edits_cons, hedit]
    cases es with
    | nil => rfl
    | cons e' es => exact ih nofun (fun e he => hes e (List.mem_cons_of_mem _ he)) c

/-- The document itself is edited: its last edit is all that is kept. -/
theorem edits_compressed_root_iff {es : List (Edit F A)} (htrace : trace [] es = some (c, later))
    (hcs : Compressed es cs) (hmodel : Modelled es) (hs : s.edits es = some s') :
    s.edits cs = some s' ↔ Faithful s es := by
  have hroot : ([], c) ∈ es := (mem_of_trace htrace).1
  have htop : Topmost es [] := ⟨⟨_, hroot, rfl⟩, fun e _ hpre => List.prefix_nil.mp hpre⟩
  have honly : ∀ k, Topmost es k → k = [] := fun k hk => (hk.2 _ hroot List.nil_prefix).symm
  have hcs_edits : s.edits cs = some c := by
    refine edits_root (List.ne_nil_of_mem ((hcs ([], c)).mpr ⟨htop, later, htrace⟩)) ?_ s
    rintro ⟨k, d⟩ he
    obtain ⟨hk, later', htrace'⟩ := (hcs (k, d)).mp he
    obtain rfl := honly k hk
    exact congrArg _ (Prod.mk.inj (Option.some.inj (htrace'.symm.trans htrace))).1
  have hlater := edits_of_trace_root htrace hs
  have hcreated : ∀ p, (∀ e ∈ es, ¬ e.1 <+: p) → s.get p = none →
      (∃ e ∈ es, p <+: e.1 ∧ e.2 ≠ none) →
      ∃ k v later, Topmost es k ∧ p <+: k ∧ trace k es = some (some v, later) :=
    fun p habove _ _ => absurd List.nil_prefix (habove _ hroot)
  rw [hcs_edits]
  cases c with
  | some v =>
    -- by the model, the later edits change nothing
    obtain ⟨m₀, m, hm, hlive⟩ := hmodel
    have hm' := edits_of_trace_root htrace hm
    rw [show m = some v from hlive [] v later htop htrace] at hm'
    refine iff_of_true (hm'.symm.trans hlater) ⟨fun k later' hk htrace' => ?_, hcreated⟩
    obtain rfl := honly k hk
    exact nomatch htrace.symm.trans htrace'
  | none =>
    have hrootless : Rootless later := fun e he => ((mem_of_trace htrace).2 e he).2
    constructor
    · intro heq
      refine ⟨fun k later' hk htrace' e he _ => ?_, hcreated⟩
      obtain rfl := honly k hk
      obtain ⟨_, rfl⟩ := Prod.mk.inj (Option.some.inj (htrace.symm.trans htrace'))
      by_contra hv
      rw [edits_none_of_hasSet hrootless ⟨e, he, hv⟩] at hlater
      obtain ⟨g, rfl, _⟩ := (edits_node_iff hrootless).mp hlater
      exact nomatch heq
    · intro h
      have hset : ¬ HasSet later := not_hasSet_iff.mpr fun e he =>
        h.unset [] later htop htrace e he List.nil_prefix
      exact (edits_none_of_not_hasSet hset).symm.trans hlater

/-! ### The effect of the compressed edits -/

/-- Where nothing is set, the compressed edits and all of them do the same. -/
theorem edits_compressed_of_not_hasSet {es : List (Edit F A)} (hcs : Compressed es cs)
    (hroot : Rootless es) (hset : ¬ HasSet es) (hnode : ∀ f, s ≠ some (.node f))
    (hs : s.edits es = some s') : s.edits cs = some s' := by
  rw [← hs]
  cases s with
  | none => rw [edits_none_of_not_hasSet hset, edits_none_of_not_hasSet (hcs.not_hasSet hset)]
  | some v =>
    cases v with
    | leaf a =>
      rw [edits_leaf_of_not_hasSet hroot hset,
        edits_leaf_of_not_hasSet (hcs.rootless hroot) (hcs.not_hasSet hset)]
    | node f => exact absurd rfl (hnode f)

/-- A document is edited field by field. -/
theorem edits_compressed_node_iff {es : List (Edit F A)} (hcs : Compressed es cs)
    (hroot : Rootless es) (hf : Slot.edits (some (.node f)) es = some s)
    (hfields : ∀ x t, Slot.edits (f x) (under x es) = some t →
      (Slot.edits (f x) (under x cs) = some t ↔ Faithful (f x) (under x es))) :
    Slot.edits (some (.node f)) cs = some s ↔ Faithful (some (.node f)) es := by
  obtain ⟨g, rfl, hg⟩ := (edits_node_iff hroot).mp hf
  rw [edits_node_iff (hcs.rootless hroot), faithful_node_iff hroot,
    ← forall_congr' fun x => hfields x (g x) (hg x)]
  constructor
  · rintro ⟨g', heq, hg'⟩
    rw [Value.node.inj (Option.some.inj heq)]
    exact hg'
  · exact fun h => ⟨g, rfl, h⟩

/-- **The compressed edits have the effect of all of them** iff the edits are faithful. -/
theorem edits_compressed_iff {es : List (Edit F A)} (hcs : Compressed es cs) (hmodel : Modelled es)
    (hs : s.edits es = some s') : s.edits cs = some s' ↔ Faithful s es := by
  -- by induction on a bound of the lengths of the paths
  obtain ⟨n, hn⟩ : ∃ n, ∀ e ∈ es, e.1.length < n := by
    refine ⟨(es.map fun e => e.1.length).sum + 1, fun e he => Nat.lt_succ_of_le ?_⟩
    exact List.le_sum_of_mem (List.mem_map_of_mem he)
  induction n generalizing es cs s s' with
  | zero =>
    obtain rfl : es = [] := List.eq_nil_iff_forall_not_mem.mpr fun e he =>
      absurd (hn e he) (Nat.not_lt_zero _)
    obtain rfl : cs = [] := List.eq_nil_iff_forall_not_mem.mpr fun e he =>
      absurd (hcs.mem he) List.not_mem_nil
    exact iff_of_true hs (.of_not_hasSet (fun ⟨_, he, _⟩ => List.not_mem_nil he) s)
  | succ n ih =>
    cases htrace : trace [] es with
    | some t => exact edits_compressed_root_iff htrace hcs hmodel hs
    | none =>
      have hroot : Rootless es := trace_eq_none_iff.mp htrace
      have hnode : ∀ f, Slot.edits (some (.node f)) es = some s' →
          (Slot.edits (some (.node f)) cs = some s' ↔ Faithful (some (.node f)) es) := by
        intro f hf
        refine edits_compressed_node_iff hcs hroot hf fun x t ht => ?_
        refine ih (hcs.under hroot x) (hmodel.under hroot x) ht ?_
        rintro ⟨path, c⟩ he
        exact Nat.lt_of_succ_lt_succ (hn _ (mem_under.mp he))
      by_cases hisNode : ∃ f, s = some (.node f)
      · obtain ⟨f, rfl⟩ := hisNode
        exact hnode f hs
      push Not at hisNode
      by_cases hset : HasSet es
      · cases s with
        | none =>
          rw [edits_none_of_hasSet hroot hset] at hs
          by_cases hcset : HasSet cs
          · rw [edits_none_of_hasSet (hcs.rootless hroot) hcset, hnode _ hs,
              faithful_none_iff hroot hset]
            exact (and_iff_left (hcs.hasSet_iff.mp hcset)).symm
          · rw [edits_none_of_not_hasSet hcset]
            obtain ⟨g, rfl, _⟩ := (edits_node_iff hroot).mp hs
            refine iff_of_false nofun fun h => hcset (hcs.hasSet_iff.mpr ?_)
            exact ((faithful_none_iff hroot hset).mp h).2
        | some v =>
          cases v with
          | leaf a => exact absurd hset (not_hasSet_of_edits_leaf hroot hs)
          | node f => exact absurd rfl (hisNode f)
      · exact iff_of_true (edits_compressed_of_not_hasSet hcs hroot hset hisNode hs)
          (.of_not_hasSet hset s)

end Gokit.Math
