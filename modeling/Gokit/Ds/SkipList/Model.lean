/-
# What a skip list is for: a strictly increasing sequence

The abstract model forgets nodes, levels and spans and keeps the sequence of
elements alone.  Insertion puts an element in order, deletion takes it out, an
update is a deletion followed by an insertion, and the position of an element is
counted from one.  An update reports position zero when the element stays where
it was.

That the heap operations compute this model is proved in `Refinement`; here are
the facts about sequences that those proofs use.
-/

import Gokit.Ds.SkipList.Rep

namespace Gokit.Ds

variable {T : Type} [ElemType T]

/-- Put `data` in front of the first greater element. -/
def sortedInsert (data : T) (elems : List T) : List T :=
  elems.orderedInsert (fun a b => compare a b < 0) data

def sortedRemove (data : T) (elems : List T) : List T := elems.filter fun e => compare e data ≠ 0

/-- The position of `data`, counted from one. -/
def position (data : T) (elems : List T) : Nat := elems.findIdx (fun e => compare e data = 0) + 1

def isPresent (data : T) (elems : List T) : Bool := elems.any fun e => compare e data = 0

/-- What `Update` reports: zero when the position is the same as before. -/
def updateRank (old data : T) (elems : List T) : Nat :=
  let updated := sortedInsert data (sortedRemove old elems)
  if position data updated = position old elems then 0 else position data updated

section Facts

variable [LawfulElemType T] {front back : List T} {data : T}

theorem sortedInsert_append (hfront : ∀ a ∈ front, compare a data < 0)
    (hback : ∀ b ∈ back, compare data b < 0) :
    sortedInsert data (front ++ back) = front ++ data :: back := by
  induction front with
  | nil =>
    cases back with
    | nil => rfl
    | cons b back =>
      have hb : compare data b < 0 := hback b List.mem_cons_self
      simp [sortedInsert, hb]
  | cons a front ih =>
    have ha : ¬ compare data a < 0 := by
      have hpos := compare_pos_of_neg (hfront a List.mem_cons_self)
      omega
    have hrest := ih fun d hd => hfront d (List.mem_cons_of_mem a hd)
    simpa [sortedInsert, List.orderedInsert, ha] using hrest

/-- Everything on one side of `data` differs from it. -/
theorem compare_ne_zero_of_neg {a b : T} (h : compare a b < 0) :
    compare a b ≠ 0 ∧ compare b a ≠ 0 := by
  have hpos := compare_pos_of_neg h
  omega

theorem sortedRemove_append (hfront : ∀ a ∈ front, compare a data < 0)
    (hback : ∀ b ∈ back, compare data b < 0) :
    sortedRemove data (front ++ data :: back) = front ++ back := by
  have hself : compare data data = 0 := compare_self data
  have hkeep : ∀ e ∈ front ++ back, compare e data ≠ 0 := by
    intro e he
    rcases List.mem_append.mp he with he | he
    · exact (compare_ne_zero_of_neg (hfront e he)).1
    · exact (compare_ne_zero_of_neg (hback e he)).2
  have hfilter := List.filter_eq_self.mpr fun e he => decide_eq_true (hkeep e he)
  simpa [sortedRemove, hself] using hfilter

theorem sortedRemove_of_absent {elems : List T} (habsent : data ∉ elems) :
    sortedRemove data elems = elems := by
  refine List.filter_eq_self.mpr fun e he => decide_eq_true ?_
  intro hzero
  exact habsent (eq_of_compare hzero ▸ he)

theorem position_append (hfront : ∀ a ∈ front, compare a data < 0) :
    position data (front ++ data :: back) = front.length + 1 := by
  have hnone : ∀ a ∈ front, (decide (compare a data = 0)) = false := fun a ha =>
    decide_eq_false (compare_ne_zero_of_neg (hfront a ha)).1
  rw [position, List.findIdx_append]
  have hlength : front.findIdx (fun e => decide (compare e data = 0)) = front.length :=
    List.findIdx_eq_length.mpr hnone
  rw [hlength, if_neg (lt_irrefl _)]
  simp [List.findIdx_cons, compare_self data]

theorem isPresent_iff {elems : List T} : isPresent data elems = true ↔ data ∈ elems := by
  simp only [isPresent, List.any_eq_true, decide_eq_true_eq]
  constructor
  · rintro ⟨e, he, hzero⟩
    exact eq_of_compare hzero ▸ he
  · intro hmem
    exact ⟨data, hmem, compare_self data⟩

end Facts

/-! ## Integers in ascending order -/

/-- `Int64.Compare` of `skiplist_test.go`. -/
instance : ElemType Int where
  compare v o := if v < o then -1 else if v > o then 1 else 0

instance : LawfulElemType Int where
  compare_eq_zero_iff a b := by
    simp only [compare]
    constructor <;> intro h <;> split_ifs at * <;> omega
  compare_neg_iff a b := by
    simp only [compare]
    constructor <;> intro h <;> split_ifs at * <;> omega
  compare_trans a b c := by
    simp only [compare]
    split_ifs <;> omega

/-! ## Operations on the model -/

/-- The mutating operations of the package. -/
inductive Op (T : Type)
  | insert (data : T)
  | remove (data : T)
  | update (old data : T)
  | clear

inductive Ret
  | rank (value : Int)
  | found (value : Bool)
  | done
  deriving DecidableEq, Repr

/-- What the package asks of its callers: inserted data is new, and updated data
is present and not replaced by data equal to another element. -/
def Op.Allowed (elems : List T) : Op T → Prop
  | .insert data => data ∉ elems
  | .remove _ => True
  | .update old data => old ∈ elems ∧ ∀ e ∈ elems, e = data → e = old
  | .clear => True

instance [DecidableEq T] (elems : List T) : (op : Op T) → Decidable (op.Allowed elems)
  | .insert data => inferInstanceAs (Decidable (data ∉ elems))
  | .remove _ => inferInstanceAs (Decidable True)
  | .update old data => inferInstanceAs (Decidable (old ∈ elems ∧ ∀ e ∈ elems, e = data → e = old))
  | .clear => inferInstanceAs (Decidable True)

/-- The effect of an operation on the sequence, and its result. -/
def Op.spec (elems : List T) : Op T → List T × Ret
  | .insert data => (sortedInsert data elems, .rank (position data (sortedInsert data elems)))
  | .remove data => (sortedRemove data elems, .found (isPresent data elems))
  | .update old data =>
    (sortedInsert data (sortedRemove old elems), .rank (updateRank old data elems))
  | .clear => ([], .done)

/-- Every operation of a sequence is allowed where it is performed. -/
def AllowedRun : List T → List (Op T) → Prop
  | _, [] => True
  | elems, op :: ops => op.Allowed elems ∧ AllowedRun (op.spec elems).1 ops

instance AllowedRun.decidable [DecidableEq T] :
    (elems : List T) → (ops : List (Op T)) → Decidable (AllowedRun elems ops)
  | _, [] => inferInstanceAs (Decidable True)
  | elems, op :: ops =>
    have := AllowedRun.decidable (op.spec elems).1 ops
    inferInstanceAs (Decidable (op.Allowed elems ∧ AllowedRun (op.spec elems).1 ops))

def specRun : List T → List (Op T) → List T × List Ret
  | elems, [] => (elems, [])
  | elems, op :: ops =>
    let (elems, ret) := op.spec elems
    let (elems, rets) := specRun elems ops
    (elems, ret :: rets)

end Gokit.Ds
