/-
# Fallible computations over an addressed store

Pointer programs are modelled here without committing to any particular data
structure.  A `Store` is a growing sequence of cells; a pointer is the position
of a cell, and allocation hands out the next position, so a fresh pointer is
never an old one.  Memory is reclaimed by a garbage collector in the programs
of interest, which is why nothing is ever freed: an unreachable cell is simply
no longer read.

Every read may fault.  The faults are kept apart because they mean different
things about a program: a missing cell, an index past the end of a slice, and a
loop that has not come back within the number of rounds granted to it.
-/

import Mathlib.Data.List.Basic
import Mathlib.Logic.Function.Basic

namespace Gokit.Math

universe u v

/-- Why a computation did not produce a result. -/
inductive Fault
  | nilDeref
  | indexOutOfRange
  | diverges
  deriving DecidableEq, Repr

/-- A computation that returns or faults. -/
abbrev Exec (α : Type u) : Type u := Except Fault α

namespace Exec

variable {α : Type u} {β : Type u}

@[simp]
theorem ok_bind (value : α) (next : α → Exec β) :
    ((Except.ok value : Exec α) >>= next) = next value := rfl

@[simp]
theorem error_bind (fault : Fault) (next : α → Exec β) :
    ((Except.error fault : Exec α) >>= next) = .error fault := rfl

@[simp]
theorem pure_eq_ok (value : α) : (pure value : Exec α) = .ok value := rfl

/-- A sequence of two computations returns exactly when both halves return. -/
theorem bind_eq_ok_iff {first : Exec α} {next : α → Exec β} {result : β} :
    (first >>= next) = .ok result ↔
      ∃ value, first = .ok value ∧ next value = .ok result := by
  cases first with
  | error fault => simp
  | ok value => simp

/-- What is said of the value a computation returns can be checked on it. -/
instance decidableForallOk {post : α → Prop} [DecidablePred post] :
    (computation : Exec α) → Decidable (∀ value, computation = .ok value → post value)
  | .ok value => decidable_of_iff (post value)
      ⟨fun hpost _ hvalue => Except.ok.inj hvalue ▸ hpost, fun hpost => hpost value rfl⟩
  | .error _ => .isTrue (by simp)

/-- The computation returns a value that satisfies `post`, or its loops do not
come back; it has no other fault. -/
def Safe (computation : Exec α) (post : α → Prop) : Prop :=
  match computation with
  | .ok value => post value
  | .error fault => fault = .diverges

variable {value : α}

@[simp]
theorem safe_ok {post : α → Prop} : Safe (Except.ok value : Exec α) post ↔ post value := Iff.rfl

theorem safe_diverges (post : α → Prop) : Safe (Except.error .diverges : Exec α) post := rfl

/-- A computation that ensures what is never true does not return. -/
theorem Safe.eq_diverges {computation : Exec α} (hsafe : Safe computation fun _ => False) :
    computation = .error .diverges := by
  cases computation with
  | ok value => exact False.elim hsafe
  | error fault => exact congrArg Except.error hsafe

theorem Safe.mono {computation : Exec α} {post post' : α → Prop} (hsafe : Safe computation post)
    (himp : ∀ value, post value → post' value) : Safe computation post' := by
  cases computation with
  | ok value => exact himp value hsafe
  | error fault => exact hsafe

/-- Sequencing: what the first half ensures is what the second half may assume. -/
theorem Safe.bind {first : Exec α} {next : α → Exec β} {mid : α → Prop} {post : β → Prop}
    (hfirst : Safe first mid) (hnext : ∀ value, mid value → Safe (next value) post) :
    Safe (first >>= next) post := by
  cases first with
  | ok value => exact hnext value hfirst
  | error fault => exact hfirst

/-- Granted enough rounds, the computation returns the value. -/
def Returns (computation : Nat → Exec α) (value : α) : Prop :=
  ∃ enough, ∀ fuel, enough ≤ fuel → computation fuel = .ok value

theorem Returns.bind {first : Nat → Exec α} {next : Nat → α → Exec β} {result : β}
    (hfirst : Returns first value) (hnext : Returns (fun fuel => next fuel value) result) :
    Returns (fun fuel => first fuel >>= next fuel) result := by
  obtain ⟨n, hn⟩ := hfirst
  obtain ⟨k, hk⟩ := hnext
  refine ⟨max n k, fun fuel hfuel => ?_⟩
  show (first fuel >>= next fuel) = .ok result
  rw [hn fuel (Nat.le_trans (Nat.le_max_left n k) hfuel), ok_bind]
  exact hk fuel (Nat.le_trans (Nat.le_max_right n k) hfuel)

theorem Returns.unique {computation : Nat → Exec α} {other : α} (hvalue : Returns computation value)
    (hother : Returns computation other) : value = other := by
  obtain ⟨n, hn⟩ := hvalue
  obtain ⟨k, hk⟩ := hother
  have hsame := hn (max n k) (Nat.le_max_left n k)
  rw [hk (max n k) (Nat.le_max_right n k)] at hsame
  exact (Except.ok.inj hsame).symm

/-- What every number of rounds ensures is true of the value returned. -/
theorem Returns.post {computation : Nat → Exec α} {post : α → Prop}
    (hreturns : Returns computation value) (hsafe : ∀ fuel, Safe (computation fuel) post) :
    post value := by
  obtain ⟨n, hn⟩ := hreturns
  have hpost := hsafe n
  rwa [hn n (Nat.le_refl n), safe_ok] at hpost

end Exec

/-- A non-nil pointer. A Go pointer that may be nil is an `Option Ptr`. -/
abbrev Ptr : Type := Nat

def nonNil : Option Ptr → Exec Ptr
  | some p => .ok p
  | none => .error .nilDeref

@[simp]
theorem nonNil_some (p : Ptr) : nonNil (some p) = .ok p := rfl

/-- An addressed store: the cell at position `p` is what pointer `p` refers to. -/
structure Store (α : Type u) where
  cells : List α
  deriving DecidableEq, Repr

namespace Store

variable {α : Type u}

def read (store : Store α) (p : Ptr) : Option α := store.cells[p]?

/-- Overwrite the cell at `p`; a pointer that refers to no cell changes nothing. -/
def write (store : Store α) (p : Ptr) (cell : α) : Store α := ⟨store.cells.set p cell⟩

/-- The pointer the next allocation returns. -/
def fresh (store : Store α) : Ptr := store.cells.length

/-- Allocate one cell at the `fresh` pointer. -/
def alloc (store : Store α) (cell : α) : Store α := ⟨store.cells ++ [cell]⟩

/-- Follow a pointer, faulting when it refers to nothing. -/
def deref (store : Store α) (p : Ptr) : Exec α :=
  match store.read p with
  | some cell => .ok cell
  | none => .error .nilDeref

/-- Change the cell a pointer refers to. -/
def modify (store : Store α) (p : Ptr) (change : α → α) : Exec (Store α) := do
  let cell ← store.deref p
  .ok (store.write p (change cell))

variable {store : Store α} {p : Ptr} {cell : α}

theorem deref_eq_ok_iff : store.deref p = .ok cell ↔ store.read p = some cell := by
  unfold deref
  cases store.read p with
  | none => simp
  | some found => simp

theorem deref_of_read (hread : store.read p = some cell) : store.deref p = .ok cell :=
  deref_eq_ok_iff.mpr hread

theorem lt_fresh_of_read (hread : store.read p = some cell) : p < store.fresh :=
  (List.getElem?_eq_some_iff.mp hread).1

theorem read_write_self {old : α} (cell : α) (hread : store.read p = some old) :
    (store.write p cell).read p = some cell := by
  have hbound := lt_fresh_of_read hread
  simp only [fresh] at hbound
  simp [read, write, hbound]

theorem read_write_of_ne {q : Ptr} (cell : α) (hne : q ≠ p) :
    (store.write p cell).read q = store.read q := by
  simp [read, write, Ne.symm hne]

/-- What is read after a write, as a function of the pointer. -/
theorem read_write {old : α} (cell : α) (hread : store.read p = some old) :
    (store.write p cell).read = Function.update store.read p (some cell) := by
  funext q
  by_cases heq : q = p
  · rw [heq, read_write_self cell hread, Function.update_self]
  · rw [read_write_of_ne cell heq, Function.update_of_ne heq]

@[simp]
theorem fresh_write (store : Store α) (p : Ptr) (cell : α) :
    (store.write p cell).fresh = store.fresh := by
  simp [fresh, write]

@[simp]
theorem fresh_alloc (store : Store α) (cell : α) : (store.alloc cell).fresh = store.fresh + 1 := by
  simp [fresh, alloc]

@[simp]
theorem read_alloc_fresh (store : Store α) (cell : α) :
    (store.alloc cell).read store.fresh = some cell := by
  simp [read, alloc, fresh]

theorem read_alloc_of_ne (cell : α) (hne : p ≠ store.fresh) :
    (store.alloc cell).read p = store.read p := by
  rcases Nat.lt_or_gt_of_ne hne with hlt | hgt
  · simp only [read, alloc, fresh] at hlt ⊢
    exact List.getElem?_append_left hlt
  · simp only [read, alloc, fresh] at hgt ⊢
    rw [List.getElem?_eq_none (by simp; omega), List.getElem?_eq_none (by omega)]

theorem read_fresh (store : Store α) : store.read store.fresh = none := by
  simp [read, fresh]

theorem modify_spec (hread : store.read p = some cell) (change : α → α) :
    ∃ store', store.modify p change = .ok store' ∧
      store'.read = Function.update store.read p (some (change cell)) ∧
      store'.fresh = store.fresh := by
  refine ⟨store.write p (change cell), ?_, read_write _ hread, fresh_write _ _ _⟩
  rw [modify, deref_of_read hread]
  rfl

end Store

end Gokit.Math
