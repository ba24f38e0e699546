/-
# Reading a skip list heap level by level

The operations of the skip list write single levels of single nodes.  Two views
of the heap separate what such a write can change from what it cannot: `shape`
is the data and the height of every node, and `levelAt` is the contents of one
level.  A level write keeps the whole shape and every other level, so a loop
over levels can be described one level at a time.
-/

import Gokit.Ds.SkipList.Defs

namespace Gokit.Ds

open Gokit.Math

variable {T : Type}

def shape (heap : Store (Node T)) (x : Ptr) : Option (T × Nat) :=
  (heap.read x).map fun node => (node.data, node.level.length)

variable {heap : Store (Node T)} {x : Ptr} {height : Nat} {data : T}

theorem shape_eq_some_iff :
    shape heap x = some (data, height) ↔
      ∃ level, heap.read x = some ⟨data, level⟩ ∧ level.length = height := by
  constructor
  · intro hshape
    obtain ⟨node, hread, hnode⟩ := Option.map_eq_some_iff.mp hshape
    injection hnode with hdata hheight
    exact ⟨node.level, by rw [hread, ← hdata], hheight⟩
  · rintro ⟨level, hread, rfl⟩
    simp [shape, hread]

variable {level : SkiplistLevel} {i : Nat}

theorem levelAt_eq_ok_iff :
    levelAt heap x i = .ok level ↔
      ∃ node, heap.read x = some node ∧ node.level[i]? = some level := by
  unfold levelAt
  rw [Exec.bind_eq_ok_iff]
  constructor
  · rintro ⟨node, hderef, hlevel⟩
    refine ⟨node, Store.deref_eq_ok_iff.mp hderef, ?_⟩
    cases hcase : node.level[i]? with
    | none => simp [hcase] at hlevel
    | some found =>
      rw [hcase] at hlevel
      injection hlevel with hfound
      rw [hfound]
  · rintro ⟨node, hread, hlevel⟩
    exact ⟨node, Store.deref_of_read hread, by simp [hlevel]⟩

/-- A node has a level exactly below its height. -/
theorem exists_levelAt (hshape : shape heap x = some (data, height)) (hi : i < height) :
    ∃ level, levelAt heap x i = .ok level := by
  obtain ⟨levels, hread, rfl⟩ := shape_eq_some_iff.mp hshape
  exact ⟨levels[i], levelAt_eq_ok_iff.mpr ⟨_, hread, by simp [hi]⟩⟩

theorem lt_height_of_levelAt (hshape : shape heap x = some (data, height))
    (hlevel : levelAt heap x i = .ok level) : i < height := by
  obtain ⟨levels, hread, rfl⟩ := shape_eq_some_iff.mp hshape
  obtain ⟨node, hread', hget⟩ := levelAt_eq_ok_iff.mp hlevel
  obtain rfl : ⟨data, levels⟩ = node := Option.some.inj (hread.symm.trans hread')
  exact (List.getElem?_eq_some_iff.mp hget).1

theorem dataAt_of_shape (hshape : shape heap x = some (data, height)) :
    dataAt heap x = .ok data := by
  obtain ⟨levels, hread, -⟩ := shape_eq_some_iff.mp hshape
  simp [dataAt, Store.deref_of_read hread]

/-! ## Allocation -/

theorem shape_alloc_fresh (heap : Store (Node T)) (node : Node T) :
    shape (heap.alloc node) heap.fresh = some (node.data, node.level.length) := by
  simp [shape]

theorem shape_alloc_of_ne {q : Ptr} (node : Node T) (hne : q ≠ heap.fresh) :
    shape (heap.alloc node) q = shape heap q := by
  simp [shape, Store.read_alloc_of_ne node hne]

theorem levelAt_alloc_of_ne {q : Ptr} (node : Node T) (i : Nat) (hne : q ≠ heap.fresh) :
    levelAt (heap.alloc node) q i = levelAt heap q i := by
  simp [levelAt, Store.deref, Store.read_alloc_of_ne node hne]

theorem ne_fresh_of_shape {q : Ptr} {value : T × Nat} (hshape : shape heap q = some value) :
    q ≠ heap.fresh := by
  rintro rfl
  simp [shape, Store.read_fresh] at hshape

/-! ## One level write -/

/-- `after` differs from `before` at level `i` of node `x` only, where it holds
`level`. -/
structure WritesLevel (before after : Store (Node T)) (x : Ptr) (i : Nat)
    (level : SkiplistLevel) : Prop where
  fresh : after.fresh = before.fresh
  shape : ∀ q, shape after q = shape before q
  written : levelAt after x i = .ok level
  kept : ∀ q j, (q ≠ x ∨ j ≠ i) → levelAt after q j = levelAt before q j

variable {old : SkiplistLevel}

theorem setLevelAt_spec (level : SkiplistLevel) (hold : levelAt heap x i = .ok old) :
    ∃ after, setLevelAt heap x i level = .ok after ∧ WritesLevel heap after x i level := by
  obtain ⟨node, hread, hold⟩ := levelAt_eq_ok_iff.mp hold
  have hi : i < node.level.length := (List.getElem?_eq_some_iff.mp hold).1
  let written : Node T := { node with level := node.level.set i level }
  refine ⟨heap.write x written, ?_, ?_, ?_, ?_, ?_⟩
  · simp [setLevelAt, Store.deref_of_read hread, hi, written]
  · exact Store.fresh_write heap x written
  · intro q
    by_cases hq : q = x
    · subst hq
      simp [Gokit.Ds.shape, Store.read_write_self written hread, hread, written]
    · simp [Gokit.Ds.shape, Store.read_write_of_ne written hq]
  · exact levelAt_eq_ok_iff.mpr
      ⟨written, Store.read_write_self written hread, by simp [written, hi]⟩
  · intro q j hqj
    by_cases hq : q = x
    · subst hq
      have hj : j ≠ i := hqj.resolve_left (by simp)
      simp [levelAt, Store.deref, Store.read_write_self written hread, hread, written,
        List.getElem?_set_ne (Ne.symm hj)]
    · simp [levelAt, Store.deref, Store.read_write_of_ne written hq]

theorem setNext_spec (next : Option Ptr) (hold : levelAt heap x i = .ok old) :
    ∃ after, setNext heap x i next = .ok after ∧
      WritesLevel heap after x i ⟨next, old.span⟩ := by
  simpa [setNext, hold] using setLevelAt_spec ⟨next, old.span⟩ hold

theorem setSpan_spec (span : Int) (hold : levelAt heap x i = .ok old) :
    ∃ after, setSpan heap x i span = .ok after ∧
      WritesLevel heap after x i ⟨old.next, span⟩ := by
  simpa [setSpan, hold] using setLevelAt_spec ⟨old.next, span⟩ hold

/-! ## Loops over levels -/

/-- `after` agrees with `before` on every shape and on every level but `i`. -/
structure TouchesLevel (before after : Store (Node T)) (i : Nat) : Prop where
  fresh : after.fresh = before.fresh
  shape : ∀ q, shape after q = shape before q
  kept : ∀ q j, j ≠ i → levelAt after q j = levelAt before q j

theorem TouchesLevel.trans {first second third : Store (Node T)}
    (hfirst : TouchesLevel first second i) (hsecond : TouchesLevel second third i) :
    TouchesLevel first third i where
  fresh := hsecond.fresh.trans hfirst.fresh
  shape q := (hsecond.shape q).trans (hfirst.shape q)
  kept q j hj := (hsecond.kept q j hj).trans (hfirst.kept q j hj)

theorem WritesLevel.touches {before after : Store (Node T)}
    (h : WritesLevel before after x i level) : TouchesLevel before after i :=
  ⟨h.fresh, h.shape, fun q j hj => h.kept q j (Or.inr hj)⟩

/-- What a loop over levels does when its round at level `i` touches that level
only and leaves there what `result` says.  Each round may assume that its own
level and all shapes still are as in `start`. -/
theorem forLevels_spec (body : Store (Node T) → Nat → Ptr × Int → Exec (Store (Node T)))
    (start : Store (Node T)) (result : Nat → Ptr × Int → Ptr → Exec SkiplistLevel) :
    ∀ (path : List (Ptr × Int)) (i : Nat) (heap : Store (Node T)),
      heap.fresh = start.fresh → (∀ q, shape heap q = shape start q) →
      (∀ q j, i ≤ j → levelAt heap q j = levelAt start q j) →
      (∀ k entry, path[k]? = some entry → ∀ before : Store (Node T),
        (∀ q, shape before q = shape start q) →
        (∀ q, levelAt before q (i + k) = levelAt start q (i + k)) →
        ∃ after, body before (i + k) entry = .ok after ∧
          TouchesLevel before after (i + k) ∧
          ∀ q, levelAt after q (i + k) = result (i + k) entry q) →
      ∃ after, forLevels body heap i path = .ok after ∧
        after.fresh = start.fresh ∧ (∀ q, shape after q = shape start q) ∧
        (∀ k entry, path[k]? = some entry →
          ∀ q, levelAt after q (i + k) = result (i + k) entry q) ∧
        (∀ q j, (j < i ∨ i + path.length ≤ j) → levelAt after q j = levelAt heap q j) := by
  intro path
  induction path with
  | nil =>
    intro i heap hfresh hshape _ _
    exact ⟨heap, rfl, hfresh, hshape, by simp, fun _ _ _ => rfl⟩
  | cons entry path ih =>
    intro i heap hfresh hshape hlevel hbody
    obtain ⟨first, hfirst, htouch, hresult⟩ := hbody 0 entry rfl heap hshape
      (fun q => hlevel q _ (Nat.le_add_right i 0))
    simp only [Nat.add_zero] at hfirst htouch hresult
    obtain ⟨after, hafter, hafterFresh, hafterShape, hinside, houtside⟩ :=
      ih (i + 1) first (htouch.fresh.trans hfresh)
        (fun q => (htouch.shape q).trans (hshape q))
        (fun q j hj => (htouch.kept q j (by omega)).trans (hlevel q j (by omega)))
        (fun k entry' hentry before => by
          simpa [Nat.add_assoc, Nat.add_comm, Nat.add_left_comm] using
            hbody (k + 1) entry' (by simpa using hentry) before)
    refine ⟨after, by simp [forLevels, hfirst, hafter], hafterFresh, hafterShape, ?_, ?_⟩
    · intro k entry' hentry q
      cases k with
      | zero =>
        obtain rfl : entry = entry' := by simpa using hentry
        rw [Nat.add_zero, houtside q i (Or.inl (Nat.lt_succ_self i)), hresult q]
      | succ k =>
        have hinner := hinside k entry' (by simpa using hentry) q
        simpa [Nat.add_assoc, Nat.add_comm, Nat.add_left_comm] using hinner
    · intro q j hj
      rw [List.length_cons] at hj
      rw [houtside q j (by omega), htouch.kept q j (by omega)]

end Gokit.Ds
