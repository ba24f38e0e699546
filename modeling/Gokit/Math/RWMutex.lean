/-
# Readers and a writer

A read-write lock is held by any number of readers or by one writer.  A writer first
announces itself, which keeps new readers and other writers out, and gets the lock when
the last reader has left.

Who is inside is recorded by name.  A program assigns a role to each of its threads, and
`Guards` says that the lock agrees with these roles.  Each operation changes the role of
one thread.
-/

import Mathlib.Data.List.Nodup
import Mathlib.Logic.Function.Basic

namespace Gokit.Math

structure RWMutex (τ : Type) where
  readers : List τ := []
  /-- the writer that has announced itself, or is inside -/
  writer : Option τ := none
  locked : Bool := false

namespace RWMutex

variable {τ : Type}

/-- New readers are let in unless a writer has announced itself. -/
def CanRLock (m : RWMutex τ) : Prop := m.writer = none

def rLock (m : RWMutex τ) (t : τ) : RWMutex τ := { m with readers := t :: m.readers }

def rUnlock [DecidableEq τ] (m : RWMutex τ) (t : τ) : RWMutex τ :=
  { m with readers := m.readers.erase t }

/-- One writer at a time announces itself. -/
def CanAnnounce (m : RWMutex τ) : Prop := m.writer = none

def announce (m : RWMutex τ) (t : τ) : RWMutex τ := { m with writer := some t }

/-- A writer that has announced itself is let in when there are no readers. -/
def CanLock (m : RWMutex τ) (t : τ) : Prop := m.writer = some t ∧ m.readers = []

def lock (m : RWMutex τ) : RWMutex τ := { m with locked := true }

def unlock (m : RWMutex τ) : RWMutex τ := { m with writer := none, locked := false }

instance (m : RWMutex τ) : Decidable m.CanRLock :=
  inferInstanceAs (Decidable (m.writer = none))

instance (m : RWMutex τ) : Decidable m.CanAnnounce :=
  inferInstanceAs (Decidable (m.writer = none))

instance [DecidableEq τ] (m : RWMutex τ) (t : τ) : Decidable (m.CanLock t) :=
  inferInstanceAs (Decidable (_ ∧ _))

/-- What a thread is to the lock. -/
inductive Role
  | outside
  | reading
  | announced
  | writing
  deriving DecidableEq

/-- The lock agrees with the roles of the threads. -/
structure Guards (m : RWMutex τ) (role : τ → Role) : Prop where
  nodup : m.readers.Nodup
  readers : ∀ t, t ∈ m.readers ↔ role t = .reading
  writer : ∀ t, m.writer = some t ↔ role t = .announced ∨ role t = .writing
  locked : ∀ t, role t = .writing → m.locked = true
  busy : m.locked = true → ∃ t, role t = .writing
  excludes : m.locked = true → m.readers = []

section Guards

variable {m : RWMutex τ} {role : τ → Role} {t : τ}

theorem guards_init : ({} : RWMutex τ).Guards fun _ => .outside where
  nodup := List.nodup_nil
  readers _ := iff_of_false List.not_mem_nil (by decide)
  writer _ := iff_of_false (by simp) (by decide)
  locked _ h := absurd h (by decide)
  busy h := Bool.noConfusion h
  excludes h := Bool.noConfusion h

/-- While one writes, nobody reads. -/
theorem Guards.not_reading (hguards : m.Guards role) (hwriting : role t = .writing) (u : τ) :
    role u ≠ .reading := by
  intro hreading
  have hmem := (hguards.readers u).mpr hreading
  rw [hguards.excludes (hguards.locked t hwriting)] at hmem
  exact List.not_mem_nil hmem

/-- If nobody reads, a writer that has announced itself is let in. -/
theorem Guards.canLock (hguards : m.Guards role) (hannounced : role t = .announced)
    (hreaders : ∀ u, role u ≠ .reading) : m.CanLock t := by
  refine ⟨(hguards.writer t).mpr (Or.inl hannounced), List.eq_nil_iff_forall_not_mem.mpr ?_⟩
  intro u hu
  exact hreaders u ((hguards.readers u).mp hu)

/-- Without a writer nobody has the lock alone. -/
theorem Guards.locked_ne (hguards : m.Guards role) (hwriter : m.writer = none) :
    m.locked ≠ true := by
  intro hlocked
  obtain ⟨u, hu⟩ := hguards.busy hlocked
  have hsome := (hguards.writer u).mpr (Or.inr hu)
  rw [hwriter] at hsome
  cases hsome

variable [DecidableEq τ]

/-- A property that the old and the new role of a thread share. -/
theorem update_role_iff (P : Role → Prop) {new : Role} (hsame : P new ↔ P (role t)) (u : τ) :
    P (Function.update role t new u) ↔ P (role u) := by
  by_cases heq : u = t
  · rw [heq, Function.update_self]
    exact hsame
  · rw [Function.update_of_ne heq]

theorem Guards.rLock (hguards : m.Guards role) (hcan : m.CanRLock) (hrole : role t = .outside) :
    (m.rLock t).Guards (Function.update role t .reading) where
  nodup := by
    refine List.nodup_cons.mpr ⟨?_, hguards.nodup⟩
    rw [hguards.readers, hrole]
    decide
  readers u := by
    show u ∈ t :: m.readers ↔ _
    by_cases heq : u = t
    · simp [heq]
    · simp [heq, hguards.readers]
  writer u := (hguards.writer u).trans
    (update_role_iff (fun r => r = .announced ∨ r = .writing) (by simp [hrole]) u).symm
  locked u hu := hguards.locked u ((update_role_iff (· = .writing) (by simp [hrole]) u).mp hu)
  busy h := absurd h (hguards.locked_ne hcan)
  excludes h := absurd h (hguards.locked_ne hcan)

theorem Guards.rUnlock (hguards : m.Guards role) (hrole : role t = .reading) :
    (m.rUnlock t).Guards (Function.update role t .outside) := by
  have hfree : m.locked ≠ true := by
    intro hlocked
    obtain ⟨u, hu⟩ := hguards.busy hlocked
    exact hguards.not_reading hu t hrole
  exact
    { nodup := hguards.nodup.erase t
      readers := by
        intro u
        show u ∈ m.readers.erase t ↔ _
        rw [hguards.nodup.mem_erase_iff]
        by_cases heq : u = t
        · simp [heq]
        · simp [heq, hguards.readers]
      writer := fun u => (hguards.writer u).trans
        (update_role_iff (fun r => r = .announced ∨ r = .writing) (by simp [hrole]) u).symm
      locked := fun u hu =>
        hguards.locked u ((update_role_iff (· = .writing) (by simp [hrole]) u).mp hu)
      busy := fun h => absurd h hfree
      excludes := fun h => absurd h hfree }

theorem Guards.announce (hguards : m.Guards role) (hcan : m.CanAnnounce)
    (hrole : role t = .outside) : (m.announce t).Guards (Function.update role t .announced) where
  nodup := hguards.nodup
  readers u := (hguards.readers u).trans
    (update_role_iff (· = .reading) (by simp [hrole]) u).symm
  writer u := by
    show some t = some u ↔ _
    have hnone := hguards.writer u
    rw [hcan] at hnone
    by_cases heq : u = t
    · simp [heq]
    · simpa [heq, Ne.symm heq] using hnone
  locked u hu := hguards.locked u ((update_role_iff (· = .writing) (by simp [hrole]) u).mp hu)
  busy h := absurd h (hguards.locked_ne hcan)
  excludes h := absurd h (hguards.locked_ne hcan)

theorem Guards.lock (hguards : m.Guards role) (hcan : m.CanLock t) (hrole : role t = .announced) :
    m.lock.Guards (Function.update role t .writing) where
  nodup := hguards.nodup
  readers u := (hguards.readers u).trans
    (update_role_iff (· = .reading) (by simp [hrole]) u).symm
  writer u := (hguards.writer u).trans
    (update_role_iff (fun r => r = .announced ∨ r = .writing) (by simp [hrole]) u).symm
  locked _ _ := rfl
  busy _ := ⟨t, Function.update_self ..⟩
  excludes _ := hcan.2

theorem Guards.unlock (hguards : m.Guards role) (hrole : role t = .writing) :
    m.unlock.Guards (Function.update role t .outside) := by
  have hwriter := (hguards.writer t).mpr (Or.inr hrole)
  have hother : ∀ u ≠ t, ¬ (role u = .announced ∨ role u = .writing) := by
    intro u hne hu
    have hsame := (hguards.writer u).mpr hu
    rw [hwriter] at hsame
    exact hne (Option.some.inj hsame).symm
  exact
    { nodup := hguards.nodup
      readers := fun u => (hguards.readers u).trans
        (update_role_iff (· = .reading) (by simp [hrole]) u).symm
      writer := by
        intro u
        show none = some u ↔ _
        by_cases heq : u = t
        · simp [heq]
        · simpa [heq] using hother u heq
      locked := by
        intro u hu
        by_cases heq : u = t
        · simp [heq] at hu
        · exact absurd (Or.inr (by simpa [heq] using hu)) (hother u heq)
      busy := fun h => Bool.noConfusion h
      excludes := fun h => Bool.noConfusion h }

end Guards

end RWMutex

end Gokit.Math
