/-
# Leases

A resource is acquired by an owner, who has a lease on it until the lease is released
by this owner or expires.  The history of the resource is the list of these events, the
last one first.  Who has a lease is read off the history without asking whether the
resource was free when it was acquired, or whether the one who gave it back was the one
who had it.

A history is legal if the resource was free whenever it was acquired and if only its
holder gave it back.  Then at most one owner has a lease: the one the last event names.
-/

import Mathlib.Data.Option.Basic

namespace Gokit.Math.Lease

variable {ι : Type}

/-- What happens to the resource. -/
inductive Event (ι : Type)
  | acquired (owner : ι)
  | released (owner : ι)
  | expired

/-- The owner has acquired the resource, and has not released it since; nor has it expired. -/
def Live (owner : ι) : List (Event ι) → Prop
  | [] => False
  | .acquired other :: earlier => other = owner ∨ Live owner earlier
  | .released other :: earlier => other ≠ owner ∧ Live owner earlier
  | .expired :: _ => False

/-- The owner the last event names. -/
def holder : List (Event ι) → Option ι
  | .acquired owner :: _ => some owner
  | _ => none

/-- The resource is acquired only when it is free, and released only by its holder. -/
def Legal : List (Event ι) → Prop
  | [] => True
  | .acquired _ :: earlier => holder earlier = none ∧ Legal earlier
  | .released owner :: earlier => holder earlier = some owner ∧ Legal earlier
  | .expired :: earlier => Legal earlier

/-- **In a legal history the holder is the only owner with a lease.** -/
theorem Legal.live_iff {owner : ι} :
    ∀ {history : List (Event ι)}, Legal history → (Live owner history ↔ holder history = some owner)
  | [], _ => by simp [Live, holder]
  | .acquired other :: earlier, hlegal => by
    have hfree : ¬ Live owner earlier := by
      rw [hlegal.2.live_iff, hlegal.1]
      simp
    simp [Live, holder, hfree]
  | .released other :: earlier, hlegal => by
    have hother : ¬ (other ≠ owner ∧ Live owner earlier) := by
      rw [hlegal.2.live_iff, hlegal.1]
      rintro ⟨hne, hsame⟩
      exact hne (Option.some.inj hsame)
    simpa [Live, holder] using hother
  | .expired :: earlier, _ => by simp [Live, holder]

theorem Legal.live_unique {history : List (Event ι)} (hlegal : Legal history) {owner other : ι}
    (howner : Live owner history) (hother : Live other history) : owner = other := by
  rw [hlegal.live_iff] at howner hother
  exact Option.some.inj (howner.symm.trans hother)

end Gokit.Math.Lease
