/-
# Sliding windows

A sender numbers what it sends.  A receiver takes it in sequence, and holds what comes too
early.  All that a packet says is a fact about the party that has sent it: that an item has a
number, that an item was received, that every item below a number was.

Such facts do not become false.  So a packet may be lost, come in twice, or overtake another one:
whenever it comes in, what it says is true.
-/

import Mathlib.Data.List.Forall2

namespace Gokit.Math

/-- What one party has done so far. -/
structure Progress (α : Type) where
  /-- what it has sent, in the order of the numbers -/
  sent : List α
  /-- every item of the other party below this number was received -/
  next : Nat
  /-- items that came too early -/
  held : Nat → Prop

namespace Progress

variable {α : Type} {p q r : Progress α}

/-- An item of the other party was received. -/
def Received (p : Progress α) (i : Nat) : Prop := i < p.next ∨ p.held i

/-- A party goes on. -/
structure Le (p q : Progress α) : Prop where
  sent : p.sent <+: q.sent
  next : p.next ≤ q.next
  received : ∀ i, p.Received i → q.Received i

theorem Le.refl (p : Progress α) : p.Le p := ⟨List.prefix_rfl, Nat.le_refl _, fun _ h => h⟩

theorem Le.trans (h : p.Le q) (h' : q.Le r) : p.Le r where
  sent := h.sent.trans h'.sent
  next := Nat.le_trans h.next h'.next
  received i hi := h'.received i (h.received i hi)

/-- What was sent stays where it is. -/
theorem Le.getElem?_sent (h : p.Le q) {i : Nat} {item : α} (hitem : p.sent[i]? = some item) :
    q.sent[i]? = some item := by
  obtain ⟨hlt, -⟩ := List.getElem?_eq_some_iff.mp hitem
  obtain ⟨more, hmore⟩ := h.sent
  rw [← hmore, List.getElem?_append_left hlt, hitem]

end Progress

/-- What a packet can report. -/
inductive Report (α : Type)
  /-- the item with a number -/
  | data (i : Nat) (item : α)
  /-- an item was received -/
  | ack (i : Nat)
  /-- every item below a number was received -/
  | upTo (n : Nat)

/-- What a report says about the party that has sent it. -/
def Report.TrueOf {α : Type} (p : Progress α) : Report α → Prop
  | data i item => p.sent[i]? = some item
  | ack i => p.Received i
  | upTo n => n ≤ p.next

/-- **Reports stay true.** -/
theorem Report.TrueOf.mono {α : Type} {p q : Progress α} {report : Report α}
    (h : report.TrueOf p) (hle : p.Le q) : report.TrueOf q := by
  cases report with
  | data i item => exact hle.getElem?_sent h
  | ack i => exact hle.received i h
  | upTo n => exact Nat.le_trans h hle.next

/-! ## What is on its way -/

section OnItsWay

variable {α β : Type} {R : α → β → Prop} {items : List α} {flights : List β}

theorem exists_left_of_mem (h : List.Forall₂ R items flights) {flight : β}
    (hflight : flight ∈ flights) : ∃ item ∈ items, R item flight := by
  induction h with
  | nil => cases hflight
  | @cons item other items flights hfirst hrest ih =>
    rcases List.mem_cons.mp hflight with rfl | hlater
    · exact ⟨item, List.mem_cons_self, hfirst⟩
    · obtain ⟨found, hmem, hrel⟩ := ih hlater
      exact ⟨found, List.mem_cons_of_mem item hmem, hrel⟩

theorem exists_right_of_mem (h : List.Forall₂ R items flights) {item : α}
    (hitem : item ∈ items) : ∃ flight ∈ flights, R item flight :=
  exists_left_of_mem h.flip hitem

/-- **Cumulative acknowledgement.**  The items from `base` on are on their way.  Those below `una`
are at the front, and without them the items from the greater one of `base` and `una` on are
left. -/
theorem forall₂_dropWhile {below : β → Bool} {base una : Nat} (huna : una ≤ items.length)
    (h : List.Forall₂ R (items.drop base) flights)
    (hbelow : ∀ i item flight, items[i]? = some item → R item flight →
      (below flight = true ↔ i < una)) :
    List.Forall₂ R (items.drop (max base una)) (flights.dropWhile below) := by
  induction flights generalizing base with
  | nil =>
    have hall : items.length ≤ base := List.drop_eq_nil_iff.mp (List.forall₂_nil_right_iff.mp h)
    rw [Nat.max_eq_left (Nat.le_trans huna hall)]
    exact h
  | cons flight flights ih =>
    obtain ⟨item, rest, hfirst, hrest, hdrop⟩ := List.forall₂_cons_right_iff.mp h
    have hitem : items[base]? = some item := by
      rw [← List.head?_drop, hdrop]
      rfl
    have hnext : items.drop (base + 1) = rest := by
      rw [← List.drop_drop, hdrop]
      rfl
    have hiff := hbelow base item flight hitem hfirst
    rw [List.dropWhile_cons]
    by_cases hlt : base < una
    · have hlater := ih (hnext ▸ hrest)
      rw [Nat.max_eq_right hlt] at hlater
      rw [if_pos (hiff.mpr hlt), Nat.max_eq_right (Nat.le_of_lt hlt)]
      exact hlater
    · rw [if_neg (mt hiff.mp hlt), Nat.max_eq_left (Nat.le_of_not_lt hlt)]
      exact h

end OnItsWay

end Gokit.Math
