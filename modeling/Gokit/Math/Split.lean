/-
# Strings and their pieces

A string that is split at a separator is determined by its pieces, and the strings whose
pieces extend those of a string are those that continue it after a separator.
-/

import Mathlib.Data.List.Basic

namespace Gokit.Math

variable {α : Type} [BEq α] [LawfulBEq α] {sep : α} {s t : List α}

theorem not_mem_of_mem_splitOn {piece : List α} (hpiece : piece ∈ s.splitOn sep) : sep ∉ piece := by
  induction s generalizing piece with
  | nil =>
    rw [List.splitOn_nil, List.mem_singleton] at hpiece
    rw [hpiece]
    exact List.not_mem_nil
  | cons c s ih =>
    rw [List.splitOn_cons_eq_if_modifyHead] at hpiece
    split at hpiece
    · rcases List.mem_cons.mp hpiece with rfl | hmem
      · exact List.not_mem_nil
      · exact ih hmem
    · rename_i hne
      cases hsplit : s.splitOn sep with
      | nil => exact absurd hsplit (List.splitOn_ne_nil sep s)
      | cons head rest =>
        rw [hsplit, List.modifyHead_cons] at hpiece
        rcases List.mem_cons.mp hpiece with rfl | hmem
        · rw [List.mem_cons]
          rintro (rfl | hmem)
          · exact hne (beq_self_eq_true sep)
          · exact ih (hsplit ▸ List.mem_cons_self) hmem
        · exact ih (hsplit ▸ List.mem_cons_of_mem _ hmem)

theorem splitOn_eq_pair_iff {a b : List α} :
    s.splitOn sep = [a, b] ↔ s = a ++ sep :: b ∧ sep ∉ a ∧ sep ∉ b := by
  constructor
  · intro hsplit
    refine ⟨?_, not_mem_of_mem_splitOn (hsplit ▸ List.mem_cons_self),
      not_mem_of_mem_splitOn (s := s) (hsplit ▸ List.mem_cons_of_mem _ List.mem_cons_self)⟩
    have hjoin : [sep].intercalate (s.splitOn sep) = s := List.intercalate_splitOn sep
    rw [← hjoin, hsplit]
    simp [List.intercalate]
  · rintro ⟨rfl, ha, hb⟩
    rw [List.splitOn_append_cons_self_of_not_mem ha, List.splitOn_eq_singleton hb]

theorem splitOn_inj : s.splitOn sep = t.splitOn sep ↔ s = t := by
  refine ⟨fun h => ?_, congrArg _⟩
  calc s = [sep].intercalate (s.splitOn sep) := (List.intercalate_splitOn sep).symm
    _ = [sep].intercalate (t.splitOn sep) := by rw [h]
    _ = t := List.intercalate_splitOn sep

/-- Some of the pieces of a string are the pieces of the string that joins them. -/
theorem splitOn_intercalate_of_sublist {pieces : List (List α)} (hne : pieces ≠ [])
    (hpieces : pieces.Sublist (s.splitOn sep)) : ([sep].intercalate pieces).splitOn sep = pieces :=
  List.splitOn_intercalate sep (fun _ h => not_mem_of_mem_splitOn (hpieces.mem h)) hne

/-- **A string continues another one after a separator** iff it has its pieces and more. -/
theorem append_prefix_iff : s ++ [sep] <+: t ↔ s.splitOn sep <+: t.splitOn sep ∧ s ≠ t := by
  constructor
  · rintro ⟨rest, rfl⟩
    rw [List.append_assoc, List.singleton_append, List.splitOn_append_cons_self]
    refine ⟨List.prefix_append .., fun h => ?_⟩
    have hlength := congrArg List.length h
    rw [List.length_append, List.length_cons] at hlength
    omega
  · rintro ⟨⟨pieces, hpieces⟩, hst⟩
    have hne : pieces ≠ [] := by
      rintro rfl
      rw [List.append_nil] at hpieces
      exact hst (splitOn_inj.mp hpieces)
    have hsub : pieces.Sublist (t.splitOn sep) := hpieces ▸ List.sublist_append_right ..
    have hsplit : (s ++ [sep] ++ [sep].intercalate pieces).splitOn sep = t.splitOn sep := by
      rw [List.append_assoc, List.singleton_append, List.splitOn_append_cons_self,
        splitOn_intercalate_of_sublist hne hsub, hpieces]
    exact ⟨_, splitOn_inj.mp hsplit⟩

end Gokit.Math
