import Mathlib.Data.List.Basic

/-!
# Cutting a list at an item

A list is cut at the first or the last place an item is in, which goes with neither part.
-/

namespace Cut

variable {α : Type*} [DecidableEq α] {a : α} {s h p : List α}

/-- What is before the first `a`, and what is after it. -/
def cut (a : α) : List α → Option (List α × List α)
  | [] => none
  | x :: s => if x = a then some ([], s) else (cut a s).map fun parts => (x :: parts.1, parts.2)

/-- What is before the last `a`, and what is after it. -/
def cutLast (a : α) (s : List α) : Option (List α × List α) :=
  (cut a s.reverse).map fun parts => (parts.2.reverse, parts.1.reverse)

theorem cut_append (hnot : a ∉ h) (p : List α) : cut a (h ++ a :: p) = some (h, p) := by
  induction h with
  | nil => simp [cut]
  | cons x h ih =>
    obtain ⟨hne, hrest⟩ := not_or.mp (mt List.mem_cons.mpr hnot)
    rw [List.cons_append, cut, if_neg (Ne.symm hne), ih hrest, Option.map_some]

theorem cut_of_notMem (hnot : a ∉ s) : cut a s = none := by
  induction s with
  | nil => rfl
  | cons x s ih =>
    obtain ⟨hne, hrest⟩ := not_or.mp (mt List.mem_cons.mpr hnot)
    rw [cut, if_neg (Ne.symm hne), ih hrest, Option.map_none]

/-- Every list with the item is cut. -/
theorem cut_cases (a : α) (s : List α) :
    a ∉ s ∧ cut a s = none ∨ ∃ h p, a ∉ h ∧ s = h ++ a :: p ∧ cut a s = some (h, p) := by
  by_cases hmem : a ∈ s
  · obtain ⟨h, p, rfl, hnot⟩ := List.eq_append_cons_of_mem hmem
    exact Or.inr ⟨h, p, hnot, rfl, cut_append hnot p⟩
  · exact Or.inl ⟨hmem, cut_of_notMem hmem⟩

theorem cut_eq_some_iff : cut a s = some (h, p) ↔ a ∉ h ∧ s = h ++ a :: p := by
  constructor
  · intro hcut
    rcases cut_cases a s with ⟨-, hnone⟩ | ⟨h', p', hnot, hs, hsome⟩
    · rw [hnone] at hcut
      cases hcut
    · rw [hsome] at hcut
      obtain ⟨rfl, rfl⟩ := Prod.mk.inj (Option.some.inj hcut)
      exact ⟨hnot, hs⟩
  · rintro ⟨hnot, rfl⟩
    exact cut_append hnot p

theorem cut_eq_none_iff : cut a s = none ↔ a ∉ s := by
  constructor
  · intro hnone hmem
    rcases cut_cases a s with ⟨hnot, -⟩ | ⟨h, p, -, -, hsome⟩
    · exact hnot hmem
    · rw [hnone] at hsome
      cases hsome
  · exact cut_of_notMem

theorem cutLast_eq_some_iff : cutLast a s = some (h, p) ↔ a ∉ p ∧ s = h ++ a :: p := by
  rw [cutLast, Option.map_eq_some_iff]
  constructor
  · rintro ⟨⟨x, y⟩, hcut, heq⟩
    obtain ⟨rfl, rfl⟩ := Prod.mk.inj heq
    obtain ⟨hnot, hs⟩ := cut_eq_some_iff.mp hcut
    refine ⟨by simpa using hnot, ?_⟩
    rw [← List.reverse_reverse s, hs]
    simp
  · rintro ⟨hnot, rfl⟩
    refine ⟨(p.reverse, h.reverse), cut_eq_some_iff.mpr ⟨by simpa using hnot, by simp⟩, by simp⟩

theorem cutLast_eq_none_iff : cutLast a s = none ↔ a ∉ s := by
  rw [cutLast, Option.map_eq_none_iff, cut_eq_none_iff, List.mem_reverse]

end Cut
