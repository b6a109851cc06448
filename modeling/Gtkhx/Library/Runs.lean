import Mathlib.Data.List.Basic
import Mathlib.Data.List.TakeWhile

/-!
# Runs

A run is a longest part of a list whose items are all of one kind, so that where it ends can be
told from the list.
-/

namespace Runs

variable {α : Type*} {p : α → Bool} {s r s' r' : List α} {a : α}

/-- Items of one kind, or none. -/
abbrev Run (p : α → Bool) : Type _ := {s : List α // ∀ a ∈ s, p a = true}

/-- Items of one kind, one at least. -/
abbrev Word (p : α → Bool) : Type _ := {s : List α // s ≠ [] ∧ ∀ a ∈ s, p a = true}

/-- No items. -/
def Run.none : Run p := ⟨[], fun _ ha => absurd ha List.not_mem_nil⟩

/-- A list that no run goes on in. -/
def Stops (p : α → Bool) (s : List α) : Prop := ∀ a ∈ s.head?, p a = false

theorem stops_nil : Stops p [] := fun _ ha => absurd ha (Option.not_mem_none _)

theorem stops_cons (ha : p a = false) : Stops p (a :: s) := by
  intro b hb
  obtain rfl := Option.some.inj hb
  exact ha

theorem stops_dropWhile (p : α → Bool) (s : List α) : Stops p (s.dropWhile p) := by
  induction s with
  | nil => exact stops_nil
  | cons a s ih =>
    rw [List.dropWhile_cons]
    split_ifs with ha
    · exact ih
    · exact stops_cons (Bool.eq_false_iff.mpr ha)

theorem takeWhile_append (hs : ∀ a ∈ s, p a = true) (hr : Stops p r) :
    (s ++ r).takeWhile p = s := by
  rw [List.takeWhile_append_of_pos hs]
  cases r with
  | nil => exact List.append_nil s
  | cons a r => rw [List.takeWhile_cons, hr a rfl, if_neg Bool.false_ne_true, List.append_nil]

theorem dropWhile_append (hs : ∀ a ∈ s, p a = true) (hr : Stops p r) :
    (s ++ r).dropWhile p = r := by
  rw [List.dropWhile_append_of_pos hs]
  cases r with
  | nil => rfl
  | cons a r => rw [List.dropWhile_cons, hr a rfl, if_neg Bool.false_ne_true]

theorem dropWhile_of_stops (hr : Stops p r) : r.dropWhile p = r :=
  dropWhile_append (s := []) (fun _ ha => absurd ha List.not_mem_nil) hr

theorem stops_append (hne : s ≠ []) (hs : Stops p s) : Stops p (s ++ r) := by
  cases s with
  | nil => exact absurd rfl hne
  | cons a s => exact hs

/-- A list is a run and what follows it in one way. -/
theorem append_inj (hs : ∀ a ∈ s, p a = true) (hs' : ∀ a ∈ s', p a = true) (hr : Stops p r)
    (hr' : Stops p r') (h : s ++ r = s' ++ r') : s = s' ∧ r = r' := by
  constructor
  · rw [← takeWhile_append hs hr, h, takeWhile_append hs' hr']
  · rw [← dropWhile_append hs hr, h, dropWhile_append hs' hr']

theorem run_inj {w w' : Run p} (hr : Stops p r) (hr' : Stops p r')
    (h : w.1 ++ r = w'.1 ++ r') : w = w' ∧ r = r' := by
  obtain ⟨hw, hrest⟩ := append_inj w.2 w'.2 hr hr' h
  exact ⟨Subtype.ext hw, hrest⟩

theorem word_inj {w w' : Word p} (hr : Stops p r) (hr' : Stops p r')
    (h : w.1 ++ r = w'.1 ++ r') : w = w' ∧ r = r' := by
  obtain ⟨hw, hrest⟩ := append_inj w.2.2 w'.2.2 hr hr' h
  exact ⟨Subtype.ext hw, hrest⟩

end Runs
