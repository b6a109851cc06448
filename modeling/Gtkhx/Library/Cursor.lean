import Mathlib.Data.List.Basic
import Mathlib.Data.List.Infix

/-!
# Parsers with a cursor

A parser goes on from a cursor, which is what is left of the text, and returns it with its result
and with its failure.
-/

namespace Cursor

variable {σ α β : Type*}

/-- What is parsed, if it is there, and the cursor after it. -/
abbrev Parser (σ α : Type*) : Type _ := List σ → Option α × List σ

/-- A parser and another after it, which fail with the first failure. -/
def andThen (p : Parser σ α) (f : α → Parser σ β) : Parser σ β := fun c =>
  match p c with
  | (none, c) => (none, c)
  | (some a, c) => f a c

variable {p : Parser σ α} {f : α → Parser σ β} {c c' : List σ} {a : α} {b : β}

theorem andThen_of_eq (f : α → Parser σ β) (h : p c = (some a, c')) :
    andThen p f c = f a c' := by
  rw [andThen, h]

/-- Where both succeed, the second went on from where the first ended. -/
theorem exists_of_andThen (h : andThen p f c = (some b, c')) :
    ∃ a c1, p c = (some a, c1) ∧ f a c1 = (some b, c') := by
  unfold andThen at h
  cases hp : p c with
  | mk found c1 =>
    rw [hp] at h
    cases found with
    | none => cases h
    | some a => exact ⟨a, c1, rfl, h⟩

/-- A parser that drops what is there from the text, and nothing else. -/
def Narrows (p : Parser σ α) : Prop := ∀ c, (p c).2 <:+ c

theorem narrows_andThen (hp : Narrows p) (hf : ∀ a, Narrows (f a)) : Narrows (andThen p f) := by
  intro c
  have hfirst := hp c
  unfold andThen
  cases h : p c with
  | mk found c1 =>
    rw [h] at hfirst
    cases found with
    | none => exact hfirst
    | some a => exact (hf a c1).trans hfirst

theorem narrows_done (a : α) : Narrows fun c : List σ => (some a, c) := List.suffix_refl

end Cursor
