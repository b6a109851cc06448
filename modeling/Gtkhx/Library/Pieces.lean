import Mathlib.Algebra.Order.Floor.Div

/-!
# Pieces

A list in pieces of one length, of which the last may be shorter.
-/

namespace Pieces

variable {α : Type*} {size : ℕ} {l : List α} {i k : ℕ}

/-- One piece, counted from 0. -/
def piece (size : ℕ) (l : List α) (i : ℕ) : List α := (l.drop (i * size)).take size

/-- How many pieces there are. -/
def count (size : ℕ) (l : List α) : ℕ := l.length ⌈/⌉ size

/-- The first pieces, put together. -/
theorem flatten_take (size : ℕ) (l : List α) (k : ℕ) :
    ((List.range k).map (piece size l)).flatten = l.take (k * size) := by
  induction k with
  | zero => simp
  | succ k ih =>
    rw [List.range_succ, List.map_append, List.flatten_append, ih, List.map_singleton,
      List.flatten_singleton, Nat.succ_mul, List.take_add]
    rfl

theorem length_le (hsize : 0 < size) : l.length ≤ count size l * size := by
  rw [Nat.mul_comm, count]
  exact le_smul_ceilDiv hsize

/-- All the pieces, put together. -/
theorem flatten_all (hsize : 0 < size) :
    ((List.range (count size l)).map (piece size l)).flatten = l := by
  rw [flatten_take, List.take_of_length_le (length_le hsize)]

theorem lt_count_iff (hsize : 0 < size) : i < count size l ↔ i * size < l.length := by
  rw [← not_le, count, ceilDiv_le_iff_le_mul hsize, Nat.mul_comm, not_le]

/-- What fits in one piece is one. -/
theorem piece_zero (hfits : l.length ≤ size) : piece size l 0 = l := by
  rw [piece, Nat.zero_mul, List.drop_zero, List.take_of_length_le hfits]

theorem count_eq_one (hsize : 0 < size) (hne : l ≠ []) (hfits : l.length ≤ size) :
    count size l = 1 := by
  have hpos : 0 < count size l := by
    rw [lt_count_iff hsize, Nat.zero_mul]
    exact List.length_pos_of_ne_nil hne
  have hle : count size l ≤ 1 := by
    rw [count, ceilDiv_le_iff_le_mul hsize, Nat.mul_one]
    exact hfits
  omega

/-- What does not fit in one piece takes two. -/
theorem one_lt_count (hsize : 0 < size) (hlong : size < l.length) : 1 < count size l :=
  (lt_count_iff hsize).mpr (by rwa [Nat.one_mul])

end Pieces
