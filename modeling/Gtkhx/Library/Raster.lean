import Mathlib.Algebra.Group.Nat.Defs
import Mathlib.Data.List.Basic

/-!
# Rasters

A raster is a list of cells, row by row. A loop over positions that writes one cell for each of them
or none leaves a raster in which every position has what was written for it.
-/

namespace Raster

variable {α ε : Type*}

/-- All positions of a raster, row by row. -/
def positions (width height : ℕ) : List (ℕ × ℕ) :=
  (List.range height).flatMap fun y => (List.range width).map fun x => (x, y)

/-- Where a position's cell is in a raster of this width. -/
def index (width : ℕ) (p : ℕ × ℕ) : ℕ := p.2 * width + p.1

/-- The position of a cell. -/
def position (width i : ℕ) : ℕ × ℕ := (i % width, i / width)

/-- Write a cell that is there. -/
def store (cells : List α) (i : ℕ) (a : α) : Option (List α) :=
  if i < cells.length then some (cells.set i a) else none

/-- Cells after what is written for some of them is in its place. -/
def overlaid (cells : List α) (written : ℕ → Option α) (targets : List ℕ) : List α :=
  cells.mapIdx fun i a => if i ∈ targets then (written i).getD a else a

section Positions

variable {width height x y : ℕ}

theorem mem_positions {p : ℕ × ℕ} : p ∈ positions width height ↔ p.1 < width ∧ p.2 < height := by
  obtain ⟨x, y⟩ := p
  simp only [positions, List.mem_flatMap, List.mem_range, List.mem_map, Prod.mk.injEq]
  constructor
  · rintro ⟨y', hy, x', hx, rfl, rfl⟩
    exact ⟨hx, hy⟩
  · rintro ⟨hx, hy⟩
    exact ⟨y, hy, x, hx, rfl, rfl⟩

theorem position_index (hx : x < width) : position width (index width (x, y)) = (x, y) := by
  have hpos : 0 < width := by omega
  rw [position, index, Nat.mul_comm, Nat.mul_add_mod, Nat.mod_eq_of_lt hx,
    Nat.mul_add_div hpos, Nat.div_eq_of_lt hx, Nat.add_zero]

theorem index_lt (hx : x < width) (hy : y < height) : index width (x, y) < width * height := by
  have hrow : y * width + width ≤ height * width := by
    rw [← Nat.succ_mul]
    exact Nat.mul_le_mul_right width hy
  rw [index, Nat.mul_comm width height]
  dsimp only
  omega

theorem index_position (i : ℕ) : index width (position width i) = i := by
  rw [index, position, Nat.mul_comm]
  exact Nat.div_add_mod i width

theorem position_mem {i : ℕ} (hi : i < width * height) :
    position width i ∈ positions width height := by
  have hwidth : 0 < width := by
    by_contra hzero
    rw [Nat.eq_zero_of_not_pos hzero, Nat.zero_mul] at hi
    exact Nat.not_lt_zero _ hi
  exact mem_positions.mpr ⟨Nat.mod_lt _ hwidth, Nat.div_lt_of_lt_mul hi⟩

end Positions

section Loops

variable {step : List α → ℕ × ℕ → Except ε (List α)} {target : ℕ × ℕ → ℕ}
  {written : ℕ → Option α} {ps : List (ℕ × ℕ)} {n : ℕ} {e : ε}

theorem overlaid_nil (cells : List α) : overlaid cells written [] = cells := by
  rw [overlaid]
  refine (List.mapIdx_eq_iff.mpr fun i => ?_)
  simp

@[simp] theorem length_overlaid (cells : List α) (targets : List ℕ) :
    (overlaid cells written targets).length = cells.length := List.length_mapIdx

theorem getElem?_overlaid (cells : List α) (targets : List ℕ) (i : ℕ) :
    (overlaid cells written targets)[i]? =
      (cells[i]?).map fun a => if i ∈ targets then (written i).getD a else a :=
  List.getElem?_mapIdx

/-- What one step writes is there after the rest, which writes the same there or nothing. -/
theorem overlaid_cons (cells : List α) (i : ℕ) (targets : List ℕ) :
    overlaid (overlaid cells written [i]) written targets =
      overlaid cells written (i :: targets) := by
  refine List.ext_getElem? fun j => ?_
  rw [getElem?_overlaid, getElem?_overlaid, getElem?_overlaid, Option.map_map]
  congr 1
  funext a
  simp only [Function.comp_apply, List.mem_cons]
  cases written j with
  | none => simp
  | some b => by_cases hj : j = i <;> by_cases hmem : j ∈ targets <;> simp [hj, hmem]

theorem set_eq_overlaid {cells : List α} {i : ℕ} {a : α} (hwritten : written i = some a) :
    cells.set i a = overlaid cells written [i] := by
  refine List.ext_getElem? fun j => ?_
  rw [getElem?_overlaid, List.getElem?_set]
  by_cases hij : i = j
  · subst hij
    simp only [List.mem_singleton, if_true, hwritten, Option.getD_some]
    by_cases hi : i < cells.length
    · rw [if_pos hi, List.getElem?_eq_getElem hi, Option.map_some]
    · rw [if_neg hi, List.getElem?_eq_none (by omega), Option.map_none]
  · rw [if_neg hij]
    have hmem : j ∉ [i] := by simpa using fun h => hij h.symm
    simp [hmem]

theorem eq_overlaid {cells : List α} {i : ℕ} (hwritten : written i = none) :
    cells = overlaid cells written [i] := by
  refine List.ext_getElem? fun j => ?_
  rw [getElem?_overlaid]
  by_cases hij : j = i
  · subst hij
    simp [hwritten]
  · simp [hij]

/-- A loop whose steps each write one cell, or none, writes all of them. -/
theorem foldlM_eq_overlaid
    (hstep : ∀ cells p, cells.length = n → p ∈ ps →
      step cells p = .ok (overlaid cells written [target p]))
    (cells : List α) (hlength : cells.length = n) :
    ps.foldlM step cells = .ok (overlaid cells written (ps.map target)) := by
  induction ps generalizing cells with
  | nil =>
    rw [List.foldlM_nil, List.map_nil, overlaid_nil]
    rfl
  | cons p ps ih =>
    rw [List.foldlM_cons, hstep cells p hlength List.mem_cons_self]
    have hrest := ih (fun cells q hcells hq => hstep cells q hcells (List.mem_cons_of_mem _ hq))
      (overlaid cells written [target p]) (by rw [length_overlaid, hlength])
    rw [overlaid_cons, ← List.map_cons] at hrest
    exact hrest

/-- A loop fails if one of its steps does and no other fails in another way. -/
theorem foldlM_eq_error
    (hstep : ∀ cells p, cells.length = n → p ∈ ps →
      step cells p = .error e ∨ step cells p = .ok (overlaid cells written [target p]))
    {p : ℕ × ℕ} (hp : p ∈ ps) (hfails : ∀ cells, step cells p = .error e) (cells : List α)
    (hlength : cells.length = n) : ps.foldlM step cells = .error e := by
  induction ps generalizing cells with
  | nil => exact absurd hp List.not_mem_nil
  | cons q ps ih =>
    rw [List.foldlM_cons]
    rcases hstep cells q hlength List.mem_cons_self with herror | hok
    · rw [herror]
      rfl
    · rcases List.mem_cons.mp hp with rfl | hp
      · rw [hfails cells]
        rfl
      · rw [hok]
        exact ih (fun cells q hcells hq => hstep cells q hcells (List.mem_cons_of_mem _ hq)) hp
          (overlaid cells written [target q]) (by rw [length_overlaid, hlength])

end Loops

end Raster
