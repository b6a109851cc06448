import Gtkhx.Icons.Drawn

/-!
# The halo

An icon is copied to a canvas, and of the positions that are transparent there, those beside an
opaque one become grey. The loop reads what was opaque before it, so that the halo makes no halo.
-/

namespace Gtkhx.Icons

open Raster

section Halos

variable {width height : ℕ} {icon : ℕ × ℕ → Pixel}

theorem fetch_eq {α : Type} {cells : List α} {i : ℕ} {a : α} (h : cells[i]? = some a) :
    fetch cells i = .ok a := by rw [fetch, h]

theorem put_eq {α : Type} {cells : List α} {i : ℕ} (hi : i < cells.length) (a : α) :
    put cells i a = .ok (cells.set i a) := by rw [put, store, if_pos hi]

/-- The pixels that are copied to the canvas. -/
def copied (width : ℕ) (icon : ℕ × ℕ → Pixel) (i : ℕ) : Option Pixel :=
  some (icon ((position (width + 2) i).1 - 1, (position (width + 2) i).2 - 1))

/-- A canvas with the icon on it. -/
def inset (width height : ℕ) (icon : ℕ × ℕ → Pixel) : List Pixel :=
  overlaid (List.replicate ((width + 2) * (height + 2)) .clear) (copied width icon)
    ((positions width height).map fun p => index (width + 2) (p.1 + 1, p.2 + 1))

theorem length_inset : (inset width height icon).length = (width + 2) * (height + 2) := by
  rw [inset, length_overlaid, List.length_replicate]

theorem mem_targets {p : ℕ × ℕ} (hx : p.1 < width + 2) :
    index (width + 2) p ∈ (positions width height).map
        (fun p => index (width + 2) (p.1 + 1, p.2 + 1)) ↔
      0 < p.1 ∧ p.1 ≤ width ∧ 0 < p.2 ∧ p.2 ≤ height := by
  rw [List.mem_map]
  constructor
  · rintro ⟨q, hq, heq⟩
    obtain ⟨hqx, hqy⟩ := mem_positions.mp hq
    have hposition := congrArg (position (width + 2)) heq
    rw [position_index (by omega), position_index hx] at hposition
    obtain ⟨hpx, hpy⟩ := Prod.mk.inj hposition
    omega
  · rintro ⟨hx0, hxw, hy0, hyh⟩
    refine ⟨(p.1 - 1, p.2 - 1), mem_positions.mpr ⟨by dsimp only; omega, by dsimp only; omega⟩, ?_⟩
    dsimp only
    rw [Nat.sub_add_cancel hx0, Nat.sub_add_cancel hy0]

theorem getElem?_inset {p : ℕ × ℕ} (hx : p.1 < width + 2) (hy : p.2 < height + 2) :
    (inset width height icon)[index (width + 2) p]? = some (canvas width height icon p) := by
  have hlt := index_lt hx hy
  rw [inset, getElem?_overlaid, List.getElem?_replicate, if_pos hlt, Option.map_some, canvas,
    copied, position_index hx]
  simp only [mem_targets hx, Option.getD_some]

theorem inset_eq {src : Rgba} (hsrc : Shows width height icon src) :
    (positions src.width src.height).foldlM (fun pixels p => do
      let px ← fetch src.pixels (index src.width p)
      put pixels (index (src.width + 2) (p.1 + 1, p.2 + 1)) px)
        (List.replicate ((src.width + 2) * (src.height + 2)) .clear) =
      .ok (inset width height icon) := by
  rw [hsrc.wide, hsrc.high]
  refine foldlM_eq_overlaid (n := (width + 2) * (height + 2)) ?_ _ List.length_replicate
  intro cells p hcells hp
  obtain ⟨hx, hy⟩ := mem_positions.mp hp
  have hlt : index (width + 2) (p.1 + 1, p.2 + 1) < cells.length := by
    rw [hcells]
    exact index_lt (by omega) (by omega)
  have hcopied : copied width icon (index (width + 2) (p.1 + 1, p.2 + 1)) = some (icon p) := by
    rw [copied, position_index (by omega)]
    rfl
  rw [fetch_eq (hsrc.pixel p hx hy), ← set_eq_overlaid hcopied]
  exact put_eq hlt (icon p)

/-- The first of some neighbours counts if it is there. -/
theorem anyOpaque_cons {alpha : List UInt8} {rest : List (Bool × ℕ)} {inside more : Bool} {i : ℕ}
    {a : UInt8} (hplace : inside = true → alpha[i]? = some a)
    (hrest : anyOpaque alpha rest = .ok more) :
    anyOpaque alpha ((inside, i) :: rest) = .ok ((inside && a ≠ 0) || more) := by
  rw [anyOpaque, hrest]
  cases inside with
  | false => rfl
  | true =>
    rw [if_pos rfl, fetch_eq (hplace rfl)]
    by_cases hclear : a = 0
    · simp only [hclear, ne_eq, not_true, decide_false, Bool.and_false, Bool.false_or]
      rfl
    · simp only [hclear, ne_eq, not_false_eq_true, decide_true, Bool.and_self, Bool.true_or]
      exact if_pos hclear

/-- What the halo is in a position. -/
def haloed (width height : ℕ) (icon : ℕ × ℕ → Pixel) (i : ℕ) : Option Pixel :=
  let p := position (width + 2) i
  if (canvas width height icon p).alpha = 0 && besideOpaque width height icon p then some .halo
  else none

theorem alpha_inset {p : ℕ × ℕ} (hx : p.1 < width + 2) (hy : p.2 < height + 2) :
    ((inset width height icon).map Pixel.alpha)[index (width + 2) p]? =
      some (canvas width height icon p).alpha := by
  rw [List.getElem?_map, getElem?_inset hx hy, Option.map_some]

theorem anyOpaque_neighbours {p : ℕ × ℕ} (hx : p.1 < width + 2) (hy : p.2 < height + 2) :
    anyOpaque ((inset width height icon).map Pixel.alpha)
        (neighbours (width + 2) (height + 2) p) = .ok (besideOpaque width height icon p) := by
  have hbeyond : ∀ q : ℕ × ℕ, width + 1 ≤ q.1 ∨ height + 1 ≤ q.2 →
      (canvas width height icon q).alpha = 0 := by
    intro q hq
    rw [canvas, if_neg (by omega)]
    rfl
  have hleft : decide (0 < p.1) = true → ((inset width height icon).map Pixel.alpha)[
      index (width + 2) p - 1]? = some (canvas width height icon (p.1 - 1, p.2)).alpha := by
    intro hpos
    rw [decide_eq_true_eq] at hpos
    have hindex : index (width + 2) p - 1 = index (width + 2) (p.1 - 1, p.2) := by
      simp only [index]
      omega
    rw [hindex]
    exact alpha_inset (by dsimp only; omega) hy
  have hright : decide (p.1 < width + 2 - 1) = true → ((inset width height icon).map Pixel.alpha)[
      index (width + 2) p + 1]? = some (canvas width height icon (p.1 + 1, p.2)).alpha := by
    intro hlt
    rw [decide_eq_true_eq] at hlt
    have hindex : index (width + 2) p + 1 = index (width + 2) (p.1 + 1, p.2) := by
      simp only [index]
      omega
    rw [hindex]
    exact alpha_inset (by dsimp only; omega) hy
  have hbelow : decide (p.2 < height + 2 - 1) = true → ((inset width height icon).map
      Pixel.alpha)[index (width + 2) (p.1, p.2 + 1)]? =
        some (canvas width height icon (p.1, p.2 + 1)).alpha := by
    intro hlt
    rw [decide_eq_true_eq] at hlt
    exact alpha_inset hx (by dsimp only; omega)
  have habove : decide (0 < p.2) = true → ((inset width height icon).map
      Pixel.alpha)[index (width + 2) (p.1, p.2 - 1)]? =
        some (canvas width height icon (p.1, p.2 - 1)).alpha :=
    fun _ => alpha_inset hx (by dsimp only; omega)
  rw [neighbours, anyOpaque_cons hleft (anyOpaque_cons hright (anyOpaque_cons habove
    (anyOpaque_cons hbelow rfl)))]
  have hrights : (decide (p.1 < width + 2 - 1) &&
      decide ((canvas width height icon (p.1 + 1, p.2)).alpha ≠ 0)) =
      decide ((canvas width height icon (p.1 + 1, p.2)).alpha ≠ 0) := by
    by_cases hlt : p.1 < width + 2 - 1
    · rw [decide_eq_true hlt, Bool.true_and]
    · rw [hbeyond _ (.inl (by dsimp only; omega))]
      exact Bool.and_false _
  have hbelows : (decide (p.2 < height + 2 - 1) &&
      decide ((canvas width height icon (p.1, p.2 + 1)).alpha ≠ 0)) =
      decide ((canvas width height icon (p.1, p.2 + 1)).alpha ≠ 0) := by
    by_cases hlt : p.2 < height + 2 - 1
    · rw [decide_eq_true hlt, Bool.true_and]
    · rw [hbeyond _ (.inr (by dsimp only; omega))]
      exact Bool.and_false _
  rw [hrights, hbelows, Bool.or_false, besideOpaque, Bool.or_assoc, Bool.or_assoc]

theorem haloPixel_eq {cells : List Pixel} (hcells : cells.length = (width + 2) * (height + 2))
    {p : ℕ × ℕ} (hp : p ∈ positions (width + 2) (height + 2)) :
    haloPixel (width + 2) (height + 2) ((inset width height icon).map Pixel.alpha) cells p =
      .ok (overlaid cells (haloed width height icon) [index (width + 2) p]) := by
  obtain ⟨hx, hy⟩ := mem_positions.mp hp
  have hlt : index (width + 2) p < cells.length := by
    rw [hcells]
    exact index_lt hx hy
  have hhaloed : haloed width height icon (index (width + 2) p) =
      if (canvas width height icon p).alpha = 0 && besideOpaque width height icon p then
        some .halo else none := by
    rw [haloed, position_index hx]
  have hhalo : haloPixel (width + 2) (height + 2) ((inset width height icon).map Pixel.alpha)
      cells p = if (canvas width height icon p).alpha ≠ 0 then .ok cells
        else if besideOpaque width height icon p then put cells (index (width + 2) p) .halo
        else .ok cells := by
    rw [haloPixel, fetch_eq (alpha_inset hx hy), anyOpaque_neighbours hx hy]
    rfl
  rw [hhalo]
  by_cases halpha : (canvas width height icon p).alpha = 0
  · rw [if_neg (not_not.mpr halpha)]
    cases hbeside : besideOpaque width height icon p with
    | true =>
      rw [halpha, hbeside] at hhaloed
      rw [if_pos rfl, put_eq hlt, set_eq_overlaid hhaloed]
    | false =>
      rw [hbeside, Bool.and_false] at hhaloed
      rw [if_neg Bool.false_ne_true, ← eq_overlaid hhaloed]
  · rw [decide_eq_false halpha, Bool.false_and] at hhaloed
    rw [if_pos halpha, ← eq_overlaid hhaloed]

/-- A halo is drawn around an icon. -/
theorem addHalo_shows {src : Rgba} (hsrc : Shows width height icon src) :
    ∃ img, addHalo src = .ok img ∧
      Shows (width + 2) (height + 2) (withHalo width height icon) img := by
  have hpaint : (positions (width + 2) (height + 2)).foldlM (haloPixel (width + 2) (height + 2)
      ((inset width height icon).map Pixel.alpha)) (inset width height icon) =
      .ok (overlaid (inset width height icon) (haloed width height icon)
        ((positions (width + 2) (height + 2)).map (index (width + 2)))) := by
    refine foldlM_eq_overlaid ?_ _ length_inset
    intro cells p hcells hp
    exact haloPixel_eq hcells hp
  refine ⟨⟨width + 2, height + 2, overlaid (inset width height icon) (haloed width height icon)
    ((positions (width + 2) (height + 2)).map (index (width + 2)))⟩, ?_, rfl, rfl, ?_, ?_⟩
  · have hinset := inset_eq hsrc
    rw [addHalo, hinset]
    rw [hsrc.wide, hsrc.high]
    exact congrArg
      (fun r => r >>= fun pixels => Except.ok (Rgba.mk (width + 2) (height + 2) pixels)) hpaint
  · rw [length_overlaid, length_inset]
  · intro p hx hy
    have hmem : index (width + 2) p ∈
        (positions (width + 2) (height + 2)).map (index (width + 2)) :=
      List.mem_map_of_mem (mem_positions.mpr ⟨hx, hy⟩)
    rw [getElem?_overlaid, getElem?_inset hx hy, Option.map_some, if_pos hmem, haloed,
      position_index hx, withHalo]
    by_cases hhalo : (decide ((canvas width height icon (p.1, p.2)).alpha = 0) &&
        besideOpaque width height icon (p.1, p.2)) = true
    · rw [if_pos hhalo, if_pos hhalo]
      rfl
    · rw [if_neg hhalo, if_neg hhalo]
      rfl

end Halos

end Gtkhx.Icons
