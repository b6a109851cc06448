import Gtkhx.Icons.Colours

/-!
# What is decoded

Rows that fit are drawn with the icon's colours, and what is taken for the mask is the mask inside
of its own bytes. Outside of them a bit of another part of the resource is taken, if there is one.
-/

namespace Gtkhx.Icons

open Raster

section Drawing

variable {data : List UInt8} {hd : Heads} {palette : List ℕ}

theorem ofNat_congr {m n : ℕ} (h : m % 256 = n % 256) : UInt8.ofNat m = UInt8.ofNat n := by
  rw [← UInt8.toNat_inj, UInt8.toNat_ofNat', UInt8.toNat_ofNat']
  exact h

/-- A pixel with a number has the colour of that number. -/
theorem decodePixel_eq {pixOff i : ℕ} {p : ℕ × ℕ} {c : Channels}
    (hindex : paletteIndex data hd.bpp (pixOff + hd.rowBytes * p.2) p.1 = some i) (hfit : c.Fit)
    (hpalette : palette[i]? = some (rgbPack c)) :
    decodePixel data hd palette pixOff p = .ok (c.pixel (takenAlpha data hd p)) := by
  obtain ⟨_, hgreen, hblue⟩ := hfit
  have hr : UInt8.ofNat (rgbPack c / 65536) = UInt8.ofNat (c.1 / 256) := by
    refine ofNat_congr ?_
    rw [rgbPack]
    omega
  have hg : UInt8.ofNat (rgbPack c / 256) = UInt8.ofNat (c.2.1 / 256) := by
    refine ofNat_congr ?_
    rw [rgbPack]
    omega
  have hb : UInt8.ofNat (rgbPack c) = UInt8.ofNat (c.2.2 / 256) := by
    refine ofNat_congr ?_
    rw [rgbPack]
    omega
  rw [decodePixel, hindex]
  dsimp only
  rw [hpalette]
  dsimp only
  rw [hr, hg, hb, Channels.pixel, takenAlpha]

/-- The loop of the decoder. -/
def paint (data : List UInt8) (hd : Heads) (palette : List ℕ) (pixels : List Pixel) (p : ℕ × ℕ) :
    Except Failure (List Pixel) := do
  let px ← decodePixel data hd palette (data.length - hd.rowBytes * hd.height) p
  put pixels (index hd.width p) px

theorem decode_eq (hheads : readHeads data = some hd)
    (hhigh : hd.rowBytes * hd.height ≤ data.length)
    (hpalette : buildPalette data hd.ctOff hd.bpp = .ok palette) :
    decode data = (positions hd.width hd.height).foldlM (paint data hd palette)
      (List.replicate (hd.width * hd.height) .clear) >>= fun pixels =>
        addHalo ⟨hd.width, hd.height, pixels⟩ := by
  rw [decode, hheads]
  dsimp only
  rw [if_neg (Nat.not_lt.mpr hhigh), hpalette]
  rfl

theorem paint_eq {cells : List Pixel} {p : ℕ × ℕ} {written : ℕ → Option Pixel} {px : Pixel}
    (hcells : cells.length = hd.width * hd.height) (hp : p ∈ positions hd.width hd.height)
    (hpx : decodePixel data hd palette (data.length - hd.rowBytes * hd.height) p = .ok px)
    (hwritten : written (index hd.width p) = some px) :
    paint data hd palette cells p = .ok (overlaid cells written [index hd.width p]) := by
  obtain ⟨hx, hy⟩ := mem_positions.mp hp
  have hlt : index hd.width p < cells.length := by
    rw [hcells]
    exact index_lt hx hy
  rw [paint, hpx, ← set_eq_overlaid hwritten]
  exact put_eq hlt px

/-- Rows that fit are drawn. -/
theorem decode_fits (hheads : readHeads data = some hd) (hfit : hd.RowsFit data) :
    (∀ p, p.1 < hd.width → p.2 < hd.height → (iconColour data hd p).isSome) ∧
      ∃ img, decode data = .ok img ∧ Shows (hd.width + 2) (hd.height + 2)
        (withHalo hd.width hd.height (painted data hd (takenAlpha data hd))) img := by
  obtain ⟨hbpp, -, -⟩ := readHeads_sound hheads
  obtain ⟨palette, hbuilt, hentries⟩ := buildPalette_eq data hbpp
  have hpixel : ∀ p : ℕ × ℕ, p.1 < hd.width → p.2 < hd.height →
      (iconColour data hd p).isSome ∧
      decodePixel data hd palette (data.length - hd.rowBytes * hd.height) p =
        .ok (painted data hd (takenAlpha data hd) p) := by
    intro p hx hy
    obtain ⟨i, hi, hbits, hindex⟩ := paletteIndex_row hbpp hfit hx hy
    obtain ⟨c, hc, hentry, hpalette⟩ := hentries i hi
    have hcolour : iconColour data hd p = some c := by
      rw [iconColour, hbits]
      exact hentry
    refine ⟨by rw [hcolour]; rfl, ?_⟩
    rw [decodePixel_eq hindex hc hpalette, painted, hcolour, Option.getD_some]
  refine ⟨fun p hx hy => (hpixel p hx hy).1, ?_⟩
  let pixels := overlaid (List.replicate (hd.width * hd.height) .clear)
    (fun i => some (painted data hd (takenAlpha data hd) (position hd.width i)))
    ((positions hd.width hd.height).map (index hd.width))
  have hloop : (positions hd.width hd.height).foldlM (paint data hd palette)
      (List.replicate (hd.width * hd.height) .clear) = .ok pixels := by
    refine foldlM_eq_overlaid ?_ _ List.length_replicate
    intro cells p hcells hp
    obtain ⟨hx, hy⟩ := mem_positions.mp hp
    exact paint_eq hcells hp (hpixel p hx hy).2 (by rw [position_index hx])
  have hshown : Shows hd.width hd.height (painted data hd (takenAlpha data hd))
      ⟨hd.width, hd.height, pixels⟩ := by
    refine ⟨rfl, rfl, ?_, ?_⟩
    · rw [length_overlaid, List.length_replicate]
    · intro p hx hy
      have hmem : index hd.width p ∈ (positions hd.width hd.height).map (index hd.width) :=
        List.mem_map_of_mem (mem_positions.mpr ⟨hx, hy⟩)
      rw [getElem?_overlaid, List.getElem?_replicate, if_pos (index_lt hx hy), Option.map_some,
        if_pos hmem, position_index hx, Option.getD_some]
  obtain ⟨img, himg, hshows⟩ := addHalo_shows hshown
  refine ⟨img, ?_, hshows⟩
  rw [decode_eq hheads hfit.2 hbuilt, hloop]
  exact himg

/-- Rows that do not fit are not drawn. -/
theorem decode_unfit (hheads : readHeads data = some hd) (hunfit : ¬hd.RowsFit data) :
    decode data = .error .malformed := by
  by_cases hhigh : hd.rowBytes * hd.height ≤ data.length
  · obtain ⟨hbpp, hwidth, hheight⟩ := readHeads_sound hheads
    have hshort : 8 * hd.rowBytes < hd.width * hd.bpp := by
      by_contra hwide
      exact hunfit ⟨Nat.le_of_not_lt hwide, hhigh⟩
    obtain ⟨palette, hbuilt, hentries⟩ := buildPalette_eq data hbpp
    let pixOff := data.length - hd.rowBytes * hd.height
    let written := fun i =>
      (decodePixel data hd palette pixOff (position hd.width i)).toOption
    have hstep : ∀ cells p, cells.length = hd.width * hd.height →
        p ∈ positions hd.width hd.height → paint data hd palette cells p = .error .malformed ∨
          paint data hd palette cells p = .ok (overlaid cells written [index hd.width p]) := by
      intro cells p hcells hp
      obtain ⟨hx, hy⟩ := mem_positions.mp hp
      cases hindex : paletteIndex data hd.bpp (pixOff + hd.rowBytes * p.2) p.1 with
      | none =>
        left
        rw [paint, decodePixel, hindex]
        rfl
      | some i =>
        right
        have hi : i < 2 ^ hd.bpp := by
          rw [paletteIndex_eq hbpp, Option.map_eq_some_iff] at hindex
          obtain ⟨b, -, rfl⟩ := hindex
          exact Nat.mod_lt _ (Nat.two_pow_pos hd.bpp)
        obtain ⟨c, hc, -, hpalette⟩ := hentries i hi
        have hpx := decodePixel_eq hindex hc hpalette
        refine paint_eq hcells hp hpx ?_
        simp only [written]
        rw [position_index hx, hpx]
        rfl
    have hlast : (hd.width - 1, hd.height - 1) ∈ positions hd.width hd.height :=
      mem_positions.mpr ⟨by dsimp only; omega, by dsimp only; omega⟩
    have hfails : ∀ cells, paint data hd palette cells (hd.width - 1, hd.height - 1) =
        .error .malformed := by
      intro cells
      rw [paint, decodePixel, paletteIndex_short hheads hshort hhigh]
      rfl
    rw [decode_eq hheads hhigh hbuilt,
      foldlM_eq_error hstep hlast hfails _ List.length_replicate]
    rfl
  · rw [decode, hheads]
    exact if_pos (Nat.lt_of_not_le hhigh)

end Drawing

section Masks

variable {data : List UInt8} {hd : Heads} {width height : ℕ}

theorem takenAlpha_mem (data : List UInt8) (hd : Heads) (p : ℕ × ℕ) :
    takenAlpha data hd p = 0 ∨ takenAlpha data hd p = 0xff := by
  rw [takenAlpha, maskAlpha]
  grind

theorem iconAlpha_mem (data : List UInt8) (hd : Heads) (p : ℕ × ℕ) :
    iconAlpha data hd p = 0 ∨ iconAlpha data hd p = 0xff := by
  rw [iconAlpha]
  split
  case isTrue => exact .inl rfl
  case isFalse => exact .inr rfl

/-- A bit of the mask is read from the mask's own bytes. -/
theorem bitsAt_maskRow (x y : ℕ) : bitsAt (maskRow data hd y) 1 x =
    if hd.maskHeight ≤ y ∨ 8 * hd.maskRowBytes ≤ x then none
    else (data[MASK_DATA + hd.maskRowBytes * y + x / 8]?).map fun b =>
      b.toNat / 2 ^ (7 - x % 8) % 2 := by
  have hshift : 8 - 1 - x % 8 = 7 - x % 8 := by omega
  rw [bitsAt, maskRow, Nat.mul_one, hshift, Nat.pow_one]
  by_cases hbelow : hd.maskHeight ≤ y
  · rw [if_neg (Nat.not_lt.mpr hbelow), if_pos (.inl hbelow)]
    rfl
  · rw [if_pos (Nat.lt_of_not_le hbelow)]
    by_cases hbeside : 8 * hd.maskRowBytes ≤ x
    · rw [if_pos (.inr hbeside), List.getElem?_eq_none, Option.map_none]
      rw [List.length_take]
      omega
    · rw [if_neg (by omega), getElem?_row (by omega)]

/-- What is taken for the mask is the mask, unless a bit is taken from outside of it that is not
one. -/
theorem takenAlpha_eq_iff (p : ℕ × ℕ) :
    takenAlpha data hd p = iconAlpha data hd p ↔ (hd.haveMask = true →
      hd.maskHeight ≤ p.2 ∨ 8 * hd.maskRowBytes ≤ p.1 →
        ∀ b ∈ data[MASK_DATA + hd.maskRowBytes * p.2 + p.1 / 8]?,
          b.toNat / 2 ^ (7 - p.1 % 8) % 2 = 1) := by
  rw [takenAlpha, maskAlpha, iconAlpha, bitsAt_maskRow]
  cases hd.haveMask with
  | false => simp
  | true =>
    by_cases houtside : hd.maskHeight ≤ p.2 ∨ 8 * hd.maskRowBytes ≤ p.1
    · simp only [houtside, if_true]
      cases data[MASK_DATA + hd.maskRowBytes * p.2 + p.1 / 8]? with
      | none => simp
      | some b =>
        have hbit := Nat.mod_two_eq_zero_or_one (b.toNat / 2 ^ (7 - p.1 % 8))
        rcases hbit with hbit | hbit <;> simp [hbit]
    · simp only [houtside, if_true, if_false]
      cases data[MASK_DATA + hd.maskRowBytes * p.2 + p.1 / 8]? with
      | none => simp
      | some b =>
        have hbit := Nat.mod_two_eq_zero_or_one (b.toNat / 2 ^ (7 - p.1 % 8))
        rcases hbit with hbit | hbit <;> simp [hbit]

theorem canvas_inside {icon : ℕ × ℕ → Pixel} {x y : ℕ} (hx : x < width) (hy : y < height) :
    canvas width height icon (x + 1, y + 1) = icon (x, y) := by
  rw [canvas, if_pos (by dsimp only; omega)]
  rfl

/-- The halo is not opaque, so that it changes no opaque position and makes none. -/
theorem withHalo_alpha {icon : ℕ × ℕ → Pixel} {x y : ℕ} (hx : x < width) (hy : y < height) :
    (withHalo width height icon (x + 1, y + 1)).alpha = 0xff ↔ (icon (x, y)).alpha = 0xff := by
  rw [withHalo, canvas_inside hx hy]
  by_cases hclear : (icon (x, y)).alpha = 0
  · rw [hclear]
    split
    case isTrue => decide
    case isFalse =>
      rw [hclear]
  · rw [decide_eq_false hclear, Bool.false_and, if_neg Bool.false_ne_true]

theorem withHalo_congr {icon other : ℕ × ℕ → Pixel}
    (h : ∀ p, p.1 < width → p.2 < height → icon p = other p) :
    withHalo width height icon = withHalo width height other := by
  have hcanvas : canvas width height icon = canvas width height other := by
    funext p
    rw [canvas, canvas]
    by_cases hin : 0 < p.1 ∧ p.1 ≤ width ∧ 0 < p.2 ∧ p.2 ≤ height
    · rw [if_pos hin, if_pos hin]
      exact h _ (by dsimp only; omega) (by dsimp only; omega)
    · rw [if_neg hin, if_neg hin]
  funext p
  rw [withHalo, withHalo, besideOpaque, besideOpaque, hcanvas]

end Masks

/-- The decoder draws a colour icon exactly if what is outside of its mask is opaque there. -/
theorem decode_draws_iff (data : List UInt8) : Draws data ↔ OutsideIsOpaque data := by
  constructor
  · intro hdraws hd hheads hfit hmask x hx y hy houtside
    obtain ⟨_, img, himg, htaken⟩ := decode_fits hheads hfit
    obtain ⟨hd', hheads', _, hshown⟩ := hdraws.shows img himg
    obtain rfl : hd = hd' := Option.some.inj (hheads.symm.trans hheads')
    have hpixel := Option.some.inj
      ((htaken.pixel (x + 1, y + 1) (by dsimp only; omega) (by dsimp only; omega)).symm.trans
        (hshown.pixel (x + 1, y + 1) (by dsimp only; omega) (by dsimp only; omega)))
    have halpha : takenAlpha data hd (x, y) = 0xff ↔ iconAlpha data hd (x, y) = 0xff := by
      have hsame : (withHalo hd.width hd.height (painted data hd (takenAlpha data hd))
          (x + 1, y + 1)).alpha = 0xff ↔ takenAlpha data hd (x, y) = 0xff := withHalo_alpha hx hy
      rw [hpixel, withHalo_alpha hx hy] at hsame
      exact hsame.symm
    have heq : takenAlpha data hd (x, y) = iconAlpha data hd (x, y) := by
      rcases takenAlpha_mem data hd (x, y) with h | h
      · rcases iconAlpha_mem data hd (x, y) with h' | h'
        · rw [h, h']
        · exact (halpha.mpr h').trans h'.symm
      · exact h.trans (halpha.mp h).symm
    exact (takenAlpha_eq_iff (x, y)).mp heq hmask houtside
  · intro hopaque
    have hcases : decode data = .error .malformed ∨ ∃ hd img, readHeads data = some hd ∧
        hd.RowsFit data ∧ decode data = .ok img := by
      cases hheads : readHeads data with
      | none =>
        left
        rw [decode, hheads]
      | some hd =>
        by_cases hfit : hd.RowsFit data
        · obtain ⟨_, img, himg, _⟩ := decode_fits hheads hfit
          exact .inr ⟨hd, img, rfl, hfit, himg⟩
        · exact .inl (decode_unfit hheads hfit)
    refine ⟨?_, fun hd hheads hunfit => decode_unfit hheads hunfit, ?_⟩
    · rcases hcases with h | ⟨hd, img, -, -, h⟩ <;> rw [h] <;> simp
    · intro img himg
      rcases hcases with h | ⟨hd, img', hheads, hfit, h⟩
      · rw [h] at himg
        simp at himg
      · obtain ⟨hcolours, img'', himg'', hshows⟩ := decode_fits hheads hfit
        obtain rfl : img'' = img := Except.ok.inj (himg''.symm.trans himg)
        refine ⟨hd, hheads, hcolours, ?_⟩
        have hsame : withHalo hd.width hd.height (painted data hd (takenAlpha data hd)) =
            withHalo hd.width hd.height (painted data hd (iconAlpha data hd)) := by
          refine withHalo_congr fun p hx hy => ?_
          have halpha := (takenAlpha_eq_iff p).mpr fun hmask =>
            hopaque hd hheads hfit hmask p.1 hx p.2 hy
          rw [painted, painted, halpha]
        rw [← hsame]
        exact hshows

/-- An icon of two white pixels, one over the other, with a mask and a bitmap of one row. The mask
has its bit and the bitmap none. -/
def shortMask : List UInt8 :=
  [0, 0, 0, 0, 0x80, 1, 0, 0, 0, 0, 0, 2, 0, 1] ++ List.replicate 18 0 ++
    [0, 1] ++ List.replicate 16 0 ++
    [0, 0, 0, 0, 0, 1, 0, 0, 0, 0, 0, 1, 0, 1] ++
    [0, 0, 0, 0, 0, 1, 0, 0, 0, 0, 0, 1, 0, 1] ++
    [0, 0, 0, 0] ++ [0x80] ++ [0] ++
    [0, 0, 0, 0, 0, 0, 0, 0, 0, 0, 0xff, 0xff, 0xff, 0xff, 0xff, 0xff] ++ [0, 0]

/-- The second pixel is taken from the bitmap to be transparent. -/
theorem shortMask_not_draws : ¬Draws shortMask := by
  intro hdraws
  have hheads : readHeads shortMask = some ⟨1, 1, 2, 1, 1, 1, 1, 1, true⟩ := by decide +kernel
  have hhalo : (decode shortMask).toOption.bind (fun img => img.pixels[index 3 (1, 2)]?) =
      some .halo := by decide +kernel
  have hwhite : withHalo 1 2 (painted shortMask ⟨1, 1, 2, 1, 1, 1, 1, 1, true⟩
      (iconAlpha shortMask ⟨1, 1, 2, 1, 1, 1, 1, 1, true⟩)) (1, 2) = ⟨0xff, 0xff, 0xff, 0xff⟩ := by
    decide +kernel
  cases himg : decode shortMask with
  | error e =>
    rw [himg] at hhalo
    exact absurd hhalo (by simp [Except.toOption])
  | ok img =>
    obtain ⟨hd, hhd, -, hshows⟩ := hdraws.shows img himg
    obtain rfl : (⟨1, 1, 2, 1, 1, 1, 1, 1, true⟩ : Heads) = hd :=
      Option.some.inj (hheads.symm.trans hhd)
    have hpixel := hshows.pixel (1, 2) (by decide) (by decide)
    rw [himg] at hhalo
    have hsame : some Pixel.halo = some ⟨0xff, 0xff, 0xff, 0xff⟩ :=
      hhalo.symm.trans (hpixel.trans (congrArg some hwhite))
    exact absurd hsame (by decide)

end Gtkhx.Icons
