import Gtkhx.Icons.Cicn

/-!
# What a colour icon shows

The colours and the mask of an icon, each read from its own part of the resource, and the halo
around what is opaque. The decoder shows them exactly if what it takes for the mask outside of the
mask's own bits is opaque.
-/

namespace Gtkhx.Icons

open Raster

section Specified

variable (data : List UInt8) (hd : Heads)

/-- An entry of a table of colours, if it is in the resource. -/
def entryAt (e : ℕ) : Option (ℕ × Channels) :=
  match be16 data e, be16 data (e + 2), be16 data (e + 4), be16 data (e + 6) with
  | some value, some r, some g, some b => some (value, (r, g, b))
  | _, _, _, _ => none

/-- So many entries of a table of colours, of which the first is here. What is not in the resource
ends them. -/
def entriesFrom : ℕ → ℕ → List (ℕ × Channels)
  | 0, _ => []
  | count + 1, e =>
    match entryAt data e with
    | some entry => entry :: entriesFrom count (e + 8)
    | none => []

/-- The table of colours. -/
def colourTable : List (ℕ × Channels) :=
  match be16 data (hd.ctOff + 6) with
  | some ctsize => entriesFrom data (ctsize + 1) (hd.ctOff + 8)
  | none => []

/-- The last of some entries for a colour. -/
def lastEntry (n i : ℕ) (entries : List (ℕ × Channels)) : Option Channels :=
  (entries.filter fun e => e.1 &&& (n - 1) = i).getLast?.map Prod.snd

/-- A colour of the palette: that of the table, or the default. -/
def paletteEntry (i : ℕ) : Option Channels :=
  (lastEntry (2 ^ hd.bpp) i (colourTable data hd)).or (defaultPalette hd.bpp)[i]?

/-- The number at `x` in a row of numbers of so many bits. -/
def bitsAt (row : List UInt8) (bpp x : ℕ) : Option ℕ :=
  (row[x * bpp / 8]?).map fun b => b.toNat / 2 ^ (8 - bpp - x * bpp % 8) % 2 ^ bpp

/-- A row of the pixels, which are the last bytes. -/
def pixelRow (y : ℕ) : List UInt8 :=
  (data.drop (data.length - hd.rowBytes * hd.height + hd.rowBytes * y)).take hd.rowBytes

/-- A row of the mask, of which there are as many as it is high. -/
def maskRow (y : ℕ) : List UInt8 :=
  if y < hd.maskHeight then (data.drop (MASK_DATA + hd.maskRowBytes * y)).take hd.maskRowBytes
  else []

/-- The colour of a position of the icon. -/
def iconColour (p : ℕ × ℕ) : Option Channels :=
  (bitsAt (pixelRow data hd p.2) hd.bpp p.1).bind (paletteEntry data hd)

/-- The alpha of a position: opaque without a mask, outside of it and where its bit is one. -/
def iconAlpha (p : ℕ × ℕ) : UInt8 :=
  if hd.haveMask && bitsAt (maskRow data hd p.2) 1 p.1 = some 0 then 0 else 0xff

/-- A pixel of this colour, of which the high bytes count. -/
def Channels.pixel (c : Channels) (alpha : UInt8) : Pixel :=
  ⟨UInt8.ofNat (c.1 / 256), UInt8.ofNat (c.2.1 / 256), UInt8.ofNat (c.2.2 / 256), alpha⟩

/-- The icon with this alpha. -/
def painted (alpha : ℕ × ℕ → UInt8) (p : ℕ × ℕ) : Pixel :=
  ((iconColour data hd p).getD (0, 0, 0)).pixel (alpha p)

end Specified

section Halo

variable (width height : ℕ) (icon : ℕ × ℕ → Pixel)

/-- An icon on a canvas that is larger by one pixel at each side. -/
def canvas (p : ℕ × ℕ) : Pixel :=
  if 0 < p.1 ∧ p.1 ≤ width ∧ 0 < p.2 ∧ p.2 ≤ height then icon (p.1 - 1, p.2 - 1) else .clear

/-- Whether one of the four neighbours of a position is not transparent. -/
def besideOpaque (p : ℕ × ℕ) : Bool :=
  (0 < p.1 && (canvas width height icon (p.1 - 1, p.2)).alpha ≠ 0) ||
    (canvas width height icon (p.1 + 1, p.2)).alpha ≠ 0 ||
    (0 < p.2 && (canvas width height icon (p.1, p.2 - 1)).alpha ≠ 0) ||
    (canvas width height icon (p.1, p.2 + 1)).alpha ≠ 0

/-- The canvas with a halo in the transparent positions beside opaque ones. -/
def withHalo (p : ℕ × ℕ) : Pixel :=
  if (canvas width height icon p).alpha = 0 && besideOpaque width height icon p then .halo
  else canvas width height icon p

/-- An image of this size that has these pixels. -/
structure Shows (pixel : ℕ × ℕ → Pixel) (img : Rgba) : Prop where
  wide : img.width = width
  high : img.height = height
  length : img.pixels.length = width * height
  pixel : ∀ p, p.1 < width → p.2 < height → img.pixels[index width p]? = some (pixel p)

end Halo

/-- Whether the rows of the pixels hold the width and are all in the resource. -/
def Heads.RowsFit (hd : Heads) (data : List UInt8) : Prop :=
  hd.width * hd.bpp ≤ 8 * hd.rowBytes ∧ hd.rowBytes * hd.height ≤ data.length

/-- Nothing is read or written that is not there, there is no image if the rows do not fit, and an
image has the icon's colours and alpha and a halo around it. -/
structure Draws (data : List UInt8) : Prop where
  safe : decode data ≠ .error .panic
  rows : ∀ hd, readHeads data = some hd → ¬hd.RowsFit data → decode data = .error .malformed
  shows : ∀ img, decode data = .ok img → ∃ hd, readHeads data = some hd ∧
    (∀ p, p.1 < hd.width → p.2 < hd.height → (iconColour data hd p).isSome) ∧
    Shows (hd.width + 2) (hd.height + 2)
      (withHalo hd.width hd.height (painted data hd (iconAlpha data hd))) img

/-- Where an icon is outside of its mask, the bit that would be there is one or not in the
resource. -/
def OutsideIsOpaque (data : List UInt8) : Prop :=
  ∀ hd, readHeads data = some hd → hd.RowsFit data → hd.haveMask = true →
    ∀ x < hd.width, ∀ y < hd.height, hd.maskHeight ≤ y ∨ 8 * hd.maskRowBytes ≤ x →
      ∀ b ∈ data[MASK_DATA + hd.maskRowBytes * y + x / 8]?, b.toNat / 2 ^ (7 - x % 8) % 2 = 1

end Gtkhx.Icons
