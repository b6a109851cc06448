import Gtkhx.Icons.Palette
import Gtkhx.Library.Raster

/-!
# Colour icons

A colour icon is a resource: the head of a pixel map, of a mask and of a bitmap, the bits of the
mask and of the bitmap, a table of colours, and the pixels, which are its last bytes. It is decoded
to an image, around which a halo is drawn.
-/

namespace Gtkhx.Icons

open Raster

structure Pixel where
  red : UInt8
  green : UInt8
  blue : UInt8
  alpha : UInt8
  deriving DecidableEq, Repr

/-- An image. Its pixels are in rows. -/
structure Rgba where
  width : ℕ
  height : ℕ
  pixels : List Pixel
  deriving DecidableEq, Repr

/-- Why there is no image. -/
inductive Failure where
  /-- The resource is not a colour icon. -/
  | malformed
  /-- Something was read or written that is not there. -/
  | panic
  deriving DecidableEq, Repr

def PM_ROWBYTES : ℕ := 4
def PM_BOUNDS_TOP : ℕ := 6
def PM_BOUNDS_LEFT : ℕ := 8
def PM_BOUNDS_BOTTOM : ℕ := 10
def PM_BOUNDS_RIGHT : ℕ := 12
def PM_PIXELSIZE : ℕ := 32

/-- Where the mask is. -/
def MBM : ℕ := 50

/-- Where the bitmap is. -/
def BM : ℕ := 64

def BITMAP_ROWBYTES : ℕ := 4
def BITMAP_BOUNDS_TOP : ℕ := 6
def BITMAP_BOUNDS_BOTTOM : ℕ := 10
def BITMAP_BOUNDS_RIGHT : ℕ := 12

/-- Where the bits of the mask start. -/
def MASK_DATA : ℕ := 82

/-- What is read from a place that is there. -/
def fetch {α : Type} (cells : List α) (i : ℕ) : Except Failure α :=
  match cells[i]? with
  | some a => .ok a
  | none => .error .panic

/-- What is written to a place that is there. -/
def put {α : Type} (cells : List α) (i : ℕ) (a : α) : Except Failure (List α) :=
  match store cells i a with
  | some cells => .ok cells
  | none => .error .panic

def be16 (b : List UInt8) (off : ℕ) : Option ℕ :=
  match b[off]?, b[off + 1]? with
  | some high, some low => some (high.toNat * 256 + low.toNat)
  | _, _ => none

/-- The high bytes of the channels. -/
def rgbPack (c : Channels) : ℕ := c.1 / 256 * 65536 + c.2.1 / 256 * 256 + c.2.2 / 256

/-- The colours of pixels of so many bits. -/
def defaultPalette (bpp : ℕ) : List Channels :=
  match bpp with
  | 8 => RGB_8
  | 4 => RGB_4
  | 2 => RGB_2
  | 1 => RGB_1
  | _ => []

/-- A palette after so many entries of a table of colours, of which the first is here. What is not
in the resource ends them. -/
def overlay (data : List UInt8) (n : ℕ) : ℕ → ℕ → List ℕ → Except Failure (List ℕ)
  | 0, _, out => .ok out
  | count + 1, e, out =>
    match be16 data e, be16 data (e + 2), be16 data (e + 4), be16 data (e + 6) with
    | some value, some r, some g, some b => do
      let out ← put out (value &&& (n - 1)) (rgbPack (r, g, b))
      overlay data n count (e + 8) out
    | _, _, _, _ => .ok out

/-- The palette of 256 colours: those of pixels of so many bits, and over them those of the
table. -/
def buildPalette (data : List UInt8) (ctOff bpp : ℕ) : Except Failure (List ℕ) :=
  if (defaultPalette bpp).isEmpty then .ok (List.replicate 256 0)
  else
    let out := (defaultPalette bpp).map rgbPack ++
      List.replicate (256 - (defaultPalette bpp).length) 0
    match be16 data (ctOff + 6) with
    | some ctsize => overlay data (2 ^ bpp) (ctsize + 1) (ctOff + 8) out
    | none => .ok out

/-- What the heads of a resource say. -/
structure Heads where
  bpp : ℕ
  width : ℕ
  height : ℕ
  maskHeight : ℕ
  bitmapHeight : ℕ
  maskRowBytes : ℕ
  bitmapRowBytes : ℕ
  rowBytes : ℕ
  haveMask : Bool
  deriving DecidableEq

/-- The heads of a resource, if they make sense. -/
def readHeads (rsrc : List UInt8) : Option Heads := do
  let bpp ← be16 rsrc PM_PIXELSIZE
  if ¬(bpp = 1 ∨ bpp = 2 ∨ bpp = 4 ∨ bpp = 8) then none
  else
    let bTop ← be16 rsrc PM_BOUNDS_TOP
    let bLeft ← be16 rsrc PM_BOUNDS_LEFT
    let bBottom ← be16 rsrc PM_BOUNDS_BOTTOM
    let bRight ← be16 rsrc PM_BOUNDS_RIGHT
    let mbTop ← be16 rsrc (MBM + BITMAP_BOUNDS_TOP)
    let mbBottom ← be16 rsrc (MBM + BITMAP_BOUNDS_BOTTOM)
    let mbRight ← be16 rsrc (MBM + BITMAP_BOUNDS_RIGHT)
    let bbTop ← be16 rsrc (BM + BITMAP_BOUNDS_TOP)
    let bbBottom ← be16 rsrc (BM + BITMAP_BOUNDS_BOTTOM)
    if bRight ≤ bLeft ∨ bBottom ≤ bTop ∨ mbBottom < mbTop ∨ bbBottom < bbTop then none
    else if 4096 < bRight - bLeft ∨ 4096 < bBottom - bTop then none
    else
      let mbmRb ← be16 rsrc (MBM + BITMAP_ROWBYTES)
      let bmRb ← be16 rsrc (BM + BITMAP_ROWBYTES)
      let rowBytes ← be16 rsrc PM_ROWBYTES
      some { bpp := bpp, width := bRight - bLeft, height := bBottom - bTop,
             maskHeight := mbBottom - mbTop, bitmapHeight := bbBottom - bbTop,
             maskRowBytes := mbmRb, bitmapRowBytes := bmRb, rowBytes := rowBytes % 0x8000,
             haveMask := mbRight ≠ 0 && mbBottom ≠ 0 }

/-- Where the table of colours is. -/
def Heads.ctOff (hd : Heads) : ℕ :=
  MASK_DATA + hd.maskRowBytes * hd.maskHeight + hd.bitmapRowBytes * hd.bitmapHeight

/-- The number in the palette of the pixel at `x` in a row. -/
def paletteIndex (rsrc : List UInt8) (bpp idRow x : ℕ) : Option ℕ :=
  match bpp with
  | 1 => (rsrc[idRow + x / 8]?).map fun b => b.toNat / 2 ^ (7 - x % 8) % 2
  | 2 => (rsrc[idRow + x / 4]?).map fun b => b.toNat / 2 ^ ((3 - x % 4) * 2) % 4
  | 4 => (rsrc[idRow + x / 2]?).map fun b => b.toNat / 2 ^ ((1 - x % 2) * 4) % 16
  | _ => (rsrc[idRow + x]?).map UInt8.toNat

/-- The alpha of the pixel at `x` in a row of the mask. What the resource ends before is opaque. -/
def maskAlpha (rsrc : List UInt8) (haveMask : Bool) (mpRow x : ℕ) : UInt8 :=
  if haveMask then
    match rsrc[mpRow + x / 8]? with
    | some mb => if mb.toNat / 2 ^ (7 - x % 8) % 2 ≠ 0 then 0xff else 0
    | none => 0xff
  else 0xff

/-- The pixel at a position. -/
def decodePixel (rsrc : List UInt8) (hd : Heads) (palette : List ℕ) (pixOff : ℕ) (p : ℕ × ℕ) :
    Except Failure Pixel :=
  match paletteIndex rsrc hd.bpp (pixOff + hd.rowBytes * p.2) p.1 with
  | none => .error .malformed
  | some idx =>
    match palette[idx]? with
    | none => .error .panic
    | some rgb =>
      .ok { red := UInt8.ofNat (rgb / 65536), green := UInt8.ofNat (rgb / 256),
            blue := UInt8.ofNat rgb,
            alpha := maskAlpha rsrc hd.haveMask (MASK_DATA + hd.maskRowBytes * p.2) p.1 }

/-- No colour, and transparent. -/
def Pixel.clear : Pixel := ⟨0, 0, 0, 0⟩

/-- Grey that shows on light and dark. -/
def Pixel.halo : Pixel := ⟨0x80, 0x80, 0x80, 0xa0⟩

/-- Whether one of the pixels that are neighbours is not transparent. -/
def anyOpaque (alpha : List UInt8) : List (Bool × ℕ) → Except Failure Bool
  | [] => .ok false
  | (inside, i) :: rest =>
    if inside then do
      let a ← fetch alpha i
      if a ≠ 0 then .ok true else anyOpaque alpha rest
    else anyOpaque alpha rest

/-- The neighbours of a position, and whether they are in the image. -/
def neighbours (width height : ℕ) (p : ℕ × ℕ) : List (Bool × ℕ) :=
  [(0 < p.1, index width p - 1), (p.1 < width - 1, index width p + 1),
    (0 < p.2, index width (p.1, p.2 - 1)), (p.2 < height - 1, index width (p.1, p.2 + 1))]

/-- One pixel of the halo, if there is one at the position. -/
def haloPixel (width height : ℕ) (alpha : List UInt8) (pixels : List Pixel) (p : ℕ × ℕ) :
    Except Failure (List Pixel) := do
  let a ← fetch alpha (index width p)
  if a ≠ 0 then .ok pixels
  else
    let neighbour ← anyOpaque alpha (neighbours width height p)
    if neighbour then put pixels (index width p) .halo else .ok pixels

/-- An image with a halo around what is opaque. It is larger by one pixel at each side. -/
def addHalo (src : Rgba) : Except Failure Rgba := do
  let dw := src.width + 2
  let dh := src.height + 2
  let pixels ← (positions src.width src.height).foldlM (fun pixels p => do
    let px ← fetch src.pixels (index src.width p)
    put pixels (index dw (p.1 + 1, p.2 + 1)) px) (List.replicate (dw * dh) .clear)
  let pixels ← (positions dw dh).foldlM (haloPixel dw dh (pixels.map Pixel.alpha)) pixels
  .ok { width := dw, height := dh, pixels := pixels }

/-- The image of a colour icon. -/
def decode (rsrc : List UInt8) : Except Failure Rgba :=
  match readHeads rsrc with
  | none => .error .malformed
  | some hd =>
    if rsrc.length < hd.rowBytes * hd.height then .error .malformed
    else do
      let pixOff := rsrc.length - hd.rowBytes * hd.height
      let palette ← buildPalette rsrc hd.ctOff hd.bpp
      let pixels ← (positions hd.width hd.height).foldlM (fun pixels p => do
        let px ← decodePixel rsrc hd palette pixOff p
        put pixels (index hd.width p) px) (List.replicate (hd.width * hd.height) .clear)
      addHalo { width := hd.width, height := hd.height, pixels := pixels }

end Gtkhx.Icons
