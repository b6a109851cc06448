import Gtkhx.Icons.Halo

/-!
# The colours of an icon

Every number that a row of pixels can hold has a colour in the palette, which is that of the last
entry of the table for it, or the default. Rows that fit have a number for each position of the
icon, and rows that are too short end before the last.
-/

namespace Gtkhx.Icons

open Raster

section Palettes

variable {data : List UInt8} {hd : Heads}

theorem be16_lt {b : List UInt8} {off v : ℕ} (h : be16 b off = some v) : v < 65536 := by
  rw [be16] at h
  split at h
  case h_1 high low _ _ =>
    have hhigh := high.toNat_lt
    have hlow := low.toNat_lt
    rw [Option.some.injEq] at h
    omega
  case h_2 => exact absurd h.symm (Option.some_ne_none _)

/-- A later entry for a colour is the one that counts. -/
theorem lastEntry_cons (n i value : ℕ) (c : Channels) (rest : List (ℕ × Channels)) :
    lastEntry n i ((value, c) :: rest) =
      (lastEntry n i rest).or (if value &&& (n - 1) = i then some c else none) := by
  by_cases hvalue : value &&& (n - 1) = i
  · rw [lastEntry, List.filter_cons_of_pos (by simpa using hvalue), List.getLast?_cons,
      if_pos hvalue, lastEntry]
    cases (rest.filter fun e => e.1 &&& (n - 1) = i).getLast? with
    | none => rfl
    | some e => rfl
  · rw [lastEntry, List.filter_cons_of_neg (by simpa using hvalue), if_neg hvalue, Option.or_none,
      lastEntry]

theorem overlay_succ (n count e : ℕ) (out : List ℕ) :
    overlay data n (count + 1) e out = match entryAt data e with
      | some entry => put out (entry.1 &&& (n - 1)) (rgbPack entry.2) >>=
          overlay data n count (e + 8)
      | none => .ok out := by
  rw [overlay, entryAt]
  cases be16 data e <;> cases be16 data (e + 2) <;> cases be16 data (e + 4) <;>
    cases be16 data (e + 6) <;> rfl

/-- The entries of a table are over what a palette has. -/
theorem overlay_eq {n : ℕ} (hn : 0 < n) (hlimit : n ≤ 256) (count e : ℕ) (out : List ℕ)
    (hlength : out.length = 256) :
    ∃ palette, overlay data n count e out = .ok palette ∧ palette.length = 256 ∧
      ∀ i, palette[i]? =
        (out[i]?).map ((lastEntry n i (entriesFrom data count e)).map rgbPack).getD := by
  induction count generalizing e out with
  | zero =>
    refine ⟨out, rfl, hlength, fun i => ?_⟩
    cases out[i]? <;> rfl
  | succ count ih =>
    rw [overlay_succ, entriesFrom]
    cases entryAt data e with
    | none =>
      refine ⟨out, rfl, hlength, fun i => ?_⟩
      cases out[i]? <;> rfl
    | some entry =>
      obtain ⟨value, c⟩ := entry
      have hindex : value &&& (n - 1) < out.length := by
        have hle : value &&& (n - 1) ≤ n - 1 := Nat.and_le_right
        omega
      obtain ⟨palette, hoverlay, hpalette, hentries⟩ :=
        ih (e + 8) (out.set (value &&& (n - 1)) (rgbPack c)) (by rw [List.length_set, hlength])
      refine ⟨palette, ?_, hpalette, fun i => ?_⟩
      · have hput : put out (value &&& (n - 1)) (rgbPack c) >>= overlay data n count (e + 8) =
            .ok palette := by
          rw [put_eq hindex]
          exact hoverlay
        exact hput
      · rw [hentries i, lastEntry_cons, List.getElem?_set]
        by_cases hvalue : value &&& (n - 1) = i
        · rw [if_pos hvalue, if_pos hvalue, if_pos hindex, ← hvalue,
            List.getElem?_eq_getElem hindex]
          cases lastEntry n (value &&& (n - 1)) (entriesFrom data count (e + 8)) <;> rfl
        · rw [if_neg hvalue, if_neg hvalue, Option.or_none]

/-- Every channel of a colour has sixteen bits. -/
def Channels.Fit (c : Channels) : Prop := c.1 < 65536 ∧ c.2.1 < 65536 ∧ c.2.2 < 65536

theorem defaultPalette_fit : ∀ bpp ∈ [1, 2, 4, 8], (defaultPalette bpp).length = 2 ^ bpp ∧
    ∀ c ∈ defaultPalette bpp, c.1 < 65536 ∧ c.2.1 < 65536 ∧ c.2.2 < 65536 := by
  decide +kernel

theorem entryAt_fit {e : ℕ} {entry : ℕ × Channels} (h : entryAt data e = some entry) :
    entry.2.Fit := by
  rw [entryAt] at h
  split at h
  case h_1 value r g b _ hr hg hb =>
    rw [← Option.some.inj h]
    exact ⟨be16_lt hr, be16_lt hg, be16_lt hb⟩
  case h_2 => exact absurd h.symm (Option.some_ne_none _)

theorem entriesFrom_fit (count e : ℕ) : ∀ c ∈ entriesFrom data count e, c.2.Fit := by
  induction count generalizing e with
  | zero => exact fun c hc => absurd hc List.not_mem_nil
  | succ count ih =>
    rw [entriesFrom]
    cases hentry : entryAt data e with
    | none => exact fun c hc => absurd hc List.not_mem_nil
    | some entry =>
      intro c hc
      rcases List.mem_cons.mp hc with rfl | hc
      · exact entryAt_fit hentry
      · exact ih (e + 8) c hc

theorem lastEntry_fit {n i : ℕ} {entries : List (ℕ × Channels)} {c : Channels}
    (hentries : ∀ entry ∈ entries, entry.2.Fit) (h : lastEntry n i entries = some c) : c.Fit := by
  rw [lastEntry, Option.map_eq_some_iff] at h
  obtain ⟨entry, hlast, rfl⟩ := h
  exact hentries entry (List.mem_of_mem_filter (List.mem_of_getLast? hlast))

/-- Every number that pixels of so many bits have is a colour. -/
theorem buildPalette_eq (data : List UInt8) (hbpp : hd.bpp ∈ [1, 2, 4, 8]) :
    ∃ palette, buildPalette data hd.ctOff hd.bpp = .ok palette ∧ ∀ i < 2 ^ hd.bpp,
      ∃ c : Channels, c.Fit ∧ paletteEntry data hd i = some c ∧ palette[i]? = some (rgbPack c) := by
  obtain ⟨hdefaults, hfit⟩ := defaultPalette_fit hd.bpp hbpp
  have hpow : 0 < 2 ^ hd.bpp ∧ 2 ^ hd.bpp ≤ 256 := by
    revert hbpp
    simp only [List.mem_cons, List.not_mem_nil, or_false]
    rintro (h | h | h | h) <;> rw [h] <;> decide
  have hsome : (defaultPalette hd.bpp).isEmpty = false := by
    cases hpalette : defaultPalette hd.bpp with
    | nil =>
      rw [hpalette, List.length_nil] at hdefaults
      omega
    | cons c rest => rfl
  let out := (defaultPalette hd.bpp).map rgbPack ++
    List.replicate (256 - (defaultPalette hd.bpp).length) 0
  have hout : out.length = 256 := by
    simp only [out, List.length_append, List.length_map, List.length_replicate, hdefaults]
    omega
  have hmerge : ∃ palette, buildPalette data hd.ctOff hd.bpp = .ok palette ∧ ∀ i, palette[i]? =
      (out[i]?).map ((lastEntry (2 ^ hd.bpp) i (colourTable data hd)).map rgbPack).getD := by
    rw [buildPalette, hsome, if_neg Bool.false_ne_true, colourTable]
    cases be16 data (hd.ctOff + 6) with
    | none =>
      refine ⟨out, rfl, fun i => ?_⟩
      cases out[i]? <;> rfl
    | some ctsize =>
      obtain ⟨palette, hoverlay, _, hentries⟩ :=
        overlay_eq hpow.1 hpow.2 (ctsize + 1) (hd.ctOff + 8) out hout
      exact ⟨palette, hoverlay, hentries⟩
  have htable : ∀ entry ∈ colourTable data hd, entry.2.Fit := by
    rw [colourTable]
    cases be16 data (hd.ctOff + 6) with
    | none => exact fun c hc => absurd hc List.not_mem_nil
    | some ctsize => exact entriesFrom_fit (ctsize + 1) (hd.ctOff + 8)
  obtain ⟨palette, hpalette, hentries⟩ := hmerge
  refine ⟨palette, hpalette, fun i hi => ?_⟩
  have hlt : i < (defaultPalette hd.bpp).length := by rw [hdefaults]; exact hi
  have hdefault : out[i]? = some (rgbPack (defaultPalette hd.bpp)[i]) := by
    simp only [out]
    rw [List.getElem?_append_left (by rw [List.length_map]; exact hlt), List.getElem?_map,
      List.getElem?_eq_getElem hlt, Option.map_some]
  rw [hentries i, hdefault, paletteEntry]
  cases hlast : lastEntry (2 ^ hd.bpp) i (colourTable data hd) with
  | none =>
    exact ⟨_, hfit _ (List.getElem_mem hlt), by rw [Option.none_or, List.getElem?_eq_getElem hlt],
      rfl⟩
  | some c => exact ⟨c, lastEntry_fit htable hlast, rfl, rfl⟩

end Palettes

section Rows

variable {data : List UInt8} {hd : Heads}

/-- What the decoder takes for the mask. -/
def takenAlpha (data : List UInt8) (hd : Heads) (p : ℕ × ℕ) : UInt8 :=
  maskAlpha data hd.haveMask (MASK_DATA + hd.maskRowBytes * p.2) p.1

theorem readHeads_sound (h : readHeads data = some hd) :
    hd.bpp ∈ [1, 2, 4, 8] ∧ 0 < hd.width ∧ 0 < hd.height := by
  rw [readHeads] at h
  obtain ⟨bpp, -, h⟩ := Option.bind_eq_some_iff.mp h
  by_cases hbpp : bpp = 1 ∨ bpp = 2 ∨ bpp = 4 ∨ bpp = 8
  · rw [if_neg (not_not.mpr hbpp)] at h
    obtain ⟨bTop, -, h⟩ := Option.bind_eq_some_iff.mp h
    obtain ⟨bLeft, -, h⟩ := Option.bind_eq_some_iff.mp h
    obtain ⟨bBottom, -, h⟩ := Option.bind_eq_some_iff.mp h
    obtain ⟨bRight, -, h⟩ := Option.bind_eq_some_iff.mp h
    obtain ⟨mbTop, -, h⟩ := Option.bind_eq_some_iff.mp h
    obtain ⟨mbBottom, -, h⟩ := Option.bind_eq_some_iff.mp h
    obtain ⟨mbRight, -, h⟩ := Option.bind_eq_some_iff.mp h
    obtain ⟨bbTop, -, h⟩ := Option.bind_eq_some_iff.mp h
    obtain ⟨bbBottom, -, h⟩ := Option.bind_eq_some_iff.mp h
    split at h
    case isTrue => exact absurd h.symm (Option.some_ne_none _)
    case isFalse hordered =>
      split at h
      case isTrue => exact absurd h.symm (Option.some_ne_none _)
      case isFalse =>
        obtain ⟨mbmRb, -, h⟩ := Option.bind_eq_some_iff.mp h
        obtain ⟨bmRb, -, h⟩ := Option.bind_eq_some_iff.mp h
        obtain ⟨rowBytes, -, h⟩ := Option.bind_eq_some_iff.mp h
        rw [← Option.some.inj h]
        refine ⟨by simpa using hbpp, ?_, ?_⟩ <;> dsimp only <;> omega
  · rw [if_pos hbpp] at h
    exact absurd h.symm (Option.some_ne_none _)

theorem paletteIndex_eq {bpp : ℕ} (hbpp : bpp ∈ [1, 2, 4, 8]) (idRow x : ℕ) :
    paletteIndex data bpp idRow x = (data[idRow + x * bpp / 8]?).map fun b =>
      b.toNat / 2 ^ (8 - bpp - x * bpp % 8) % 2 ^ bpp := by
  simp only [List.mem_cons, List.not_mem_nil, or_false] at hbpp
  rcases hbpp with rfl | rfl | rfl | rfl
  · have hshift : 8 - 1 - x % 8 = 7 - x % 8 := by omega
    rw [paletteIndex, Nat.mul_one, hshift, Nat.pow_one]
  · have hbyte : x * 2 / 8 = x / 4 := by omega
    have hshift : 8 - 2 - x * 2 % 8 = (3 - x % 4) * 2 := by omega
    rw [paletteIndex, hbyte, hshift]
    rfl
  · have hbyte : x * 4 / 8 = x / 2 := by omega
    have hshift : 8 - 4 - x * 4 % 8 = (1 - x % 2) * 4 := by omega
    rw [paletteIndex, hbyte, hshift]
    rfl
  · have hbyte : x * 8 / 8 = x := by omega
    have hshift : 8 - 8 - x * 8 % 8 = 0 := by omega
    rw [paletteIndex, hbyte, hshift]
    · congr 1
      funext b
      have hb := b.toNat_lt
      rw [Nat.pow_zero, Nat.div_one, Nat.mod_eq_of_lt (by omega)]
    all_goals decide

/-- A byte of a row of a resource. -/
theorem getElem?_row {start n i : ℕ} (hi : i < n) :
    ((data.drop start).take n)[i]? = data[start + i]? := by
  rw [List.getElem?_take_of_lt hi, List.getElem?_drop]

/-- Rows that fit have a number for each position. -/
theorem paletteIndex_row (hbpp : hd.bpp ∈ [1, 2, 4, 8]) (hfit : hd.RowsFit data) {p : ℕ × ℕ}
    (hx : p.1 < hd.width) (hy : p.2 < hd.height) :
    ∃ i < 2 ^ hd.bpp, bitsAt (pixelRow data hd p.2) hd.bpp p.1 = some i ∧
      paletteIndex data hd.bpp
        (data.length - hd.rowBytes * hd.height + hd.rowBytes * p.2) p.1 = some i := by
  obtain ⟨hwide, hhigh⟩ := hfit
  have hpos : 0 < hd.bpp := by
    revert hbpp
    simp only [List.mem_cons, List.not_mem_nil, or_false]
    omega
  have hbit : p.1 * hd.bpp < 8 * hd.rowBytes :=
    Nat.lt_of_lt_of_le (Nat.mul_lt_mul_of_pos_right hx hpos) hwide
  have hbyte : p.1 * hd.bpp / 8 < hd.rowBytes := by omega
  have hrow : hd.rowBytes * p.2 + hd.rowBytes ≤ hd.rowBytes * hd.height := by
    rw [← Nat.mul_succ]
    exact Nat.mul_le_mul_left hd.rowBytes hy
  have hin : data.length - hd.rowBytes * hd.height + hd.rowBytes * p.2 + p.1 * hd.bpp / 8 <
      data.length := by omega
  rw [bitsAt, pixelRow, getElem?_row hbyte, paletteIndex_eq hbpp, List.getElem?_eq_getElem hin]
  exact ⟨_, Nat.mod_lt _ (Nat.two_pow_pos hd.bpp), rfl, rfl⟩

/-- Rows that are too short end before the last position. -/
theorem paletteIndex_short (hheads : readHeads data = some hd)
    (hshort : 8 * hd.rowBytes < hd.width * hd.bpp) (hhigh : hd.rowBytes * hd.height ≤ data.length) :
    paletteIndex data hd.bpp
      (data.length - hd.rowBytes * hd.height + hd.rowBytes * (hd.height - 1)) (hd.width - 1) =
        none := by
  obtain ⟨hbpp, hwidth, hheight⟩ := readHeads_sound hheads
  have hbyte : hd.rowBytes ≤ (hd.width - 1) * hd.bpp / 8 := by
    simp only [List.mem_cons, List.not_mem_nil, or_false] at hbpp
    rcases hbpp with h | h | h | h <;> rw [h] at hshort ⊢ <;> omega
  have hrow : hd.rowBytes * (hd.height - 1) + hd.rowBytes = hd.rowBytes * hd.height := by
    rw [← Nat.mul_succ, Nat.succ_eq_add_one, Nat.sub_add_cancel hheight]
  rw [paletteIndex_eq hbpp, List.getElem?_eq_none (by omega), Option.map_none]

end Rows

end Gtkhx.Icons
