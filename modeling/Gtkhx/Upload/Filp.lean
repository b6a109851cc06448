import Gtkhx.Htxf.Forks
import Gtkhx.Upload.Announced

/-!
# What an upload's FILP says

The header `hxnet_xfer_file_send_one` patches together is a FILP's: its info block has the
file's type and creator, its dates and its comment where the format has them, and its
length and the data fork's are those that follow.
-/

namespace Gtkhx.Upload

open Htxf

/-- `AMAC`, the platform of an INFO fork. -/
def amac : List UInt8 := [0x41, 0x4d, 0x41, 0x43]

/-- The codec of the flattened file format reads and writes it as it is described: fork
headers of sixteen bytes that give a fork's length, and an INFO fork with its fields at
their places, the name's length before the name and the comment's before the comment. What
it makes of a date's seconds is `date`. -/
structure Documented (ffo : Ffo) (date : List UInt8 → List UInt8) : Prop where
  framed : Framed ffo
  forkLen_pack : ∀ {kind len large header}, kind.length = 4 →
    ffo.packForkHeader kind len large = some header → ffo.forkLen header large = len
  infoBlockLen_eq : ∀ {hi lo : UInt8} {name comment : ℕ}, name ≤ 31 → comment ≤ 255 →
    hi.toNat * 256 + lo.toNat = 74 + name + comment →
    ffo.infoBlockLen hi lo = some (74 + name + comment + FORK_HEADER_LEN)
  parse_eq : ∀ {info header comment : List UInt8} {name len : ℕ} {large : Bool}, name ≤ 31 →
    comment.length ≤ 255 → info.length = 74 + name + comment.length → slice info 0 4 = amac →
    slice info 70 2 = [0, .ofNat name] →
    slice info (72 + name) 2 = [0, .ofNat comment.length] →
    slice info (74 + name) comment.length = comment →
    ffo.packForkHeader dataKind len large = some header →
    ffo.parseFilpInfo (info ++ header) large = some {
      typeCreator := slice info 4 8
      createTime := date (slice info 56 4)
      modifyTime := date (slice info 64 4)
      comment := comment
      dataForkLen := len }

section Slices

variable {l hdr bytes : List UInt8} {pos start len : ℕ}

theorem slice_append_left (h : start + len ≤ l.length) (more : List UInt8) :
    slice (l ++ more) start len = slice l start len := by
  rw [slice, slice, List.drop_append_of_le_length (by omega), List.take_append_of_le_length]
  rw [List.length_drop]
  omega

theorem slice_append_right (h : l.length ≤ start) (more : List UInt8) :
    slice (l ++ more) start len = slice more (start - l.length) len := by
  rw [slice, slice, List.drop_append, List.drop_eq_nil_of_le h, List.nil_append]

/-- A part of a part. -/
theorem slice_slice {n k : ℕ} (h : k + len ≤ n) :
    slice (slice l start n) k len = slice l (start + k) len := by
  rw [slice, slice, slice, List.drop_take, List.drop_drop, List.take_take,
    Nat.min_eq_left (by omega)]

theorem slice_add (m n : ℕ) : slice l start (m + n) = slice l start m ++ slice l (start + m) n := by
  rw [slice, slice, slice, List.take_add, List.drop_drop]

/-- The byte a part of one byte is. -/
theorem getD_of_slice {b : UInt8} (h : slice l start 1 = [b]) : l.getD start 0 = b := by
  rw [slice, List.take_one] at h
  rw [List.getD_eq_getElem?_getD, ← List.head?_drop]
  cases hhead : (l.drop start).head? with
  | none => simp [hhead] at h
  | some c => simpa [hhead] using h

theorem slice_patch_self (h : pos + bytes.length ≤ hdr.length) :
    slice (patch hdr pos bytes) pos bytes.length = bytes := by
  have hlen : (hdr.take pos).length = pos := by
    rw [List.length_take]
    omega
  rw [patch, List.append_assoc, slice_append_right hlen.le, hlen, Nat.sub_self,
    slice_append_left (by omega), slice, List.drop_zero, List.take_length]

theorem slice_patch_before (h : start + len ≤ pos) (hfits : pos + bytes.length ≤ hdr.length) :
    slice (patch hdr pos bytes) start len = slice hdr start len := by
  have hlen : (hdr.take pos).length = pos := by
    rw [List.length_take]
    omega
  rw [patch, List.append_assoc, slice_append_left (by omega), slice, slice, List.drop_take,
    List.take_take, Nat.min_eq_left (by omega)]

theorem slice_patch_after (h : pos + bytes.length ≤ start)
    (hfits : pos + bytes.length ≤ hdr.length) :
    slice (patch hdr pos bytes) start len = slice hdr start len := by
  have hlen : (hdr.take pos ++ bytes).length = pos + bytes.length := by
    rw [List.length_append, List.length_take]
    omega
  rw [patch, slice_append_right (by omega), hlen, slice, slice, List.drop_drop]
  congr 2
  omega

end Slices

/-- A header of `n` bytes in which each field's bytes stand at its place. -/
structure Shows (n : ℕ) (hdr : List UInt8) (fields : List (ℕ × List UInt8)) : Prop where
  length : hdr.length = n
  field : ∀ f ∈ fields, slice hdr f.1 f.2.length = f.2

namespace Shows

variable {n pos : ℕ} {hdr bytes : List UInt8} {fields fields' : List (ℕ × List UInt8)}

theorem mono (h : Shows n hdr fields) (hsub : fields' ⊆ fields) : Shows n hdr fields' :=
  ⟨h.length, fun f hf => h.field f (hsub hf)⟩

/-- Bytes put into a header are a field of it, and the fields apart from them stay. -/
theorem patch (h : Shows n hdr fields) (hfits : pos + bytes.length ≤ n)
    (hapart : ∀ f ∈ fields, f.1 + f.2.length ≤ pos ∨ pos + bytes.length ≤ f.1) :
    Shows n (patch hdr pos bytes) ((pos, bytes) :: fields) := by
  obtain rfl := h.length
  refine ⟨length_patch rfl hfits, fun f hf => ?_⟩
  rcases List.mem_cons.mp hf with rfl | hf
  · exact slice_patch_self hfits
  · rcases hapart f hf with hbefore | hafter
    · rw [slice_patch_before hbefore hfits, h.field f hf]
    · rw [slice_patch_after hafter hfits, h.field f hf]

end Shows

/-- The template's fields that no file changes, and the high byte of the INFO fork's length. -/
def templateFields : List (ℕ × List UInt8) := [(38, [0]), (40, amac), (110, [0, 3])]

theorem template_shows (n : ℕ) :
    Shows (FILP_HEADER_LEN + n) (patch (List.replicate (FILP_HEADER_LEN + n) 0) 0 FILP_TEMPLATE)
      templateFields := by
  have hlen : (List.replicate (FILP_HEADER_LEN + n) (0 : UInt8)).length = FILP_HEADER_LEN + n :=
    List.length_replicate
  have hfits : 0 + FILP_TEMPLATE.length ≤ FILP_HEADER_LEN + n := by
    change 0 + 115 ≤ 133 + n
    omega
  refine ⟨length_patch hlen hfits, fun f hf => ?_⟩
  have hinside : f.1 + f.2.length ≤ FILP_TEMPLATE.length ∧
      slice FILP_TEMPLATE f.1 f.2.length = f.2 := by
    revert f
    decide
  rw [Upload.patch, List.take_zero, List.nil_append, slice_append_left hinside.1, hinside.2]

/-- The count of forks does not reach the fields after it. -/
theorem Shows.forks {n : ℕ} {hdr : List UInt8} (h : Shows n hdr templateFields) (hn : 40 ≤ n)
    (c : Prop) [Decidable c] :
    Shows n (if c then Upload.patch hdr 23 [3] else hdr) templateFields := by
  split
  · have hput : Shows n (Upload.patch hdr 23 [3]) ((23, [3]) :: templateFields) :=
      h.patch (by simp; omega) (by decide)
    exact hput.mono (List.subset_cons_self _ _)
  · exact h

/-- The high byte of the INFO fork's length is 1 from 256 on. -/
theorem Shows.high {n : ℕ} {hdr : List UInt8} (h : Shows n hdr templateFields) (hn : 40 ≤ n)
    (c : Prop) [Decidable c] :
    Shows n (if c then Upload.patch hdr 38 [1] else hdr)
      [(38, [if c then 1 else 0]), (40, amac), (110, [0, 3])] := by
  split
  · refine (h.mono (List.subset_cons_self _ _)).patch (by simp; omega) (by decide)
  · exact h

/-- What a file's FILP header has where. -/
theorem filpInfo_shows (file : LocalFile) (p : SendParams) :
    Shows (FILP_HEADER_LEN + file.comment.length) (filpInfo file p)
      [(117, file.comment), (116, [.ofNat file.comment.length]), (115, [0]),
        (104, file.modifyTime.toList), (96, file.createTime.toList),
        (44, file.typeCreator.toList), (39, [.ofNat (comfield file)]),
        (38, [if 0xff < comfield file then 1 else 0]), (40, amac), (110, [0, 3])] := by
  have hlen : FILP_HEADER_LEN = 133 := rfl
  have hstart := ((template_shows file.comment.length).forks (by omega) (p.rsrcLeft ≠ 0)).high
    (by omega) (0xff < comfield file)
  refine (((((((hstart.patch ?_ ?_).patch ?_ ?_).patch ?_ ?_).patch ?_ ?_).patch ?_ ?_).patch
    ?_ ?_).patch ?_ ?_)
  all_goals simp [amac]
  all_goals omega

/-- The length of an INFO fork in a header's two bytes. -/
theorem comfield_bytes {file : LocalFile} (hcomment : file.comment.length ≤ 255) :
    (if 0xff < comfield file then (1 : UInt8) else 0).toNat * 256 +
      (UInt8.ofNat (comfield file)).toNat = 74 + 3 + file.comment.length := by
  have hfield : comfield file = 77 + file.comment.length := by
    rw [comfield]
    omega
  rw [hfield, UInt8.toNat_ofNat']
  split <;> simp <;> omega

/-- A file's FILP header says what the format has of the file, and what is left of its data
fork. -/
theorem filpHeader_describes {ffo : Ffo} {date : List UInt8 → List UInt8}
    (hffo : Documented ffo date) {file : LocalFile} {p : SendParams} {hdr : List UInt8}
    (hcomment : file.comment.length ≤ 255) (h : filpHeader ffo file p = some hdr) :
    Describes ffo p.optLarge hdr {
      typeCreator := file.typeCreator.toList
      createTime := date file.createTime.toList
      modifyTime := date file.modifyTime.toList
      comment := file.comment
      dataForkLen := p.dataLeft } := by
  obtain ⟨header, hheader, rfl⟩ := Option.map_eq_some_iff.mp h
  have hheaderLen : header.length = 16 := hffo.framed rfl hheader
  have hfilp : FILP_HEADER_LEN = 133 := rfl
  generalize hpatched : patch (filpInfo file p) (117 + file.comment.length) header = hdr
  have hshows := (filpInfo_shows file p).patch
    (show 117 + file.comment.length + header.length ≤ _ by omega) (by simp [amac]; omega)
  rw [hpatched] at hshows
  have hlen := hshows.length
  -- The INFO fork is what is between the first forty bytes and the data fork's header.
  let info := slice hdr 40 (77 + file.comment.length)
  have hinfoLen : info.length = 74 + 3 + file.comment.length := by
    simp only [info, slice, List.length_take, List.length_drop]
    omega
  have hblock : hdr.drop 40 = info ++ header := by
    have hall : hdr.drop 40 = slice hdr 40 (77 + file.comment.length + header.length) := by
      rw [slice, List.take_of_length_le]
      rw [List.length_drop]
      omega
    have hfork := hshows.field (117 + file.comment.length, header) (by simp)
    rw [hall, slice_add, show 40 + (77 + file.comment.length) = 117 + file.comment.length by omega,
      hfork]
  have hbyte : ∀ {pos : ℕ} {b : UInt8}, pos < 40 → slice hdr pos 1 = [b] →
      (hdr.take 40).getD pos 0 = b := by
    intro pos b hpos hb
    apply getD_of_slice
    rw [← hb, ← slice_append_left (l := hdr.take 40) (by simp; omega) (hdr.drop 40),
      List.take_append_drop]
  have hpart : ∀ {k len : ℕ} {bytes : List UInt8}, bytes.length = len →
      k + len ≤ 77 + file.comment.length → slice hdr (40 + k) bytes.length = bytes →
      slice info k len = bytes := by
    rintro k _ bytes rfl hle hfield
    exact (slice_slice hle).trans hfield
  refine ⟨hdr.take 40, hdr.drop 40, (List.take_append_drop _ _).symm, ?_, ?_, ?_⟩
  · rw [List.length_take]
    omega
  · have hhi := hshows.field (38, [if 0xff < comfield file then 1 else 0]) (by simp)
    have hlo := hshows.field (39, [.ofNat (comfield file)]) (by simp)
    rw [hbyte (by omega) hhi, hbyte (by omega) hlo,
      hffo.infoBlockLen_eq (by omega) hcomment (comfield_bytes hcomment), hblock,
      List.length_append, hinfoLen, hheaderLen]
    rfl
  · have hkind : slice info 0 4 = amac :=
      hpart rfl (by omega) (hshows.field (40, amac) (by simp))
    have htype : slice info 4 8 = file.typeCreator.toList :=
      hpart Vector.length_toList (by omega) (hshows.field (44, file.typeCreator.toList) (by simp))
    have hcreate : slice info 56 4 = file.createTime.toList :=
      hpart Vector.length_toList (by omega) (hshows.field (96, file.createTime.toList) (by simp))
    have hmodify : slice info 64 4 = file.modifyTime.toList :=
      hpart Vector.length_toList (by omega) (hshows.field (104, file.modifyTime.toList) (by simp))
    have hname : slice info 70 2 = [0, .ofNat 3] :=
      hpart rfl (by omega) (hshows.field (110, [0, 3]) (by simp))
    have hlength : slice info (72 + 3) 2 = [0, .ofNat file.comment.length] := by
      have hhigh : slice info 75 1 = [0] :=
        hpart rfl (by omega) (hshows.field (115, [0]) (by simp))
      have hlow : slice info 76 1 = [.ofNat file.comment.length] :=
        hpart rfl (by omega) (hshows.field (116, [.ofNat file.comment.length]) (by simp))
      have hboth : slice info 75 (1 + 1) = slice info 75 1 ++ slice info (75 + 1) 1 := slice_add 1 1
      rw [hhigh, hlow] at hboth
      exact hboth
    have hwords : slice info (74 + 3) file.comment.length = file.comment :=
      hpart rfl (by omega) (hshows.field (117, file.comment) (by simp))
    rw [hblock, hffo.parse_eq (by omega) hcomment hinfoLen hkind hname hlength hwords hheader,
      htype, hcreate, hmodify]

/-- Sixteen bits of some bytes, most significant first. -/
def wordAt (bytes : List UInt8) (pos : ℕ) : ℕ :=
  (bytes.getD pos 0).toNat * 256 + (bytes.getD (pos + 1) 0).toNat

/-- A codec that finds the comment behind the name, by the lengths of both. -/
def macFfo : Ffo :=
  { flatFfo with
    parseFilpInfo := fun info large =>
      let comment := 74 + wordAt info 70
      let fork := comment + wordAt info (comment - 2)
      if slice info 0 4 = amac ∧ fork + FORK_HEADER_LEN ≤ info.length then
        some {
          typeCreator := slice info 4 8
          createTime := slice info 56 4
          modifyTime := slice info 64 4
          comment := slice info comment (fork - comment)
          dataForkLen := flatForkLen (slice info fork FORK_HEADER_LEN) large }
      else none }

theorem wordAt_of_slice {bytes : List UInt8} {pos n : ℕ} (hn : n ≤ 255)
    (h : slice bytes pos 2 = [0, .ofNat n]) : wordAt bytes pos = n := by
  have hboth : slice bytes pos 1 ++ slice bytes (pos + 1) 1 = [0] ++ [.ofNat n] := by
    rw [← slice_add]
    exact h
  obtain ⟨hhigh, hlow⟩ := List.append_inj' hboth (by
    have hlen := congrArg List.length hboth
    simp [slice] at hlen ⊢
    omega)
  rw [wordAt, getD_of_slice hhigh, getD_of_slice hlow, UInt8.toNat_ofNat']
  simp
  omega

/-- The four bytes of an integer that fits are read back. -/
theorem readBe32_be32 {n : ℕ} (hn : n < 2 ^ 32) (front back : List UInt8) :
    readBe32 (front ++ be32 n ++ back) front.length = n := by
  have hbyte : ∀ k, (front ++ be32 n ++ back).getD (front.length + k) 0 =
      (be32 n ++ back).getD k 0 := by
    intro k
    rw [List.append_assoc, List.getD_eq_getElem?_getD, List.getElem?_append_right (by omega),
      Nat.add_sub_cancel_left, List.getD_eq_getElem?_getD]
  have hfirst := hbyte 0
  rw [Nat.add_zero] at hfirst
  rw [readBe32, hfirst, hbyte 1, hbyte 2, hbyte 3]
  simp [be32, BigEndian.ofU32]
  omega

/-- The codec reads a fork's length as it was packed. -/
theorem flatForkLen_pack {kind header : List UInt8} {len : ℕ} {large : Bool}
    (hkind : kind.length = 4) (h : flatFfo.packForkHeader kind len large = some header) :
    flatForkLen header large = len := by
  simp only [flatFfo, Option.ite_none_right_eq_some, Option.some.injEq] at h
  obtain ⟨hfits, rfl⟩ := h
  let front := kind ++ List.replicate 4 0
  have hhigh : ∀ {n}, n < 2 ^ 32 → readBe32 (front ++ be32 n ++ be32 len) 8 = n := by
    intro n hn
    have hread := readBe32_be32 hn front (be32 len)
    rwa [show front.length = 8 by simp [front, hkind]] at hread
  have hlow : ∀ {n}, len % 2 ^ 32 = n → readBe32 (front ++ be32 (len / 2 ^ 32) ++ be32 len) 12 =
      n := by
    rintro n rfl
    have hmod : be32 len = be32 (len % 2 ^ 32) := by
      rw [be32, be32]
      congr 1
      exact UInt32.toNat_inj.mp (by simp)
    have hread := readBe32_be32 (Nat.mod_lt len (by decide)) (front ++ be32 (len / 2 ^ 32)) []
    rw [List.append_nil, ← hmod] at hread
    rwa [show (front ++ be32 (len / 2 ^ 32)).length = 12 by
      simp [front, hkind, be32, BigEndian.ofU32]] at hread
  cases large with
  | false =>
    have hlt : len < 2 ^ 32 := by simpa using hfits
    exact hlow (Nat.mod_eq_of_lt hlt)
  | true =>
    have hlt : len < 2 ^ 64 := by omega
    rw [flatForkLen, if_pos rfl, hhigh (by omega), hlow rfl]
    omega

theorem documented_macFfo : Documented macFfo id where
  framed := framed_flatFfo
  forkLen_pack := flatForkLen_pack
  infoBlockLen_eq := by
    intro hi lo name comment _ _ hsum
    exact congrArg (fun n => some (n + FORK_HEADER_LEN)) hsum
  parse_eq := by
    intro info header comment name len large hname hcomment hlen hkind hnameLen hcommentLen
      hwords hheader
    have hheaderLen : header.length = FORK_HEADER_LEN := framed_flatFfo rfl hheader
    have hfork : FORK_HEADER_LEN = 16 := rfl
    have hinside : ∀ {start len : ℕ}, start + len ≤ 74 + name + comment.length →
        slice (info ++ header) start len = slice info start len :=
      fun hle => slice_append_left (hle.trans hlen.ge) header
    have hbehind : slice (info ++ header) info.length FORK_HEADER_LEN = header := by
      rw [slice_append_right le_rfl, Nat.sub_self, slice, List.drop_zero, ← hheaderLen,
        List.take_length]
    have hnameAt : wordAt (info ++ header) 70 = name :=
      wordAt_of_slice (by omega) ((hinside (by omega)).trans hnameLen)
    have hcommentAt : wordAt (info ++ header) (72 + name) = comment.length :=
      wordAt_of_slice hcomment ((hinside (by omega)).trans hcommentLen)
    have hend : 74 + name + comment.length = info.length := hlen.symm
    simp only [macFfo, hnameAt, show 74 + name - 2 = 72 + name by omega, hcommentAt, hend]
    rw [if_pos ⟨(hinside (by omega)).trans hkind, by simp [hheaderLen]⟩, hbehind,
      flatForkLen_pack rfl hheader, hinside (by omega), hinside (by omega), hinside (by omega),
      show info.length - (74 + name) = comment.length by omega, hinside (by omega), hwords]
    rfl

end Gtkhx.Upload
