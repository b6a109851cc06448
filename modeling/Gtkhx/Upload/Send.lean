import Gtkhx.Htxf.Flattened

/-!
# Sending a file

The subchannel as an upload writes it, the local file it reads, and
`hxnet_xfer_file_send_one`: the flattened file, or in large-file mode the data fork alone.
-/

namespace Gtkhx.Upload

open Htxf Reader

/-- A write that timed out. -/
def ETIMEDOUT : Errno := 110

/-- The length of a FILP header and the data fork's header after it. -/
def FILP_HEADER_LEN : ℕ := 133

/-- `u64::wrapping_sub`. -/
def wrappingSub64 (a b : ℕ) : ℕ := (a + (2 ^ 64 - b % 2 ^ 64)) % 2 ^ 64

theorem wrappingSub64_eq {a b : ℕ} (hle : b ≤ a) (ha : a < 2 ^ 64) : wrappingSub64 a b = a - b := by
  have hb : b % 2 ^ 64 = b := Nat.mod_eq_of_lt (by omega)
  rw [wrappingSub64, hb]
  have hsum : a + (2 ^ 64 - b) = a - b + 2 ^ 64 := by omega
  rw [hsum, Nat.add_mod_right, Nat.mod_eq_of_lt (by omega)]

theorem add64_eq {a b : ℕ} (h : a + b < 2 ^ 64) : add64 a b = a + b := Nat.mod_eq_of_lt h

/-- A local file, as the file system and the sidecar library give it: its forks, what
`hfsinfo_read` says of it, and the lengths `resource_len` and `comment_len` say. -/
structure LocalFile where
  /-- The data fork. -/
  data : List UInt8
  /-- What `resource_open` reads, if there is any. -/
  resource : Option (List UInt8)
  /-- `resource_len`. -/
  resourceLen : ℕ
  /-- The comment. -/
  comment : List UInt8
  /-- `comment_len`. -/
  commentLen : ℕ
  /-- The type and creator. -/
  typeCreator : Vector UInt8 8
  /-- The create date, as a FILP has it. -/
  createTime : Vector UInt8 4
  /-- The modify date, as a FILP has it. -/
  modifyTime : Vector UInt8 4

/-- The lengths said of a file are those of what it is, and a file is far shorter than a
`u64` counts. -/
structure LocalFile.Honest (file : LocalFile) : Prop where
  resource_eq : file.resourceLen = (file.resource.getD []).length
  comment_eq : file.commentLen = file.comment.length
  fits : file.data.length + file.resourceLen + file.commentLen + 149 < 2 ^ 64

/-- What comes of a write. -/
inductive Took
  /-- The stream takes all of it. -/
  | whole
  /-- It takes at most `n` bytes, and fails or times out. -/
  | short (n : ℕ) (timedOut : Bool)
  deriving DecidableEq, Repr

/-- What an upload meets: the stream, by how much has gone out, and the local file. -/
structure Env where
  /-- What comes of a write of `len` bytes once `pos` have gone out. -/
  taking : (pos len : ℕ) → Took
  /-- What opening a fork fails with, if it does. -/
  opening : Fork → Option Errno
  /-- What reading a fork at a position brings: at most one byte more than this, or a
  failure. -/
  reading : Fork → ℕ → Except Errno ℕ

/-- An upload's side of the subchannel. -/
structure Line extends Env where
  /-- What the reads are going to meet. -/
  inner : Source UInt8 := []
  /-- What has been written. -/
  sent : List UInt8 := []
  /-- What has been reported. -/
  progress : ℕ := 0
  /-- Of what has been written, the data fork's bytes. -/
  dataSent : List UInt8 := []

/-- A program that sends. -/
abbrev Sending (α : Type) := Fallible Errno Line α

/-- `xfer_write`. -/
def xferWrite (buf : List UInt8) : Sending Unit := fun l =>
  match l.taking l.sent.length buf.length with
  | .whole => (.ok (), { l with sent := l.sent ++ buf })
  | .short n timedOut =>
    (.error (if timedOut then ETIMEDOUT else EPIPE),
      { l with sent := l.sent ++ buf.take (min n (buf.length - 1)) })

/-- `HxnetXferParams::report`. -/
def report (n : ℕ) : Sending Unit :=
  Fallible.change fun l => { l with progress := l.progress + n }

/-- Note that a piece of a fork was written. -/
def noteFork (fork : Fork) (piece : List UInt8) : Sending Unit :=
  Fallible.change fun l =>
    match fork with
    | .data => { l with dataSent := l.dataSent ++ piece }
    | .resource => l

/-- Open a fork to read it. -/
def openFork (fork : Fork) : Sending Unit := fun l =>
  match l.opening fork with
  | none => (.ok (), l)
  | some e => (.error e, l)

/-- One read of a fork at a position, the fork's end being a failure. -/
def readFork (fork : Fork) (bytes : List UInt8) (pos want : ℕ) : Sending (List UInt8) := fun l =>
  match l.reading fork pos with
  | .error e => (.error e, l)
  | .ok n =>
    match (bytes.drop pos).take (min (n + 1) want) with
    | [] => (.error EIO, l)
    | b :: piece => (.ok (b :: piece), l)

/-- `rd_wr_send`: copy `dataLen` bytes of a fork from `pos` to the subchannel. Every read
brings at least one byte, so `fuel` need be no more than `dataLen`. -/
def rdWrSend (fork : Fork) (bytes : List UInt8) : (fuel pos dataLen : ℕ) → Sending Unit
  | 0, _, _ => pure ()
  | fuel + 1, pos, dataLen => do
    if dataLen = 0 then pure ()
    else do
      let piece ← readFork fork bytes pos (min 0xf000 dataLen)
      xferWrite piece
      noteFork fork piece
      report piece.length
      rdWrSend fork bytes fuel (pos + piece.length) (dataLen - piece.length)

/-- What sending reads of `HxnetXferParams`. -/
structure SendParams where
  /-- The data fork's length. -/
  dataSize : ℕ
  /-- The resource fork's. -/
  rsrcSize : ℕ
  /-- How much of the data fork the server has. -/
  dataPos : ℕ
  /-- How much of the resource fork it has. -/
  rsrcPos : ℕ
  /-- The file is one of a folder's. -/
  optFolder : Bool
  /-- Large-file mode. -/
  optLarge : Bool
  deriving DecidableEq, Repr

/-- What is left to send of the data fork. -/
def SendParams.dataLeft (p : SendParams) : ℕ := wrappingSub64 p.dataSize p.dataPos

/-- What is left to send of the resource fork. -/
def SendParams.rsrcLeft (p : SendParams) : ℕ := wrappingSub64 p.rsrcSize p.rsrcPos

/-- `FILP_TEMPLATE`. -/
def FILP_TEMPLATE : List UInt8 :=
  [0x46, 0x49, 0x4c, 0x50, 0x00, 0x01, 0x00, 0x00, 0x00, 0x00, 0x00, 0x00,
    0x00, 0x00, 0x00, 0x00, 0x00, 0x00, 0x00, 0x00, 0x00, 0x00, 0x00, 0x02,
    0x49, 0x4e, 0x46, 0x4f, 0x00, 0x00, 0x00, 0x00, 0x00, 0x00, 0x00, 0x00,
    0x00, 0x00, 0x00, 0x5e, 0x41, 0x4d, 0x41, 0x43, 0x54, 0x59, 0x50, 0x45,
    0x43, 0x52, 0x45, 0x41, 0x00, 0x00, 0x00, 0x00, 0x00, 0x00, 0x01, 0x00,
    0x00, 0x00, 0x00, 0x00, 0x00, 0x00, 0x00, 0x00, 0x00, 0x00, 0x00, 0x00,
    0x00, 0x00, 0x00, 0x00, 0x00, 0x00, 0x00, 0x00, 0x00, 0x00, 0x00, 0x00,
    0x00, 0x00, 0x00, 0x00, 0x00, 0x00, 0x00, 0x00, 0x07, 0x70, 0x00, 0x00,
    0x00, 0x00, 0x00, 0x00, 0x07, 0x70, 0x00, 0x00, 0x00, 0x00, 0x00, 0x00,
    0x00, 0x00, 0x00, 0x03, 0x68, 0x78, 0x64]

/-- Bytes of a header are replaced. -/
def patch (hdr : List UInt8) (pos : ℕ) (bytes : List UInt8) : List UInt8 :=
  hdr.take pos ++ bytes ++ hdr.drop (pos + bytes.length)

/-- The length in a FILP's header of the comment and what is before it. -/
def comfield (file : LocalFile) : ℕ := 65 + file.comment.length + 12

/-- The FILP header before the data fork's: the template with what is this file's own. -/
def filpInfo (file : LocalFile) (p : SendParams) : List UInt8 :=
  let hdr := patch (List.replicate (FILP_HEADER_LEN + file.comment.length) 0) 0 FILP_TEMPLATE
  let hdr := if p.rsrcLeft ≠ 0 then patch hdr 23 [3] else hdr
  let hdr := if 0xff < comfield file then patch hdr 38 [1] else hdr
  let hdr := patch hdr 39 [.ofNat (comfield file)]
  let hdr := patch hdr 44 file.typeCreator.toList
  let hdr := patch hdr 96 file.createTime.toList
  let hdr := patch hdr 104 file.modifyTime.toList
  let hdr := patch hdr 115 [0]
  let hdr := patch hdr 116 [.ofNat file.comment.length]
  patch hdr 117 file.comment

/-- The FILP header and the data fork's, if its length fits. -/
def filpHeader (ffo : Ffo) (file : LocalFile) (p : SendParams) : Option (List UInt8) :=
  (ffo.packForkHeader dataKind p.dataLeft p.optLarge).map
    (patch (filpInfo file p) (117 + file.comment.length))

/-- The data fork past what the server has. -/
def sendData (file : LocalFile) (p : SendParams) : Sending Unit := do
  if p.dataLeft ≠ 0 then
    openFork .data
    rdWrSend .data file.data p.dataLeft p.dataPos p.dataLeft

/-- The resource fork past what the server has, after its header. A server that takes no
header has declined the fork, unless it only stopped reading. -/
def sendResource (ffo : Ffo) (file : LocalFile) (p : SendParams) : Sending Unit := do
  let macr ← Fallible.ofOption EFBIG (ffo.packForkHeader macrKind p.rsrcLeft p.optLarge)
  match ← Fallible.attempt (xferWrite macr) with
  | .error e => if e = ETIMEDOUT then Fallible.fail ETIMEDOUT else pure ()
  | .ok () => do
    report FORK_HEADER_LEN
    openFork .resource
    let bytes ← Fallible.ofOption EIO file.resource
    rdWrSend .resource bytes p.rsrcLeft p.rsrcPos p.rsrcLeft

/-- `hxnet_xfer_file_send_one`. A large file on its own is sent as its data fork, any other
flattened. -/
def fileSendOne (ffo : Ffo) (file : LocalFile) (p : SendParams) : Sending Unit := do
  if p.optLarge ∧ p.optFolder = false then
    openFork .data
    rdWrSend .data file.data p.dataSize 0 p.dataSize
  else
    let hdr ← Fallible.ofOption EFBIG (filpHeader ffo file p)
    xferWrite hdr
    report (FILP_HEADER_LEN + file.comment.length)
    sendData file p
    if p.rsrcLeft ≠ 0 then sendResource ffo file p

/-- Replacing bytes within a header keeps its length. -/
theorem length_patch {hdr bytes : List UInt8} {pos n : ℕ} (hhdr : hdr.length = n)
    (hfits : pos + bytes.length ≤ n) : (patch hdr pos bytes).length = n := by
  simp only [patch, List.length_append, List.length_take, List.length_drop]
  omega

theorem length_patch_ite {hdr bytes : List UInt8} {pos n : ℕ} (c : Prop) [Decidable c]
    (hhdr : hdr.length = n) (hfits : pos + bytes.length ≤ n) :
    (if c then patch hdr pos bytes else hdr).length = n := by
  split
  · exact length_patch hhdr hfits
  · exact hhdr

theorem length_filpInfo (file : LocalFile) (p : SendParams) :
    (filpInfo file p).length = FILP_HEADER_LEN + file.comment.length := by
  have htemplate : FILP_TEMPLATE.length = 115 := rfl
  have hlen : FILP_HEADER_LEN = 133 := rfl
  unfold filpInfo
  repeat' first
    | apply length_patch
    | apply length_patch_ite
  · exact List.length_replicate
  all_goals
    simp only [hlen, htemplate, List.length_singleton, Vector.length_toList]
    omega

/-- The fork headers, of a kind of four bytes, take sixteen. -/
def Framed (ffo : Ffo) : Prop :=
  ∀ {kind len large header}, kind.length = 4 → ffo.packForkHeader kind len large = some header →
    header.length = FORK_HEADER_LEN

/-- The FILP header takes its own length and the comment's. -/
theorem length_filpHeader {ffo : Ffo} {file : LocalFile} {p : SendParams} {hdr : List UInt8}
    (hffo : Framed ffo) (h : filpHeader ffo file p = some hdr) :
    hdr.length = FILP_HEADER_LEN + file.comment.length := by
  obtain ⟨header, hheader, rfl⟩ := Option.map_eq_some_iff.mp h
  have hlen := hffo rfl hheader
  have hfork : FORK_HEADER_LEN = 16 := rfl
  have hfilp : FILP_HEADER_LEN = 133 := rfl
  apply length_patch (length_filpInfo file p)
  omega

/-- What a piece of work on the line that returned has done. -/
structure Wrote (l l' : Line) (bytes dataBytes : List UInt8) : Prop where
  env : l'.toEnv = l.toEnv
  sent : l'.sent = l.sent ++ bytes
  progress : l'.progress = l.progress + bytes.length
  dataSent : l'.dataSent = l.dataSent ++ dataBytes

theorem Wrote.refl (l : Line) : Wrote l l [] [] := ⟨rfl, by simp, by simp, by simp⟩

theorem Wrote.trans {l₁ l₂ l₃ : Line} {b₁ b₂ d₁ d₂ : List UInt8} (h : Wrote l₁ l₂ b₁ d₁)
    (h' : Wrote l₂ l₃ b₂ d₂) : Wrote l₁ l₃ (b₁ ++ b₂) (d₁ ++ d₂) where
  env := h'.env.trans h.env
  sent := by rw [h'.sent, h.sent, List.append_assoc]
  progress := by rw [h'.progress, h.progress, List.length_append, Nat.add_assoc]
  dataSent := by rw [h'.dataSent, h.dataSent, List.append_assoc]

/-- The data fork's bytes among a fork's. -/
def dataBytes : Fork → List UInt8 → List UInt8
  | .data, bytes => bytes
  | .resource, _ => []

/-- A write that returned put out all of it. -/
theorem xferWrite_returns {buf : List UInt8} {l l' : Line}
    (h : (xferWrite buf).run l = (.ok (), l')) :
    l.taking l.sent.length buf.length = .whole ∧ l' = { l with sent := l.sent ++ buf } := by
  unfold Fallible.run xferWrite at h
  split at h
  · rename_i hwhole
    exact ⟨hwhole, (Prod.mk.inj h).2.symm⟩
  · cases (Prod.mk.inj h).1

/-- A read of a fork that returned brought what is there. -/
theorem readFork_returns {fork : Fork} {bytes piece : List UInt8} {pos want : ℕ} {l l' : Line}
    (h : (readFork fork bytes pos want).run l = (.ok piece, l')) :
    l' = l ∧ 0 < piece.length ∧ piece.length ≤ want ∧
      piece = (bytes.drop pos).take piece.length := by
  unfold Fallible.run readFork at h
  split at h
  · cases (Prod.mk.inj h).1
  · rename_i n _
    split at h
    · cases (Prod.mk.inj h).1
    · rename_i b rest hpiece
      obtain ⟨hok, rfl⟩ := Prod.mk.inj h
      obtain rfl := Except.ok.inj hok
      have hlen := congrArg List.length hpiece
      rw [List.length_take] at hlen
      refine ⟨rfl, Nat.succ_pos _, ?_, ?_⟩
      · omega
      · rw [← hpiece]
        exact List.prefix_iff_eq_take.mp (List.take_prefix _ _)

/-- Copying that returned put out the fork's bytes from where it began. -/
theorem rdWrSend_returns {fork : Fork} {bytes : List UInt8} {fuel pos dataLen : ℕ} {l l' : Line}
    (hfuel : dataLen ≤ fuel) (h : (rdWrSend fork bytes fuel pos dataLen).run l = (.ok (), l')) :
    ((bytes.drop pos).take dataLen).length = dataLen ∧
      Wrote l l' ((bytes.drop pos).take dataLen)
        (dataBytes fork ((bytes.drop pos).take dataLen)) := by
  induction fuel generalizing pos dataLen l with
  | zero =>
    obtain rfl := Nat.le_zero.mp hfuel
    obtain rfl : l = l' := (Prod.mk.inj h).2
    refine ⟨rfl, ?_⟩
    cases fork <;> exact Wrote.refl l
  | succ fuel ih =>
    by_cases hdone : dataLen = 0
    · subst hdone
      obtain rfl : l = l' := (Prod.mk.inj h).2
      refine ⟨rfl, ?_⟩
      cases fork <;> exact Wrote.refl l
    rw [rdWrSend, if_neg hdone] at h
    obtain ⟨piece, l₁, hread, h₁⟩ := Fallible.bind_returns h
    obtain ⟨_, l₂, hwrite, h₂⟩ := Fallible.bind_returns h₁
    obtain ⟨_, l₃, hnote, h₃⟩ := Fallible.bind_returns h₂
    obtain ⟨_, l₄, hreport, h₄⟩ := Fallible.bind_returns h₃
    obtain ⟨rfl, hpos, hwant, hpiece⟩ := readFork_returns hread
    have hfirst : Wrote l₁ l₄ piece (dataBytes fork piece) := by
      obtain ⟨-, rfl⟩ := xferWrite_returns hwrite
      obtain rfl := (Prod.mk.inj hnote).2
      obtain rfl := (Prod.mk.inj hreport).2
      cases fork with
      | data => exact ⟨rfl, rfl, rfl, rfl⟩
      | resource => exact ⟨rfl, rfl, rfl, (List.append_nil _).symm⟩
    have hroom := hwant.trans (Nat.min_le_right _ _)
    obtain ⟨hlen, hrest⟩ := ih (by omega) h₄
    have hsplit : (bytes.drop pos).take dataLen =
        piece ++ (bytes.drop (pos + piece.length)).take (dataLen - piece.length) := by
      have hadd : dataLen = piece.length + (dataLen - piece.length) := by omega
      rw [hadd, List.take_add, ← hpiece, List.drop_drop, Nat.add_sub_cancel_left]
    have hdata : dataBytes fork ((bytes.drop pos).take dataLen) = dataBytes fork piece ++
        dataBytes fork ((bytes.drop (pos + piece.length)).take (dataLen - piece.length)) := by
      cases fork with
      | data => exact hsplit
      | resource => rfl
    refine ⟨?_, ?_⟩
    · rw [hsplit, List.length_append, hlen]
      omega
    · rw [hdata, hsplit]
      exact hfirst.trans hrest

end Gtkhx.Upload
