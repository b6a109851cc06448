import Gtkhx.Htxf.Path
import Gtkhx.Library.BigEndian
import Gtkhx.Library.Fallible
import Gtkhx.Library.Reader

/-!
# What a transfer worker works with

The open subchannel, as the results its reads and writes are going to have; the local
file system; and the codec of the file format. The file system, the sidecar library and
the codec are outside the repository, so they are parameters.
-/

namespace Gtkhx.Htxf

open Reader

/-- What a worker returns when it fails: an errno, or one of its own codes below zero. -/
abbrev Errno := ℤ

/-- The error kind `NotFound`. -/
def ENOENT : Errno := 2

/-- An I/O error. -/
def EIO : Errno := 5

/-- An invalid argument. -/
def EINVAL : Errno := 22

/-- A file that is too large. -/
def EFBIG : Errno := 27

/-- The peer closed. -/
def EPIPE : Errno := 32

/-- A name that is too long. -/
def ENAMETOOLONG : Errno := 36

/-- A message out of place. -/
def EPROTO : Errno := 71

/-- `HXNET_XFER_STOPPED`: a preview that stopped at the part of the file it shows. -/
def HXNET_XFER_STOPPED : Errno := -1

/-- `MAXPATHLEN`: the longest joined relative path of a folder entry. -/
def MAXPATHLEN : ℕ := 4095

/-- The length of a fork header. -/
def FORK_HEADER_LEN : ℕ := 16

/-- Addition of two `u64`s. -/
def add64 (a b : ℕ) : ℕ := (a + b) % 2 ^ 64

/-- `u64::saturating_add`. -/
def satAdd64 (a b : ℕ) : ℕ := min (a + b) (2 ^ 64 - 1)

/-- The integer that four bytes at an offset spell. -/
def readBe32 (bytes : List UInt8) (start : ℕ) : ℕ :=
  (bytes.getD start 0).toNat * 16777216 + (bytes.getD (start + 1) 0).toNat * 65536 +
    (bytes.getD (start + 2) 0).toNat * 256 + (bytes.getD (start + 3) 0).toNat

/-- An open subchannel. The reads of its `HtxfChannel`, abort included, are the script
`inner`; a write takes the next outcome off `writes`, and setting the read timeout the
next off `timeouts`, both of which succeed once the list is used up. -/
structure HtxfConn where
  /-- What the reads are going to meet. -/
  inner : Source UInt8
  /-- What has been written. -/
  sent : List UInt8
  /-- The failures of the writes to come. -/
  writes : List (Option Errno)
  /-- Whether the read timeout can be set. -/
  timeouts : List Bool
  /-- A folder download's announced item count; 0 when unknown. -/
  folderItems : ℕ
  /-- The fork bytes it announced; 0 when unknown. -/
  folderSize : ℕ
  /-- The fork bytes read so far. -/
  forks : ℕ

/-- `folder_size_arrived`. -/
def HtxfConn.folderSizeArrived (h : HtxfConn) : Bool :=
  h.folderItems == 0 && h.folderSize != 0 && h.forks ≥ h.folderSize

/-- A file as its FILP described it. -/
structure Filp where
  /-- The data fork's whole length. -/
  len : ℕ
  /-- The modify date. -/
  modified : List UInt8
  deriving DecidableEq, Repr

/-- What `parse_filp_info` reads out of an info block. -/
structure FilpInfo where
  /-- The type and creator. -/
  typeCreator : List UInt8
  /-- The create date. -/
  createTime : List UInt8
  /-- The modify date. -/
  modifyTime : List UInt8
  /-- The comment. -/
  comment : List UInt8
  /-- The length in the `DATA` fork header. -/
  dataForkLen : ℕ
  deriving DecidableEq, Repr

/-- What a sidecar records. -/
structure HfsInfo where
  /-- The type and creator. -/
  typeCreator : List UInt8
  /-- The create date. -/
  createTime : List UInt8
  /-- The modify date. -/
  modifyTime : List UInt8
  /-- The resource fork's length. -/
  rsrclen : ℕ
  /-- The comment. -/
  comment : List UInt8
  deriving DecidableEq, Repr

/-- The codec of the flattened file format and of the resume list. -/
structure Ffo where
  /-- The length of the info block, from the two bytes of the FILP that give it. -/
  infoBlockLen : UInt8 → UInt8 → Option ℕ
  /-- The info block, with or without 64-bit lengths. -/
  parseFilpInfo : List UInt8 → Bool → Option FilpInfo
  /-- The length in a fork header. -/
  forkLen : List UInt8 → Bool → ℕ
  /-- A fork header of a kind and a length. -/
  packForkHeader : List UInt8 → ℕ → Bool → Option (List UInt8)
  /-- A resume list with a data and a resource fork offset. -/
  encodeRflt : ℕ → ℕ → List UInt8
  /-- `rflt::CANONICAL_LEN`. -/
  rfltLen : ℕ

/-- What `std::fs::metadata` says of a path. -/
structure Metadata where
  /-- A regular file. -/
  isFile : Bool
  /-- Its length. -/
  len : ℕ
  /-- When it was last changed. -/
  modified : Option ℕ
  deriving DecidableEq, Repr

/-- The two forks of a file. -/
inductive Fork where
  /-- The file's own bytes. -/
  | data
  /-- The Macintosh resource fork, wherever the sidecar settings keep it. -/
  | resource
  deriving DecidableEq, Repr

/-- The local file system, and the sidecar library on top of it, over a state `ω`. -/
structure Os (ω : Type) where
  /-- Make one folder. -/
  mkdir : PathBuf → Fallible Errno ω Unit
  /-- Whether a path is a folder. -/
  isDir : ω → PathBuf → Bool
  /-- What is at a path, followed through links. -/
  metadata : ω → PathBuf → Option Metadata
  /-- Open a file to write it, created if absent and emptied if asked. -/
  openWrite : PathBuf → (truncate : Bool) → Fallible Errno ω Unit
  /-- Open a resource fork to write it; `false` when there can be none. -/
  resourceOpen : PathBuf → Fallible Errno ω Bool
  /-- Whether an open file can be positioned. -/
  seek : ω → PathBuf → Fork → ℕ → Bool
  /-- Write into an open file at a position. A failure may have written a part. -/
  writeAll : PathBuf → Fork → ℕ → List UInt8 → Fallible Errno ω Unit
  /-- Write a file's sidecar, whatever comes of it. -/
  hfsinfoWrite : PathBuf → HfsInfo → ω → ω

/-- A file a folder download wrote, as it was left. -/
structure Kept where
  /-- Its data fork's length. -/
  len : ℕ
  /-- When it was last changed. -/
  modified : Option ℕ
  /-- Whether it arrived whole. -/
  whole : Bool
  /-- The file as its FILP described it, once it has. -/
  filp : Option Filp
  deriving DecidableEq, Repr

/-- What a folder download has written, by relative path. -/
abbrev FolderLedger := List UInt8 → Option Kept

/-- Everything a receiving worker reads and changes. -/
structure World (ω : Type) where
  /-- The subchannel. -/
  conn : HtxfConn
  /-- The local disk. -/
  disk : ω
  /-- The file being received, as an earlier FILP described it or this one has. -/
  was : Option Filp
  /-- What the download has written. -/
  ledger : FolderLedger
  /-- How many entries have come. -/
  received : ℕ

/-- A program of a worker. -/
abbrev Work (ω : Type) (α : Type) := Fallible Errno (World ω) α

variable {ω : Type}

/-- Do something on the disk. -/
def onDisk {α : Type} (m : Fallible Errno ω α) : Work ω α :=
  Fallible.within World.disk (fun w disk => { w with disk }) m

/-- What a worker did on the disk that returned there. -/
theorem onDisk_run {α : Type} {m : Fallible Errno ω α} {w w' : World ω} {r : Except Errno α}
    (h : (onDisk m).run w = (r, w')) :
    ∃ disk, m.run w.disk = (r, disk) ∧ w' = { w with disk } := by
  obtain ⟨hr, rfl⟩ := Prod.mk.inj h
  exact ⟨_, Prod.ext hr rfl, rfl⟩

/-- `create_dir_all`, for a path of at most `depth` components: make the folder, and where
its parent is missing make that first. -/
def createDirAllIn (os : Os ω) : ℕ → PathBuf → Fallible Errno ω Unit
  | depth, p => fun disk =>
    if p = .empty then (.ok (), disk)
    else match (os.mkdir p).run disk with
      | (.ok (), disk) => (.ok (), disk)
      | (.error e, disk) =>
        if e = ENOENT then
          match depth, p.parent with
          | depth + 1, some parent =>
            match createDirAllIn os depth parent disk with
            | (.error e, disk) => (.error e, disk)
            | (.ok (), disk) =>
              match (os.mkdir p).run disk with
              | (.ok (), disk) => (.ok (), disk)
              | (.error e, disk) => if os.isDir disk p then (.ok (), disk) else (.error e, disk)
          | _, _ => (.error EIO, disk)
        else if os.isDir disk p then (.ok (), disk) else (.error e, disk)

/-- `std::fs::create_dir_all`. -/
def createDirAll (os : Os ω) (p : PathBuf) : Work ω Unit :=
  onDisk (createDirAllIn os (p.comps.length + 1) p)

/-- One write to the subchannel. -/
def xferWrite (buf : List UInt8) : Work ω Unit := fun w =>
  match w.conn.writes with
  | some e :: writes => (.error e, { w with conn := { w.conn with writes } })
  | none :: writes =>
    (.ok (), { w with conn := { w.conn with writes, sent := w.conn.sent ++ buf } })
  | [] => (.ok (), { w with conn := { w.conn with sent := w.conn.sent ++ buf } })

/-- Arm a shorter read timeout, or restore the stall bound; `false` when that fails. -/
def setReadTimeout : Work ω Bool := fun w =>
  match w.conn.timeouts with
  | ok :: timeouts => (.ok ok, { w with conn := { w.conn with timeouts } })
  | [] => (.ok true, w)

/-- Read off the subchannel until a buffer is full, an error or the end. -/
def fillBuffer (want : ℕ) : Work ω (Fill UInt8) := fun w =>
  (.ok (fill want [] w.conn.inner).1,
    { w with conn := { w.conn with inner := (fill want [] w.conn.inner).2 } })

/-- `xfer_read`: one read, an error or the end being a failure. -/
def xferRead (room : ℕ) : Work ω (List UInt8) := fun w =>
  let w' := { w with conn := { w.conn with inner := (readRetrying room w.conn.inner).2 } }
  match (readRetrying room w.conn.inner).1 with
  | .ok (b :: piece) => (.ok (b :: piece), w')
  | _ => (.error EIO, w')

/-- `htxf_read_full` where anything but a full buffer is an I/O error, and
`read_exact_progress`. -/
def readFull (want : ℕ) : Work ω (List UInt8) := do
  match ← fillBuffer want with
  | .full buffer => pure buffer
  | _ => Fallible.fail EIO

/-- `forks_read`. -/
def forksRead (n : ℕ) : Work ω Unit :=
  Fallible.change fun w => { w with conn := { w.conn with forks := satAdd64 w.conn.forks n } }

/-- Arm or disarm the short timeout of a marker that may not come. -/
def drainTimeout (wait : Bool) : Work ω Unit :=
  if wait then pure ()
  else do
    if ← setReadTimeout then pure () else Fallible.fail EIO

/-- `read_macr_marker`: the fork header that may follow a data fork. `wait` is for one that
was declared; another is given a short timeout, and nothing at all is `none`. -/
def readMacrMarker (wait : Bool) : Work ω (Option (List UInt8)) := do
  drainTimeout wait
  let got ← fillBuffer FORK_HEADER_LEN
  drainTimeout wait
  match got with
  | .full marker => pure (some marker)
  | .ended got | .failed got _ =>
    if got = [] ∧ wait = false then pure none else Fallible.fail EIO

/-- `rd_wr_recv`: copy `dataLen` bytes off the subchannel to where `put` puts them, from
`pos`, at most 0xf000 at a time. Every read brings at least one byte, so `fuel` need be no
more than `dataLen`. -/
def rdWrRecv (put : ℕ → List UInt8 → Work ω Unit) : (fuel pos dataLen : ℕ) → Work ω Unit
  | 0, _, _ => pure ()
  | fuel + 1, pos, dataLen => do
    if dataLen = 0 then pure ()
    else do
      let got ← xferRead (min 0xf000 dataLen)
      put pos got
      rdWrRecv put fuel (pos + got.length) (dataLen - got.length)

/-- A worker whose reads are going to meet another script. -/
def World.reading (w : World ω) (inner : Source UInt8) : World ω :=
  { w with conn := { w.conn with inner } }

/-- A buffer that was read is the front of what was to come, and no more was touched. -/
theorem readFull_returns {want : ℕ} {buffer : List UInt8} {w w' : World ω}
    (h : (readFull want).run w = (.ok buffer, w')) :
    ∃ inner, w' = w.reading inner ∧ carried w.conn.inner = buffer ++ carried inner ∧
      buffer.length = want := by
  obtain ⟨got, w₁, hfill, h⟩ := Fallible.bind_returns h
  obtain ⟨hgot, hw₁⟩ := Prod.mk.inj hfill
  obtain rfl := Except.ok.inj hgot
  rcases hrun : fill want [] w.conn.inner with ⟨_ | _ | _, inner⟩ <;> rw [hrun] at h hw₁
  · obtain ⟨hbuffer, rfl⟩ := Prod.mk.inj h
    obtain rfl := Except.ok.inj hbuffer
    obtain ⟨hbytes, hlength⟩ := fill_full hrun
    exact ⟨inner, hw₁.symm, hbytes, hlength (Nat.zero_le _)⟩
  · cases h
  · cases h

/-- A read that returned brought the front of what was to come, and at least a byte. -/
theorem xferRead_returns {room : ℕ} {piece : List UInt8} {w w' : World ω}
    (h : (xferRead room).run w = (.ok piece, w')) :
    ∃ inner, w' = w.reading inner ∧ carried w.conn.inner = piece ++ carried inner ∧
      piece ≠ [] ∧ piece.length ≤ room := by
  unfold Fallible.run xferRead at h
  dsimp only at h
  rcases hrun : readRetrying room w.conn.inner with ⟨e | _ | ⟨b, rest⟩, inner⟩ <;>
    rw [hrun] at h
  · cases h
  · cases h
  · obtain ⟨hpiece, rfl⟩ := Prod.mk.inj h
    obtain rfl := Except.ok.inj hpiece
    obtain ⟨hbytes, hlength⟩ := readRetrying_ok hrun
    exact ⟨inner, rfl, hbytes, by simp, hlength⟩

/-- A read that failed touched nothing but the subchannel. -/
theorem xferRead_fails {room : ℕ} {e : Errno} {w w' : World ω}
    (h : (xferRead room).run w = (.error e, w')) : e = EIO ∧ ∃ inner, w' = w.reading inner := by
  unfold Fallible.run xferRead at h
  dsimp only at h
  split at h
  · cases h
  · obtain ⟨he, rfl⟩ := Prod.mk.inj h
    exact ⟨(Except.error.inj he).symm, _, rfl⟩

/-- Copying: `Copied got` says that the bytes `got` have been put where they go, and
`Broken got` that putting them failed somewhere before their end. Either copying brings
exactly `dataLen` bytes, the front of what was to come, or it breaks off within them. -/
theorem rdWrRecv_run (put : ℕ → List UInt8 → Work ω Unit) (start : ℕ)
    (Copied Broken : List UInt8 → World ω → Prop)
    (hread : ∀ {got w} inner, Copied got w → Copied got (w.reading inner))
    (hstop : ∀ {got w}, Copied got w → Broken got w)
    (hput : ∀ {got bytes w}, Copied got w →
      Fallible.Ends ((put (start + got.length) bytes).run w)
        (fun _ w' => Copied (got ++ bytes) w' ∧ w'.conn = w.conn)
        (fun _ w' => Broken (got ++ bytes) w'))
    {fuel dataLen : ℕ} (hfuel : dataLen ≤ fuel) (got : List UInt8) {w : World ω}
    (hw : Copied got w) :
    Fallible.Ends ((rdWrRecv put fuel (start + got.length) dataLen).run w)
      (fun _ w' => ∃ bytes, bytes.length = dataLen ∧
        carried w.conn.inner = bytes ++ carried w'.conn.inner ∧ Copied (got ++ bytes) w')
      (fun _ w' => ∃ bytes, bytes.length ≤ dataLen ∧ bytes <+: carried w.conn.inner ∧
        Broken (got ++ bytes) w') := by
  induction fuel generalizing dataLen got w with
  | zero =>
    obtain rfl := Nat.le_zero.mp hfuel
    exact ⟨[], rfl, rfl, by simpa using hw⟩
  | succ fuel ih =>
    by_cases hdone : dataLen = 0
    · subst hdone
      exact ⟨[], rfl, rfl, by simpa using hw⟩
    rw [rdWrRecv, if_neg hdone]
    rcases hrun : (xferRead (min 0xf000 dataLen)).run w with ⟨e | piece, w₁⟩
    · obtain ⟨-, inner, rfl⟩ := xferRead_fails hrun
      rw [Fallible.run_bind_error hrun]
      exact ⟨[], Nat.zero_le _, List.nil_prefix, by simpa using hstop (hread inner hw)⟩
    · obtain ⟨inner, rfl, hbytes, hne, hroom⟩ := xferRead_returns hrun
      have hlength : 0 < piece.length := List.length_pos_iff.mpr hne
      rw [Fallible.run_bind_ok hrun]
      have hpiece : Fallible.Ends ((put (start + got.length) piece).run (w.reading inner)) _ _ :=
        hput (hread inner hw)
      rcases hrun' : (put (start + got.length) piece).run (w.reading inner) with ⟨e | u, w₂⟩ <;>
        rw [hrun'] at hpiece
      · rw [Fallible.run_bind_error hrun']
        exact ⟨piece, hroom.trans (Nat.min_le_right _ _), hbytes ▸ List.prefix_append _ _, hpiece⟩
      · obtain ⟨hcopied, hconn⟩ := hpiece
        rw [Fallible.run_bind_ok hrun']
        have hinner : carried w₂.conn.inner = carried inner := by rw [hconn]; rfl
        have hnext := ih (show dataLen - piece.length ≤ fuel by omega) _ hcopied
        rw [List.length_append, ← Nat.add_assoc] at hnext
        refine hnext.mono ?_ ?_
        · rintro - w₃ - ⟨more, hmore, hrest, hend⟩
          refine ⟨piece ++ more, by rw [List.length_append]; omega, ?_, by simpa using hend⟩
          rw [hbytes, ← hinner, hrest, List.append_assoc]
        · rintro e w₃ - ⟨more, hmore, hpre, hend⟩
          refine ⟨piece ++ more, by rw [List.length_append]; omega, ?_, by simpa using hend⟩
          rw [hbytes, List.prefix_append_right_inj, ← hinner]
          exact hpre

/-- Bytes that are read past. -/
def sink : ℕ → List UInt8 → Work ω Unit := fun _ _ => pure ()

/-- Bytes that go into an open file. -/
def toFile (os : Os ω) (path : PathBuf) (fork : Fork) : ℕ → List UInt8 → Work ω Unit :=
  fun pos bytes => onDisk (os.writeAll path fork pos bytes)

end Gtkhx.Htxf
