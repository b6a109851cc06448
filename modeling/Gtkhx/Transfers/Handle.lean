import Gtkhx.Library.Text
import Gtkhx.Requests.Path

/-!
# One file's transfer

The handle of a transfer, the local files, and what `xfer_go` does with the two when it is asked to
start or resume the transfer of a single file: a download looks at what is on the disk already, an
upload whose file changed since it was paused is not asked for.
-/

namespace Gtkhx.Transfers

/-- A local path, as its bytes. -/
abbrev Path := List UInt8

/-- The size of a path's buffer, its end included. -/
def MAXPATHLEN : ℕ := 4095

/-- The greatest 32-bit number. -/
def U32_MAX : ℕ := 4294967295

/-- The sum of two 64-bit numbers. -/
def add64 (a b : ℕ) : ℕ := (a + b) % 2 ^ 64

/-- The data fork of a file: its size, and when it was last changed. -/
structure Stat where
  len : ℕ
  modified : Option ℕ
  deriving DecidableEq

/-- The local files: their data forks, and how long their resource forks are. -/
structure Files where
  stat : Path → Option Stat
  resourceLen : Path → ℕ

/-- A local file as a pause left it: its data fork's size, -1 for none, and when it was last
changed. -/
structure Disk where
  len : ℤ
  modified : Option ℕ
  deriving DecidableEq

namespace Files

variable (files : Files)

/-- `hx_file_size`. -/
def size (path : Path) : ℤ :=
  match files.stat path with
  | some s => s.len
  | none => -1

def disk (path : Path) : Disk where
  len := files.size path
  modified := (files.stat path).bind Stat.modified

/-- `local_path_exists_adapter`: either fork takes the name. -/
def taken (path : Path) : Bool := 0 ≤ files.size path ∨ 0 < files.resourceLen path

end Files

/-- The extension of a path, with its dot: nothing for a name that has none or only begins with
a dot. -/
def extension (path : Path) : Path :=
  let base := path.drop (Requests.basenameOffset path)
  match base.reverse.findIdx? (· == 46) with
  | some back => if back + 1 = base.length then [] else base.drop (base.length - (back + 1))
  | none => []

/-- As much of a part of a path as is put into a numbered one. -/
def clipped (part : Path) : Path := part.take (MAXPATHLEN / 2 - 16)

/-- A path with a number before its extension, as far as it fits. -/
def numbered (path : Path) (n : ℕ) : Path :=
  (clipped (path.take (path.length - (extension path).length)) ++
    ([32, 40] ++ (Text.decimal n).map (fun c : Char => UInt8.ofNat c.toNat) ++ [41]) ++
    clipped (extension path)).take (MAXPATHLEN - 1)

/-- The numbers a free name is looked for with. -/
def NUMBERS : ℕ := 9999

/-- The loop of `uniquify_path`, with so many tries left. -/
def uniquifyFrom (taken : Path → Bool) (path : Path) : (tries n : ℕ) → (last : Path) → Path
  | 0, _, last => last
  | tries + 1, n, _ =>
    if taken (numbered path n) then uniquifyFrom taken path tries (n + 1) (numbered path n)
    else numbered path n

/-- `uniquify_path`: a name that is not taken, or the last one tried. -/
def uniquify (taken : Path → Bool) (path : Path) : Path :=
  if taken path then uniquifyFrom taken path NUMBERS 1 path else path

/-- Where a paused transfer stands. -/
inductive Pause
  | winding
  | paused (kept : Disk)
  | asked (kept : Disk)
  | restarted (kept : Disk)
  | changed (kept : Disk)
  | failed (kept : Disk) (why : ℤ)
  deriving DecidableEq

/-- A transfer. -/
structure Handle where
  /-- The connection it runs on. -/
  htlc : ℕ
  upload : Bool
  folder : Bool
  preview : Bool
  path : Path
  remotedir : List UInt8
  remotename : List UInt8
  /-- A download's size as the listing gave it, 0 for not known. -/
  srvDataSize : ℕ
  /-- Its request was sent. -/
  gone : Bool
  ref : UInt32
  queue : UInt32
  dataPos : ℕ
  rsrcPos : ℕ
  dataSize : ℕ
  rsrcSize : ℕ
  totalSize : ℕ
  totalPos : ℕ
  canceled : Bool

/-- The request for a file. -/
inductive FileRequest
  | get (name : List UInt8) (dir rflt : Option (List UInt8))
  | put (name : List UInt8) (dir : Option (List UInt8)) (hasPreview : Bool) (size : ℕ)
    (size64 : Option ℕ)
  deriving DecidableEq

/-- The record a resumed download carries: where its forks start. -/
def resumeRflt (dataPos rsrcPos : UInt32) : List UInt8 :=
  [82, 70, 76, 84, 0, 1] ++ List.replicate 34 0 ++ [0, 2] ++
    ([68, 65, 84, 65] ++ BigEndian.ofU32 dataPos ++ List.replicate 8 0) ++
    ([77, 65, 67, 82] ++ BigEndian.ofU32 rsrcPos ++ List.replicate 8 0)

namespace Handle

/-- The DIR chunk of a transfer, if it has a folder to name. -/
def dir (h : Handle) : Option (List UInt8) :=
  if Requests.belowRoot h.remotedir then some (Requests.encodeDir h.remotedir false) else none

/-- `xfer_resumed_bytes`, of a file. -/
def resumedBytes (h : Handle) : ℕ := add64 h.dataPos h.rsrcPos

/-- The download half of `xfer_go` up to its request: whether to resume what is on the disk, or to
take another name. -/
def resumeOrRename (h : Handle) (files : Files) (kept : Option Disk) : Handle × Bool :=
  if h.preview then (h, false)
  else if files.size h.path < 0 then (h, false)
  else
    let localData := (files.size h.path).toNat % 2 ^ 32
    let ours := decide (kept = some (files.disk h.path) ∧ files.size h.path ≤ U32_MAX)
    if ours ∧ files.size h.path = 0 then (h, false)
    else if ours ∨ 0 < h.srvDataSize ∧ localData < h.srvDataSize then
      ({ h with dataPos := localData, rsrcPos := files.resourceLen h.path }, true)
    else ({ h with path := uniquify files.taken h.path }, false)

/-- `xfer_go_get`. -/
def goGet (h : Handle) (files : Files) (kept : Option Disk) : Handle × FileRequest :=
  let (h, resuming) := h.resumeOrRename files kept
  (h, .get h.remotename h.dir
    (if resuming then some (resumeRflt (.ofNat h.dataPos) (.ofNat h.rsrcPos)) else none))

/-- `xfer_go_put`, on a connection that takes large files or not. -/
def goPut (h : Handle) (large : Bool) (resume : Option ℕ) : FileRequest :=
  let size := resume.getD h.totalSize
  .put h.remotename h.dir resume.isSome (min size U32_MAX) (if large then some size else none)

/-- What is left of a resumed transfer's handle of what it moved before. -/
def afresh (h : Handle) : Handle :=
  { h with gone := false, dataPos := 0, rsrcPos := 0, totalPos := 0 }

/-- The request of `xfer_go` for a file, once it is to be sent: `kept` and `full` are those of a
resumed transfer. -/
def request (h : Handle) (files : Files) (large : Bool) (kept : Option Disk) (full : Option ℕ) :
    Handle × FileRequest :=
  if h.upload then
    (match full with
      | some full => { h with totalSize := max full 1 }
      | none => h,
     h.goPut large full)
  else
    let (h, request) := h.goGet files kept
    (match full with
      | some full => { h with totalSize := max (full - h.resumedBytes) 1 }
      | none => h,
     request)

/-- `xfer_go`, of a file: the handle, its pause, and the request if one is made. -/
def go (h : Handle) (files : Files) (large : Bool) (pause : Option Pause) :
    Handle × Option Pause × Option FileRequest :=
  match pause with
  | some (.paused kept) | some (.failed kept _) =>
    if h.upload ∧ kept ≠ files.disk h.path then (h, some (.changed kept), none)
    else
      let (h', r) := { h.afresh with gone := true }.request files large (some kept)
        (some (add64 h.totalSize h.resumedBytes))
      (h', some (.asked kept), some r)
  | some _ => (h, pause, none)
  | none =>
    if h.gone then (h, none, none)
    else
      let (h', r) := { h with gone := true }.request files large none none
      (h', none, some r)

end Handle

end Gtkhx.Transfers
