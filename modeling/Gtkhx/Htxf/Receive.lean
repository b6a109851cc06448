import Gtkhx.Htxf.Worker

/-!
# Receiving files and folders

`file_recv` takes one flattened file off the subchannel and puts its forks on the disk.
`folder_recv` asks a server for one entry of a folder after the other, makes the folders,
and answers each file the way its ledger of earlier attempts allows.
-/

namespace Gtkhx.Htxf

open Reader

variable {ω : Type}

/-- `HxnetXferParams`, as far as receiving reads them. -/
structure HxnetXferParams where
  /-- Where the file goes. -/
  path : PathBuf
  /-- The size announced for it; 0 in a folder when it does not fit. -/
  fileBudget : ℕ
  /-- Where the data fork was asked from. -/
  dataPos : ℕ
  /-- Where the resource fork was asked from. -/
  rsrcPos : ℕ
  /-- A preview. -/
  optPreview : Bool
  /-- One of a folder's files. -/
  optFolder : Bool
  /-- 64-bit lengths. -/
  optLarge : Bool
  /-- The preview to show, as how much it wants of a file of a type and length. -/
  preview : Option (List UInt8 → ℕ → ℕ)

/-- Where a data fork goes that came for a file an earlier FILP described as `was`. -/
def dataFrom (was : Option Filp) (dataPos forkLen : ℕ) (modified : List UInt8) :
    Except Errno ℕ :=
  match was with
  | none => .ok dataPos
  | some was =>
    if was.modified ≠ modified then .error EIO
    else if dataPos + forkLen < 2 ^ 64 ∧ dataPos + forkLen = was.len then .ok dataPos
    else if forkLen = was.len then .ok 0
    else .error EIO

theorem dataFrom_ok {was : Option Filp} {dataPos forkLen start : ℕ} {modified : List UInt8}
    (h : dataFrom was dataPos forkLen modified = .ok start) : start = dataPos ∨ start = 0 := by
  unfold dataFrom at h
  split at h
  · exact .inl (Except.ok.inj h).symm
  · split at h
    · cases h
    · split at h
      · exact .inl (Except.ok.inj h).symm
      · split at h
        · exact .inr (Except.ok.inj h).symm
        · cases h

/-- `make_hfsinfo`. -/
def makeHfsinfo (typeCreator : List UInt8) (pi : FilpInfo) (rsrclen : ℕ) : HfsInfo where
  typeCreator := typeCreator
  createTime := pi.createTime
  modifyTime := pi.modifyTime
  rsrclen := rsrclen
  comment := pi.comment

/-- The type and creator of a file that is still arriving, `HTftHTLC`. -/
def arriving : List UInt8 := [72, 84, 102, 116, 72, 84, 76, 67]

/-- Write a file's sidecar. -/
def sidecar (os : Os ω) (path : PathBuf) (info : HfsInfo) : Work ω Unit :=
  Fallible.change fun w => { w with disk := os.hfsinfoWrite path info w.disk }

/-- `finish`: the sidecar with the file's own type and creator. -/
def finish (os : Os ω) (p : HxnetXferParams) (pi : FilpInfo) (rsrclen : ℕ) : Work ω Unit :=
  sidecar os p.path (makeHfsinfo pi.typeCreator pi rsrclen)

/-- The sidecar of a file that is still arriving, unless it is only previewed. -/
def earlySidecar (os : Os ω) (p : HxnetXferParams) (pi : FilpInfo) : Work ω Unit :=
  if p.optPreview then pure () else sidecar os p.path (makeHfsinfo arriving pi p.rsrcPos)

/-- The FILP: its header, what its info block says, and the length of both. -/
def readFilp (ffo : Ffo) (p : HxnetXferParams) : Work ω (List UInt8 × FilpInfo × ℕ) := do
  let hdr ← readFull 40
  let infoLen ← Fallible.ofOption EIO (ffo.infoBlockLen (hdr.getD 38 0) (hdr.getD 39 0))
  let info ← readFull infoLen
  let pi ← Fallible.ofOption EIO (ffo.parseFilpInfo info p.optLarge)
  pure (hdr, pi, add64 40 infoLen)

/-- Place the data fork, and leave `was` as the FILP described the file. -/
def placeFork (p : HxnetXferParams) (pi : FilpInfo) : Work ω ℕ := fun w =>
  match dataFrom w.was p.dataPos pi.dataForkLen pi.modifyTime with
  | .ok start =>
    (.ok start, { w with was := some ⟨add64 start pi.dataForkLen, pi.modifyTime⟩ })
  | .error e => (.error e, { w with was := none })

theorem placeFork_returns {p : HxnetXferParams} {pi : FilpInfo} {start : ℕ} {w w' : World ω}
    (h : (placeFork p pi).run w = (.ok start, w')) :
    dataFrom w.was p.dataPos pi.dataForkLen pi.modifyTime = .ok start ∧
      w' = { w with was := some ⟨add64 start pi.dataForkLen, pi.modifyTime⟩ } := by
  unfold Fallible.run placeFork at h
  split at h
  · rename_i start' hplaced
    obtain ⟨hstart, rfl⟩ := Prod.mk.inj h
    obtain rfl := Except.ok.inj hstart
    exact ⟨hplaced, rfl⟩
  · cases h

theorem placeFork_fails {p : HxnetXferParams} {pi : FilpInfo} {e : Errno} {w w' : World ω}
    (h : (placeFork p pi).run w = (.error e, w')) :
    dataFrom w.was p.dataPos pi.dataForkLen pi.modifyTime = .error e ∧
      w' = { w with was := none } := by
  unfold Fallible.run placeFork at h
  split at h
  · cases h
  · rename_i e' hplaced
    obtain ⟨he, rfl⟩ := Prod.mk.inj h
    obtain rfl := Except.error.inj he
    exact ⟨hplaced, rfl⟩

/-- A preview: as much of the data fork as it wants to show. -/
def previewFork (p : HxnetXferParams) (pi : FilpInfo) : Work ω Unit :=
  match p.preview with
  | none => pure ()
  | some setInfo => do
    let wanted := min (setInfo pi.typeCreator pi.dataForkLen) pi.dataForkLen
    rdWrRecv sink wanted 0 wanted
    if wanted < pi.dataForkLen then Fallible.fail HXNET_XFER_STOPPED else pure ()

/-- Position an open file, unless at its beginning. -/
def seekTo (os : Os ω) (path : PathBuf) (fork : Fork) (pos : ℕ) : Work ω Unit := fun w =>
  if pos ≠ 0 ∧ os.seek w.disk path fork pos = false then (.error EIO, w) else (.ok (), w)

theorem seekTo_returns {os : Os ω} {path : PathBuf} {fork : Fork} {pos : ℕ} {w w' : World ω}
    (h : (seekTo os path fork pos).run w = (.ok (), w')) : w' = w := by
  unfold Fallible.run seekTo at h
  split at h
  · cases h
  · exact (Prod.mk.inj h).2.symm

theorem seekTo_fails {os : Os ω} {path : PathBuf} {fork : Fork} {pos : ℕ} {e : Errno}
    {w w' : World ω} (h : (seekTo os path fork pos).run w = (.error e, w')) : w' = w := by
  unfold Fallible.run seekTo at h
  split at h
  · exact (Prod.mk.inj h).2.symm
  · cases h

/-- The data fork, into the file from `start`. -/
def receiveFork (os : Os ω) (p : HxnetXferParams) (pi : FilpInfo) (start : ℕ) :
    Work ω Unit :=
  if pi.dataForkLen = 0 then pure ()
  else do
    onDisk (os.openWrite p.path (start == 0))
    seekTo os p.path .data start
    let again := min (p.dataPos - start) pi.dataForkLen
    rdWrRecv (toFile os p.path .data) again start again
    rdWrRecv (toFile os p.path .data) (pi.dataForkLen - again) (start + again)
      (pi.dataForkLen - again)
    forksRead (pi.dataForkLen - again)

/-- The resource fork of a folder's file whose size was announced as 0, read past. -/
def skipResource (ffo : Ffo) (p : HxnetXferParams) (hdr : List UInt8) : Work ω Unit := do
  match ← readMacrMarker (3 ≤ (hdr.getD 22 0).toNat * 256 + (hdr.getD 23 0).toNat) with
  | some marker => rdWrRecv sink (ffo.forkLen marker p.optLarge) 0 (ffo.forkLen marker p.optLarge)
  | none => pure ()

/-- Read past `remaining` bytes, or to where no more come. -/
def drain : (fuel remaining : ℕ) → Work ω Unit
  | 0, _ => pure ()
  | fuel + 1, remaining =>
    if remaining = 0 then pure ()
    else do
      match ← Fallible.attempt (xferRead (min 2048 remaining)) with
      | .ok got => drain fuel (remaining - got.length)
      | .error _ => pure ()

/-- What a folder's file was announced with past its data fork, read past. -/
def drainResource (totLen budget : ℕ) : Work ω Unit :=
  if totLen < budget then do
    if ← setReadTimeout then do
      drain (budget - totLen) (budget - totLen)
      if ← setReadTimeout then pure () else Fallible.fail EIO
    else pure ()
  else pure ()

/-- The resource fork of a file of its own, and the length to record for it. -/
def receiveResource (os : Os ω) (ffo : Ffo) (p : HxnetXferParams) (totLen budget : ℕ) :
    Work ω ℕ :=
  if budget ≤ totLen then pure p.rsrcPos
  else do
    match ← readMacrMarker false with
    | none => pure p.rsrcPos
    | some marker =>
      let rforkLen := ffo.forkLen marker p.optLarge
      if rforkLen = 0 then pure p.rsrcPos
      else if ← onDisk (os.resourceOpen p.path) then do
        seekTo os p.path .resource p.rsrcPos
        rdWrRecv (toFile os p.path .resource) rforkLen p.rsrcPos rforkLen
        if p.rsrcPos + rforkLen < 2 ^ 64 then pure (p.rsrcPos + rforkLen)
        else Fallible.fail EFBIG
      else Fallible.fail EIO

/-- What follows the data fork of a folder's file, read past. -/
def skipRest (ffo : Ffo) (p : HxnetXferParams) (hdr : List UInt8) (totLen budget : ℕ) :
    Work ω Unit :=
  if p.fileBudget = 0 then skipResource ffo p hdr else drainResource totLen budget

/-- What follows the data fork, and the sidecar. -/
def receiveTail (os : Os ω) (ffo : Ffo) (p : HxnetXferParams) (hdr : List UInt8)
    (pi : FilpInfo) (totLen budget : ℕ) : Work ω Unit :=
  if p.optFolder then do
    skipRest ffo p hdr totLen budget
    finish os p pi 0
  else do
    let rsrclen ← receiveResource os ffo p totLen budget
    finish os p pi rsrclen

/-- `file_recv`. -/
def fileRecv (os : Os ω) (ffo : Ffo) (p : HxnetXferParams) : Work ω Unit := do
  let (hdr, pi, infoLen) ← readFilp ffo p
  earlySidecar os p pi
  let start ← placeFork p pi
  let budget := if p.fileBudget = 0 then 0 else satAdd64 p.fileBudget (p.dataPos - start)
  if p.optPreview then previewFork p pi
  else do
    receiveFork os p pi start
    receiveTail os ffo p hdr pi (add64 infoLen pi.dataForkLen) budget

/-- `HxnetFolderParams`, and the platform. -/
structure HxnetFolderParams where
  /-- What a path means here. -/
  platform : Platform
  /-- The folder to receive into. -/
  base : PathBuf
  /-- A preview. -/
  optPreview : Bool
  /-- A folder. -/
  optFolder : Bool
  /-- 64-bit lengths. -/
  optLarge : Bool

/-- `per_file_params`. -/
def perFileParams (fp : HxnetFolderParams) (path : PathBuf) (fileBudget dataPos : ℕ) :
    HxnetXferParams where
  path := path
  fileBudget := fileBudget
  dataPos := dataPos
  rsrcPos := 0
  optPreview := fp.optPreview
  optFolder := fp.optFolder
  optLarge := fp.optLarge
  preview := none

/-- `Kept::of`. -/
def keptOf (os : Os ω) (disk : ω) (path : PathBuf) (whole : Bool) (filp : Option Filp) :
    Option Kept :=
  match os.metadata disk path with
  | some md => if md.isFile then some ⟨md.len, md.modified, whole, filp⟩ else none
  | none => none

/-- How a folder download answers the server's offer of a file. -/
inductive Answer where
  /-- Send it whole. -/
  | send
  /-- Send it from here on. -/
  | resume (data : ℕ)
  /-- Pass it over. -/
  | skip
  deriving DecidableEq, Repr

/-- The answer for a file the download left as `kept`, now on disk as `now`. -/
def answer (kept now : Option Kept) : Answer :=
  match kept, now with
  | some k, some n =>
    if k.len = n.len ∧ k.modified = n.modified then
      if k.whole then .skip
      else if k.filp.isSome ∧ k.len < 2 ^ 32 then .resume k.len
      else .send
    else .send
  | _, _ => .send

/-- `FolderLedger::note`. -/
def FolderLedger.note (ledger : FolderLedger) (rel : List UInt8) (kept : Option Kept) :
    FolderLedger := Function.update ledger rel kept

/-- `FILE_SEND_CMD`. -/
def FILE_SEND_CMD : UInt16 := 1

/-- `FILE_RESUME_CMD`. -/
def FILE_RESUME_CMD : UInt16 := 2

/-- `FILE_NEXT_CMD`. -/
def FILE_NEXT_CMD : UInt16 := 3

/-- The length of an entry's header: its length, its type and its count of components. -/
def NFI_HEADER_LEN : ℕ := 6

/-- A failed write of the folder loop is an I/O error. -/
def tell (bytes : List UInt8) : Work ω Unit := Fallible.failWith EIO (xferWrite bytes)

/-- Writing to the subchannel leaves what its reads are going to meet. -/
theorem tell_run {bytes : List UInt8} {w w' : World ω} {r : Except Errno Unit}
    (h : (tell bytes).run w = (r, w')) :
    ∃ conn, w' = { w with conn } ∧ conn.inner = w.conn.inner := by
  have hwrite : ∃ conn, (xferWrite bytes w).2 = { w with conn } ∧ conn.inner = w.conn.inner := by
    unfold xferWrite
    split
    · exact ⟨_, rfl, rfl⟩
    · exact ⟨_, rfl, rfl⟩
    · exact ⟨_, rfl, rfl⟩
  unfold Fallible.run tell Fallible.failWith at h
  rcases hrun : xferWrite bytes w with ⟨e | u, w₁⟩ <;> rw [hrun] at h hwrite
  · obtain ⟨-, rfl⟩ := Prod.mk.inj h
    exact hwrite
  · obtain ⟨-, rfl⟩ := Prod.mk.inj h
    exact hwrite

/-- The header of the next entry, or `none` at the end of the tree: past what was
announced the next entry is given a grace, and silence is an end too. -/
def readNfi : Work ω (Option (List UInt8)) := do
  let w ← Fallible.state
  if (w.conn.folderItems ≠ 0 ∧ w.conn.folderItems ≤ w.received) ∨ w.conn.folderSizeArrived then
    if ← setReadTimeout then
      match ← fillBuffer NFI_HEADER_LEN with
      | .full nfi => if ← setReadTimeout then pure (some nfi) else Fallible.fail EIO
      | .ended [] => pure none
      | .failed [] kind => if kind.isTimeout then pure none else Fallible.fail EIO
      | _ => Fallible.fail EIO
    else Fallible.fail EIO
  else
    match ← fillBuffer NFI_HEADER_LEN with
    | .full nfi => pure (some nfi)
    | .ended [] => pure none
    | _ => Fallible.fail EIO

/-- One component of an entry's path. -/
def readComponent : Work ω Name := do
  let ph ← readFull 3
  let nlen := (ph.getD 2 0).toNat
  if nlen = 0 then Fallible.fail EINVAL
  else do
    let name ← readFull nlen
    if name = parentDir ∨ 47 ∈ name ∨ 92 ∈ name then Fallible.fail EINVAL else pure name

/-- The components of an entry's path, joined to `rel`. -/
def readPath : (pathcount : ℕ) → (rel : List UInt8) → Work ω (List UInt8)
  | 0, rel => pure rel
  | pathcount + 1, rel => do
    let name ← readComponent
    let addition := if rel = [] then name.length else 1 + name.length
    if MAXPATHLEN < rel.length + addition then Fallible.fail ENAMETOOLONG
    else readPath pathcount (if rel = [] then name else rel ++ 47 :: name)

/-- Receive a file that has been asked for from `dataPos`, and note what became of it. -/
def receiveFile (os : Os ω) (ffo : Ffo) (fp : HxnetFolderParams) (rel : List UInt8)
    (full : PathBuf) (was : Option Filp) (dataPos : ℕ) : Work ω Unit := do
  let sz ← readFull 4
  if 0 ∈ rel then Fallible.fail EINVAL
  else do
    Fallible.change fun w => { w with was := was }
    let rv ← Fallible.attempt (fileRecv os ffo (perFileParams fp full (readBe32 sz 0) dataPos))
    Fallible.change fun w =>
      { w with ledger := w.ledger.note rel (keptOf os w.disk full rv.isOk w.was) }
    match rv with
    | .ok () => pure ()
    | .error e => Fallible.fail e

/-- Answer the offer of a file, and receive it unless it is passed over. -/
def answerFile (os : Os ω) (ffo : Ffo) (fp : HxnetFolderParams) (rel : List UInt8)
    (full : PathBuf) : Work ω Unit := do
  let w ← Fallible.state
  match answer (w.ledger rel) (keptOf os w.disk full false none) with
  | .skip => forksRead ((w.ledger rel).elim 0 Kept.len)
  | .send => do
    tell (BigEndian.ofU16 FILE_SEND_CMD)
    receiveFile os ffo fp rel full none 0
  | .resume data => do
    tell (BigEndian.ofU16 FILE_RESUME_CMD ++ BigEndian.ofU16 (.ofNat ffo.rfltLen) ++
      ffo.encodeRflt data 0)
    forksRead data
    receiveFile os ffo fp rel full ((w.ledger rel).bind Kept.filp) data

/-- An entry of the tree, as its header and its path announce it. -/
structure Entry where
  /-- 1 for a folder, otherwise a file. -/
  ftype : ℕ
  /-- How many components its path has. -/
  pathcount : ℕ
  /-- The components, joined. -/
  rel : List UInt8
  deriving DecidableEq, Repr

/-- Where an entry goes. -/
def HxnetFolderParams.full (fp : HxnetFolderParams) (rel : List UInt8) : PathBuf :=
  fp.base.join (.parse fp.platform (osFromBytes fp.platform rel))

/-- Ask for the next entry, and read its header and path; `none` at the end of the tree. -/
def nextEntry : Work ω (Option Entry) := do
  tell (BigEndian.ofU16 FILE_NEXT_CMD)
  match ← readNfi with
  | none => pure none
  | some nfi => do
    Fallible.change fun w => { w with received := min (w.received + 1) (2 ^ 32 - 1) }
    let ftype := (nfi.getD 2 0).toNat * 256 + (nfi.getD 3 0).toNat
    let pathcount := (nfi.getD 4 0).toNat * 256 + (nfi.getD 5 0).toNat
    let rel ← readPath pathcount []
    if rel = [] then Fallible.fail EINVAL else pure (some ⟨ftype, pathcount, rel⟩)

/-- Make the folder of a file that may have come before it. -/
def makeParent (os : Os ω) (fp : HxnetFolderParams) (e : Entry) : Work ω Unit :=
  if 1 < e.pathcount then
    match (fp.full e.rel).parent with
    | some parent => createDirAll os parent
    | none => pure ()
  else pure ()

/-- Make the folder that an entry is, or receive the file. -/
def receiveEntry (os : Os ω) (ffo : Ffo) (fp : HxnetFolderParams) (e : Entry) : Work ω Unit :=
  if e.ftype = 1 then createDirAll os (fp.full e.rel)
  else do
    makeParent os fp e
    answerFile os ffo fp e.rel (fp.full e.rel)

/-- One turn of `folder_recv`'s loop; whether there is another. -/
def folderStep (os : Os ω) (ffo : Ffo) (fp : HxnetFolderParams) : Work ω Bool := do
  match ← nextEntry with
  | none => pure false
  | some e => do
    receiveEntry os ffo fp e
    pure true

/-- At most `fuel` turns of the loop. -/
def folderLoop (os : Os ω) (ffo : Ffo) (fp : HxnetFolderParams) : (fuel : ℕ) → Work ω Unit
  | 0 => pure ()
  | fuel + 1 => do
    if ← folderStep os ffo fp then folderLoop os ffo fp fuel else pure ()

/-- `folder_recv`, for at most `fuel` entries. -/
def folderRecv (os : Os ω) (ffo : Ffo) (fp : HxnetFolderParams) (fuel : ℕ) : Work ω Unit := do
  createDirAll os fp.base
  Fallible.change fun w => { w with received := 0 }
  folderLoop os ffo fp fuel

end Gtkhx.Htxf
