import Gtkhx.Htxf.Receive
import Gtkhx.Upload.Tree

/-!
# Sending a folder

`folder_send`: for each time the server asks, one entry's header and path, and a file's size and
what is left of it once the server has said how much it holds. The ledger notes what was begun, and
which folders the server has made.
-/

namespace Gtkhx.Upload

open Htxf Reader

/-- `HXNET_XFER_CHANGED`. -/
def HXNET_XFER_CHANGED : Errno := -2

/-- `HXNET_XFER_AGAIN`. -/
def HXNET_XFER_AGAIN : Errno := -3

/-- `HXNET_XFER_REOFFER`. -/
def HXNET_XFER_REOFFER : Errno := -4

/-- `RFLT_MAX`. -/
def RFLT_MAX : ℕ := 128

/-- `RFLT_DATA_POS_OFF`. -/
def RFLT_DATA_POS_OFF : ℕ := 46

/-- `RFLT_RSRC_POS_OFF`. -/
def RFLT_RSRC_POS_OFF : ℕ := 62

/-- `RFLT_MIN_FOR_DATA`. -/
def RFLT_MIN_FOR_DATA : ℕ := 50

/-- `RFLT_MIN_FOR_RSRC`. -/
def RFLT_MIN_FOR_RSRC : ℕ := 66

/-- `NFI_LEN_FIXED`. -/
def NFI_LEN_FIXED : ℕ := 4

/-- What a folder upload is sent with. -/
structure FolderParams where
  optFolder : Bool
  optLarge : Bool
  deriving DecidableEq, Repr

/-- A folder upload's side of the subchannel, its ledger, and the local files as each is when its
turn comes. -/
structure FolderLine extends Line where
  ledger : UploadLedger
  /-- The transfer was aborted. -/
  aborted : Bool
  /-- What `metadata` says at a path. -/
  met : List Name → Except Errno Dated
  /-- The entries that were offered. -/
  offers : List PutEntry

/-- A program that sends a folder. -/
abbrev Offering (α : Type) := Fallible Errno FolderLine α

/-- Do something on the subchannel. -/
def onLine {α : Type} (m : Sending α) : Offering α :=
  Fallible.within FolderLine.toLine (fun s l => { s with toLine := l }) m

/-- Change the ledger. -/
def noting (f : UploadLedger → UploadLedger) : Offering Unit :=
  Fallible.change fun s => { s with ledger := f s.ledger }

/-- `htxf_read_full`. -/
def fillLine (want : ℕ) : Sending (Fill UInt8) := fun l =>
  (.ok (fill want [] l.inner).1, { l with inner := (fill want [] l.inner).2 })

/-- A write that fails as an I/O error. -/
def put (bytes : List UInt8) : Offering Unit := Fallible.failWith EIO (onLine (xferWrite bytes))

/-- `htxf_read_full`, where anything but a full buffer is an I/O error. -/
def takes (want : ℕ) : Offering (List UInt8) := do
  match ← onLine (fillLine want) with
  | .full buffer => pure buffer
  | _ => Fallible.fail EIO

/-- A command of two bytes. -/
def command (bytes : List UInt8) : UInt16 :=
  .ofNat ((bytes.getD 0 0).toNat * 256 + (bytes.getD 1 0).toNat)

/-- `ended`: what the ledger learns from where the server ended the upload. -/
def ended (ledger : UploadLedger) (offered : Option (List UInt8 × Bool)) (inSkipped : Bool) :
    Option (Errno × UploadLedger) :=
  match offered with
  | some (made, true) => some (HXNET_XFER_AGAIN, ledger.makes made)
  | _ => if inSkipped then some (HXNET_XFER_REOFFER, ledger.reoffers) else none

/-- The connection ended: with what the ledger learns, if the server ended the upload. -/
def hungUp (offered : Option (List UInt8 × Bool)) (inSkipped : Bool) :
    Offering (Option Errno) := fun s =>
  match if s.aborted then none else ended s.ledger offered inSkipped with
  | some (again, ledger) => (.ok (some again), { s with ledger })
  | none => (.ok none, s)

/-- The server ended the upload at a file, or the connection failed with `e`. -/
def closed (inSkipped : Bool) (e : Errno) (α : Type) : Offering α := do
  match ← hungUp none inSkipped with
  | some again => Fallible.fail again
  | none => Fallible.fail e

/-- Where the loop stands between two entries. -/
structure Turn where
  /-- The server's last answer asked for the next entry. -/
  asked : Bool := false
  /-- A folder was offered, and whether an earlier upload offered it and lost the answer. -/
  offered : Option (List UInt8 × Bool) := none
  /-- The folders that are not offered. -/
  skipped : List (List Name) := []
  /-- The last item was a file in one of them. -/
  inSkipped : Bool := false

/-- A folder that was offered may have been made. -/
def doubt (offered : Option (List UInt8 × Bool)) : Offering Unit :=
  match offered with
  | some (rel, _) => noting fun ledger => ledger.doubts rel
  | none => pure ()

/-- The server asks for the next entry, unless it did. -/
def awaitNext (turn : Turn) : Offering Unit :=
  if turn.asked then pure ()
  else do
    match ← onLine (fillLine 2) with
    | .full cmd => if command cmd = FILE_NEXT_CMD then pure () else Fallible.fail EPROTO
    | .ended [] => do
      match ← hungUp turn.offered turn.inSkipped with
      | some again => Fallible.fail again
      | none => do
        doubt turn.offered
        Fallible.fail EIO
    | _ => do
      doubt turn.offered
      Fallible.fail EIO

/-- A folder that was offered is made once the server asks again. -/
def learn (offered : Option (List UInt8 × Bool)) : Offering Unit :=
  match offered with
  | some (made, _) => noting fun ledger => ledger.makes made
  | none => pure ()

/-- How long an entry's header says that the rest of it and its path are. -/
def wireLen (e : PutEntry) : ℕ := NFI_LEN_FIXED + (e.components.map fun c => 3 + c.length).sum

/-- An entry's header. -/
def nfiHeader (e : PutEntry) : List UInt8 :=
  BigEndian.ofU16 (.ofNat (wireLen e)) ++ BigEndian.ofU16 (if e.isFolder then 1 else 0) ++
    BigEndian.ofU16 (.ofNat e.components.length)

/-- A component, unless there is nothing of it. -/
def putName (c : Name) : Offering Unit := if c = [] then pure () else put c

/-- The components of an entry's path. -/
def putComponents : List Name → Offering Unit
  | [] => pure ()
  | c :: rest => do
    if 255 < c.length then Fallible.fail ENAMETOOLONG
    else do
      put [0, 0, .ofNat c.length]
      putName c
      putComponents rest

/-- An entry is offered. -/
def offer (e : PutEntry) : Offering Unit :=
  if 0xffff < wireLen e ∨ 0xffff < e.components.length then Fallible.fail ENAMETOOLONG
  else do
    put (nfiHeader e)
    putComponents e.components
    Fallible.change fun s => { s with offers := s.offers ++ [e] }

/-- What an answer to the offer of a file asks for. -/
inductive Asking
  /-- The next entry. -/
  | next
  /-- What is past these lengths of its forks. -/
  | from (dataPos rsrcPos : ℕ)
  deriving DecidableEq

/-- A resume list's lengths. -/
def resumeFrom (rflt : List UInt8) : Asking :=
  .from (if RFLT_MIN_FOR_DATA ≤ rflt.length then readBe32 rflt RFLT_DATA_POS_OFF else 0)
    (if RFLT_MIN_FOR_RSRC ≤ rflt.length then readBe32 rflt RFLT_RSRC_POS_OFF else 0)

/-- The server's answer to the offer of a file. -/
def readAnswer (inSkipped : Bool) : Offering Asking := do
  match ← onLine (fillLine 2) with
  | .full cmd =>
    if command cmd = FILE_NEXT_CMD then pure .next
    else if command cmd = FILE_RESUME_CMD then do
      let rl ← takes 2
      let rlen := (command rl).toNat
      if RFLT_MAX < rlen then Fallible.fail EPROTO
      else do
        let rflt ← takes rlen
        pure (resumeFrom rflt)
    else if command cmd = FILE_SEND_CMD then pure (.from 0 0)
    else Fallible.fail EPROTO
  | .ended [] => closed inSkipped EIO Asking
  | _ => Fallible.fail EIO

/-- How many bytes a file is sent as. -/
def fileSize (file : LocalFile) (dataPos rsrcPos : ℕ) : ℕ :=
  let rest := wrappingSub64 file.resourceLen rsrcPos
  add64 (add64 (add64 FILP_HEADER_LEN file.commentLen) (wrappingSub64 file.data.length dataPos))
    (if rest = 0 then 0 else add64 FORK_HEADER_LEN rest)

/-- `per_file_params`. -/
def FolderParams.perFile (fp : FolderParams) (file : LocalFile) (dataPos rsrcPos : ℕ) :
    SendParams where
  dataSize := file.data.length
  rsrcSize := file.resourceLen
  dataPos := dataPos
  rsrcPos := rsrcPos
  optFolder := fp.optFolder
  optLarge := fp.optLarge

/-- A file that is not what it was when the upload sent its start is not sent from there. -/
def splices (ledger : UploadLedger) (rel : List UInt8) (dated : Dated) (dataPos rsrcPos : ℕ) :
    Bool :=
  dated.file.data.length < dataPos || dated.file.resourceLen < rsrcPos ||
    dataPos + rsrcPos ≠ 0 && (ledger.sent? rel).any fun was => was ≠ dated.offered

/-- What the server holds counts towards the tree. -/
def reportHeld (held : ℕ) : Offering Unit := if held = 0 then pure () else onLine (report held)

/-- A file's size, and what is left of it. -/
def sendSized (ffo : Ffo) (fp : FolderParams) (e : PutEntry) (inSkipped : Bool) (file : LocalFile)
    (dataPos rsrcPos : ℕ) : Offering Unit :=
  let size := fileSize file dataPos rsrcPos
  if 2 ^ 32 ≤ size then Fallible.fail EFBIG
  else do
    put (BigEndian.ofU32 (.ofNat size))
    if 0 ∈ e.rel then Fallible.fail EINVAL
    else do
      match ← Fallible.attempt
          (onLine (fileSendOne ffo file (fp.perFile file dataPos rsrcPos))) with
      | .ok () => pure ()
      | .error rv => if rv = EPIPE then closed inSkipped rv Unit else Fallible.fail rv

/-- A file is sent from where the server has it, unless it is not what it was. -/
def sendFrom (ffo : Ffo) (fp : FolderParams) (e : PutEntry) (inSkipped : Bool)
    (dataPos rsrcPos : ℕ) : Offering Unit := do
  let s ← Fallible.state
  match s.met e.components with
  | .error err => Fallible.fail err
  | .ok dated =>
    if splices s.ledger e.rel dated dataPos rsrcPos then Fallible.fail HXNET_XFER_CHANGED
    else do
      noting fun ledger => ledger.began e.rel dated.offered
      reportHeld (dataPos + rsrcPos)
      sendSized ffo fp e inSkipped dated.file dataPos rsrcPos

/-- `folder_send`'s loop, over the entries to come. -/
def folderLoop (ffo : Ffo) (fp : FolderParams) : Turn → List PutEntry → Offering Unit
  | _, [] => pure ()
  | turn, e :: rest => do
    let s ← Fallible.state
    if s.ledger.made e then
      folderLoop ffo fp { turn with skipped := turn.skipped ++ [e.components] } rest
    else do
      awaitNext turn
      learn turn.offered
      let inSkipped := !e.isFolder && turn.skipped.any (·.isPrefixOf e.components)
      offer e
      if e.isFolder then do
        let s ← Fallible.state
        folderLoop ffo fp { turn with
          asked := false
          offered := some (e.rel, decide (e.rel ∈ s.ledger.unsure))
          inSkipped } rest
      else do
        let asking ← readAnswer inSkipped
        match asking with
        | .next => folderLoop ffo fp { turn with asked := true, offered := none, inSkipped } rest
        | .from dataPos rsrcPos => do
          sendFrom ffo fp e inSkipped dataPos rsrcPos
          folderLoop ffo fp { turn with asked := false, offered := none, inSkipped } rest

/-- `folder_send`, of the entries that were collected. -/
def folderSend (ffo : Ffo) (fp : FolderParams) (planned : List PutEntry) : Offering Unit :=
  folderLoop ffo fp {} planned

end Gtkhx.Upload
