import Gtkhx.Transfers.Registry

/-!
# The versions of an uploaded file

One file's upload in the registry, with its worker reading the local file and the server appending
what it gets: a resume it answers with the lengths it holds, an upload from the start it grants by
starting its file over. The local file may change at any time.
-/

namespace Gtkhx.Transfers

open Htxf (Fork)

/-- A version of the local file, and when it was last changed. -/
structure Version where
  file : Upload.LocalFile
  modified : Option ℕ
  honest : file.Honest

namespace Version

variable (v : Version)

/-- What tells it from the others. -/
def stat : Stat := ⟨v.file.data.length, v.modified⟩

/-- What a pause keeps of it. -/
def disk : Disk := ⟨v.file.data.length, v.modified⟩

/-- What is read of a fork. -/
def bytes : Fork → List UInt8
  | .data => v.file.data
  | .resource => v.file.resource.getD []

/-- What an upload of it counts as, from where the server has so much of its forks. -/
def total (pos : Fork → ℕ) : ℕ :=
  Upload.uploadTotal v.file.data.length v.file.resourceLen (pos .data) (pos .resource)
    v.file.commentLen

end Version

/-- The local disk as an upload sees it: its file, if there is one. -/
def diskOf (file : Option Version) : LocalDisk where
  stat := fun _ => file.map Version.stat
  resourceLen := fun _ => file.elim 0 fun v => v.file.resourceLen
  commentLen := fun _ => file.elim 0 fun v => v.file.commentLen
  folder := fun _ => ⟨0, false, (0, 0), (0, 0)⟩

/-- The worker of an upload, at `hxnet_xfer_file_send_one`. -/
structure FileSender where
  params : Upload.SendParams
  /-- How much of a fork it has read and sent. -/
  sent : Fork → ℕ
  /-- The connection is lost: nothing more reaches the server. -/
  lost : Bool

namespace FileSender

variable (w : FileSender)

/-- Where in a fork it starts: a large file on its own is sent from the beginning. -/
def origin : Fork → ℕ
  | .data => if w.params.optLarge then 0 else w.params.dataPos
  | .resource => w.params.rsrcPos

/-- How much of a fork it is to send. -/
def left : Fork → ℕ
  | .data => if w.params.optLarge then w.params.dataSize else w.params.dataLeft
  | .resource => if w.params.optLarge then 0 else w.params.rsrcLeft

/-- The fork it is at. -/
def fork : Fork := if w.sent .data < w.left .data then .data else .resource

/-- What it reads of the local file, so many bytes at most. -/
def reads (file : Option Version) (n : ℕ) : List UInt8 :=
  match file with
  | some v => ((v.bytes w.fork).drop (w.origin w.fork + w.sent w.fork)).take
      (min n (w.left w.fork - w.sent w.fork))
  | none => []

/-- It has sent so much more of the fork it is at. -/
def sending (piece : List UInt8) : FileSender :=
  { w with sent := fun f => if f = w.fork then w.sent f + piece.length else w.sent f }

/-- It has sent all of the data fork, and all of the resource fork or, when the server did not take
its header, nothing. -/
def through : Prop :=
  w.sent .data = w.left .data ∧
    (w.sent .resource = 0 ∨ w.sent .resource = w.left .resource)

instance : Decidable w.through := inferInstanceAs (Decidable (_ ∧ _))

/-- Both forks were sent to their ends. -/
def both : Bool := !w.params.optLarge && w.sent .resource == w.left .resource

/-- The upload is done with by its return: it leaves the list, and nothing that was sent is lost. -/
def completed (failed : Option Failure) (r : Registry) : Option Bool :=
  if failed.isNone && r.list.isEmpty && !w.lost then some w.both else none

end FileSender

namespace Handle

variable (h : Handle)

/-- What `htxf_connect` and the worker read of an upload's handle. -/
def sized : Upload.HtxfHandle where
  dataSize := h.dataSize
  dataPos := h.dataPos
  rsrcSize := h.rsrcSize
  rsrcPos := h.rsrcPos
  totalSize := h.totalSize
  ref := h.ref
  queue := h.queue

/-- The worker of an upload that `htxf_connect` can announce. -/
def sender (c : Client) : Option FileSender :=
  (Upload.htxfConnect (c.large h.htlc) h.sized).map fun h => ⟨h.sendParams, fun _ => 0, false⟩

end Handle

/-- An upload, the local file, and the server's. -/
structure Uploading where
  registry : Registry
  file : Option Version
  /-- The versions that there were of the local file, this one included. -/
  past : List Version
  sender : Option FileSender
  /-- What the server holds. -/
  held : Fork → List UInt8
  /-- The upload is done with, and with both forks or not. -/
  complete : Option Bool

/-- What happens to an upload. -/
inductive UploadEvent
  | goes
  | pauses
  | answered (t : Transfer)
  | refused
  /-- It comes to the head of the server's queue. -/
  | turn
  /-- Its worker reads and sends so many bytes at most. -/
  | reads (n : ℕ)
  /-- Its connection is lost. -/
  | loses
  | returned (failed : Option Failure) (totalPos : ℕ)
  /-- The local file changes, comes or goes. -/
  | changes (file : Option Version)

namespace Uploading

variable (c : Client) (u : Uploading)

/-- The request in flight asks to resume. -/
def resuming : Bool :=
  match u.registry.pauseOf 0 with
  | some (.asked _) => true
  | _ => false

/-- The server answers a resume with the lengths it holds. -/
def Answers (t : Transfer) : Prop :=
  if u.resuming then
    t.dataFrom.toNat = (u.held .data).length ∧ t.rsrcFrom.toNat = (u.held .resource).length
  else t.dataFrom = 0 ∧ t.rsrcFrom = 0

instance (t : Transfer) : Decidable (u.Answers t) :=
  inferInstanceAs (Decidable (ite _ _ _))

/-- What the server holds once it has answered. -/
def heldBy (t : Transfer) : Fork → List UInt8 :=
  if u.resuming ∨ t.reference = 0 then u.held else fun _ => []

/-- What becomes of the upload with the registry: its worker is started, goes on or has returned. -/
def became (r : Registry) : Uploading :=
  { u with
    registry := r
    sender :=
      if r.working = [] then none
      else if u.registry.working = [] then (r.find? 0).bind fun e => e.handle.sender c
      else u.sender }

/-- The worker reads and sends, and the server receives it. -/
def sends (w : FileSender) (n : ℕ) : Uploading :=
  { u with
    sender := some (w.sending (w.reads u.file n))
    held := fun f =>
      if f = w.fork ∧ w.lost = false then u.held f ++ w.reads u.file n else u.held f }

def step : UploadEvent → Option Uploading
  | .goes => (u.registry.step c (.go 0)).map (u.became c)
  | .pauses => (u.registry.step c (.pause 0)).map (u.became c)
  | .answered t =>
    match u.registry.asked with
    | a :: _ =>
      if u.Answers t then
        (u.registry.step c (.replied a.trans t)).map ({ u with held := u.heldBy t }.became c)
      else none
    | [] => none
  | .refused =>
    match u.registry.asked with
    | a :: _ => (u.registry.step c (.refused a.trans)).map (u.became c)
    | [] => none
  | .turn =>
    match u.registry.find? 0 with
    | some e =>
      if e.handle.ref = 0 then none
      else (u.registry.step c (.queued e.htlc e.handle.ref 0)).map (u.became c)
    | none => none
  | .reads n => u.sender.map fun w => u.sends w n
  | .loses => u.sender.map fun w => { u with sender := some { w with lost := true } }
  | .returned failed totalPos =>
    match u.sender with
    | some w =>
      if failed = none → w.through then
        (u.registry.step c (.returned 0 (failed.elim .done .failed) totalPos)).map fun r =>
          { u.became c r with complete := w.completed failed r }
      else none
    -- What cannot be announced is not connected to.
    | none =>
      if failed.isSome then
        (u.registry.step c (.returned 0 (failed.elim .done .failed) totalPos)).map (u.became c)
      else none
  | .changes file =>
    (u.registry.step c (.changes (diskOf file))).map fun r =>
      { u with registry := r, file := file, past := file.toList ++ u.past }

end Uploading

/-- A file's upload, as it is made, of a file that is there. -/
def uploading (c : Client) (v : Version) (htlc : ℕ) (path : Path)
    (remotedir remotename : List UInt8) : Reactive.Process Uploading UploadEvent where
  start := ⟨(registry c (diskOf (some v))).start.xferInit
      (Handle.init htlc path remotedir remotename true 0),
    some v, [v], none, fun _ => [], none⟩
  step := Uploading.step c

/-- What the server holds is the beginning of a version. -/
def Begins (held : Fork → List UInt8) (v : Version) : Prop := ∀ f, held f <+: v.bytes f

/-- The server's file is of one version: the beginning of one, the local file's while a worker
sends, and all of one once the upload is done with. -/
structure OneVersion (u : Uploading) : Prop where
  begins : ∃ v ∈ u.past, Begins u.held v
  sending : ∀ w, u.sender = some w → ∃ v, u.file = some v ∧ Begins u.held v
  complete : ∀ both, u.complete = some both → ∃ v ∈ u.past, Begins u.held v ∧
    u.held .data = v.bytes .data ∧ (both = true → u.held .resource = v.bytes .resource)

/-- A change of the local file changes its length or its modification time. -/
def Told (u : Uploading) : UploadEvent → Prop
  | .changes (some v) => ∀ w ∈ u.past, w.stat = v.stat → w = v
  | _ => True

/-- The upload was answered, and its worker has not returned yet. -/
def Entry.underway (e : Entry) : Prop :=
  e.handle.ref ≠ 0 ∧ (e.pause = none ∨ e.pause = some .winding)

/-- The local file does not change from the answer until the worker's return is settled, nor while
a resume is in flight of what the server holds some of; and there is one when an answer comes. -/
def Still (u : Uploading) : UploadEvent → Prop
  | .changes _ =>
    ∀ e ∈ u.registry.list, ¬e.underway ∧ (u.resuming = true → ∀ f, u.held f = [])
  | .answered _ => u.file ≠ none
  | _ => True

/-- What a paused upload may be resumed with. -/
def keptOf : Option Pause → Option Disk
  | some (.paused kept) | some (.failed kept _) | some (.asked kept) | some (.restarted kept) =>
    some kept
  | _ => none

namespace Handle

variable (h : Handle)

/-- From where an upload sends a fork. -/
def pos : Fork → ℕ
  | .data => h.dataPos
  | .resource => h.rsrcPos

/-- Up to where it sends a fork. -/
def size : Fork → ℕ
  | .data => h.dataSize
  | .resource => h.rsrcSize

/-- What the upload is to send, and what it counts as. -/
def extent : ℕ × ℕ × ℕ × ℕ × ℕ := (h.dataSize, h.rsrcSize, h.dataPos, h.rsrcPos, h.totalSize)

end Handle

/-- The server holds the beginning of a version, and the rest of it is no large file's. -/
structure Partly (held : Fork → List UInt8) (v : Version) : Prop where
  begins : Begins held v
  small : v.total (fun f => (held f).length) ≤ U32_MAX

/-- How far a worker is: all it sent has come, unless the connection is lost. -/
structure Sends (held : Fork → List UInt8) (h : Handle) (w : FileSender) : Prop where
  params : ∃ large, w.params = ⟨h.dataSize, h.rsrcSize, h.dataPos, h.rsrcPos, false, large⟩ ∧
    (large = true → U32_MAX < h.totalSize)
  within : ∀ f, w.sent f ≤ w.left f
  received : w.lost = false → ∀ f, (held f).length = h.pos f + w.sent f

/-- An upload that was answered, of a version of the local file. -/
structure Underway (u : Uploading) (h : Handle) (v : Version) : Prop where
  file : u.file = some v
  sizes : ∀ f, h.size f = (v.bytes f).length
  within : ∀ f, h.pos f ≤ (v.bytes f).length
  total : h.totalSize = v.total h.pos
  small : ∀ f, 0 < h.pos f → h.totalSize ≤ U32_MAX
  begins : Begins u.held v
  reached : ∀ f, h.pos f ≤ (u.held f).length
  waits : u.registry.working = [] → u.sender = none ∧ ∀ f, (u.held f).length = h.pos f
  sends : ∀ w, u.sender = some w → Sends u.held h w

/-- An upload that awaits an answer. -/
def Entry.awaits (e : Entry) : Bool :=
  e.resuming || e.pause.isNone && e.handle.ref == 0 && e.handle.gone

theorem Entry.answered_pause {e : Entry} (h : e.awaits = true) : e.answered.pause = none := by
  unfold Entry.answered
  rcases hpause : e.pause with _ | pause
  · rfl
  · cases pause <;> simp_all [Entry.awaits, Entry.resuming]

/-- Where the upload stands while it is in the list. -/
structure Stands (u : Uploading) (e : Entry) : Prop where
  id : e.id = 0
  upload : e.handle.upload = true
  file : e.handle.folder = false
  gone : e.handle.ref ≠ 0 → e.handle.gone = true
  unanswered : e.handle.ref = 0 → e.pause = none ∧ u.registry.working = []
  single : ∀ a ∈ u.registry.asked, a.id = 0 ∧ u.registry.asked = [a]
  quiet : e.awaits = false → u.registry.asked = []
  idle : e.pause ≠ none → e.pause ≠ some .winding → u.registry.working = []
  unsent : u.registry.working = [] → u.sender = none
  only : ∀ id ∈ u.registry.working, id = 0
  winding : e.pause = some .winding → 0 ∈ u.registry.working ∧ e.handle.totalSize ≤ U32_MAX
  kept : ∀ kept, keptOf e.pause = some kept →
    (∀ f, u.held f = []) ∨ ∃ v ∈ u.past, kept = v.disk ∧ Partly u.held v
  asked : ∀ kept, e.pause = some (.asked kept) →
    (∀ f, u.held f = []) ∨ ∃ v, u.file = some v ∧ Partly u.held v
  underway : e.underway → ∃ v, Underway u e.handle v

/-- What holds of an upload in every state. -/
structure Sound (u : Uploading) : Prop where
  disk : u.registry.disk = diskOf u.file
  known : ∀ v, u.file = some v → v ∈ u.past
  told : ∀ v ∈ u.past, ∀ w ∈ u.past, v.stat = w.stat → v = w
  begins : ∃ v ∈ u.past, Begins u.held v
  complete : ∀ both, u.complete = some both → u.registry.list = [] ∧ ∃ v ∈ u.past,
    Begins u.held v ∧ u.held .data = v.bytes .data ∧
      (both = true → u.held .resource = v.bytes .resource)
  place : (u.registry.list = [] ∧ u.registry.asked = [] ∧ u.registry.working = [] ∧
      u.sender = none) ∨ ∃ e, u.registry.list = [e] ∧ Stands u e

namespace Version

variable {v : Version} {pos pos' : Fork → ℕ}

/-- The more the server holds, the less the upload counts as. -/
theorem total_le (hle : ∀ f, pos f ≤ pos' f) (hwithin : ∀ f, pos' f ≤ (v.bytes f).length) :
    v.total pos' ≤ v.total pos := by
  have hresource : v.file.resourceLen = (v.bytes .resource).length := v.honest.resource_eq
  have hdata : v.file.data.length = (v.bytes .data).length := rfl
  have hmore := hle .data
  have hmoreRsrc := hle .resource
  have hend := hwithin .data
  have hendRsrc := hwithin .resource
  rw [total, total, Upload.uploadTotal_eq v.honest (by omega) (by omega),
    Upload.uploadTotal_eq v.honest (by omega) (by omega)]
  by_cases hdone : v.file.resourceLen - pos .resource = 0
  · rw [if_neg (by omega), if_neg (by omega)]
    omega
  · rw [if_pos hdone]
    split <;> omega

/-- What a pause keeps tells as much as the length and the time. -/
theorem disk_diskOf {file : Option Version} {path : Path}
    (h : v.disk = (diskOf file).disk path) : ∃ w, file = some w ∧ w.stat = v.stat := by
  cases file with
  | none => simp [disk, diskOf, Files.disk, Files.size] at h
  | some w =>
    refine ⟨w, rfl, ?_⟩
    simpa [disk, diskOf, Files.disk, Files.size, stat, eq_comm] using h

end Version

/-- What the worker reads next goes on where the server's fork ends. -/
theorem begins_append {l m : List UInt8} (h : l <+: m) (n : ℕ) :
    l ++ (m.drop l.length).take n <+: m := by
  have htake : l = m.take l.length := List.prefix_iff_eq_take.mp h
  have hmore : l ++ (m.drop l.length).take n = m.take (l.length + n) := by
    rw [List.take_add, ← htake]
  rw [hmore]
  exact List.take_prefix _ _

theorem eq_of_begins {held : Fork → List UInt8} {v : Version} {f : Fork} (h : Begins held v)
    (hlen : (held f).length = (v.bytes f).length) : held f = v.bytes f :=
  (h f).eq_of_length hlen

/-- What holds nothing is the beginning of any version. -/
theorem begins_of_empty {held : Fork → List UInt8} (h : ∀ f, held f = []) (v : Version) :
    Begins held v := by
  intro f
  rw [h f]
  exact List.nil_prefix

namespace Registry

variable {c : Client} {r : Registry} {e e' : Entry}

theorem put_one (hlist : r.list = [e]) (hid : e'.id = e.id) :
    r.put e' = { r with list := [e'] } := by
  simp [put, hlist, hid]

theorem find?_one (hlist : r.list = [e]) (hid : e.id = 0) : r.find? 0 = some e := by
  simp [find?, hlist, hid]

theorem pauseOf_one (hlist : r.list = [e]) (hid : e.id = 0) : r.pauseOf 0 = e.pause := by
  simp [pauseOf, find?_one hlist hid]

theorem startNext_one (hlist : r.list = [e]) (hpaused : e.paused = true) :
    r.startNext c = r := by
  simp [startNext, hlist, hpaused]

/-- The only transfer leaves the list. -/
theorem xferRemoveFromList_one (hlist : r.list = [e]) :
    r.xferRemoveFromList c e.id = ({ r with list := [] } : Registry).setHeld e.id 0 := by
  simp [xferRemoveFromList, hlist, startNext, setHeld]

/-- A refusal removes an upload that was not paused. -/
theorem uploadRefused_none (hpause : e.pause = none) :
    r.uploadRefused c e = r.xferDelete c e.id := by
  simp [uploadRefused, hpause]

end Registry

/-- A request puts at most one more into flight. -/
theorem Registry.expectTransfer_eq (c : Client) (r : Registry) (id : ℕ) (ask : Ask) :
    ∃ asked trans trace, r.expectTransfer c id ask =
        { r with asked := asked, trans := trans, trace := trace } ∧
      (asked = r.asked ∨ ∃ n, asked = r.asked ++ [⟨n, id⟩]) := by
  unfold Registry.expectTransfer
  split
  · exact ⟨_, _, _, rfl, Or.inr ⟨_, rfl⟩⟩
  · exact ⟨_, _, _, rfl, Or.inl rfl⟩

theorem keptBy_cases {pause : Option Pause} {kept : Disk} (h : keptBy pause = some kept) :
    pause = some (.paused kept) ∨ ∃ why, pause = some (.failed kept why) := by
  unfold keptBy at h
  split at h
  next kept' => exact Or.inl (by rw [Option.some.inj h])
  next kept' why => exact Or.inr ⟨why, by rw [Option.some.inj h]⟩
  next => cases h

/-- A paused upload is asked for again only if its file is what the pause kept. -/
theorem Handle.kept_of_go {h : Handle} {files : Files} {large : Bool} {pause : Option Pause}
    {kept : Disk} (hupload : h.upload = true) (hkept : keptBy pause = some kept)
    (hasks : (h.go files large pause).2.2.isSome = true) : kept = files.disk h.path := by
  rcases keptBy_cases hkept with rfl | ⟨why, rfl⟩
  · by_contra hne
    simp [Handle.go, hupload, hne] at hasks
  · by_contra hne
    simp [Handle.go, hupload, hne] at hasks

namespace Sound

variable {c : Client} {u : Uploading} {e e' : Entry} {r : Registry}

theorem incomplete (h : Sound u) (hlist : u.registry.list = [e]) : u.complete = none := by
  cases hcomplete : u.complete with
  | none => rfl
  | some both =>
    have hempty := (h.complete both hcomplete).1
    rw [hlist] at hempty
    cases hempty

/-- The upload stays in the list, and its worker goes on, if there is one. -/
theorem stays (h : Sound u) (hst : Stands u e) (hlist : u.registry.list = [e])
    (hworking : r.working = u.registry.working) (hdisk : r.disk = u.registry.disk)
    (hlist' : r.list = [e']) (hst' : Stands { u with registry := r } e') :
    Sound (u.became c r) := by
  have hbecame : u.became c r = { u with registry := r } := by
    unfold Uploading.became
    rw [hworking]
    by_cases hidle : u.registry.working = []
    · rw [if_pos hidle, ← hst.unsent hidle]
    · rw [if_neg hidle, if_neg hidle]
  rw [hbecame]
  exact { h with
    disk := hdisk.trans h.disk
    complete := fun both hcomplete =>
      absurd (hcomplete.symm.trans (h.incomplete hlist)) (Option.some_ne_none both)
    place := Or.inr ⟨e', hlist', hst'⟩ }

/-- The upload leaves the list without being done with. -/
theorem leaves (h : Sound u) (hlist : u.registry.list = [e])
    (hdisk : r.disk = u.registry.disk) (hlist' : r.list = []) (hasked : r.asked = [])
    (hworking : r.working = []) : Sound (u.became c r) := by
  have hbecame : u.became c r = { u with registry := r, sender := none } := by
    rw [Uploading.became, if_pos hworking]
  rw [hbecame]
  exact { h with
    disk := hdisk.trans h.disk
    complete := fun both hcomplete =>
      absurd (hcomplete.symm.trans (h.incomplete hlist)) (Option.some_ne_none both)
    place := Or.inl ⟨hlist', hasked, hworking, rfl⟩ }

/-- The upload goes, or stays as it is. -/
theorem sendFile (h : Sound u) (hlist : u.registry.list = [e]) (hst : Stands u e)
    {request : Option FileRequest} (hwent : Went e e' request)
    (hsame : request.isSome = true → ∀ kept, keptBy e.pause = some kept →
      kept = u.registry.disk.disk e.handle.path) :
    Sound (u.became c (u.registry.sendFile c e' request)) := by
  have hrequest (hid : e'.id = e.id) (ask : Ask) (hquiet : u.registry.asked = []) :
      ∃ asked trans trace, (u.registry.put e').expectTransfer c e'.id ask =
          { u.registry with list := [e'], asked := asked, trans := trans, trace := trace } ∧
        ∀ a ∈ asked, a.id = 0 ∧ asked = [a] := by
    obtain ⟨asked, trans, trace, heq, hasked⟩ :=
      Registry.expectTransfer_eq c (u.registry.put e') e'.id ask
    rw [Registry.put_one hlist hid] at heq hasked ⊢
    refine ⟨asked, trans, trace, heq, fun a ha => ?_⟩
    rcases hasked with rfl | ⟨n, rfl⟩
    · simp [hquiet] at ha
    · simp only [hquiet, List.nil_append, List.mem_singleton] at ha ⊢
      exact ⟨by rw [ha]; exact hid.trans hst.id, by rw [ha]⟩
  cases hwent with
  | idle =>
    rw [Registry.sendFile, Registry.put_one hlist rfl]
    exact h.stays hst hlist rfl rfl rfl { hst with
      underway := fun hup => (hst.underway hup).imp fun _ hv => { hv with } }
  | @changed kept hkept =>
    have hpaused : e.pause ≠ none ∧ e.pause ≠ some .winding ∧ e.awaits = false := by
      rcases keptBy_cases hkept with hpause | ⟨why, hpause⟩ <;>
        simp [hpause, Entry.awaits, Entry.resuming]
    obtain ⟨hsome, hwinding, hawaits⟩ := hpaused
    have hid : ({ e with pause := some (.changed kept) } : Entry).id = e.id := rfl
    rw [Registry.sendFile, Registry.put_one hlist hid]
    exact h.stays hst hlist rfl rfl rfl { hst with
      unanswered := fun href => absurd (hst.unanswered href).1 hsome
      quiet := fun _ => hst.quiet hawaits
      idle := fun _ _ => hst.idle hsome hwinding
      winding := nofun
      kept := nofun
      asked := nofun
      underway := fun hup => by simp [Entry.underway] at hup }
  | @again kept handle request hkept hrole =>
    have hpaused : e.pause ≠ none ∧ e.pause ≠ some .winding ∧ e.awaits = false ∧
        keptOf e.pause = some kept := by
      rcases keptBy_cases hkept with hpause | ⟨why, hpause⟩ <;>
        simp [hpause, Entry.awaits, Entry.resuming, keptOf]
    obtain ⟨hsome, hwinding, hawaits, hkeptOf⟩ := hpaused
    simp only [Handle.role, Prod.mk.injEq] at hrole
    obtain ⟨-, hupload, hfolder, hgone, href⟩ := hrole
    obtain ⟨asked, trans, trace, heq, hsingle⟩ := hrequest rfl (.file request) (hst.quiet hawaits)
    have hkeeps := hst.kept kept hkeptOf
    rw [Registry.sendFile, heq]
    refine h.stays hst hlist rfl rfl rfl { hst with
      upload := hupload.trans hst.upload
      file := hfolder.trans hst.file
      gone := fun _ => hgone
      unanswered := fun hzero => absurd (hst.unanswered (href.symm.trans hzero)).1 hsome
      single := hsingle
      quiet := nofun
      idle := fun _ _ => hst.idle hsome hwinding
      winding := nofun
      kept := ?_
      asked := ?_
      underway := fun hup => by simp [Entry.underway] at hup }
    · intro kept' hkept'
      obtain rfl : kept = kept' := Option.some.inj hkept'
      exact hkeeps
    · intro kept' _
      refine hkeeps.imp_right ?_
      rintro ⟨v, hv, hdisk, hpartly⟩
      have hnow := hsame rfl kept hkept
      rw [hdisk, h.disk] at hnow
      obtain ⟨w, hw, hstat⟩ := Version.disk_diskOf hnow
      obtain rfl := h.told w (h.known w hw) v hv hstat
      exact ⟨w, hw, hpartly⟩
  | @first handle request hpause hnot hrole =>
    have hzero : e.handle.ref = 0 := by
      by_contra href
      simp [hst.gone href] at hnot
    have hawaits : e.awaits = false := by simp [Entry.awaits, Entry.resuming, hpause, hnot]
    simp only [Handle.role, Prod.mk.injEq] at hrole
    obtain ⟨-, hupload, hfolder, hgone, href⟩ := hrole
    obtain ⟨asked, trans, trace, heq, hsingle⟩ := hrequest rfl (.file request) (hst.quiet hawaits)
    have href' : handle.ref = 0 := href.trans hzero
    rw [Registry.sendFile, heq]
    exact h.stays hst hlist rfl rfl rfl { hst with
      upload := hupload.trans hst.upload
      file := hfolder.trans hst.file
      gone := fun _ => hgone
      unanswered := fun _ => hst.unanswered hzero
      single := hsingle
      quiet := fun hquiet => by
        simp [Entry.awaits, hpause, href', hgone] at hquiet
      winding := fun hwinding => absurd (hpause.symm.trans hwinding) nofun
      kept := fun kept hkept => absurd hkept (by simp [hpause, keptOf])
      asked := fun kept hasked => absurd (hpause.symm.trans hasked) nofun
      underway := fun hup => absurd href' hup.1 }

theorem xferGo (h : Sound u) (hlist : u.registry.list = [e]) (hst : Stands u e) :
    Sound (u.became c (u.registry.xferGo c e)) := by
  rw [Registry.xferGo, if_neg (by simp [hst.file])]
  exact h.sendFile hlist hst (e.went _ _) fun hasks kept hkept =>
    Handle.kept_of_go hst.upload hkept hasks

theorem xferPause (h : Sound u) (hlist : u.registry.list = [e]) (hst : Stands u e) :
    Sound (u.became c (u.registry.xferPause e)) := by
  unfold Registry.xferPause
  split
  next hcan =>
    obtain ⟨hresumable, hworking, hpause⟩ :
        e.resumable = true ∧ e.id ∈ u.registry.working ∧ e.pause = none := by
      simpa [Registry.xferCanPause] using hcan
    rw [hst.id] at hworking
    have hbusy : u.registry.working ≠ [] := List.ne_nil_of_mem hworking
    have href : e.handle.ref ≠ 0 := fun hzero => hbusy (hst.unanswered hzero).2
    have hsmall : e.handle.totalSize ≤ U32_MAX := by
      simpa [Entry.resumable, hst.upload, hst.file] using hresumable
    have hawaits : e.awaits = false := by
      simp [Entry.awaits, Entry.resuming, hpause, href]
    have hid : ({ e with pause := some .winding } : Entry).id = e.id := rfl
    rw [Registry.put_one hlist hid]
    exact h.stays hst hlist rfl rfl rfl { hst with
      unanswered := fun hzero => absurd hzero href
      quiet := fun _ => hst.quiet hawaits
      idle := fun _ hne => absurd rfl hne
      winding := fun _ => ⟨hworking, hsmall⟩
      kept := nofun
      asked := nofun
      underway := fun _ =>
        (hst.underway ⟨href, Or.inl hpause⟩).imp fun _ hv => { hv with } }
  next => exact h.stays hst hlist rfl rfl hlist { hst with
      underway := fun hup => (hst.underway hup).imp fun _ hv => { hv with } }

end Sound

/-- How far an upload is depends on the extents in its handle alone. -/
theorem Underway.congr {u : Uploading} {h h' : Handle} {v : Version} {r : Registry}
    (hv : Underway u h v) (hextent : h'.extent = h.extent)
    (hworking : r.working = u.registry.working) : Underway { u with registry := r } h' v := by
  simp only [Handle.extent, Prod.mk.injEq] at hextent
  obtain ⟨hdataSize, hrsrcSize, hdataPos, hrsrcPos, htotal⟩ := hextent
  have hpos : h'.pos = h.pos := by
    funext f
    cases f <;> assumption
  have hsize : h'.size = h.size := by
    funext f
    cases f <;> assumption
  refine ⟨hv.file, hsize ▸ hv.sizes, hpos ▸ hv.within, ?_, ?_, hv.begins, hpos ▸ hv.reached, ?_, ?_⟩
  · rw [htotal, hpos]
    exact hv.total
  · rw [htotal, hpos]
    exact hv.small
  · rw [hworking, hpos]
    exact hv.waits
  · intro w hw
    obtain ⟨hparams, hwithin, hreceived⟩ := hv.sends w hw
    rw [← hdataSize, ← hrsrcSize, ← hdataPos, ← hrsrcPos, ← htotal] at hparams
    rw [← hpos] at hreceived
    exact ⟨hparams, hwithin, hreceived⟩

/-- An upload that was answered stands so. -/
theorem Stands.ofUnderway {u : Uploading} {e : Entry} {v : Version} (hid : e.id = 0)
    (hupload : e.handle.upload = true) (hfile : e.handle.folder = false)
    (hgone : e.handle.gone = true) (href : e.handle.ref ≠ 0) (hpause : e.pause = none)
    (hasked : u.registry.asked = []) (hunsent : u.registry.working = [] → u.sender = none)
    (honly : ∀ id ∈ u.registry.working, id = 0) (hv : Underway u e.handle v) : Stands u e where
  id := hid
  upload := hupload
  file := hfile
  gone := fun _ => hgone
  unanswered := fun hzero => absurd hzero href
  single := fun a ha => by simp [hasked] at ha
  quiet := fun _ => hasked
  idle := fun hsome => absurd hpause hsome
  unsent := hunsent
  only := honly
  winding := fun hwinding => absurd (hpause.symm.trans hwinding) nofun
  kept := fun kept hkept => by simp [hpause, keptOf] at hkept
  asked := fun kept hasked => absurd (hpause.symm.trans hasked) nofun
  underway := fun _ => ⟨v, hv⟩

/-- A worker starts where the server's forks end. -/
theorem Handle.sender_sends {c : Client} {h : Handle} {w : FileSender} {held : Fork → List UInt8}
    (hpos : ∀ f, (held f).length = h.pos f) (hsender : h.sender c = some w) : Sends held h w := by
  obtain ⟨sized, hconnect, rfl⟩ := Option.map_eq_some_iff.mp hsender
  simp only [Upload.htxfConnect, Option.ite_none_left_eq_some, Option.some.injEq] at hconnect
  obtain ⟨-, rfl⟩ := hconnect
  refine ⟨⟨_, rfl, fun hlarge => ?_⟩, fun f => Nat.zero_le _, fun _ f => hpos f⟩
  simp only [Bool.and_eq_true, decide_eq_true_eq] at hlarge
  exact hlarge.2

namespace Sound

variable {c : Client} {u : Uploading} {e e' : Entry} {r : Registry} {v : Version}

/-- An upload that was answered gets its worker. -/
theorem xferReadyWrite (h : Sound u) (hlist : u.registry.list = [e])
    (hidle : u.registry.working = []) (hlist' : r.list = [e']) (hworking : r.working = [])
    (hasked : r.asked = []) (hdisk : r.disk = u.registry.disk) (hid : e'.id = 0)
    (hupload : e'.handle.upload = true) (hfile : e'.handle.folder = false)
    (hgone : e'.handle.gone = true) (href : e'.handle.ref ≠ 0) (hpause : e'.pause = none)
    (hv : Underway { u with registry := r } e'.handle v) :
    Sound (u.became c (r.xferReadyWrite 0)) := by
  have hpos := (hv.waits hworking).2
  have hready : r.xferReadyWrite 0 =
      { r with
        working := [0]
        trace := .worker 0 (r.list.any (·.id = 0)) (r.pauseOf 0) :: r.trace } := by
    unfold Registry.xferReadyWrite
    rw [Registry.pauseOf_one hlist' hid, hpause, hworking]
    rfl
  have hbecame : u.became c (r.xferReadyWrite 0) =
      { u with registry := r.xferReadyWrite 0, sender := e'.handle.sender c } := by
    rw [hready]
    unfold Uploading.became
    rw [if_neg (List.cons_ne_nil _ _), if_pos hidle]
    rw [Registry.find?_one (r := { r with
      working := [0]
      trace := .worker 0 (r.list.any (·.id = 0)) (r.pauseOf 0) :: r.trace }) hlist' hid]
    rfl
  rw [hbecame, hready]
  exact { h with
    disk := hdisk.trans h.disk
    complete := fun both hcomplete =>
      absurd (hcomplete.symm.trans (h.incomplete hlist)) (Option.some_ne_none both)
    place := Or.inr ⟨e', hlist', .ofUnderway hid hupload hfile hgone href hpause hasked
      (fun hnone => absurd hnone (List.cons_ne_nil _ _)) (by simp) { hv with
        waits := fun hnone => absurd hnone (List.cons_ne_nil _ _)
        sends := fun w hw => Handle.sender_sends hpos hw }⟩ }

/-- An upload that was answered goes, or waits for its turn. -/
theorem announce {e₁ : Entry} {queue : UInt32} (h : Sound u) (hlist : u.registry.list = [e])
    (hidle : u.registry.working = []) (hlist' : r.list = [e₁]) (hasked : r.asked = [])
    (hworking : r.working = []) (hdisk : r.disk = u.registry.disk) (hid₁ : e₁.id = 0)
    (hid : e'.id = 0) (hupload : e'.handle.upload = true) (hfile : e'.handle.folder = false)
    (hgone : e'.handle.gone = true) (href : e'.handle.ref ≠ 0) (hpause : e'.pause = none)
    (hv : ∀ r' : Registry, Underway { u with registry := r' } e'.handle v) :
    Sound (u.became c ((r.put e').hxXferAnnounce 0 queue)) := by
  rw [Registry.put_one hlist' (hid.trans hid₁.symm)]
  unfold Registry.hxXferAnnounce
  split
  · exact h.xferReadyWrite hlist hidle rfl hworking hasked hdisk hid hupload hfile hgone href hpause
      (hv _)
  · have hbecame : u.became c { r with list := [e'] } =
        { u with registry := { r with list := [e'] }, sender := none } := by
      rw [Uploading.became, if_pos hworking]
    rw [hbecame]
    exact { h with
      disk := hdisk.trans h.disk
      complete := fun both hcomplete =>
        absurd (hcomplete.symm.trans (h.incomplete hlist)) (Option.some_ne_none both)
      place := Or.inr ⟨e', rfl, .ofUnderway hid hupload hfile hgone href hpause hasked
        (fun _ => rfl) (by simp [hworking]) { hv r with
          waits := fun _ => ⟨rfl, ((hv { r with working := [] }).waits rfl).2⟩
          sends := nofun }⟩ }

/-- An upload that awaits its answer has no worker. -/
theorem idle_of_awaits (hst : Stands u e) (hawaits : e.awaits = true) :
    ¬e.underway ∧ u.registry.working = [] := by
  rcases hpause : e.pause with _ | pause
  · obtain ⟨href, -⟩ : e.handle.ref = 0 ∧ e.handle.gone = true := by
      simpa [Entry.awaits, Entry.resuming, hpause] using hawaits
    exact ⟨fun hup => hup.1 href, (hst.unanswered href).2⟩
  · cases pause with
    | asked kept =>
      exact ⟨by simp [Entry.underway, hpause], hst.idle (by simp [hpause]) (by simp [hpause])⟩
    | restarted kept =>
      exact ⟨by simp [Entry.underway, hpause], hst.idle (by simp [hpause]) (by simp [hpause])⟩
    | _ => simp [Entry.awaits, Entry.resuming, hpause] at hawaits

/-- The upload is removed. -/
theorem xferDelete (h : Sound u) (hlist : u.registry.list = [e]) (hlist' : r.list = [e'])
    (hasked : r.asked = []) (hworking : r.working = []) (hdisk : r.disk = u.registry.disk) :
    Sound (u.became c (r.xferDelete c e'.id)) := by
  have hone : ({ r with trace := .delete e'.id :: r.trace } : Registry).list = [e'] := hlist'
  rw [Registry.xferDelete, Registry.xferRemoveFromList_one hone]
  exact h.leaves hlist hdisk rfl hasked hworking

/-- An upload the server refused is asked for from the start, paused again or removed. -/
theorem uploadRefused (h : Sound u) (hlist : u.registry.list = [e]) (hst : Stands u e)
    (hasked : u.registry.asked = []) (hawaits : e.awaits = true) :
    Sound (u.became c (u.registry.uploadRefused c e)) := by
  obtain ⟨hup, hworking⟩ := idle_of_awaits hst hawaits
  unfold Registry.uploadRefused
  split
  next _ kept hpause =>
    have hkeeps := hst.kept kept (by simp [hpause, keptOf])
    have hid : ({ e with pause := some (.restarted kept) } : Entry).id = e.id := rfl
    dsimp only
    rw [if_neg (by simp [hst.file]), Registry.put_one hlist hid]
    obtain ⟨asked, trans, trace, heq, hone⟩ := Registry.expectTransfer_eq c
      { u.registry with list := [{ e with pause := some (.restarted kept) }] } e.id
      (.file (e.handle.goPut (c.large e.htlc) none))
    rw [heq]
    refine h.stays hst hlist rfl rfl rfl { hst with
      unanswered := fun hzero => absurd (hpause.symm.trans (hst.unanswered hzero).1) nofun
      single := ?_
      quiet := nofun
      idle := fun _ _ => hworking
      winding := nofun
      kept := ?_
      asked := nofun
      underway := fun hup => by simp [Entry.underway] at hup }
    · intro a ha
      rcases hone with rfl | ⟨n, rfl⟩
      · simp [hasked] at ha
      · simp only [hasked, List.nil_append, List.mem_singleton] at ha ⊢
        exact ⟨by rw [ha]; exact hst.id, by rw [ha]⟩
    · intro kept' hkept'
      obtain rfl : kept = kept' := Option.some.inj hkept'
      exact hkeeps
  next _ kept hpause =>
    have hkeeps := hst.kept kept (by simp [hpause, keptOf])
    have hid : ({ e with pause := some (.paused kept) } : Entry).id = e.id := rfl
    rw [Registry.put_one hlist hid, Registry.startNext_one rfl rfl]
    refine h.stays hst hlist rfl rfl rfl { hst with
      unanswered := fun hzero => absurd (hpause.symm.trans (hst.unanswered hzero).1) nofun
      quiet := fun _ => hasked
      idle := fun _ _ => hworking
      winding := nofun
      kept := ?_
      asked := nofun
      underway := fun hup => by simp [Entry.underway] at hup }
    intro kept' hkept'
    obtain rfl : kept = kept' := Option.some.inj hkept'
    exact hkeeps
  next =>
    exact h.xferDelete hlist hlist hasked hworking rfl

/-- An upload that was answered is of the local file as it is, from where the server's ends. -/
theorem located_underway {t : Transfer} (hfile : u.file = some v)
    (hdisk : u.registry.disk = diskOf u.file)
    (hlens : (u.held .data).length = t.dataFrom.toNat ∧
      (u.held .resource).length = t.rsrcFrom.toNat)
    (hfrom : (∀ f, u.held f = []) ∨ Partly u.held v) (hsender : u.sender = none) :
    Underway { u with registry := r }
      { u.registry.located e t with
        totalSize := Upload.uploadTotal (u.registry.located e t).dataSize
          (u.registry.located e t).rsrcSize (u.registry.located e t).dataPos
          (u.registry.located e t).rsrcPos
          (u.registry.disk.commentLen (u.registry.located e t).path)
        ref := t.reference } v := by
  rw [hfile] at hdisk
  have hdata : (u.registry.located e t).dataSize = v.file.data.length := by
    simp [Registry.located, hdisk, diskOf, Version.stat]
  have hrsrc : (u.registry.located e t).rsrcSize = v.file.resourceLen := by
    simp [Registry.located, hdisk, diskOf]
  have hcomment : u.registry.disk.commentLen (u.registry.located e t).path = v.file.commentLen := by
    simp [hdisk, diskOf]
  have hdataPos : (u.registry.located e t).dataPos = (u.held .data).length := hlens.1.symm
  have hrsrcPos : (u.registry.located e t).rsrcPos = (u.held .resource).length := hlens.2.symm
  rw [hdata, hrsrc, hcomment, hdataPos, hrsrcPos]
  have hpos : ∀ f, Handle.pos { u.registry.located e t with
      totalSize := Upload.uploadTotal v.file.data.length v.file.resourceLen
        (u.held .data).length (u.held .resource).length v.file.commentLen
      ref := t.reference } f = (u.held f).length := by
    intro f
    cases f with
    | data => exact hdataPos
    | resource => exact hrsrcPos
  have hbegins : Begins u.held v := hfrom.elim (fun h => begins_of_empty h v) Partly.begins
  refine ⟨hfile, fun f => ?_, fun f => ?_, ?_, fun f hf => ?_, hbegins, fun f => (hpos f).le,
    fun _ => ⟨hsender, fun f => (hpos f).symm⟩, fun w hw => ?_⟩
  · cases f with
    | data => exact hdata
    | resource => exact hrsrc.trans v.honest.resource_eq
  · rw [hpos f]
    exact (hbegins f).length_le
  · rw [Version.total, hpos, hpos]
  · rw [hpos f] at hf
    rcases hfrom with hempty | hpartly
    · simp [hempty f] at hf
    · exact hpartly.small
  · exact absurd (hsender.symm.trans hw) nofun

/-- The answer to an upload sizes it, and lets it go. -/
theorem uploadReady (h : Sound u) (hlist : u.registry.list = [e]) (hst : Stands u e)
    (hasked : u.registry.asked = []) (hawaits : e.awaits = true) {t : Transfer}
    (hfile : u.file = some v)
    (hlens : t.reference ≠ 0 → (u.held .data).length = t.dataFrom.toNat ∧
      (u.held .resource).length = t.rsrcFrom.toNat)
    (hfrom : t.reference ≠ 0 → (∀ f, u.held f = []) ∨ Partly u.held v) :
    Sound (u.became c (u.registry.uploadReady c e t)) := by
  obtain ⟨hup, hworking⟩ := idle_of_awaits hst hawaits
  have hsender := hst.unsent hworking
  have hstays (pause : Pause) (hpause : e.pause ≠ none) (hchanged : ∃ kept, pause = .changed kept) :
      Sound (u.became c ((u.registry.put
        { e with handle := u.registry.located e t, pause := some pause }).startNext c)) := by
    obtain ⟨kept, rfl⟩ := hchanged
    have hid : ({ e with handle := u.registry.located e t, pause := some (.changed kept) } :
      Entry).id = e.id := rfl
    rw [Registry.put_one hlist hid, Registry.startNext_one rfl rfl]
    exact h.stays hst hlist rfl rfl rfl { hst with
      unanswered := fun hzero => absurd (hst.unanswered hzero).1 hpause
      quiet := fun _ => hasked
      idle := fun _ _ => hworking
      winding := nofun
      kept := nofun
      asked := nofun
      underway := fun hup => by simp [Entry.underway] at hup }
  unfold Registry.uploadReady
  split
  next => exact h.stays hst hlist rfl rfl hlist { hst with
      underway := fun hup' => absurd hup' hup }
  next href =>
    rw [if_neg (by simp [hst.file])]
    dsimp only
    split
    next =>
      split
      next _ kept hpause => exact hstays _ (by simp [hpause]) ⟨kept, rfl⟩
      next _ kept hpause => exact hstays _ (by simp [hpause]) ⟨kept, rfl⟩
      next hasked' hrestarted =>
        have hnone : e.pause = none := by
          rcases hpause : e.pause with _ | pause
          · rfl
          · cases pause with
            | asked kept => exact absurd hpause (hasked' kept)
            | restarted kept => exact absurd hpause (hrestarted kept)
            | _ => simp [Entry.awaits, Entry.resuming, hpause] at hawaits
        have hid : ({ e with handle := u.registry.located e t } : Entry).id = e.id := rfl
        rw [Registry.uploadRefused_none (by exact hnone), Registry.put_one hlist hid]
        exact h.xferDelete hlist rfl hasked hworking rfl
    next =>
      have hpause : e.answered.pause = none := Entry.answered_pause hawaits
      have hgone : e.handle.gone = true := by
        by_cases hzero : e.handle.ref = 0
        · have hnone := (hst.unanswered hzero).1
          simpa [Entry.awaits, Entry.resuming, hnone, hzero] using hawaits
        · exact hst.gone hzero
      have hv (r : Registry) :=
        located_underway (e := e) (r := r) hfile h.disk (hlens href) (hfrom href) hsender
      unfold Registry.goAnswered
      rw [hst.id]
      split
      · exact h.announce hlist hworking hlist hasked hworking rfl hst.id hst.id hst.upload hst.file
          hgone href hpause hv
      · exact h.announce hlist hworking hlist hasked hworking rfl hst.id hst.id hst.upload hst.file
          hgone href hpause hv

/-- Once its request is answered or refused, none is in flight. -/
theorem popped (h : Sound u) (hlist : u.registry.list = [e]) (hst : Stands u e)
    (trace : List Note) :
    Sound { u with registry := { u.registry with asked := [], trace := trace } } ∧
      Stands { u with registry := { u.registry with asked := [], trace := trace } } e := by
  have hst' : Stands { u with registry := { u.registry with asked := [], trace := trace } } e :=
    { hst with
      single := nofun
      quiet := fun _ => rfl
      underway := fun hup => (hst.underway hup).imp fun _ hv => { hv with } }
  exact ⟨{ h with
    complete := fun both hcomplete =>
      absurd (hcomplete.symm.trans (h.incomplete hlist)) (Option.some_ne_none both)
    place := Or.inr ⟨e, hlist, hst'⟩ }, hst'⟩

/-- What is in flight is the upload's only request. -/
theorem awaited {a : Asked} {asked : List Asked} (hst : Stands u e)
    (ha : u.registry.asked = a :: asked) :
    a.id = 0 ∧ u.registry.asked = [a] ∧ e.awaits = true := by
  obtain ⟨hid, hone⟩ := hst.single a (by simp [ha])
  refine ⟨hid, hone, ?_⟩
  by_contra hquiet
  have hnone := hst.quiet (by simpa using hquiet)
  rw [hone] at hnone
  cases hnone

theorem replied {a : Asked} {asked : List Asked} (h : Sound u) (hlist : u.registry.list = [e])
    (hst : Stands u e) (ha : u.registry.asked = a :: asked) {t : Transfer}
    (hfile : u.file = some v)
    (hlens : t.reference ≠ 0 → (u.held .data).length = t.dataFrom.toNat ∧
      (u.held .resource).length = t.rsrcFrom.toNat)
    (hfrom : t.reference ≠ 0 → (∀ f, u.held f = []) ∨ Partly u.held v) :
    Sound (u.became c (u.registry.replied c a.trans t)) := by
  obtain ⟨hid, hone, hawaits⟩ := awaited hst ha
  obtain ⟨hsound, hst'⟩ :=
    h.popped hlist hst (.reply a.id a.trans t.reference :: u.registry.trace)
  have hfind : u.registry.asked.find? (·.trans = a.trans) = some a := by simp [hone]
  have herase : u.registry.asked.erase a = [] := by simp [hone]
  unfold Registry.replied
  rw [hfind]
  dsimp only
  rw [herase, hid, Registry.find?_one (by exact hlist) hst.id]
  dsimp only
  rw [if_pos hst.upload]
  rw [hid] at hsound hst'
  exact hsound.uploadReady hlist hst' rfl hawaits hfile hlens hfrom

theorem refused {a : Asked} {asked : List Asked} (h : Sound u) (hlist : u.registry.list = [e])
    (hst : Stands u e) (ha : u.registry.asked = a :: asked) :
    Sound (u.became c (u.registry.refused c a.trans)) := by
  obtain ⟨hid, hone, hawaits⟩ := awaited hst ha
  obtain ⟨hsound, hst'⟩ := h.popped hlist hst u.registry.trace
  have hfind : u.registry.asked.find? (·.trans = a.trans) = some a := by simp [hone]
  have herase : u.registry.asked.erase a = [] := by simp [hone]
  unfold Registry.refused
  rw [hfind]
  dsimp only
  rw [herase, hid, Registry.find?_one (by exact hlist) hst.id]
  dsimp only
  rw [if_pos hst.upload]
  exact hsound.uploadRefused hlist hst' rfl hawaits

/-- The upload's turn comes in the server's queue. -/
theorem queued (h : Sound u) (hlist : u.registry.list = [e]) (hst : Stands u e)
    (href : e.handle.ref ≠ 0) :
    Sound (u.became c (u.registry.queued e.htlc e.handle.ref 0)) := by
  have hfind : u.registry.list.find?
      (fun x => x.htlc = e.htlc ∧ x.handle.ref = e.handle.ref) = some e := by simp [hlist]
  let moved : Entry := { e with handle := { e.handle with queue := 0 } }
  have hput : u.registry.put moved = { u.registry with list := [moved] } :=
    Registry.put_one hlist rfl
  unfold Registry.queued
  rw [hfind]
  change Sound (u.became c ((u.registry.put moved).hxXferAnnounce e.id 0))
  rw [hput, Registry.hxXferAnnounce, if_pos rfl, hst.id]
  by_cases hbusy : e.pause.isSome = true ∨ 0 ∈ u.registry.working
  · have hpauseOf : ({ u.registry with list := [moved] } : Registry).pauseOf 0 = e.pause :=
      Registry.pauseOf_one (e := moved) rfl hst.id
    rw [Registry.xferReadyWrite, hpauseOf, if_pos hbusy]
    exact h.stays hst hlist rfl rfl rfl { hst with
      underway := fun hup => (hst.underway hup).imp fun _ hv => hv.congr rfl rfl }
  · obtain ⟨hsome, hout⟩ := not_or.mp hbusy
    have hpause : e.pause = none := by simpa using hsome
    have hidle : u.registry.working = [] :=
      List.eq_nil_iff_forall_not_mem.mpr fun id hin => hout (hst.only id hin ▸ hin)
    have hawaits : e.awaits = false := by simp [Entry.awaits, Entry.resuming, hpause, href]
    obtain ⟨v, hv⟩ := hst.underway ⟨href, Or.inl hpause⟩
    exact h.xferReadyWrite hlist hidle rfl hidle (hst.quiet hawaits) rfl hst.id hst.upload
      hst.file (hst.gone href) href hpause (hv.congr rfl rfl)

/-- The upload is kept, its worker returned, as a part of its file as it is. -/
theorem hold (h : Sound u) (hlist : u.registry.list = [e]) (hlist' : r.list = [e'])
    (hasked : r.asked = []) (hworking : r.working = []) (hdisk : r.disk = u.registry.disk)
    (hid : e'.id = 0) (hupload : e'.handle.upload = true) (hfolder : e'.handle.folder = false)
    (hgone : e'.handle.gone = true) (href : e'.handle.ref ≠ 0) (hfile : u.file = some v)
    (hpartly : Partly u.held v) {pause : Disk → Pause}
    (hpause : ∀ kept, keptBy (some (pause kept)) = some kept) :
    Sound (u.became c (r.hold c e' pause)) := by
  have hkept : r.disk.disk e'.handle.path = v.disk := by
    rw [hdisk, h.disk, hfile]
    rfl
  let kept : Entry := { e' with pause := some (pause v.disk) }
  have hstops : kept.paused = true ∧ kept.pause ≠ some .winding ∧ keptOf kept.pause = some v.disk ∧
      kept.resuming = false := by
    rcases keptBy_cases (hpause v.disk) with hp | ⟨why, hp⟩ <;>
      simp [Entry.paused, Entry.resuming, keptOf, kept, hp]
  obtain ⟨hpaused, hwinding, hkeptOf, hresuming⟩ := hstops
  have hheld : r.hold c e' pause = { r with list := [kept] } := by
    unfold Registry.hold
    dsimp only
    rw [if_neg (by simp [hfolder]), hkept, Registry.put_one hlist' (show kept.id = e'.id from rfl),
      Registry.startNext_one rfl hpaused]
  have hbecame : u.became c { r with list := [kept] } =
      { u with registry := { r with list := [kept] }, sender := none } := by
    rw [Uploading.became, if_pos hworking]
  rw [hheld, hbecame]
  refine { h with
    disk := hdisk.trans h.disk
    complete := fun both hcomplete =>
      absurd (hcomplete.symm.trans (h.incomplete hlist)) (Option.some_ne_none both)
    place := Or.inr ⟨kept, rfl, ?_⟩ }
  exact {
    id := hid
    upload := hupload
    file := hfolder
    gone := fun _ => hgone
    unanswered := fun hzero => absurd hzero href
    single := fun a ha => by simp [hasked] at ha
    quiet := fun _ => hasked
    idle := fun _ _ => hworking
    unsent := fun _ => rfl
    only := by simp [hworking]
    winding := fun h => absurd h hwinding
    kept := fun kept' hkept' => Or.inr ⟨v, h.known v hfile,
      Option.some.inj (hkept'.symm.trans hkeptOf), hpartly⟩
    asked := fun kept' h => by simp [Entry.resuming, h] at hresuming
    underway := fun hup => by simp [Entry.underway, kept, hwinding] at hup }

/-- The upload's worker returned, and no pause keeps it. -/
theorem cleanUp (h : Sound u) (hlist : u.registry.list = [e]) (hlist' : r.list = [e'])
    (hasked : r.asked = []) (hworking : r.working = []) (hdisk : r.disk = u.registry.disk)
    (hid : e'.id = 0) (hupload : e'.handle.upload = true) (hfolder : e'.handle.folder = false)
    (hgone : e'.handle.gone = true) (href : e'.handle.ref ≠ 0) (hfile : u.file = some v)
    (hpartly : e'.handle.totalSize ≤ U32_MAX → Partly u.held v) (failed : Option Failure) :
    Sound (u.became c (r.cleanUp c e' failed)) := by
  have hremoved : Sound (u.became c (r.xferRemoveFromList c e'.id)) := by
    rw [Registry.xferRemoveFromList_one hlist']
    exact h.leaves hlist hdisk rfl hasked hworking
  unfold Registry.cleanUp
  split
  next why =>
    split
    next hboth =>
      have hsmall : e'.handle.totalSize ≤ U32_MAX := by
        simpa [Entry.resumable, hupload, hfolder] using hboth.2
      exact h.hold hlist hlist' hasked hworking hdisk hid hupload hfolder hgone href hfile
        (hpartly hsmall) fun _ => rfl
    next => exact hremoved
  next => exact hremoved

end Sound

theorem Uploading.sends_held (u : Uploading) (w : FileSender) (n : ℕ) (f : Fork) :
    (u.sends w n).held f =
      if f = w.fork ∧ w.lost = false then u.held f ++ w.reads u.file n else u.held f := rfl

theorem FileSender.sending_sent (w : FileSender) (piece : List UInt8) (f : Fork) :
    (w.sending piece).sent f = if f = w.fork then w.sent f + piece.length else w.sent f := rfl

theorem FileSender.sending_left (w : FileSender) (piece : List UInt8) (f : Fork) :
    (w.sending piece).left f = w.left f := by
  cases f <;> rfl

namespace Sound

variable {c : Client} {u : Uploading} {e e' : Entry} {r : Registry} {v : Version}

/-- An upload with a worker was answered. -/
theorem underway_of_working (hst : Stands u e) (hworking : u.registry.working ≠ []) :
    e.underway ∧ u.registry.asked = [] := by
  have href : e.handle.ref ≠ 0 := fun hzero => hworking (hst.unanswered hzero).2
  have hpause : e.pause = none ∨ e.pause = some .winding := by
    by_contra hne
    obtain ⟨hsome, hwinding⟩ := not_or.mp hne
    exact hworking (hst.idle hsome hwinding)
  refine ⟨⟨href, hpause⟩, hst.quiet ?_⟩
  rcases hpause with hpause | hpause <;> simp [Entry.awaits, Entry.resuming, hpause, href]

/-- What the server holds of a small upload is a part of its file that can be resumed. -/
theorem partly_of_underway {h : Handle} (hv : Underway u h v) (hsmall : h.totalSize ≤ U32_MAX) :
    Partly u.held v := by
  refine ⟨hv.begins, le_trans ?_ hsmall⟩
  rw [hv.total]
  exact Version.total_le hv.reached fun f => (hv.begins f).length_le

theorem returned (h : Sound u) (hlist : u.registry.list = [e]) (hst : Stands u e)
    (hworking : 0 ∈ u.registry.working) (failed : Option Failure) (totalPos : ℕ) :
    Sound (u.became c (u.registry.returned c 0 (failed.elim .done .failed) totalPos)) := by
  obtain ⟨hup, hasked⟩ := underway_of_working hst (List.ne_nil_of_mem hworking)
  obtain ⟨v, hv⟩ := hst.underway hup
  have hnone : u.registry.working.filter (· ≠ 0) = [] :=
    List.filter_eq_nil_iff.mpr fun id hin => by simpa using hst.only id hin
  let moved : Entry := Registry.movedTo e (failed.elim .done .failed) totalPos
  have hpartly (hsmall : moved.handle.totalSize ≤ U32_MAX) : Partly u.held v :=
    partly_of_underway hv hsmall
  let ran : Registry := ({ u.registry with working := [], list := [moved] } : Registry).setRun 0
    (Registry.ranTo { u.registry with working := [] } moved (failed.elim .done .failed))
  have hstop (resumed : Bool) : moved.stopBy resumed (failed.elim .done .failed) = none := by
    cases failed <;> rfl
  have hfailed (resumed : Bool) :
      moved.failedBy resumed (failed.elim .done .failed) = failed := by
    cases failed <;> rfl
  have hreturned : u.registry.returned c 0 (failed.elim .done .failed) totalPos =
      ran.settled c moved none failed := by
    have hput : ({ u.registry with working := [] } : Registry).put moved =
        { u.registry with working := [], list := [moved] } := Registry.put_one hlist rfl
    unfold Registry.returned
    rw [hnone]
    dsimp only
    rw [Registry.find?_one (e := e) (by exact hlist) hst.id]
    change ((({ u.registry with working := [] } : Registry).put moved).setRun 0 _).settled c moved
      (moved.stopBy _ _) (moved.failedBy _ _) = _
    rw [hput, hstop, hfailed]
  rw [hreturned]
  unfold Registry.settled
  split
  next hwinding =>
    split
    · have hput : ran.put { moved with pause := none } =
          { ran with list := [{ moved with pause := none }] } := Registry.put_one rfl rfl
      rw [hput]
      exact h.cleanUp (r := { ran with list := [{ moved with pause := none }] }) hlist rfl hasked
        rfl rfl hst.id hst.upload hst.file (hst.gone hup.1) hup.1 hv.file hpartly failed
    · exact h.hold (r := ran) hlist rfl hasked rfl rfl hst.id hst.upload hst.file (hst.gone hup.1)
        hup.1 hv.file (hpartly (hst.winding hwinding).2) fun _ => rfl
  next =>
    exact h.cleanUp (r := ran) hlist rfl hasked rfl rfl hst.id hst.upload hst.file
      (hst.gone hup.1) hup.1 hv.file hpartly failed

/-- A worker that sent all and lost nothing leaves all of a version at the server. -/
theorem whole_of_through {h : Handle} {w : FileSender} (hv : Underway u h v)
    (hw : Sends u.held h w) (hthrough : w.through) (hkept : w.lost = false) :
    u.held .data = v.bytes .data ∧ (w.both = true → u.held .resource = v.bytes .resource) := by
  obtain ⟨⟨large, hparams, hlarge⟩, -, hreceived⟩ := hw
  have hfits := v.honest.fits
  have hrsrcLen : v.file.resourceLen = (v.bytes .resource).length := v.honest.resource_eq
  have hdataLen : v.file.data.length = (v.bytes .data).length := rfl
  have hdata : h.dataSize = (v.bytes .data).length := hv.sizes .data
  have hrsrc : h.rsrcSize = (v.bytes .resource).length := hv.sizes .resource
  have hdataPos : h.dataPos ≤ (v.bytes .data).length := hv.within .data
  have hrsrcPos : h.rsrcPos ≤ (v.bytes .resource).length := hv.within .resource
  have hdataHeld : (u.held .data).length = h.dataPos + w.sent .data := hreceived hkept .data
  have hrsrcHeld : (u.held .resource).length = h.rsrcPos + w.sent .resource :=
    hreceived hkept .resource
  have hdataSub : Upload.wrappingSub64 h.dataSize h.dataPos = h.dataSize - h.dataPos :=
    Upload.wrappingSub64_eq (by omega) (by omega)
  have hrsrcSub : Upload.wrappingSub64 h.rsrcSize h.rsrcPos = h.rsrcSize - h.rsrcPos :=
    Upload.wrappingSub64_eq (by omega) (by omega)
  have hdataLeft : w.params.dataLeft = h.dataSize - h.dataPos := by
    rw [hparams]
    exact hdataSub
  have hrsrcLeft : w.params.rsrcLeft = h.rsrcSize - h.rsrcPos := by
    rw [hparams]
    exact hrsrcSub
  constructor
  · refine eq_of_begins hv.begins ?_
    have hsent := hthrough.1
    have hsize : w.params.dataSize = h.dataSize := by rw [hparams]
    by_cases hbig : w.params.optLarge = true
    · -- A large upload goes on from nothing.
      have hzero : h.dataPos = 0 := by
        by_contra hne
        have hsmall := hv.small .data (Nat.pos_of_ne_zero hne)
        have hmore := hlarge (by rw [hparams] at hbig; exact hbig)
        omega
      rw [FileSender.left, if_pos hbig] at hsent
      omega
    · rw [FileSender.left, if_neg hbig] at hsent
      omega
  · intro hboth
    obtain ⟨hflat, hend⟩ : w.params.optLarge = false ∧ w.sent .resource = w.left .resource := by
      simpa [FileSender.both] using hboth
    rw [FileSender.left, if_neg (by simp [hflat])] at hend
    refine eq_of_begins hv.begins ?_
    omega

/-- A read of the local file goes to the server behind what it holds. -/
theorem sends (h : Sound u) (hlist : u.registry.list = [e]) (hst : Stands u e) {w : FileSender}
    (hw : u.sender = some w) (n : ℕ) : Sound (u.sends w n) := by
  have hworking : u.registry.working ≠ [] := fun hnone =>
    absurd ((hst.unsent hnone).symm.trans hw) nofun
  obtain ⟨hup, hasked⟩ := underway_of_working hst hworking
  obtain ⟨v, hv⟩ := hst.underway hup
  obtain ⟨⟨large, hparams, hlarge⟩, hwithin, hreceived⟩ := hv.sends w hw
  have horigin : ∀ f, w.origin f = e.handle.pos f := by
    intro f
    cases f with
    | data =>
      by_cases hbig : large = true
      · have hzero : e.handle.dataPos = 0 := by
          by_contra hne
          have hsmall := hv.small .data (Nat.pos_of_ne_zero hne)
          have hmore := hlarge hbig
          omega
        simp [FileSender.origin, hparams, hbig, Handle.pos, hzero]
      · simp [FileSender.origin, hparams, hbig, Handle.pos]
    | resource => simp [FileSender.origin, hparams, Handle.pos]
  have hpiece : w.reads u.file n =
      ((v.bytes w.fork).drop (e.handle.pos w.fork + w.sent w.fork)).take
      (min n (w.left w.fork - w.sent w.fork)) := by
    rw [hv.file, ← horigin]
    rfl
  have hlen : (w.reads u.file n).length ≤ w.left w.fork - w.sent w.fork := by
    rw [hpiece]
    exact (List.length_take_le _ _).trans (min_le_right _ _)
  have hbegins : Begins (u.sends w n).held v := by
    intro f
    rw [Uploading.sends_held]
    split
    next hboth =>
      obtain ⟨rfl, hkept⟩ := hboth
      rw [hpiece, ← hreceived hkept]
      exact begins_append (hv.begins _) _
    next => exact hv.begins f
  have hmore : ∀ f, (u.held f).length ≤ ((u.sends w n).held f).length := by
    intro f
    rw [Uploading.sends_held]
    split
    · rw [List.length_append]
      exact Nat.le_add_right _ _
    · exact le_rfl
  have hsends : Sends (u.sends w n).held e.handle (w.sending (w.reads u.file n)) := by
    refine ⟨⟨large, hparams, hlarge⟩, fun f => ?_, fun hkept f => ?_⟩
    · have hbefore := hwithin f
      rw [FileSender.sending_left, FileSender.sending_sent]
      split
      next hfork =>
        subst hfork
        omega
      next => exact hbefore
    · have hbefore := hreceived hkept f
      rw [Uploading.sends_held, FileSender.sending_sent]
      by_cases hfork : f = w.fork
      · rw [if_pos ⟨hfork, hkept⟩, if_pos hfork, List.length_append]
        omega
      · rw [if_neg fun hboth => hfork hboth.1, if_neg hfork]
        exact hbefore
  have hpause := hup.2
  exact { h with
    begins := ⟨v, h.known v hv.file, hbegins⟩
    complete := fun both hcomplete =>
      absurd (hcomplete.symm.trans (h.incomplete hlist)) (Option.some_ne_none both)
    place := Or.inr ⟨e, hlist, { hst with
      unsent := fun hnone => absurd hnone hworking
      kept := fun kept hkept => by rcases hpause with hp | hp <;> simp [keptOf, hp] at hkept
      asked := fun kept hasked => by rcases hpause with hp | hp <;> simp [hp] at hasked
      underway := fun _ => ⟨v, { hv with
        begins := hbegins
        reached := fun f => (hv.reached f).trans (hmore f)
        waits := fun hnone => absurd hnone hworking
        sends := fun w' hw' => Option.some.inj hw' ▸ hsends }⟩ }⟩ }

/-- The connection is lost. -/
theorem loses (h : Sound u) (hlist : u.registry.list = [e]) (hst : Stands u e) {w : FileSender}
    (hw : u.sender = some w) : Sound { u with sender := some { w with lost := true } } := by
  have hworking : u.registry.working ≠ [] := fun hnone =>
    absurd ((hst.unsent hnone).symm.trans hw) nofun
  exact { h with
    complete := fun both hcomplete =>
      absurd (hcomplete.symm.trans (h.incomplete hlist)) (Option.some_ne_none both)
    place := Or.inr ⟨e, hlist, { hst with
      unsent := fun hnone => absurd hnone hworking
      underway := fun hup => (hst.underway hup).imp fun _ hv => { hv with
        waits := fun hnone => absurd hnone hworking
        sends := fun w' hw' => Option.some.inj hw' ▸ { hv.sends w hw with received := nofun } } }⟩ }

/-- The local file changes, with nothing of it under way. -/
theorem changes (h : Sound u) {file : Option Version} (htold : Told u (.changes file))
    (hstill : Still u (.changes file)) :
    Sound { u with
      registry := { u.registry with disk := diskOf file }
      file := file
      past := file.toList ++ u.past } where
  disk := rfl
  known v hv := by
    obtain rfl : file = some v := hv
    simp
  told := by
    cases file with
    | none => exact h.told
    | some new =>
      intro v hv w hw hstat
      rcases List.mem_cons.mp hv with rfl | hbefore
      · rcases List.mem_cons.mp hw with rfl | hbefore
        · rfl
        · exact (htold w hbefore hstat.symm).symm
      · rcases List.mem_cons.mp hw with rfl | hbefore'
        · exact htold v hbefore hstat
        · exact h.told v hbefore w hbefore' hstat
  begins := by
    obtain ⟨v, hv, hbegins⟩ := h.begins
    exact ⟨v, List.mem_append_right _ hv, hbegins⟩
  complete both hcomplete := by
    obtain ⟨hlist, v, hv, hwhole⟩ := h.complete both hcomplete
    exact ⟨hlist, v, List.mem_append_right _ hv, hwhole⟩
  place := by
    refine h.place.imp_right ?_
    rintro ⟨e, hlist, hst⟩
    obtain ⟨hup, hempty⟩ := hstill e (by simp [hlist])
    refine ⟨e, hlist, { hst with
      kept := fun kept hkept => (hst.kept kept hkept).imp_right ?_
      asked := fun kept hasked => Or.inl (hempty ?_)
      underway := fun hup' => absurd hup' hup }⟩
    · rintro ⟨v, hv, hpartly⟩
      exact ⟨v, List.mem_append_right _ hv, hpartly⟩
    · rw [Uploading.resuming, Registry.pauseOf_one hlist hst.id, hasked]

/-- The server answers the upload's request. -/
theorem answered {a : Asked} {asked : List Asked} (h : Sound u) (hlist : u.registry.list = [e])
    (hst : Stands u e) (ha : u.registry.asked = a :: asked) {t : Transfer}
    (hanswers : u.Answers t) (hstill : Still u (.answered t)) :
    Sound ({ u with held := u.heldBy t }.became c (u.registry.replied c a.trans t)) := by
  obtain ⟨v, hfile⟩ := Option.ne_none_iff_exists'.mp hstill
  obtain ⟨-, -, hawaits⟩ := awaited hst ha
  obtain ⟨hup, -⟩ := idle_of_awaits hst hawaits
  by_cases hsame : u.resuming = true ∨ t.reference = 0
  · have hheld : u.heldBy t = u.held := if_pos hsame
    rw [hheld]
    refine h.replied hlist hst ha hfile (fun href => ?_) fun href => ?_
    · have hresuming := hsame.resolve_right href
      rw [Uploading.Answers, if_pos hresuming] at hanswers
      exact ⟨hanswers.1.symm, hanswers.2.symm⟩
    · have hresuming := hsame.resolve_right href
      rw [Uploading.resuming, Registry.pauseOf_one hlist hst.id] at hresuming
      split at hresuming
      next _ kept hpause =>
        refine (hst.asked kept hpause).imp_right ?_
        rintro ⟨w, hw, hpartly⟩
        obtain rfl := Option.some.inj (hfile.symm.trans hw)
        exact hpartly
      next => cases hresuming
  · have hheld : u.heldBy t = fun _ => [] := if_neg hsame
    have hempty : ∀ f : Fork, (fun _ => [] : Fork → List UInt8) f = [] := fun _ => rfl
    obtain ⟨w, hw, -⟩ := h.begins
    rw [hheld]
    have hst' : Stands { u with held := fun _ => [] } e := { hst with
      kept := fun _ _ => Or.inl hempty
      asked := fun _ _ => Or.inl hempty
      underway := fun hup' => absurd hup' hup }
    have hsound : Sound { u with held := fun _ => [] } := { h with
      begins := ⟨w, hw, begins_of_empty hempty w⟩
      complete := fun both hcomplete =>
        absurd (hcomplete.symm.trans (h.incomplete hlist)) (Option.some_ne_none both)
      place := Or.inr ⟨e, hlist, hst'⟩ }
    refine hsound.replied hlist hst' ha hfile (fun href => ?_) fun _ => Or.inl hempty
    rw [Uploading.Answers, if_neg (not_or.mp hsame).1] at hanswers
    rw [hanswers.1, hanswers.2]
    exact ⟨rfl, rfl⟩

/-- The upload is in the list while anything of it is left. -/
theorem listed (h : Sound u) (hbusy : u.registry.list ≠ [] ∨ u.registry.asked ≠ [] ∨
    u.registry.working ≠ [] ∨ u.sender ≠ none) :
    ∃ e, u.registry.list = [e] ∧ Stands u e := by
  refine h.place.resolve_left fun ⟨hlist, hasked, hworking, hsender⟩ => ?_
  rcases hbusy with hne | hne | hne | hne
  · exact hne hlist
  · exact hne hasked
  · exact hne hworking
  · exact hne hsender

/-- The upload is done with. -/
theorem completed (h : Sound u) (hlist : u.registry.list = [e]) (hst : Stands u e)
    {w : FileSender} (hw : u.sender = some w) {failed : Option Failure}
    (hthrough : failed = none → w.through) (hsound : Sound (u.became c r)) :
    Sound { u.became c r with complete := w.completed failed r } := by
  unfold FileSender.completed
  split
  next hdone =>
    obtain ⟨⟨hnone, hempty⟩, hkept⟩ : (failed = none ∧ r.list = []) ∧ w.lost = false := by
      simpa using hdone
    have hworking : u.registry.working ≠ [] := fun hidle =>
      absurd ((hst.unsent hidle).symm.trans hw) nofun
    obtain ⟨v, hv⟩ := hst.underway (underway_of_working hst hworking).1
    have hwhole := whole_of_through hv (hv.sends w hw) (hthrough hnone) hkept
    exact { hsound with
      complete := fun both hboth => ⟨hempty, v, h.known v hv.file, hv.begins, hwhole.1,
        fun htrue => hwhole.2 ((Option.some.inj hboth).trans htrue)⟩
      place := Or.inl (hsound.place.resolve_right fun ⟨e, hsingle, _⟩ =>
        absurd (hsingle.symm.trans hempty) (List.cons_ne_nil _ _)) }
  next =>
    have hincomplete : (u.became c r).complete = none := h.incomplete hlist
    rw [← hincomplete]
    exact hsound

/-- Every step keeps the server's file of one version, if the local file changes only while nothing
of it is under way. -/
theorem step (h : Sound u) {event : UploadEvent} (htold : Told u event) (hstill : Still u event)
    {u' : Uploading} (hstep : u.step c event = some u') : Sound u' := by
  cases event with
  | goes =>
    obtain ⟨r, hr, rfl⟩ := Option.map_eq_some_iff.mp hstep
    obtain ⟨e, hfind, rfl⟩ := Option.map_eq_some_iff.mp hr
    obtain ⟨e', hlist, hst⟩ := h.listed (Or.inl (by
      have hmem := (Registry.mem_of_find? hfind).1
      exact List.ne_nil_of_mem hmem))
    obtain rfl := Option.some.inj ((Registry.find?_one hlist hst.id).symm.trans hfind)
    exact h.xferGo hlist hst
  | pauses =>
    obtain ⟨r, hr, rfl⟩ := Option.map_eq_some_iff.mp hstep
    obtain ⟨e, hfind, rfl⟩ := Option.map_eq_some_iff.mp hr
    obtain ⟨e', hlist, hst⟩ := h.listed (Or.inl (by
      have hmem := (Registry.mem_of_find? hfind).1
      exact List.ne_nil_of_mem hmem))
    obtain rfl := Option.some.inj ((Registry.find?_one hlist hst.id).symm.trans hfind)
    exact h.xferPause hlist hst
  | answered t =>
    rw [Uploading.step] at hstep
    split at hstep
    next a asked ha =>
      obtain ⟨e, hlist, hst⟩ := h.listed (Or.inr (Or.inl (by simp [ha])))
      split at hstep
      next hanswers =>
        obtain rfl := Option.some.inj hstep
        exact h.answered hlist hst ha hanswers hstill
      next => cases hstep
    next => cases hstep
  | refused =>
    rw [Uploading.step] at hstep
    split at hstep
    next a asked ha =>
      obtain ⟨e, hlist, hst⟩ := h.listed (Or.inr (Or.inl (by simp [ha])))
      obtain rfl := Option.some.inj hstep
      exact h.refused hlist hst ha
    next => cases hstep
  | turn =>
    rw [Uploading.step] at hstep
    split at hstep
    next e hfind =>
      obtain ⟨e', hlist, hst⟩ := h.listed (Or.inl (by
        have hmem := (Registry.mem_of_find? hfind).1
        exact List.ne_nil_of_mem hmem))
      obtain rfl := Option.some.inj ((Registry.find?_one hlist hst.id).symm.trans hfind)
      split at hstep
      next => cases hstep
      next href =>
        obtain rfl := Option.some.inj hstep
        exact h.queued hlist hst href
    next => cases hstep
  | reads n =>
    obtain ⟨w, hw, rfl⟩ := Option.map_eq_some_iff.mp hstep
    obtain ⟨e, hlist, hst⟩ := h.listed (Or.inr (Or.inr (Or.inr (by simp [hw]))))
    exact h.sends hlist hst hw n
  | loses =>
    obtain ⟨w, hw, rfl⟩ := Option.map_eq_some_iff.mp hstep
    obtain ⟨e, hlist, hst⟩ := h.listed (Or.inr (Or.inr (Or.inr (by simp [hw]))))
    exact h.loses hlist hst hw
  | returned failed totalPos =>
    rw [Uploading.step] at hstep
    split at hstep
    next w hw =>
      split at hstep
      next hthrough =>
        obtain ⟨r, hr, rfl⟩ := Option.map_eq_some_iff.mp hstep
        obtain ⟨e, hlist, hst⟩ := h.listed (Or.inr (Or.inr (Or.inr (by simp [hw]))))
        obtain ⟨hworking, rfl⟩ : 0 ∈ u.registry.working ∧
            u.registry.returned c 0 (failed.elim .done .failed) totalPos = r := by
          simpa [Registry.step] using hr
        exact h.completed hlist hst hw hthrough (h.returned hlist hst hworking failed totalPos)
      next => cases hstep
    next =>
      split at hstep
      next =>
        obtain ⟨r, hr, rfl⟩ := Option.map_eq_some_iff.mp hstep
        obtain ⟨hworking, rfl⟩ : 0 ∈ u.registry.working ∧
            u.registry.returned c 0 (failed.elim .done .failed) totalPos = r := by
          simpa [Registry.step] using hr
        obtain ⟨e, hlist, hst⟩ :=
          h.listed (Or.inr (Or.inr (Or.inl (List.ne_nil_of_mem hworking))))
        exact h.returned hlist hst hworking failed totalPos
      next => cases hstep
  | changes file =>
    obtain rfl := Option.some.inj hstep
    exact h.changes htold hstill

/-- The server's file is of one version, if the local one is still while anything is under way. -/
theorem oneVersion (h : Sound u) : OneVersion u where
  begins := h.begins
  sending w hw := by
    obtain ⟨e, hlist, hst⟩ := h.listed (Or.inr (Or.inr (Or.inr (by simp [hw]))))
    have hworking : u.registry.working ≠ [] := fun hidle =>
      absurd ((hst.unsent hidle).symm.trans hw) nofun
    obtain ⟨v, hv⟩ := hst.underway (underway_of_working hst hworking).1
    exact ⟨v, hv.file, hv.begins⟩
  complete both hboth := (h.complete both hboth).2

end Sound

/-- An upload as it is made is not asked for yet. -/
theorem Sound.start (c : Client) (v : Version) (htlc : ℕ) (path : Path)
    (remotedir remotename : List UInt8) :
    Sound (uploading c v htlc path remotedir remotename).start where
  disk := rfl
  known w hw := by
    obtain rfl : v = w := Option.some.inj hw
    exact List.mem_cons_self
  told w hw x hx _ := (List.mem_singleton.mp hw).trans (List.mem_singleton.mp hx).symm
  begins := ⟨v, List.mem_cons_self, fun _ => List.nil_prefix⟩
  complete := nofun
  place := Or.inr ⟨⟨0, Handle.init htlc path remotedir remotename true 0, none, none⟩, rfl, {
    id := rfl
    upload := rfl
    file := rfl
    gone := fun href => absurd rfl href
    unanswered := fun _ => ⟨rfl, rfl⟩
    single := nofun
    quiet := fun _ => rfl
    idle := fun hsome => absurd rfl hsome
    unsent := fun _ => rfl
    only := nofun
    winding := nofun
    kept := nofun
    asked := nofun
    underway := fun hup => absurd rfl hup.1 }⟩

section Sample

/-- A file of two bytes, and when it was changed. -/
def twoBytes (b : UInt8) (modified : ℕ) : Version where
  file := ⟨[b, b], none, 0, [], 0, .replicate 8 0, .replicate 4 0, .replicate 4 0⟩
  modified := some modified
  honest := ⟨rfl, rfl, (by decide : 151 < 2 ^ 64)⟩

/-- The file changes after its first byte was sent; the upload is paused then, resumed, and sent to
its end. -/
def changedMeanwhile : List UploadEvent :=
  [.goes, .answered ⟨5, 0, 0, 0, 0⟩, .reads 1, .changes (some (twoBytes 2 2)), .pauses,
    .returned (some .lost) 134, .goes, .answered ⟨6, 0, 0, 1, 0⟩, .reads 1, .returned none 134]

/-- It leaves the first byte of the one version and the second of the other. -/
theorem changedMeanwhile_splices :
    (uploading queueing (twoBytes 1 1) 1 [97] [] [97]).Along Told changedMeanwhile ∧
      ¬(uploading queueing (twoBytes 1 1) 1 [97] [] [97]).Throughout OneVersion
        changedMeanwhile := by
  constructor
  · refine Reactive.Process.AlongFrom.along (.cons trivial rfl (.cons trivial rfl
      (.cons trivial rfl ⟨?_, fun _ _ => ⟨trivial, fun _ _ => ⟨trivial, fun _ _ => ⟨trivial,
        fun _ _ => ⟨trivial, fun _ _ => ⟨trivial, fun _ _ => ⟨trivial, fun _ _ =>
          trivial⟩⟩⟩⟩⟩⟩⟩)))
    intro w hw hstat
    obtain rfl := List.mem_singleton.mp hw
    exact absurd hstat (by decide)
  · intro h
    have hend : ((uploading queueing (twoBytes 1 1) 1 [97] [] [97]).run changedMeanwhile).map
        (fun u => (u.complete, u.held .data, u.past.map (·.bytes .data))) =
          some (some true, [1, 2], [[2, 2], [1, 1]]) := by decide +kernel
    obtain ⟨u, hrun, heq⟩ := Option.map_eq_some_iff.mp hend
    simp only [Prod.mk.injEq] at heq
    obtain ⟨hcomplete, hheld, hpast⟩ := heq
    obtain ⟨v, hv, -, hdata, -⟩ := (h _ u (List.prefix_refl _) hrun).complete true hcomplete
    have hmem : v.bytes .data ∈ u.past.map (·.bytes .data) := List.mem_map_of_mem hv
    rw [hpast, ← hdata, hheld] at hmem
    exact absurd hmem (by decide)

end Sample

end Gtkhx.Transfers
