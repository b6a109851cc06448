import Gtkhx.Library.Reactive
import Gtkhx.Transfers.Offsets
import Gtkhx.Transfers.Queue
import Gtkhx.Upload.Announced

/-!
# The registry of transfers

The list of transfers with the tables beside it, and whatever happens to them on the main thread:
what the user does, what the servers answer and refuse, what the workers come to, and the timers of
the queue. No connection closes here. What is done is written down, the newest first.
-/

namespace Gtkhx.Transfers

/-- The request for a transfer. -/
inductive Ask
  | file (request : FileRequest)
  | getFolder (dir name : List UInt8)
  | putFolder (dir name : List UInt8) (totalBytes items : ℕ) (resume : Bool)

/-- What the client is set to, what its servers take, and which requests have chunks that can be
built. -/
structure Client where
  /-- The preference to queue downloads. -/
  queuedl : Bool
  /-- A connection takes large files. -/
  large : ℕ → Bool
  fits : Ask → Bool

/-- What the ledger of a folder transfer says of the folder on the disk. -/
structure FolderDisk where
  /-- The bytes that a resumed download does not ask for. -/
  held : ℕ
  /-- A file that a resumed upload has sent from is not as it was. -/
  changed : Bool
  /-- `put_totals` of the whole folder: its bytes and its entries. -/
  whole : ℕ × ℕ
  /-- `put_totals` of what a resumed upload offers. -/
  left : ℕ × ℕ

/-- The local disk: its files, how long their comments are, and the folder of each folder
transfer. -/
structure LocalDisk extends Files where
  commentLen : Path → ℕ
  folder : ℕ → FolderDisk

/-- Why a transfer failed. -/
inductive Failure
  | unreachable
  | stalled
  | lost
  | errno (err : Htxf.Errno)
  | larger
  deriving DecidableEq

/-- `may_retry`. -/
def Failure.mayRetry : Failure → Bool
  | .larger => false
  | .errno err => err ∉ [Htxf.EFBIG, Htxf.EINVAL, Htxf.ENAMETOOLONG]
  | _ => true

/-- What `tell` returns, for a folder or a file. -/
def Failure.why (folder : Bool) : Failure → ℤ
  | .unreachable => 0
  | .stalled => 1
  | .lost => 2
  | .errno _ => 3
  | .larger => if folder then 5 else 4

/-- Why a resumed folder upload's worker stopped short. -/
inductive Stop
  | changed
  | again
  | reoffer
  deriving DecidableEq

/-- How often in a row a folder upload is asked for again by itself. -/
def AGAIN_TRIES : ℕ := 8

/-- What a folder transfer's last worker left, its ledgers apart; why it stopped short is read as it
returns, if at all before the next one does. -/
structure FolderRun where
  finished : Bool := false
  resumed : Bool := false
  again : ℕ := 0
  reoffered : Bool := false

/-- How a worker ended. -/
inductive End
  | done
  /-- A preview has the part it shows. -/
  | stopped
  /-- A folder upload came to a file that changed, past a folder the server has, or to one that is
  not as it was left. -/
  | short (stop : Stop)
  | failed (why : Failure)

def End.isDone : End → Bool
  | .done => true
  | _ => false

/-- What a server answers a transfer's request with. -/
structure Transfer where
  reference : UInt32
  size : ℕ
  queue : UInt32
  dataFrom : UInt32
  rsrcFrom : UInt32

/-- A request that awaits its reply. -/
structure Asked where
  trans : ℕ
  id : ℕ
  deriving DecidableEq

/-- What is written down of a run. -/
inductive Note
  | request (id trans : ℕ)
  | reply (id trans : ℕ) (reference : UInt32)
  /-- A worker is started, for a transfer in the list or not, with its entry in `PAUSES`. -/
  | worker (id : ℕ) (listed : Bool) (pause : Option Pause)
  | delete (id : ℕ)
  deriving DecidableEq

/-- The list of transfers, each with its entries in `PAUSES` and `QUEUED`, and the tables beside
it. -/
structure Registry where
  list : List Entry
  asked : List Asked
  working : List ℕ
  /-- The pending `queue_retry` timers. -/
  timers : List ℕ
  held : ℕ → ℕ
  runs : ℕ → Option FolderRun
  disk : LocalDisk
  /-- The next transfer's address, and the next request's number. -/
  next : ℕ
  trans : ℕ
  trace : List Note

/-- `QUEUE_TRIES`. -/
def QUEUE_TRIES : ℕ := 5

/-- What a folder transfer keeps of its local file: it has a ledger instead. -/
def FOLDER_KEPT : Disk := ⟨0, none⟩

/-- A transfer as `xfer_init` makes it. -/
def Handle.init (htlc : ℕ) (path : Path) (remotedir remotename : List UInt8) (upload : Bool)
    (size : ℕ) : Handle where
  htlc := htlc
  upload := upload
  folder := false
  preview := false
  path := path
  remotedir := remotedir
  remotename := remotename
  srvDataSize := 0
  gone := false
  ref := 0
  queue := 0
  dataPos := 0
  rsrcPos := 0
  dataSize := 0
  rsrcSize := 0
  totalSize := max size 1
  totalPos := 0
  canceled := false

namespace Entry

variable (e : Entry)

/-- `resumable`. -/
def resumable : Bool :=
  if e.handle.upload then e.handle.folder ∨ e.handle.totalSize ≤ U32_MAX else !e.handle.preview

/-- A file that is not asked for. -/
def fresh : Bool := !e.handle.folder && !e.handle.gone

/-- It is asked for again. -/
def resuming : Bool :=
  match e.pause with
  | some (.asked _) | some (.restarted _) => true
  | _ => false

/-- `answered`: it is not paused any more, nor owed another try. -/
def answered : Entry :=
  { e with
    pause :=
      match e.pause with
      | some (.asked _) | some (.restarted _) => none
      | pause => pause
    tries := none }

/-- What a worker's end says of a failure. -/
def failedBy (resumed : Bool) : End → Option Failure
  | .done => none
  | .failed why => some why
  | .stopped => if e.handle.upload ∨ e.handle.folder then some .lost else none
  | .short stop =>
    if e.handle.upload ∧ e.handle.folder then
      if stop = .changed ∧ resumed = false then some .larger else none
    else some .lost

/-- Why a folder upload's worker stopped short. -/
def stopBy (resumed : Bool) : End → Option Stop
  | .short stop =>
    if e.handle.upload ∧ e.handle.folder ∧ (stop = .changed → resumed) then some stop else none
  | _ => none

end Entry

namespace Registry

variable (c : Client) (r : Registry)

def find? (id : ℕ) : Option Entry := r.list.find? (·.id = id)

/-- `pause_of`. -/
def pauseOf (id : ℕ) : Option Pause := (r.find? id).bind Entry.pause

/-- A transfer of the list is changed. -/
def put (e : Entry) : Registry :=
  { r with list := r.list.map fun x => if x.id = e.id then e else x }

/-- What a folder transfer's workers left is changed. -/
def setRun (id : ℕ) (run : Option FolderRun) : Registry :=
  { r with runs := fun id' => if id' = id then run else r.runs id' }

/-- `set_held`. -/
def setHeld (id bytes : ℕ) : Registry :=
  { r with held := fun id' => if id' = id then bytes else r.held id' }

/-- A request goes out, if it can be built. -/
def expectTransfer (id : ℕ) (ask : Ask) : Registry :=
  if c.fits ask then
    { r with
      asked := r.asked ++ [⟨r.trans, id⟩]
      trans := r.trans + 1
      trace := .request id r.trans :: r.trace }
  else r

/-- A single file's transfer as `xfer_go` leaves it, with its request. -/
def sendFile (e : Entry) : Option FileRequest → Registry
  | some request => (r.put e).expectTransfer c e.id (.file request)
  | none => r.put e

/-- `start_next`. -/
def startNext : Registry :=
  match r.list.find? (fun e => !e.paused) with
  | some e =>
    r.sendFile c ((e.go r.disk.toFiles (c.large e.htlc)).1.tried e.handle.gone)
      (e.go r.disk.toFiles (c.large e.htlc)).2
  | none => r

/-- `xfer_remove_from_list`. -/
def xferRemoveFromList (id : ℕ) : Registry :=
  if r.list.any (·.id = id) then
    ({ r with list := r.list.eraseP (·.id = id) }.setHeld id 0).startNext c
  else r

/-- `xfer_delete`. -/
def xferDelete (id : ℕ) : Registry :=
  { r with trace := .delete id :: r.trace }.xferRemoveFromList c id

/-- `put_totals`, of the whole folder or of what is left to offer of it. -/
def putTotals (id : ℕ) (resume : Bool) : ℕ × ℕ :=
  if resume then (r.disk.folder id).left else (r.disk.folder id).whole

/-- `ask_put_folder`: false if nothing is left to offer. -/
def askPutFolder (e : Entry) (resume : Bool) : Registry × Bool :=
  let totals := r.putTotals e.id resume
  if resume ∧ totals.2 = 0 then (r, false)
  else
    ((r.put { e with
        handle := { e.handle with totalSize := max 1 (min totals.1 U32_MAX) } }).expectTransfer c
      e.id (.putFolder e.handle.remotedir e.handle.remotename totals.1 totals.2 resume), true)

/-- `ask_folder`. -/
def askFolder (e : Entry) : Registry :=
  r.expectTransfer c e.id (.getFolder e.handle.remotedir e.handle.remotename)

/-- `resume_folder`, of a transfer that was kept. -/
def resumeKept (e : Entry) (kept : Disk) : Registry :=
  let e' := { e with handle := { e.handle with totalPos := 0 }, pause := some (.asked kept) }
  if e.handle.upload then
    if (r.runs e.id).isSome ∧ (r.disk.folder e.id).changed then
      r.put { e with pause := some (.changed kept) }
    else
      match ((r.put e').setRun e.id ((r.runs e.id).map fun run =>
          { run with resumed := true, reoffered := false })).askPutFolder c e' true with
      | (r', true) => r'
      | (r', false) => (r'.put { e' with pause := none }).xferRemoveFromList c e.id
  else
    ((r.put e').setHeld e.id
      (if (r.runs e.id).isSome then (r.disk.folder e.id).held else 0)).askFolder c e'

/-- `resume_folder`. -/
def resumeFolder (e : Entry) : Registry :=
  match e.pause with
  | some (.paused kept) | some (.failed kept _) => r.resumeKept c e kept
  | _ => r

/-- `xfer_go`. -/
def xferGo (e : Entry) : Registry :=
  if e.handle.folder then r.resumeFolder c e
  else
    let (h, pause, request) := e.handle.go r.disk.toFiles (c.large e.htlc) e.pause
    r.sendFile c { e with handle := h, pause := pause } request

/-- `xfer_can_pause`. -/
def xferCanPause (e : Entry) : Bool := e.resumable ∧ e.id ∈ r.working ∧ e.pause = none

/-- `xfer_pause`. -/
def xferPause (e : Entry) : Registry :=
  if r.xferCanPause e then r.put { e with pause := some .winding } else r

/-- `xfer_ready_write`. -/
def xferReadyWrite (id : ℕ) : Registry :=
  if (r.pauseOf id).isSome ∨ id ∈ r.working then r
  else
    { r with
      working := r.working ++ [id]
      trace := .worker id (r.list.any (·.id = id)) (r.pauseOf id) :: r.trace }

/-- `hx_xfer_announce`. -/
def hxXferAnnounce (id : ℕ) (queue : UInt32) : Registry :=
  if queue = 0 then r.xferReadyWrite id else r

/-- A transfer whose request was answered goes, or waits in the server's queue: a folder upload
started over builds on nothing. -/
def goAnswered (e : Entry) (h : Handle) (t : Transfer) : Registry :=
  let r := match e.pause with
    | some (.restarted _) => r.setRun e.id none
    | _ => r
  (r.put { e.answered with handle := { h with ref := t.reference } }).hxXferAnnounce e.id t.queue

/-- `download_ready`, for a transfer in the list. -/
def downloadReady (e : Entry) (t : Transfer) : Registry :=
  if t.reference = 0 ∨ e.handle.folder = false ∧ t.size = 0 then r
  else
    let left := if e.handle.folder then t.size - r.held e.id else t.size
    r.goAnswered e { e.handle with totalSize := max left 1, queue := t.queue } t

/-- `queued_refused`, and what `download_refused` does of a transfer that is not the queue's to try
again and asks for no retries. -/
def queuedRefused (e : Entry) : Registry :=
  match e.tries with
  | some n =>
    if n < QUEUE_TRIES then
      { r.put { e with handle := { e.handle with gone := false }, tries := some (n + 1) } with
        timers := r.timers ++ [e.id] }
    else (r.put { e with tries := none }).xferDelete c e.id
  | none => r.xferDelete c e.id

/-- `download_refused`, for a transfer in the list. -/
def downloadRefused (e : Entry) : Registry :=
  match e.pause with
  | some (.asked kept) => (r.put { e with pause := some (.paused kept) }).startNext c
  | _ => r.queuedRefused c e

/-- `upload_refused`, for a transfer in the list. -/
def uploadRefused (e : Entry) : Registry :=
  match e.pause with
  | some (.asked kept) =>
    let e' := { e with pause := some (.restarted kept) }
    if e.handle.folder then ((r.put e').askPutFolder c e' false).1
    else (r.put e').expectTransfer c e.id (.file (e.handle.goPut (c.large e.htlc) none))
  | some (.restarted kept) => (r.put { e with pause := some (.paused kept) }).startNext c
  | _ => r.xferDelete c e.id

/-- What `upload_ready` sets of a single file's transfer before it sizes it. -/
def located (e : Entry) (t : Transfer) : Handle :=
  { e.handle with
    queue := t.queue
    dataPos := t.dataFrom.toNat
    rsrcPos := t.rsrcFrom.toNat
    dataSize :=
      match r.disk.stat e.handle.path with
      | some s => s.len
      | none => e.handle.dataSize
    rsrcSize := r.disk.resourceLen e.handle.path }

/-- `upload_ready`, for a transfer in the list. -/
def uploadReady (e : Entry) (t : Transfer) : Registry :=
  if t.reference = 0 then r
  else if e.handle.folder then r.goAnswered e { e.handle with queue := t.queue } t
  else
    let h := r.located e t
    if h.dataSize < h.dataPos ∨ h.rsrcSize < h.rsrcPos then
      match e.pause with
      | some (.asked kept) | some (.restarted kept) =>
        (r.put { e with handle := h, pause := some (.changed kept) }).startNext c
      | _ => (r.put { e with handle := h }).uploadRefused c { e with handle := h }
    else
      r.goAnswered e { h with
        totalSize := Upload.uploadTotal h.dataSize h.rsrcSize h.dataPos h.rsrcPos
          (r.disk.commentLen h.path) } t

/-- `transfer`: a transfer that was canceled meanwhile is not looked at. -/
def replied (trans : ℕ) (t : Transfer) : Registry :=
  match r.asked.find? (·.trans = trans) with
  | none => r
  | some a =>
    let r' := { r with
      asked := r.asked.erase a, trace := .reply a.id a.trans t.reference :: r.trace }
    match r'.find? a.id with
    | none => r'
    | some e => if e.handle.upload then r'.uploadReady c e t else r'.downloadReady e t

/-- `failed`. -/
def refused (trans : ℕ) : Registry :=
  match r.asked.find? (·.trans = trans) with
  | none => r
  | some a =>
    let r' := { r with asked := r.asked.erase a }
    match r'.find? a.id with
    | none => r'
    | some e => if e.handle.upload then r'.uploadRefused c e else r'.downloadRefused c e

/-- `queued`, of the transfers alone. -/
def queued (htlc : ℕ) (reference queue : UInt32) : Registry :=
  match r.list.find? (fun e => e.htlc = htlc ∧ e.handle.ref = reference) with
  | none => r
  | some e =>
    (r.put { e with handle := { e.handle with queue := queue } }).hxXferAnnounce e.id queue

/-- `hold`. -/
def hold (e : Entry) (pause : Disk → Pause) : Registry :=
  let kept := if e.handle.folder then FOLDER_KEPT else r.disk.disk e.handle.path
  (r.put { e with pause := some (pause kept) }).startNext c

/-- `settle_pause`, of a transfer that stopped short. -/
def settleStop (e : Entry) (stop : Stop) : Registry :=
  let run := (r.runs e.id).getD {}
  let e' := { e with
    pause := some (if stop = .changed then .changed FOLDER_KEPT else .paused FOLDER_KEPT) }
  if stop = .again ∧ run.again + 1 ≤ AGAIN_TRIES then
    ((r.put e').setRun e.id (some { run with again := run.again + 1 })).resumeFolder c e'
  else
    ((r.put e').setRun e.id (some { run with
      again := 0, reoffered := stop = .reoffer })).startNext c

/-- The end of `xfer_cleanup_dispatch`, of a transfer in the list that is not kept for a pause. -/
def cleanUp (e : Entry) (failed : Option Failure) : Registry :=
  match failed with
  | some why =>
    if why.mayRetry ∧ e.resumable then
      r.hold c e fun kept => .failed kept (why.why e.handle.folder)
    else r.xferRemoveFromList c e.id
  | none => r.xferRemoveFromList c e.id

/-- Its worker finished before a pause could stop it. -/
def finished (e : Entry) : Bool :=
  if e.handle.folder then ((r.runs e.id).map FolderRun.finished).getD false
  else e.handle.totalSize ≤ e.handle.totalPos

/-- `xfer_cleanup_dispatch`, of a transfer in the list, with what its worker left. -/
def settled (e : Entry) (stop : Option Stop) (failed : Option Failure) : Registry :=
  if e.pause = some .winding then
    if r.finished e then (r.put { e with pause := none }).cleanUp c { e with pause := none } failed
    else r.hold c e .paused
  else
    match stop with
    | some stop => r.settleStop c e stop
    | none => r.cleanUp c e failed

/-- A folder transfer's run as its worker leaves it. -/
def ranTo (e : Entry) (how : End) : Option FolderRun :=
  if e.handle.folder then some { (r.runs e.id).getD {} with finished := how.isDone }
  else r.runs e.id

/-- A transfer as its worker leaves it, with how many bytes it moved: what came or went as a whole
counts as its size, but for a file's upload. -/
def movedTo (e : Entry) (how : End) (totalPos : ℕ) : Entry :=
  let whole := how.isDone ∧ (e.handle.upload = false ∨ e.handle.folder)
  { e with handle := { e.handle with totalPos := if whole then e.handle.totalSize else totalPos } }

/-- A worker returns; of a transfer that is not in the list any more nothing is left to do. -/
def returned (id : ℕ) (how : End) (totalPos : ℕ) : Registry :=
  let r' := { r with working := r.working.filter (· ≠ id) }
  match r'.find? id with
  | none => r'
  | some e =>
    let e' := movedTo e how totalPos
    let resumed := ((r.runs id).getD {}).resumed
    ((r'.put e').setRun id (r'.ranTo e' how)).settled c e' (e'.stopBy resumed how)
      (e'.failedBy resumed how)

/-- `queue_retry`. -/
def queueRetry (id : ℕ) : Registry :=
  let r' := { r with timers := r.timers.erase id }
  if r'.list.any (·.id = id) then r'.startNext c else r'

/-- `xfer_init`. -/
def xferInit (h : Handle) : Registry :=
  { r with list := r.list ++ [⟨r.next, h, none, none⟩], next := r.next + 1 }

/-- `xfer_new`. -/
def xferNew (h : Handle) : Registry :=
  if r.list.all Entry.paused ∨ c.queuedl = false then
    (r.xferInit h).xferGo c ⟨r.next, h, none, none⟩
  else r.xferInit h

/-- `hx_get_folder` and `hx_put_folder`, from `xfer_new_folder` on. -/
def newFolder (h : Handle) : Registry :=
  if h.upload then ((r.xferInit h).askPutFolder c ⟨r.next, h, none, none⟩ false).1
  else (r.xferInit h).askFolder c ⟨r.next, h, none, none⟩

/-- `xfer_up`. -/
def xferUp (num : ℕ) : Registry :=
  match num with
  | 0 => r
  | n + 1 =>
    match r.list.drop n with
    | above :: e :: rest => { r with list := r.list.take n ++ e :: above :: rest }
    | _ => r

/-- `xfer_down`. -/
def xferDown (num : ℕ) : Registry := r.xferUp (num + 1)

end Registry

/-- What happens. -/
inductive Event
  /-- A file's transfer is made: a preview, and a size, are a download's. -/
  | new (htlc : ℕ) (path : Path) (remotedir remotename : List UInt8) (upload preview : Bool)
    (srvDataSize : UInt32)
  /-- A folder's transfer is made and asked for. -/
  | newFolder (htlc : ℕ) (path : Path) (remotedir remotename : List UInt8) (upload : Bool)
  | pause (id : ℕ)
  | go (id : ℕ)
  | delete (id : ℕ)
  | up (num : ℕ)
  | down (num : ℕ)
  | replied (trans : ℕ) (t : Transfer)
  | refused (trans : ℕ)
  | queued (htlc : ℕ) (reference queue : UInt32)
  | returned (id : ℕ) (how : End) (totalPos : ℕ)
  | retry (id : ℕ)
  /-- The local disk changes. -/
  | changes (disk : LocalDisk)

/-- A step: the user's rows name transfers of the list, a worker that returns was started, and a
timer that fires was set. -/
def Registry.step (c : Client) (r : Registry) : Event → Option Registry
  | .new htlc path remotedir remotename upload preview srvDataSize =>
    some (r.xferNew c { Handle.init htlc path remotedir remotename upload
        (if upload then 0 else srvDataSize.toNat) with
      preview := preview, srvDataSize := srvDataSize.toNat })
  | .newFolder htlc path remotedir remotename upload =>
    some (r.newFolder c
      { Handle.init htlc path remotedir remotename upload 0 with folder := true })
  | .pause id => (r.find? id).map r.xferPause
  | .go id => (r.find? id).map (r.xferGo c)
  | .delete id => (r.find? id).map fun e => r.xferDelete c e.id
  | .up num => some (r.xferUp num)
  | .down num => some (r.xferDown num)
  | .replied trans t => some (r.replied c trans t)
  | .refused trans => some (r.refused c trans)
  | .queued htlc reference queue => some (r.queued htlc reference queue)
  | .returned id how totalPos =>
    if id ∈ r.working then some (r.returned c id how totalPos) else none
  | .retry id => if id ∈ r.timers then some (r.queueRetry c id) else none
  | .changes disk => some { r with disk := disk }

namespace Registry

variable {r : Registry} {e x : Entry} {id : ℕ}

theorem mem_of_find? (h : r.find? id = some e) : e ∈ r.list ∧ e.id = id :=
  ⟨List.mem_of_find?_eq_some h, by simpa using List.find?_some h⟩

theorem find?_of_mem (hdistinct : (r.list.map Entry.id).Nodup) (he : e ∈ r.list) :
    r.find? e.id = some e := by
  cases hfind : r.find? e.id with
  | none => simpa using List.find?_eq_none.mp hfind e he
  | some x =>
    obtain ⟨hx, hid⟩ := mem_of_find? hfind
    rw [List.inj_on_of_nodup_map hdistinct hx he hid]

/-- What a transfer is changed to is found under its address. -/
theorem find?_put (hid : e.id ∈ r.list.map Entry.id) : (r.put e).find? e.id = some e := by
  simp only [find?, put]
  generalize r.list = l at hid ⊢
  induction l with
  | nil => simp at hid
  | cons y l ih =>
    by_cases hy : y.id = e.id
    · simp [hy]
    · have hl : e.id ∈ l.map Entry.id := by simpa [Ne.symm hy] using hid
      simpa [hy] using ih hl

theorem mem_put (h : x ∈ (r.put e).list) : x = e ∨ x ∈ r.list ∧ x.id ≠ e.id := by
  obtain ⟨y, hy, hyx⟩ := List.mem_map.mp h
  by_cases hid : y.id = e.id
  · exact Or.inl (by simpa [hid] using hyx.symm)
  · obtain rfl : y = x := by simpa [hid] using hyx
    exact Or.inr ⟨hy, hid⟩

theorem mem_put_of_ne (h : x ∈ r.list) (hne : x.id ≠ e.id) : x ∈ (r.put e).list :=
  List.mem_map.mpr ⟨x, h, by simp [hne]⟩

/-- A transfer that leaves the list is not in it any more. -/
theorem mem_eraseP (hdistinct : (r.list.map Entry.id).Nodup)
    (h : x ∈ r.list.eraseP (·.id = id)) : x ∈ r.list ∧ x.id ≠ id := by
  refine ⟨List.eraseP_sublist.subset h, ?_⟩
  rintro rfl
  obtain ⟨y, l₁, l₂, -, hy, hlist, herase⟩ :=
    List.exists_of_eraseP (List.eraseP_sublist.subset h) (p := fun y => decide (y.id = x.id))
      (by simp)
  rw [hlist, List.map_append, List.map_cons] at hdistinct
  have hout := (List.nodup_cons.mp (List.nodup_middle.mp hdistinct)).1
  have hyx : y.id = x.id := by simpa using hy
  rw [← List.map_append, ← herase, hyx] at hout
  exact hout (List.mem_map_of_mem h)

theorem put_mem (hid : e.id ∈ r.list.map Entry.id) : e ∈ (r.put e).list :=
  (mem_of_find? (find?_put hid)).1

@[simp] theorem put_ids (r : Registry) (e : Entry) :
    (r.put e).list.map Entry.id = r.list.map Entry.id := by
  simp only [put, List.map_map]
  apply List.map_congr_left
  intro x _
  by_cases hx : x.id = e.id <;> simp [hx]

/-- Of two changes of a transfer the second is left. -/
theorem put_put (r : Registry) {e e' : Entry} (hid : e'.id = e.id) :
    (r.put e).put e' = r.put e' := by
  simp only [put, List.map_map]
  congr 1
  apply List.map_congr_left
  intro x _
  by_cases hx : x.id = e.id <;> simp [hx, hid]

/-- A transfer is removed, however it was changed before. -/
theorem xferRemoveFromList_put (c : Client) (hdistinct : (r.list.map Entry.id).Nodup) :
    (r.put e).xferRemoveFromList c e.id = r.xferRemoveFromList c e.id := by
  have herase (l : List Entry) (hl : (l.map Entry.id).Nodup) :
      (l.map fun x => if x.id = e.id then e else x).eraseP (·.id = e.id) =
        l.eraseP (·.id = e.id) := by
    induction l with
    | nil => rfl
    | cons x l ih =>
      obtain ⟨hx, hl⟩ := List.nodup_cons.mp hl
      by_cases hid : x.id = e.id
      · have hrest : (l.map fun x => if x.id = e.id then e else x) = l.map id := by
          apply List.map_congr_left
          intro y hy
          have hne : y.id ≠ e.id := fun heq => hx (hid ▸ heq ▸ List.mem_map_of_mem hy)
          simp [hne]
        simp [hid, hrest]
      · simpa [hid] using ih hl
  have hany : (r.put e).list.any (·.id = e.id) = r.list.any (·.id = e.id) := by
    have hmap (l : List Entry) : l.any (·.id = e.id) = (l.map Entry.id).any (· = e.id) := by
      simp [Function.comp_def]
    rw [hmap, hmap, put_ids]
  unfold xferRemoveFromList
  rw [hany]
  split
  · simp only [put, herase r.list hdistinct]
  · rename_i habsent
    have hsame : (r.list.map fun x => if x.id = e.id then e else x) = r.list.map id := by
      apply List.map_congr_left
      intro y hy
      have hne : y.id ≠ e.id := by
        intro heq
        exact habsent (List.any_eq_true.mpr ⟨y, hy, by simpa using heq⟩)
      simp [hne]
    simp [put, hsame]

/-- A transfer is kept or removed, however it was changed before. -/
theorem cleanUp_put (c : Client) (hdistinct : (r.list.map Entry.id).Nodup)
    (failed : Option Failure) : (r.put e).cleanUp c e failed = r.cleanUp c e failed := by
  unfold cleanUp
  split
  · split
    · exact congrArg (startNext c) (put_put r rfl)
    · exact xferRemoveFromList_put c hdistinct
  · exact xferRemoveFromList_put c hdistinct

/-- Moving a transfer up the list. -/
theorem xferUp_list (r : Registry) (num : ℕ) :
    ∃ l, l.Perm r.list ∧ r.xferUp num = { r with list := l } := by
  unfold xferUp
  cases num with
  | zero => exact ⟨r.list, List.Perm.refl _, rfl⟩
  | succ n =>
    dsimp only
    split
    next above e rest hdrop =>
      refine ⟨_, ?_, rfl⟩
      have hswap := List.Perm.append_left (r.list.take n) (List.Perm.swap above e rest)
      rwa [← hdrop, List.take_append_drop] at hswap
    next => exact ⟨r.list, List.Perm.refl _, rfl⟩

end Registry

namespace Handle

variable (h : Handle) (files : Files)

/-- What a request leaves of a transfer as it is. -/
def role : ℕ × Bool × Bool × Bool × UInt32 := (h.htlc, h.upload, h.folder, h.gone, h.ref)

theorem resumeOrRename_role (kept : Option Disk) :
    (h.resumeOrRename files kept).1.role = h.role := by
  unfold resumeOrRename
  split
  · rfl
  · split
    · rfl
    · dsimp only
      split
      · rfl
      · split <;> rfl

theorem request_role (large : Bool) (kept : Option Disk) (full : Option ℕ) :
    (h.request files large kept full).1.role = h.role := by
  unfold request
  split
  · cases full <;> rfl
  · rw [← h.resumeOrRename_role files kept]
    cases full <;> rfl

end Handle

/-- What `xfer_go` does with a file's transfer: nothing, or it finds an upload's file changed, or it
asks, for the first time or again. -/
inductive Went (e : Entry) : Entry → Option FileRequest → Prop
  | idle (hkept : keptBy e.pause = none) (hgone : e.pause = none → e.handle.gone = true) :
    Went e e none
  | changed {kept : Disk} (hkept : keptBy e.pause = some kept) :
    Went e { e with pause := some (.changed kept) } none
  | again {kept : Disk} {h : Handle} {request : FileRequest} (hkept : keptBy e.pause = some kept)
    (hrole : h.role = { e.handle with gone := true }.role) :
    Went e { e with handle := h, pause := some (.asked kept) } (some request)
  | first {h : Handle} {request : FileRequest} (hpause : e.pause = none)
    (hgone : e.handle.gone = false) (hrole : h.role = { e.handle with gone := true }.role) :
    Went e { e with handle := h } (some request)

theorem Entry.went (e : Entry) (files : Files) (large : Bool) :
    Went e { e with
        handle := (e.handle.go files large e.pause).1
        pause := (e.handle.go files large e.pause).2.1 }
      (e.handle.go files large e.pause).2.2 := by
  have hresume {kept : Disk} (hkept : keptBy e.pause = some kept)
      (hgo : e.handle.go files large e.pause =
        if e.handle.upload ∧ kept ≠ files.disk e.handle.path then
          (e.handle, some (.changed kept), none)
        else
          let asking := { e.handle.afresh with gone := true }.request files large (some kept)
            (some (add64 e.handle.totalSize e.handle.resumedBytes))
          (asking.1, some (.asked kept), some asking.2)) :
      Went e { e with
          handle := (e.handle.go files large e.pause).1
          pause := (e.handle.go files large e.pause).2.1 }
        (e.handle.go files large e.pause).2.2 := by
    rw [hgo]
    split
    · exact .changed hkept
    · exact .again hkept (Handle.request_role _ files large _ _)
  obtain ⟨id, handle, pause, tries⟩ := e
  cases pause with
  | none =>
    by_cases hgone : handle.gone
    · simpa [Handle.go, hgone] using Went.idle (e := ⟨id, handle, none, tries⟩) rfl fun _ => hgone
    · simp only [Handle.go, hgone]
      exact .first rfl (by simpa using hgone) (Handle.request_role _ files large _ _)
  | some pause =>
    cases pause with
    | paused kept => exact hresume rfl rfl
    | failed kept why => exact hresume rfl rfl
    | _ => exact .idle rfl fun hnone => absurd hnone (Option.some_ne_none _)

/-- The queue counts its tries at a transfer beside it. -/
theorem Entry.tried_eq (e : Entry) (was : Bool) :
    e.tried was = { e with tries := (e.tried was).tries } := by
  unfold tried
  split <;> rfl

@[simp] theorem Entry.tried_id (e : Entry) (was : Bool) : (e.tried was).id = e.id := by
  rw [tried_eq]

@[simp] theorem Entry.go_id (e : Entry) (files : Files) (large : Bool) :
    (e.go files large).1.id = e.id := by
  unfold go
  split <;> rfl

/-- The registry from the empty list on, on a disk. -/
def registry (c : Client) (disk : LocalDisk) : Reactive.Process Registry Event where
  start := ⟨[], [], [], [], fun _ => 0, fun _ => none, disk, 0, 0, []⟩
  step := Registry.step c

section Sample

/-- A client that queues downloads, with builders that take everything. -/
def queueing : Client := ⟨true, fun _ => false, fun _ => true⟩

/-- A disk with no file, whose folders are as they were left, with one more entry to offer. -/
def bareDisk : LocalDisk where
  stat := fun _ => none
  resourceLen := fun _ => 0
  commentLen := fun _ => 0
  folder := fun _ => ⟨0, false, (0, 1), (0, 1)⟩

end Sample

end Gtkhx.Transfers
