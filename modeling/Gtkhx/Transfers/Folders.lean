import Gtkhx.Transfers.Versions
import Gtkhx.Upload.Offers

/-!
# What a folder's upload announces

One folder's upload in the registry, with its workers walking the local folder and offering what the
upload's ledger leaves of it, and the ledger going from one worker to the next. The server may end
an upload where it likes, refuse a resume and have it started over; the local files may change.
-/

namespace Gtkhx.Transfers

open Upload (UploadLedger PutEntry Offered LocalFolder FolderLine leftOf)
open Htxf (Errno Ffo)

/-- A worker of a folder's upload that has returned. -/
structure Attempt where
  /-- How many entries the request it was started for announced. -/
  announced : ℕ
  /-- The ledger it was given. -/
  ledger : UploadLedger
  /-- What it walked. -/
  planned : List PutEntry
  offered : List PutEntry
  /-- `folder_send` returned 0. -/
  through : Bool

/-- It offered what was announced, or the first of it: no folder that the server has made. -/
structure Attempt.Kept (a : Attempt) : Prop where
  announced : a.announced = min (leftOf (some a.ledger) a.planned).length (2 ^ 32 - 1)
  offered : a.offered <+: leftOf (some a.ledger) a.planned
  through : a.through = true → a.offered = leftOf (some a.ledger) a.planned

/-- A folder's upload, and the local folder. -/
structure FolderUploading where
  registry : Registry
  folder : LocalFolder
  /-- What `metadata` says at a path below it, of a link as of what it links to. -/
  now : List UInt8 → Option Offered
  ledger : UploadLedger
  /-- How many entries the last request announced. -/
  announced : ℕ
  attempts : List Attempt

/-- The local disk as a folder's upload sees it. -/
def diskOfFolder (folder : LocalFolder) (now : List UInt8 → Option Offered)
    (ledger : UploadLedger) : LocalDisk where
  stat := fun _ => none
  resourceLen := fun _ => 0
  commentLen := fun _ => 0
  folder := fun _ => {
    held := 0
    changed := ledger.changed now
    whole := Upload.putTotals folder.entries none
    left := Upload.putTotals folder.entries (some ledger) }

/-- What happens to a folder's upload. -/
inductive FolderEvent
  | goes
  | pauses
  | deletes
  | answered (t : Transfer)
  | refused
  /-- It is told its place in the server's queue. -/
  | queued (queue : UInt32)
  /-- Its worker has sent the folder on a connection, and if that failed, why. -/
  | returned (line : FolderLine) (why : Failure) (totalPos : ℕ)
  /-- Its worker could not connect. -/
  | unreached (totalPos : ℕ)
  /-- The local folder changes. -/
  | changes (folder : LocalFolder) (now : List UInt8 → Option Offered)

/-- How `folder_put_thread` ends by what `folder_send` returns. -/
def endOf (why : Failure) : Except Errno Unit → End
  | .ok () => .done
  | .error rv =>
    if rv = Upload.HXNET_XFER_CHANGED then .short .changed
    else if rv = Upload.HXNET_XFER_AGAIN then .short .again
    else if rv = Upload.HXNET_XFER_REOFFER then .short .reoffer
    else .failed why

/-- `folder_send` returned 0. -/
def isThrough : Except Errno Unit → Bool
  | .ok () => true
  | .error _ => false

/-- The upload was asked for again, with what its ledger leaves. -/
def Registry.resumes (r : Registry) : Bool :=
  match r.pauseOf 0 with
  | some (.asked _) => true
  | _ => false

namespace FolderUploading

variable (c : Client) (ffo : Ffo) (large : Bool) (u : FolderUploading)

/-- What becomes of the upload with the registry: what is asked for is counted, and an upload that
is started over has an empty ledger. -/
def became (r : Registry) : FolderUploading :=
  let ledger := if (r.runs 0).isNone then {} else u.ledger
  { u with
    registry := { r with disk := diskOfFolder u.folder u.now ledger }
    ledger
    announced :=
      if r.trans = u.registry.trans then u.announced else (u.registry.putTotals 0 r.resumes).2 }

/-- A worker's side of the subchannel, with the ledger it is given. -/
def begun (line : FolderLine) : FolderLine := { line with ledger := u.ledger, offers := [] }

/-- What `folder_send` comes to. -/
def ran (line : FolderLine) : Except Errno Unit × FolderLine :=
  (Upload.folderSend ffo ⟨true, large⟩ u.folder.planned).run (u.begun line)

/-- Its worker leaves the ledger as it is now. -/
def left (line : FolderLine) : FolderUploading :=
  { u with
    registry := { u.registry with
      disk := diskOfFolder u.folder u.now (u.ran ffo large line).2.ledger }
    ledger := (u.ran ffo large line).2.ledger
    attempts :=
      { announced := u.announced
        ledger := u.ledger
        planned := u.folder.planned
        offered := (u.ran ffo large line).2.offers
        through := isThrough (u.ran ffo large line).1 } :: u.attempts }

def step : FolderEvent → Option FolderUploading
  | .goes => (u.registry.step c (.go 0)).map u.became
  | .pauses => (u.registry.step c (.pause 0)).map u.became
  | .deletes => (u.registry.step c (.delete 0)).map u.became
  | .answered t =>
    match u.registry.asked with
    | a :: _ => (u.registry.step c (.replied a.trans t)).map u.became
    | [] => none
  | .refused =>
    match u.registry.asked with
    | a :: _ => (u.registry.step c (.refused a.trans)).map u.became
    | [] => none
  | .queued queue =>
    match u.registry.find? 0 with
    | some e => (u.registry.step c (.queued e.htlc e.handle.ref queue)).map u.became
    | none => none
  | .returned line why totalPos =>
    ((u.left ffo large line).registry.step c
      (.returned 0 (endOf why (u.ran ffo large line).1) totalPos)).map
        (u.left ffo large line).became
  | .unreached totalPos =>
    (u.registry.step c (.returned 0 (.failed .unreachable) totalPos)).map u.became
  | .changes folder now =>
    some { u with
      registry := { u.registry with disk := diskOfFolder folder now u.ledger }
      folder
      now }

/-- A request is in flight, or the upload was answered and its worker has not returned. -/
def Pending : Prop :=
  u.registry.asked ≠ [] ∨ u.registry.working ≠ [] ∨ ∃ e ∈ u.registry.list, e.underway

/-- From a request to its worker's return the folder has the same entries, and the server names the
upload in its queue only once it has answered it. -/
def Steady : FolderEvent → Prop
  | .queued _ => ∀ e ∈ u.registry.list, e.handle.ref ≠ 0
  | .changes folder _ => u.Pending → folder.planned = u.folder.planned
  | _ => True

end FolderUploading

/-- A folder's upload as it is made. -/
def uploadingFolder (c : Client) (ffo : Ffo) (large : Bool) (folder : LocalFolder)
    (now : List UInt8 → Option Offered) (htlc : ℕ) (path : Path)
    (remotedir remotename : List UInt8) :
    Reactive.Process FolderUploading FolderEvent where
  start :=
    let unmade : FolderUploading := {
      registry := (registry c (diskOfFolder folder now {})).start
      folder
      now
      ledger := {}
      announced := 0
      attempts := [] }
    unmade.became (unmade.registry.newFolder c
      { Handle.init htlc path remotedir remotename true 0 with folder := true })
  step := FolderUploading.step c ffo large

/-- How many entries a ledger leaves to announce. -/
def leaves (folder : LocalFolder) (ledger : UploadLedger) : ℕ :=
  (Upload.putTotals folder.entries (some ledger)).2

theorem leaves_eq (folder : LocalFolder) (ledger : UploadLedger) :
    leaves folder ledger = min (leftOf (some ledger) folder.planned).length (2 ^ 32 - 1) := rfl

/-- An empty ledger leaves the whole folder. -/
theorem putTotals_whole (folder : LocalFolder) :
    (Upload.putTotals folder.entries none).2 = leaves folder {} := by
  have hnone : leftOf none folder.planned = leftOf (some {}) folder.planned :=
    List.filter_congr fun e _ => by simp [UploadLedger.made]
  change min (leftOf none folder.planned).length (2 ^ 32 - 1) = _
  rw [hnone]
  rfl

/-- The ledger that a worker is going to be given: an upload that is started over has an empty
one. -/
def Entry.builds (e : Entry) (ledger : UploadLedger) : UploadLedger :=
  match e.pause with
  | some (.asked _) => ledger
  | _ => {}

/-- A folder's upload that awaits an answer. -/
def Entry.unsettled (e : Entry) : Bool := e.resuming || e.pause.isNone && e.handle.ref == 0

/-- What decides where a folder's upload stands. -/
def Entry.standing (e : Entry) : ℕ × Bool × Bool × UInt32 × Option Pause :=
  (e.id, e.handle.upload, e.handle.folder, e.handle.ref, e.pause)

/-- Where the upload stands while it is in the list. -/
structure StandsFolder (u : FolderUploading) (e : Entry) : Prop where
  id : e.id = 0
  upload : e.handle.upload = true
  folder : e.handle.folder = true
  single : ∀ a ∈ u.registry.asked, a.id = 0 ∧ u.registry.asked = [a]
  quiet : e.unsettled = false → u.registry.asked = []
  idle : e.pause ≠ none → e.pause ≠ some .winding → u.registry.working = []
  unanswered : e.handle.ref = 0 →
    e.pause = none ∧ u.registry.working = [] ∧ u.registry.runs 0 = none
  asks : u.registry.asked ≠ [] → u.announced = leaves u.folder (e.builds u.ledger)
  nonzero : u.registry.asked ≠ [] → ∀ kept, e.pause = some (.asked kept) → 0 < u.announced
  underway : e.underway → u.announced = leaves u.folder u.ledger

/-- What holds of a folder's upload in every state. -/
structure SoundFolder (u : FolderUploading) : Prop where
  disk : u.registry.disk = diskOfFolder u.folder u.now u.ledger
  fresh : u.registry.runs 0 = none → u.ledger = {}
  only : ∀ id ∈ u.registry.working, id = 0
  owes : u.registry.working ≠ [] → u.announced = leaves u.folder u.ledger
  attempts : ∀ a ∈ u.attempts, a.Kept
  place : u.registry.list = [] ∨ ∃ e, u.registry.list = [e] ∧ StandsFolder u e

/-- A request goes out, or it cannot be built. -/
theorem Registry.expectTransfer_cases (c : Client) (r : Registry) (id : ℕ) (ask : Ask) :
    r.expectTransfer c id ask = r ∨
      r.expectTransfer c id ask = { r with
        asked := r.asked ++ [⟨r.trans, id⟩]
        trans := r.trans + 1
        trace := .request id r.trans :: r.trace } := by
  unfold Registry.expectTransfer
  split
  · exact Or.inr rfl
  · exact Or.inl rfl

namespace SoundFolder

variable {c : Client} {u : FolderUploading} {e e' : Entry} {r : Registry}

theorem became_announced (htrans : r.trans = u.registry.trans) :
    (u.became r).announced = u.announced := if_pos htrans

theorem became_ledger (hruns : r.runs 0 = none → u.ledger = {}) :
    (u.became r).ledger = u.ledger := by
  change (if (r.runs 0).isNone then {} else u.ledger) = u.ledger
  cases hrun : r.runs 0 with
  | none => exact (hruns hrun).symm
  | some run => rfl

/-- What has become of the upload fits its ledger, and what its workers offered is as it was. -/
theorem became (hattempts : ∀ a ∈ u.attempts, a.Kept) (honly : ∀ id ∈ r.working, id = 0)
    (howes : r.working ≠ [] →
      (u.became r).announced = leaves u.folder (u.became r).ledger)
    (hplace : r.list = [] ∨ ∃ e, r.list = [e] ∧ StandsFolder (u.became r) e) :
    SoundFolder (u.became r) where
  disk := rfl
  fresh := fun hnone => if_pos (Option.isNone_iff_eq_none.mpr hnone)
  only := honly
  owes := howes
  attempts := hattempts
  place := hplace

/-- The upload leaves the list. -/
theorem gone (hattempts : ∀ a ∈ u.attempts, a.Kept) (hlist : r.list = [])
    (hworking : r.working = []) : SoundFolder (u.became r) :=
  became hattempts (by simp [hworking]) (fun hne => absurd hworking hne) (Or.inl hlist)

/-- The upload rests in the list: nothing of it is under way. -/
theorem rests (hattempts : ∀ a ∈ u.attempts, a.Kept) (hlist : r.list = [e])
    (hid : e.id = 0) (hupload : e.handle.upload = true) (hfolder : e.handle.folder = true)
    (href : e.handle.ref ≠ 0) (hasked : r.asked = []) (hworking : r.working = [])
    (hstill : ¬e.underway) : SoundFolder (u.became r) := by
  refine became hattempts (by simp [hworking]) (fun hne => absurd hworking hne)
    (Or.inr ⟨e, hlist, ?_⟩)
  exact {
    id := hid
    upload := hupload
    folder := hfolder
    single := fun a ha => by
      change a ∈ r.asked at ha
      simp [hasked] at ha
    quiet := fun _ => hasked
    idle := fun _ _ => hworking
    unanswered := fun hzero => absurd hzero href
    asks := fun hne => absurd hasked hne
    nonzero := fun hne => absurd hasked hne
    underway := fun hup => absurd hup hstill }

/-- The upload was answered, and goes or waits for its turn. -/
theorem goes (hattempts : ∀ a ∈ u.attempts, a.Kept) (hlist : r.list = [e])
    (hid : e.id = 0) (hupload : e.handle.upload = true) (hfolder : e.handle.folder = true)
    (href : e.handle.ref ≠ 0) (hpause : e.pause = none ∨ e.pause = some .winding)
    (hasked : r.asked = []) (honly : ∀ id ∈ r.working, id = 0)
    (hleaves : (u.became r).announced = leaves u.folder (u.became r).ledger) :
    SoundFolder (u.became r) := by
  refine became hattempts honly (fun _ => hleaves) (Or.inr ⟨e, hlist, ?_⟩)
  exact {
    id := hid
    upload := hupload
    folder := hfolder
    single := fun a ha => by
      change a ∈ r.asked at ha
      simp [hasked] at ha
    quiet := fun _ => hasked
    idle := fun hne hne' => absurd hpause (not_or.mpr ⟨hne, hne'⟩)
    unanswered := fun hzero => absurd hzero href
    asks := fun hne => absurd hasked hne
    nonzero := fun hne => absurd hasked hne
    underway := fun _ => hleaves }

/-- The upload is asked for, with as many entries as the ledger leaves that it builds on. -/
theorem asks (hattempts : ∀ a ∈ u.attempts, a.Kept)
    (hdisk : u.registry.disk = diskOfFolder u.folder u.now u.ledger)
    (hsame : r.disk = u.registry.disk) (htrans : r.trans = u.registry.trans)
    (hruns : r.runs 0 = none → u.ledger = {}) (hlist : r.list = [e]) (hid : e.id = 0)
    (hupload : e.handle.upload = true) (hfolder : e.handle.folder = true)
    (hasked : r.asked = []) (hworking : r.working = []) {resume : Bool}
    (hresume : resume = true ↔ ∃ kept, e.pause = some (.asked kept))
    (hwaits : e.unsettled = true) (hstill : ¬e.underway)
    (hunanswered : e.handle.ref = 0 → e.pause = none ∧ r.runs 0 = none)
    (hsome : resume = true → (r.putTotals e.id true).2 ≠ 0) :
    SoundFolder (u.became (r.askPutFolder c e resume).1) := by
  let e₁ : Entry := { e with
    handle := { e.handle with
      totalSize := max 1 (min (r.putTotals e.id resume).1 U32_MAX) } }
  have hput : r.put e₁ = { r with list := [e₁] } := Registry.put_one hlist rfl
  have hnot : ¬(resume = true ∧ (r.putTotals e.id resume).2 = 0) := by
    rintro ⟨rfl, hzero⟩
    exact hsome rfl hzero
  have hask : (r.askPutFolder c e resume).1 = ({ r with list := [e₁] } : Registry).expectTransfer c
      e.id (.putFolder e.handle.remotedir e.handle.remotename (r.putTotals e.id resume).1
        (r.putTotals e.id resume).2 resume) := by
    unfold Registry.askPutFolder
    dsimp only
    rw [if_neg hnot]
    exact congrArg (Registry.expectTransfer c · _ _) hput
  have hresumes : ({ r with list := [e₁] } : Registry).resumes = resume := by
    have hpause : ({ r with list := [e₁] } : Registry).pauseOf 0 = e.pause :=
      Registry.pauseOf_one (e := e₁) rfl hid
    unfold Registry.resumes
    rw [hpause]
    cases resume with
    | true =>
      obtain ⟨kept, hkept⟩ := hresume.mp rfl
      rw [hkept]
    | false =>
      split
      next _ kept hkept => exact absurd (hresume.mpr ⟨kept, hkept⟩) Bool.false_ne_true
      next => rfl
  rw [hask]
  obtain heq | heq := Registry.expectTransfer_cases c { r with list := [e₁] } e.id
    (.putFolder e.handle.remotedir e.handle.remotename (r.putTotals e.id resume).1
      (r.putTotals e.id resume).2 resume)
  · -- The request cannot be built, and nothing is in flight.
    rw [heq]
    refine became hattempts (by simp [hworking]) (fun hne => absurd hworking hne)
      (Or.inr ⟨e₁, rfl, ?_⟩)
    exact {
      id := hid
      upload := hupload
      folder := hfolder
      single := fun a ha => by
        change a ∈ r.asked at ha
        simp [hasked] at ha
      quiet := fun _ => hasked
      idle := fun _ _ => hworking
      unanswered := fun hzero =>
        ⟨(hunanswered hzero).1, hworking, (hunanswered hzero).2⟩
      asks := fun hne => absurd hasked hne
      nonzero := fun hne => absurd hasked hne
      underway := fun hup => absurd hup hstill }
  · rw [heq]
    generalize hr' : ({ r with
      list := [e₁]
      asked := r.asked ++ [⟨r.trans, e.id⟩]
      trans := r.trans + 1
      trace := .request e.id r.trans :: r.trace } : Registry) = r'
    have hledger : (u.became r').ledger = u.ledger :=
      became_ledger fun hnone => hruns (by rw [← hr'] at hnone; exact hnone)
    have hannounced : (u.became r').announced = (u.registry.putTotals 0 resume).2 := by
      have hne : r'.trans ≠ u.registry.trans := by
        rw [← hr', ← htrans]
        exact Nat.succ_ne_self _
      have hsame' : r'.resumes = resume := by
        rw [← hr']
        exact hresumes
      rw [← hsame']
      exact if_neg hne
    have htotals : (u.registry.putTotals 0 resume).2 = leaves u.folder (e₁.builds u.ledger) := by
      rw [Registry.putTotals, hdisk]
      cases resume with
      | true =>
        obtain ⟨kept, hkept⟩ := hresume.mp rfl
        simp [Entry.builds, e₁, hkept, diskOfFolder, leaves]
      | false =>
        have hbuilds : e₁.builds u.ledger = {} := by
          unfold Entry.builds
          split
          next _ kept hkept => exact absurd (hresume.mpr ⟨kept, hkept⟩) Bool.false_ne_true
          next => rfl
        rw [hbuilds]
        exact putTotals_whole u.folder
    have hasked' : r'.asked = [⟨r.trans, e.id⟩] := by
      rw [← hr']
      exact congrArg (· ++ [_]) hasked
    have hworking' : r'.working = [] := by
      rw [← hr']
      exact hworking
    refine became hattempts (by simp [hworking']) (fun hne => absurd hworking' hne)
      (Or.inr ⟨e₁, hr' ▸ rfl, ?_⟩)
    exact {
      id := hid
      upload := hupload
      folder := hfolder
      single := fun a ha => by
        change a ∈ r'.asked at ha
        change a.id = 0 ∧ r'.asked = [a]
        rw [hasked', List.mem_singleton] at ha
        rw [hasked', ha]
        exact ⟨hid, rfl⟩
      quiet := fun hquiet => absurd hwaits (Bool.eq_false_iff.mp hquiet)
      idle := fun _ _ => hworking'
      unanswered := fun hzero =>
        ⟨(hunanswered hzero).1, hworking', hr' ▸ (hunanswered hzero).2⟩
      asks := fun _ => by
        rw [hannounced, htotals, hledger]
        rfl
      nonzero := fun _ kept hkept => by
        have htrue := hresume.mpr ⟨kept, hkept⟩
        have hsame' : u.registry.putTotals 0 true = r.putTotals e.id true := by
          rw [Registry.putTotals, Registry.putTotals, hsame, hid]
        rw [hannounced, htrue, hsame']
        exact Nat.pos_of_ne_zero (hsome htrue)
      underway := fun hup => absurd hup hstill }

/-- The upload is asked for again, unless a file of it changed or nothing of it is left. -/
theorem resumeKept (hattempts : ∀ a ∈ u.attempts, a.Kept)
    (hdisk : u.registry.disk = diskOfFolder u.folder u.now u.ledger)
    (hsame : r.disk = u.registry.disk) (htrans : r.trans = u.registry.trans)
    (hruns : r.runs 0 = none → u.ledger = {}) (hlist : r.list = [e]) (hid : e.id = 0)
    (hupload : e.handle.upload = true) (hfolder : e.handle.folder = true)
    (href : e.handle.ref ≠ 0) (hasked : r.asked = []) (hworking : r.working = []) (kept : Disk) :
    SoundFolder (u.became (r.resumeKept c e kept)) := by
  unfold Registry.resumeKept
  rw [if_pos hupload]
  split
  · have hid' : ({ e with pause := some (.changed kept) } : Entry).id = e.id := rfl
    rw [Registry.put_one hlist hid']
    exact rests hattempts rfl hid hupload hfolder href hasked hworking
      (by simp [Entry.underway])
  let e₁ : Entry := { e with
    handle := { e.handle with totalPos := 0 }, pause := some (.asked kept) }
  let r₁ := (r.put e₁).setRun e.id ((r.runs e.id).map fun run =>
    { run with resumed := true, reoffered := false })
  have hlist₁ : r₁.list = [e₁] :=
    congrArg Registry.list (Registry.put_one hlist (show e₁.id = e.id from rfl))
  have hruns₁ : r₁.runs 0 = none → u.ledger = {} := by
    intro hnone
    refine hruns ?_
    simpa [r₁, Registry.setRun, hid] using hnone
  dsimp only
  by_cases hzero : (r₁.putTotals e₁.id true).2 = 0
  · have hask : r₁.askPutFolder c e₁ true = (r₁, false) := by
      unfold Registry.askPutFolder
      dsimp only
      rw [if_pos ⟨rfl, hzero⟩]
    rw [hask]
    dsimp only
    have hput : r₁.put { e₁ with pause := none } =
        { r₁ with list := [{ e₁ with pause := none }] } :=
      Registry.put_one hlist₁ (show ({ e₁ with pause := none } : Entry).id = e₁.id from rfl)
    rw [hput]
    have hremoved := Registry.xferRemoveFromList_one (c := c)
      (r := { r₁ with list := [{ e₁ with pause := none }] })
      (e := { e₁ with pause := none }) rfl
    change SoundFolder (u.became (Registry.xferRemoveFromList c _
      ({ e₁ with pause := none } : Entry).id))
    rw [hremoved]
    exact gone hattempts rfl hworking
  · have hask : (r₁.askPutFolder c e₁ true).2 = true := by
      unfold Registry.askPutFolder
      dsimp only
      rw [if_neg (not_and.mpr fun _ => hzero)]
    have hasks : SoundFolder (u.became (r₁.askPutFolder c e₁ true).1) :=
      asks (r := r₁) (e := e₁) hattempts hdisk hsame htrans hruns₁ hlist₁ hid hupload hfolder
        hasked hworking (by simp [e₁]) rfl (by simp [Entry.underway, e₁])
        (fun h => absurd h href) fun _ => hzero
    rcases hboth : r₁.askPutFolder c e₁ true with ⟨r', asked⟩
    rw [hboth] at hask hasks
    obtain rfl : asked = true := hask
    exact hasks

/-- The ledger is kept while what the workers left is. -/
theorem ledger_of_runs (h : SoundFolder u) (hruns : r.runs 0 = u.registry.runs 0) :
    (u.became r).ledger = u.ledger :=
  became_ledger fun hnone => h.fresh (hruns ▸ hnone)

/-- What was announced is left as long as what the workers left is. -/
theorem still_owed (h : SoundFolder u) (hruns : r.runs 0 = u.registry.runs 0)
    (htrans : r.trans = u.registry.trans) (hleaves : u.announced = leaves u.folder u.ledger) :
    (u.became r).announced = leaves u.folder (u.became r).ledger := by
  have hannounced : (u.became r).announced = u.announced := became_announced htrans
  rw [hannounced, h.ledger_of_runs hruns]
  exact hleaves

/-- The upload stays as it is, its request in flight or none. -/
theorem stays (h : SoundFolder u) (hst : StandsFolder u e) (hlist : r.list = [e'])
    (hkey : e'.standing = e.standing) (hasked : r.asked = u.registry.asked ∨ r.asked = [])
    (hworking : r.working = u.registry.working) (hruns : r.runs 0 = u.registry.runs 0)
    (htrans : r.trans = u.registry.trans) : SoundFolder (u.became r) := by
  have hledger := h.ledger_of_runs hruns
  have hannounced : (u.became r).announced = u.announced := became_announced htrans
  simp only [Entry.standing, Prod.mk.injEq] at hkey
  obtain ⟨hid, hupload, hfolder, href, hpause⟩ := hkey
  have hbuilds (ledger : UploadLedger) : e'.builds ledger = e.builds ledger := by
    rw [Entry.builds, Entry.builds, hpause]
  have hwaiting : e'.unsettled = e.unsettled := by
    rw [Entry.unsettled, Entry.unsettled, Entry.resuming, Entry.resuming, hpause, href]
  have hin (hne : r.asked ≠ []) : u.registry.asked ≠ [] :=
    fun hnone => hne (hasked.elim (·.trans hnone) id)
  refine became h.attempts (hworking ▸ h.only)
    (fun hne => h.still_owed hruns htrans (h.owes (hworking ▸ hne))) (Or.inr ⟨e', hlist, ?_⟩)
  exact {
    id := hid.trans hst.id
    upload := hupload.trans hst.upload
    folder := hfolder.trans hst.folder
    single := by
      change ∀ a ∈ r.asked, a.id = 0 ∧ r.asked = [a]
      rcases hasked with hsame | hnone
      · rw [hsame]
        exact hst.single
      · simp [hnone]
    quiet := fun hquiet => hasked.elim (·.trans (hst.quiet (hwaiting ▸ hquiet))) id
    idle := fun hne hne' => hworking.trans (hst.idle (hpause ▸ hne) (hpause ▸ hne'))
    unanswered := fun hzero => by
      obtain ⟨hnone, hidle, hrun⟩ := hst.unanswered (href ▸ hzero)
      exact ⟨hpause.trans hnone, hworking.trans hidle, hruns.trans hrun⟩
    asks := fun hne => by
      rw [hannounced, hledger, hbuilds]
      exact hst.asks (hin hne)
    nonzero := fun hne kept hkept => by
      rw [hannounced]
      exact hst.nonzero (hin hne) kept (hpause ▸ hkept)
    underway := fun hup => by
      rw [hannounced, hledger]
      refine hst.underway ?_
      rw [Entry.underway, ← href, ← hpause]
      exact hup }

/-- The upload is not in the list any more, but its worker may go on. -/
theorem unlisted (h : SoundFolder u) (hlist : r.list = [])
    (hworking : r.working = u.registry.working ∨ r.working = [])
    (hruns : r.runs 0 = u.registry.runs 0) (htrans : r.trans = u.registry.trans) :
    SoundFolder (u.became r) := by
  refine became h.attempts (fun id hin => ?_) (fun hne => ?_) (Or.inl hlist)
  · rcases hworking with hsame | hnone
    · exact h.only id (hsame ▸ hin)
    · simp [hnone] at hin
  · exact h.still_owed hruns htrans
      (h.owes fun hnone => hne (hworking.elim (·.trans hnone) id))

theorem xferGo (h : SoundFolder u) (hlist : u.registry.list = [e]) (hst : StandsFolder u e) :
    SoundFolder (u.became (u.registry.xferGo c e)) := by
  have hagain (kept : Disk) (hne : e.pause ≠ none) (hne' : e.pause ≠ some .winding)
      (hquiet : e.unsettled = false) : SoundFolder (u.became (u.registry.resumeKept c e kept)) :=
    resumeKept h.attempts h.disk rfl rfl h.fresh hlist hst.id hst.upload hst.folder
      (fun hzero => hne (hst.unanswered hzero).1) (hst.quiet hquiet) (hst.idle hne hne') kept
  rw [Registry.xferGo, if_pos hst.folder]
  unfold Registry.resumeFolder
  split
  next _ kept hpause =>
    exact hagain kept (by simp [hpause]) (by simp [hpause])
      (by simp [Entry.unsettled, Entry.resuming, hpause])
  next _ kept why hpause =>
    exact hagain kept (by simp [hpause]) (by simp [hpause])
      (by simp [Entry.unsettled, Entry.resuming, hpause])
  next => exact h.stays hst hlist rfl (Or.inl rfl) rfl rfl rfl

theorem xferPause (h : SoundFolder u) (hlist : u.registry.list = [e]) (hst : StandsFolder u e) :
    SoundFolder (u.became (u.registry.xferPause e)) := by
  unfold Registry.xferPause
  split
  next hcan =>
    obtain ⟨-, hworking, hpause⟩ :
        e.resumable = true ∧ e.id ∈ u.registry.working ∧ e.pause = none := by
      simpa [Registry.xferCanPause] using hcan
    have href : e.handle.ref ≠ 0 := fun hzero =>
      List.ne_nil_of_mem hworking (hst.unanswered hzero).2.1
    have hid : ({ e with pause := some .winding } : Entry).id = e.id := rfl
    rw [Registry.put_one hlist hid]
    refine goes h.attempts rfl hst.id hst.upload hst.folder href (Or.inr rfl)
      (hst.quiet (by simp [Entry.unsettled, Entry.resuming, hpause, href])) h.only ?_
    exact h.still_owed rfl rfl (hst.underway ⟨href, Or.inl hpause⟩)
  next => exact h.stays hst hlist rfl (Or.inl rfl) rfl rfl rfl

/-- The upload is removed from the list, where nothing waits for it. -/
theorem xferDelete (h : SoundFolder u) (hlist : r.list = [e'])
    (hworking : r.working = u.registry.working) (hruns : r.runs 0 = u.registry.runs 0)
    (htrans : r.trans = u.registry.trans) : SoundFolder (u.became (r.xferDelete c e'.id)) := by
  have hone : ({ r with trace := .delete e'.id :: r.trace } : Registry).list = [e'] := hlist
  rw [Registry.xferDelete, Registry.xferRemoveFromList_one hone]
  exact h.unlisted rfl (Or.inl hworking) hruns htrans

/-- An upload that awaits its answer has no worker. -/
theorem idle_of_waiting (hst : StandsFolder u e) (hwaits : e.unsettled = true) :
    ¬e.underway ∧ u.registry.working = [] := by
  rcases hpause : e.pause with _ | pause
  · have href : e.handle.ref = 0 := by
      simpa [Entry.unsettled, Entry.resuming, hpause] using hwaits
    exact ⟨fun hup => hup.1 href, (hst.unanswered href).2.1⟩
  · cases pause with
    | asked kept =>
      exact ⟨by simp [Entry.underway, hpause], hst.idle (by simp [hpause]) (by simp [hpause])⟩
    | restarted kept =>
      exact ⟨by simp [Entry.underway, hpause], hst.idle (by simp [hpause]) (by simp [hpause])⟩
    | _ => simp [Entry.unsettled, Entry.resuming, hpause] at hwaits

/-- An upload the server refused is asked for from the start, paused again or removed. -/
theorem uploadRefused (h : SoundFolder u) (hlist : u.registry.list = [e])
    (hst : StandsFolder u e) (hasked : u.registry.asked = []) (hwaits : e.unsettled = true) :
    SoundFolder (u.became (u.registry.uploadRefused c e)) := by
  obtain ⟨hstill, hworking⟩ := idle_of_waiting hst hwaits
  unfold Registry.uploadRefused
  split
  next _ kept hpause =>
    have href : e.handle.ref ≠ 0 := fun hzero =>
      absurd (hpause.symm.trans (hst.unanswered hzero).1) (by simp)
    let e₁ : Entry := { e with pause := some (.restarted kept) }
    have hput : u.registry.put e₁ = { u.registry with list := [e₁] } :=
      Registry.put_one hlist (show e₁.id = e.id from rfl)
    dsimp only
    rw [if_pos hst.folder, hput]
    exact asks (r := { u.registry with list := [e₁] }) (e := e₁) h.attempts h.disk rfl rfl h.fresh
      rfl hst.id hst.upload hst.folder hasked hworking (by simp [e₁]) rfl
      (by simp [Entry.underway, e₁]) (fun hzero => absurd hzero href) (by simp)
  next _ kept hpause =>
    have href : e.handle.ref ≠ 0 := fun hzero =>
      absurd (hpause.symm.trans (hst.unanswered hzero).1) (by simp)
    have hid : ({ e with pause := some (.paused kept) } : Entry).id = e.id := rfl
    rw [Registry.put_one hlist hid, Registry.startNext_one rfl rfl]
    exact rests h.attempts rfl hst.id hst.upload hst.folder href hasked hworking
      (by simp [Entry.underway])
  next =>
    exact h.xferDelete hlist rfl rfl rfl

/-- The answer to an upload lets it go, with the ledger its request was counted with. -/
theorem uploadReady (h : SoundFolder u) (hlist : u.registry.list = [e])
    (hst : StandsFolder u e) (hasked : u.registry.asked = []) (hwaits : e.unsettled = true)
    (hleaves : u.announced = leaves u.folder (e.builds u.ledger)) (t : Transfer) :
    SoundFolder (u.became (u.registry.uploadReady c e t)) := by
  obtain ⟨hstill, hworking⟩ := idle_of_waiting hst hwaits
  unfold Registry.uploadReady
  split
  next => exact h.stays hst hlist rfl (Or.inl rfl) rfl rfl rfl
  next href =>
    rw [if_pos hst.folder]
    let e₁ : Entry := { e.answered with
      handle := { e.handle with queue := t.queue, ref := t.reference } }
    have hpause : e₁.pause = none := by
      change e.answered.pause = none
      unfold Entry.answered
      rcases hpause : e.pause with _ | pause
      · rfl
      · cases pause <;> simp_all [Entry.unsettled, Entry.resuming]
    -- The ledger that is left is the one that the request builds on.
    have hgoes (r : Registry) (hlist₁ : r.list = [e]) (hasked₁ : r.asked = [])
        (hworking₁ : r.working = []) (htrans : r.trans = u.registry.trans)
        (hledger : (if (r.runs 0).isNone then {} else u.ledger) = e.builds u.ledger) :
        SoundFolder (u.became ((r.put e₁).hxXferAnnounce 0 t.queue)) := by
      rw [Registry.put_one hlist₁ (show e₁.id = e.id from rfl)]
      have hannounced {r' : Registry} (htrans' : r'.trans = u.registry.trans)
          (hruns : r'.runs = r.runs) :
          (u.became r').announced = leaves u.folder (u.became r').ledger := by
        have hsame : (u.became r').announced = u.announced := became_announced htrans'
        have hledger' : (u.became r').ledger = e.builds u.ledger := by
          rw [← hledger, ← hruns]
          rfl
        rw [hsame, hledger', hleaves]
      have hpauseOf : ({ r with list := [e₁] } : Registry).pauseOf 0 = none := by
        rw [Registry.pauseOf_one (e := e₁) rfl hst.id, hpause]
      unfold Registry.hxXferAnnounce
      split
      · unfold Registry.xferReadyWrite
        rw [hpauseOf, hworking₁, if_neg (by simp)]
        exact goes h.attempts rfl hst.id hst.upload hst.folder href (Or.inl hpause) hasked₁
          (by simp) (hannounced htrans rfl)
      · exact goes h.attempts rfl hst.id hst.upload hst.folder href (Or.inl hpause) hasked₁
          (by simp [hworking₁]) (hannounced htrans rfl)
    have hkept (hnot : ∀ kept, e.pause ≠ some (.restarted kept)) :
        (if (u.registry.runs 0).isNone then {} else u.ledger) = e.builds u.ledger := by
      rcases hwas : e.pause with _ | pause
      · have hzero : e.handle.ref = 0 := by
          simpa [Entry.unsettled, Entry.resuming, hwas] using hwaits
        simp [Entry.builds, hwas, (hst.unanswered hzero).2.2]
      · cases pause with
        | asked kept =>
          have hbuilds : e.builds u.ledger = u.ledger := by simp [Entry.builds, hwas]
          rw [hbuilds]
          exact became_ledger h.fresh
        | restarted kept => exact absurd hwas (hnot kept)
        | _ => simp [Entry.unsettled, Entry.resuming, hwas] at hwaits
    unfold Registry.goAnswered
    rw [hst.id]
    split
    next _ kept hrestarted =>
      refine hgoes (u.registry.setRun 0 none) hlist hasked hworking rfl ?_
      simp [Registry.setRun, Entry.builds, hrestarted]
    next hnot => exact hgoes u.registry hlist hasked hworking rfl (hkept hnot)

/-- Once its request is answered or refused, none is in flight. -/
theorem popped (h : SoundFolder u) (hlist : u.registry.list = [e]) (hst : StandsFolder u e)
    (trace : List Note) :
    SoundFolder { u with registry := { u.registry with asked := [], trace := trace } } ∧
      StandsFolder { u with registry := { u.registry with asked := [], trace := trace } } e := by
  have hst' : StandsFolder
      { u with registry := { u.registry with asked := [], trace := trace } } e :=
    { hst with
      single := nofun
      quiet := fun _ => rfl
      asks := fun hne => absurd rfl hne
      nonzero := fun hne => absurd rfl hne }
  exact ⟨{ h with place := Or.inr ⟨e, hlist, hst'⟩ }, hst'⟩

/-- What is in flight is the upload's only request, or was a removed upload's. -/
theorem awaited {a : Asked} {asked : List Asked} (hst : StandsFolder u e)
    (ha : u.registry.asked = a :: asked) :
    a.id = 0 ∧ u.registry.asked = [a] ∧ e.unsettled = true := by
  obtain ⟨hid, hone⟩ := hst.single a (by simp [ha])
  refine ⟨hid, hone, ?_⟩
  by_contra hquiet
  have hnone := hst.quiet (by simpa using hquiet)
  rw [hone] at hnone
  cases hnone

theorem replied {a : Asked} {asked : List Asked} (h : SoundFolder u)
    (ha : u.registry.asked = a :: asked) (t : Transfer) :
    SoundFolder (u.became (u.registry.replied c a.trans t)) := by
  rcases h.place with hempty | ⟨e, hlist, hst⟩
  · unfold Registry.replied
    rw [ha, List.find?_cons_of_pos (by simp)]
    dsimp only
    rw [Registry.find?, hempty]
    exact h.unlisted rfl (Or.inl rfl) rfl rfl
  · obtain ⟨hid, hone, hwaits⟩ := awaited hst ha
    obtain ⟨hsound, hst'⟩ :=
      h.popped hlist hst (.reply a.id a.trans t.reference :: u.registry.trace)
    have hfind : u.registry.asked.find? (·.trans = a.trans) = some a := by simp [hone]
    have herase : u.registry.asked.erase a = [] := by simp [hone]
    unfold Registry.replied
    rw [hfind]
    dsimp only
    rw [herase, hid, Registry.find?_one (by exact hlist) hst.id]
    dsimp only
    rw [if_pos hst.upload]
    rw [hid] at hsound hst'
    exact hsound.uploadReady hlist hst' rfl hwaits (hst.asks (by simp [ha])) t

theorem refused {a : Asked} {asked : List Asked} (h : SoundFolder u)
    (ha : u.registry.asked = a :: asked) :
    SoundFolder (u.became (u.registry.refused c a.trans)) := by
  rcases h.place with hempty | ⟨e, hlist, hst⟩
  · unfold Registry.refused
    rw [ha, List.find?_cons_of_pos (by simp)]
    dsimp only
    rw [Registry.find?, hempty]
    exact h.unlisted rfl (Or.inl rfl) rfl rfl
  · obtain ⟨hid, hone, hwaits⟩ := awaited hst ha
    obtain ⟨hsound, hst'⟩ := h.popped hlist hst u.registry.trace
    have hfind : u.registry.asked.find? (·.trans = a.trans) = some a := by simp [hone]
    have herase : u.registry.asked.erase a = [] := by simp [hone]
    unfold Registry.refused
    rw [hfind]
    dsimp only
    rw [herase, hid, Registry.find?_one (by exact hlist) hst.id]
    dsimp only
    rw [if_pos hst.upload]
    exact hsound.uploadRefused hlist hst' rfl hwaits

/-- The upload is told its place in the server's queue, and goes if it is at its head. -/
theorem queued (h : SoundFolder u) (hlist : u.registry.list = [e]) (hst : StandsFolder u e)
    (href : e.handle.ref ≠ 0) (queue : UInt32) :
    SoundFolder (u.became (u.registry.queued e.htlc e.handle.ref queue)) := by
  have hfind : u.registry.list.find?
      (fun x => x.htlc = e.htlc ∧ x.handle.ref = e.handle.ref) = some e := by simp [hlist]
  let moved : Entry := { e with handle := { e.handle with queue := queue } }
  have hput : u.registry.put moved = { u.registry with list := [moved] } :=
    Registry.put_one hlist rfl
  have hpauseOf : ({ u.registry with list := [moved] } : Registry).pauseOf 0 = e.pause :=
    Registry.pauseOf_one (e := moved) rfl hst.id
  unfold Registry.queued
  rw [hfind]
  change SoundFolder (u.became ((u.registry.put moved).hxXferAnnounce e.id queue))
  rw [hput, hst.id]
  unfold Registry.hxXferAnnounce
  split
  · unfold Registry.xferReadyWrite
    rw [hpauseOf]
    split
    · exact h.stays hst rfl rfl (Or.inl rfl) rfl rfl rfl
    next hfree =>
      have hpause : e.pause = none := by simpa using (not_or.mp hfree).1
      have hquiet : e.unsettled = false := by simp [Entry.unsettled, Entry.resuming, hpause, href]
      refine goes (e := moved) h.attempts rfl hst.id hst.upload hst.folder href (Or.inl hpause)
        (hst.quiet hquiet) (fun id hin => ?_)
        (h.still_owed rfl rfl (hst.underway ⟨href, Or.inl hpause⟩))
      rcases List.mem_append.mp hin with hin | hin
      · exact h.only id hin
      · exact List.mem_singleton.mp hin
  · exact h.stays hst rfl rfl (Or.inl rfl) rfl rfl rfl

/-- The upload is kept for a pause, or for a failure. -/
theorem hold (hattempts : ∀ a ∈ u.attempts, a.Kept) (hlist : r.list = [e]) (hid : e.id = 0)
    (hupload : e.handle.upload = true) (hfolder : e.handle.folder = true)
    (href : e.handle.ref ≠ 0) (hasked : r.asked = []) (hworking : r.working = [])
    {pause : Disk → Pause} (hpause : ∀ kept, keptBy (some (pause kept)) = some kept) :
    SoundFolder (u.became (r.hold c e pause)) := by
  let e₁ : Entry := { e with pause := some (pause FOLDER_KEPT) }
  have hrests : e₁.paused = true ∧ ¬e₁.underway := by
    rcases keptBy_cases (hpause FOLDER_KEPT) with hp | ⟨why, hp⟩ <;>
      simp [Entry.paused, Entry.underway, e₁, hp]
  have hheld : r.hold c e pause = { r with list := [e₁] } := by
    unfold Registry.hold
    dsimp only
    rw [if_pos hfolder, Registry.put_one hlist (show e₁.id = e.id from rfl),
      Registry.startNext_one rfl hrests.1]
  rw [hheld]
  exact rests (e := e₁) hattempts rfl hid hupload hfolder href hasked hworking hrests.2

/-- The upload's worker returned, and no pause keeps it. -/
theorem cleanUp (hattempts : ∀ a ∈ u.attempts, a.Kept) (hlist : r.list = [e]) (hid : e.id = 0)
    (hupload : e.handle.upload = true) (hfolder : e.handle.folder = true)
    (href : e.handle.ref ≠ 0) (hasked : r.asked = []) (hworking : r.working = [])
    (failed : Option Failure) : SoundFolder (u.became (r.cleanUp c e failed)) := by
  have hremoved : SoundFolder (u.became (r.xferRemoveFromList c e.id)) := by
    rw [Registry.xferRemoveFromList_one hlist]
    exact gone hattempts rfl hworking
  unfold Registry.cleanUp
  split
  · split
    · exact hold hattempts hlist hid hupload hfolder href hasked hworking fun _ => rfl
    · exact hremoved
  · exact hremoved

/-- The upload stopped short: it is asked for again, or paused. -/
theorem settleStop (hattempts : ∀ a ∈ u.attempts, a.Kept)
    (hdisk : u.registry.disk = diskOfFolder u.folder u.now u.ledger)
    (hsame : r.disk = u.registry.disk) (htrans : r.trans = u.registry.trans)
    (hlist : r.list = [e]) (hid : e.id = 0) (hupload : e.handle.upload = true)
    (hfolder : e.handle.folder = true) (href : e.handle.ref ≠ 0) (hasked : r.asked = [])
    (hworking : r.working = []) (stop : Stop) :
    SoundFolder (u.became (r.settleStop c e stop)) := by
  let e₁ : Entry := { e with
    pause := some (if stop = .changed then .changed FOLDER_KEPT else .paused FOLDER_KEPT) }
  have hput : r.put e₁ = { r with list := [e₁] } :=
    Registry.put_one hlist (show e₁.id = e.id from rfl)
  unfold Registry.settleStop
  dsimp only
  split
  next hagain =>
    have hpause : e₁.pause = some (.paused FOLDER_KEPT) := by simp [e₁, hagain.1]
    have hresumes (run : FolderRun) : SoundFolder (u.became
        ((({ r with list := [e₁] } : Registry).setRun e.id (some run)).resumeKept c e₁
          FOLDER_KEPT)) :=
      resumeKept (r := ({ r with list := [e₁] } : Registry).setRun e.id (some run)) hattempts hdisk
        hsame htrans (fun hnone => by simp [Registry.setRun, hid] at hnone) rfl hid hupload hfolder
        href hasked hworking _
    change SoundFolder (u.became (Registry.resumeFolder c ((r.put e₁).setRun e.id _) e₁))
    rw [hput]
    unfold Registry.resumeFolder
    rw [hpause]
    exact hresumes _
  next =>
    have hrests : e₁.paused = true ∧ ¬e₁.underway := by
      by_cases hchanged : stop = .changed <;>
        simp [Entry.paused, Entry.underway, e₁, hchanged]
    change SoundFolder (u.became (Registry.startNext c ((r.put e₁).setRun e.id _)))
    rw [hput, Registry.startNext_one (e := e₁) rfl hrests.1]
    exact rests (e := e₁) hattempts rfl hid hupload hfolder href hasked hworking hrests.2

/-- A worker returns, and the upload is settled if it is in the list. -/
theorem returned (hattempts : ∀ a ∈ u.attempts, a.Kept)
    (hdisk : u.registry.disk = diskOfFolder u.folder u.now u.ledger)
    (honly : ∀ id ∈ u.registry.working, id = 0)
    (hplace : u.registry.list = [] ∨ ∃ e, u.registry.list = [e] ∧ e.id = 0 ∧
      e.handle.upload = true ∧ e.handle.folder = true ∧ e.handle.ref ≠ 0 ∧ u.registry.asked = [])
    (how : End) (totalPos : ℕ) :
    SoundFolder (u.became (u.registry.returned c 0 how totalPos)) := by
  have hworking : u.registry.working.filter (· ≠ 0) = [] := by
    simpa using honly
  unfold Registry.returned
  rw [hworking]
  dsimp only
  rcases hplace with hempty | ⟨e, hlist, hid, hupload, hfolder, href, hasked⟩
  · rw [Registry.find?, hempty]
    exact gone hattempts rfl rfl
  rw [Registry.find?_one (by exact hlist) hid]
  dsimp only
  generalize hmoved : Registry.movedTo e how totalPos = e₁
  have hrole : e₁.id = e.id ∧ e₁.handle.upload = e.handle.upload ∧
      e₁.handle.folder = e.handle.folder ∧ e₁.handle.ref = e.handle.ref := by
    rw [← hmoved]
    exact ⟨rfl, rfl, rfl, rfl⟩
  obtain ⟨hid₁, hupload₁, hfolder₁, href₁⟩ := hrole
  generalize hr : Registry.setRun _ _ _ = r
  have hlist₁ : r.list = [e₁] := by
    rw [← hr]
    exact congrArg Registry.list
      (Registry.put_one (r := { u.registry with working := [] }) hlist hid₁)
  have hfacts : r.disk = u.registry.disk ∧ r.trans = u.registry.trans ∧ r.asked = [] ∧
      r.working = [] := by
    rw [← hr]
    exact ⟨rfl, rfl, hasked, rfl⟩
  obtain ⟨hsame, htrans, hasked₁, hworking₁⟩ := hfacts
  have hzero := hid₁.trans hid
  have hup := hupload₁.trans hupload
  have hfold := hfolder₁.trans hfolder
  have hanswered : e₁.handle.ref ≠ 0 := href₁.symm ▸ href
  unfold Registry.settled
  split
  · split
    · have hid₂ : ({ e₁ with pause := none } : Entry).id = e₁.id := rfl
      rw [Registry.put_one hlist₁ hid₂]
      exact cleanUp (r := { r with list := [{ e₁ with pause := none }] })
        (e := { e₁ with pause := none }) hattempts rfl hzero hup hfold hanswered hasked₁ hworking₁ _
    · exact hold hattempts hlist₁ hzero hup hfold hanswered hasked₁ hworking₁ fun _ => rfl
  · split
    · exact settleStop hattempts hdisk hsame htrans hlist₁ hzero hup hfold hanswered hasked₁
        hworking₁ _
    · exact cleanUp hattempts hlist₁ hzero hup hfold hanswered hasked₁ hworking₁ _

/-- A worker's upload has offered what was announced, or the first of it. -/
theorem kept (h : SoundFolder u) (hworking : u.registry.working ≠ []) (ffo : Ffo) (large : Bool)
    (line : FolderLine) : ∀ a ∈ (u.left ffo large line).attempts, a.Kept := by
  intro a ha
  rcases List.mem_cons.mp ha with rfl | ha
  · have hends : Fallible.Ends (u.ran ffo large line)
        (fun _ s' => s'.offers = [] ++ leftOf (some u.ledger) u.folder.planned)
        (fun _ s' => ∃ offered, offered <+: leftOf (some u.ledger) u.folder.planned ∧
          s'.offers = [] ++ offered) :=
      Upload.folderSend_offers ffo ⟨true, large⟩ u.folder (u.begun line)
    generalize hran : u.ran ffo large line = ran at hends
    obtain ⟨rv | done, s'⟩ := ran
    · obtain ⟨offered, hbegins, hoffers⟩ := hends
      exact ⟨h.owes hworking, hoffers ▸ hbegins, fun hdone => absurd hdone Bool.false_ne_true⟩
    · have hoffers : s'.offers = leftOf (some u.ledger) u.folder.planned := hends
      exact ⟨h.owes hworking, hoffers ▸ List.prefix_refl _, fun _ => hoffers⟩
  · exact h.attempts a ha

/-- A worker's upload is in the list as one that was answered, or removed. -/
theorem working_place (h : SoundFolder u) (hworking : u.registry.working ≠ []) :
    u.registry.list = [] ∨ ∃ e, u.registry.list = [e] ∧ e.id = 0 ∧ e.handle.upload = true ∧
      e.handle.folder = true ∧ e.handle.ref ≠ 0 ∧ u.registry.asked = [] := by
  refine h.place.imp_right ?_
  rintro ⟨e, hlist, hst⟩
  refine ⟨e, hlist, hst.id, hst.upload, hst.folder, fun hzero =>
    hworking (hst.unanswered hzero).2.1, hst.quiet ?_⟩
  by_contra hwaits
  exact hworking (idle_of_waiting hst (by simpa using hwaits)).2

/-- The local folder changes while nothing of the upload is under way, or keeps its entries. -/
theorem changes (h : SoundFolder u) (folder : LocalFolder) (now : List UInt8 → Option Offered)
    (hsteady : u.Pending → folder.planned = u.folder.planned) :
    SoundFolder { u with
      registry := { u.registry with disk := diskOfFolder folder now u.ledger }
      folder := folder
      now := now } := by
  have hleaves (hpending : u.Pending) (ledger : UploadLedger) :
      leaves folder ledger = leaves u.folder ledger := by
    rw [leaves_eq, leaves_eq, hsteady hpending]
  refine {
    disk := rfl
    fresh := h.fresh
    only := h.only
    owes := fun hne => (h.owes hne).trans (hleaves (Or.inr (Or.inl hne)) _).symm
    attempts := h.attempts
    place := h.place.imp_right ?_ }
  rintro ⟨e, hlist, hst⟩
  refine ⟨e, hlist, { hst with
    asks := fun hne => (hst.asks hne).trans (hleaves (Or.inl hne) _).symm
    underway := fun hup => (hst.underway hup).trans (hleaves (Or.inr (Or.inr ?_)) _).symm }⟩
  exact ⟨e, by simp [hlist], hup⟩

/-- Every step keeps what is announced as many entries as its ledger leaves. -/
theorem step {ffo : Ffo} {large : Bool} (h : SoundFolder u) {event : FolderEvent}
    (hsteady : u.Steady event) {u' : FolderUploading}
    (hstep : u.step c ffo large event = some u') : SoundFolder u' := by
  -- The transfer that the user's row names is the upload.
  have hone {f : Entry → Registry} (hr : ∃ r, (u.registry.find? 0).map f = some r ∧ u.became r = u')
      (hsound : ∀ e, u.registry.list = [e] → StandsFolder u e → SoundFolder (u.became (f e))) :
      SoundFolder u' := by
    obtain ⟨r, hr, rfl⟩ := hr
    obtain ⟨e, hfind, rfl⟩ := Option.map_eq_some_iff.mp hr
    rcases h.place with hempty | ⟨e', hlist, hst⟩
    · simp [Registry.find?, hempty] at hfind
    · obtain rfl := Option.some.inj ((Registry.find?_one hlist hst.id).symm.trans hfind)
      exact hsound e' hlist hst
  cases event with
  | goes => exact hone (Option.map_eq_some_iff.mp hstep) fun e hlist hst => h.xferGo hlist hst
  | pauses => exact hone (Option.map_eq_some_iff.mp hstep) fun e hlist hst => h.xferPause hlist hst
  | deletes =>
    exact hone (Option.map_eq_some_iff.mp hstep) fun e hlist hst => h.xferDelete hlist rfl rfl rfl
  | answered t =>
    rw [FolderUploading.step] at hstep
    split at hstep
    next a asked ha =>
      obtain rfl := Option.some.inj hstep
      exact h.replied ha t
    next => cases hstep
  | refused =>
    rw [FolderUploading.step] at hstep
    split at hstep
    next a asked ha =>
      obtain rfl := Option.some.inj hstep
      exact h.refused ha
    next => cases hstep
  | queued queue =>
    rw [FolderUploading.step] at hstep
    split at hstep
    next e hfind =>
      obtain rfl := Option.some.inj hstep
      rcases h.place with hempty | ⟨e', hlist, hst⟩
      · simp [Registry.find?, hempty] at hfind
      · obtain rfl := Option.some.inj ((Registry.find?_one hlist hst.id).symm.trans hfind)
        exact h.queued hlist hst (hsteady e' (by simp [hlist])) queue
    next => cases hstep
  | returned line why totalPos =>
    obtain ⟨r, hr, rfl⟩ := Option.map_eq_some_iff.mp hstep
    obtain ⟨hin, hreturned⟩ := Option.ite_none_right_eq_some.mp hr
    obtain rfl := Option.some.inj hreturned
    have hworking : u.registry.working ≠ [] := List.ne_nil_of_mem hin
    exact returned (h.kept hworking ffo large line) rfl h.only (h.working_place hworking) _ _
  | unreached totalPos =>
    obtain ⟨r, hr, rfl⟩ := Option.map_eq_some_iff.mp hstep
    obtain ⟨hin, hreturned⟩ := Option.ite_none_right_eq_some.mp hr
    obtain rfl := Option.some.inj hreturned
    have hworking : u.registry.working ≠ [] := List.ne_nil_of_mem hin
    exact returned h.attempts h.disk h.only (h.working_place hworking) _ _
  | changes folder now =>
    obtain rfl := Option.some.inj hstep
    exact h.changes folder now hsteady

theorem start (c : Client) (ffo : Ffo) (large : Bool) (folder : LocalFolder)
    (now : List UInt8 → Option Offered) (htlc : ℕ) (path : Path)
    (remotedir remotename : List UInt8) :
    SoundFolder
      (uploadingFolder c ffo large folder now htlc path remotedir remotename).start := by
  let h : Handle := { Handle.init htlc path remotedir remotename true 0 with folder := true }
  let unmade : FolderUploading := {
    registry := (registry c (diskOfFolder folder now {})).start
    folder := folder
    now := now
    ledger := {}
    announced := 0
    attempts := [] }
  exact asks (u := unmade) (r := unmade.registry.xferInit h) (e := ⟨0, h, none, none⟩) nofun rfl
    rfl rfl (fun _ => rfl) rfl rfl rfl rfl rfl rfl (by simp) rfl (fun hup => hup.1 rfl)
    (fun _ => ⟨rfl, rfl⟩) nofun

end SoundFolder

/-- Each worker has offered what its request announced, or the first of it, and no resume is asked
for that has nothing to offer. -/
structure OffersAnnounced (u : FolderUploading) : Prop where
  attempts : ∀ a ∈ u.attempts, a.Kept
  nonzero : u.registry.asked ≠ [] → u.registry.resumes = true → 0 < u.announced

theorem SoundFolder.offersAnnounced {u : FolderUploading} (h : SoundFolder u) :
    OffersAnnounced u where
  attempts := h.attempts
  nonzero := by
    intro hasked hresumes
    rcases h.place with hempty | ⟨e, hlist, hst⟩
    · simp [Registry.resumes, Registry.pauseOf, Registry.find?, hempty] at hresumes
    · unfold Registry.resumes at hresumes
      rw [Registry.pauseOf_one hlist hst.id] at hresumes
      split at hresumes
      next _ kept hkept => exact hst.nonzero hasked kept hkept
      next => cases hresumes

/-- In every run of a folder's upload, however its workers are cut, refused, ended or paused, the
count that a request announces is the number of entries its worker offers if it gets through, and
it never offers more: the folders that the server has made are neither counted nor offered. -/
theorem folderUpload_offers (c : Client) (ffo : Ffo) (large : Bool) (folder : LocalFolder)
    (now : List UInt8 → Option Offered) (htlc : ℕ) (path : Path)
    (remotedir remotename : List UInt8) (events : List FolderEvent)
    (hsteady : (uploadingFolder c ffo large folder now htlc path remotedir remotename).Along
      FolderUploading.Steady events) :
    (uploadingFolder c ffo large folder now htlc path remotedir remotename).Throughout
      OffersAnnounced events := by
  intro before u hbegin hrun
  have hsound := Reactive.Process.invariant_along
    (SoundFolder.start c ffo large folder now htlc path remotedir remotename)
    (fun u event u' h hsteady hstep => h.step hsteady hstep) hrun (hsteady.of_begin hbegin)
  exact hsound.offersAnnounced

section Sample

open Upload (nested asksForAll)
open Htxf (flatFfo)

/-- An upload that is cut once the server has made its folder, and then resumed. -/
def cutOnce : List FolderEvent :=
  [.answered ⟨5, 0, 0, 0, 0⟩, .returned { asksForAll with inner := [.bytes [0, 3, 0, 3]] } .lost 0,
    .goes, .answered ⟨6, 0, 0, 0, 0⟩, .returned asksForAll .lost 0]

/-- Its second worker offers the one entry that is announced for it. -/
theorem cutOnce_offers :
    (uploadingFolder queueing flatFfo false nested (fun _ => none) 1 [97] [] [97]).Throughout
      OffersAnnounced cutOnce :=
  folderUpload_offers queueing flatFfo false nested (fun _ => none) 1 [97] [] [97] _
    (Reactive.Process.AlongFrom.along (by
      exact ⟨trivial, fun _ _ => ⟨trivial, fun _ _ => ⟨trivial, fun _ _ => ⟨trivial, fun _ _ =>
        ⟨trivial, fun _ _ => trivial⟩⟩⟩⟩⟩))

end Sample

end Gtkhx.Transfers
