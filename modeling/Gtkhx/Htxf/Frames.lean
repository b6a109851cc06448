import Gtkhx.Htxf.Receive
import Mathlib.Logic.Relation

/-!
# What receiving leaves alone

Reading and writing the subchannel changes nothing but the subchannel, and receiving a
file touches the disk through four operations on one path. Whatever does not look at the
subchannel, and is kept by those four, is kept by receiving.
-/

namespace Gtkhx.Htxf

open Reader Fallible

variable {ω : Type} {P : World ω → Prop}

/-- A property of a worker that does not look at its subchannel. -/
def ConnFree (P : World ω → Prop) : Prop := ∀ w conn, P w → P { w with conn }

/-- A program that changes the subchannel alone keeps what does not look at it. -/
theorem ConnFree.keeps (hP : ConnFree P) {α : Type} {m : Work ω α}
    (hm : ∀ w, ∃ conn, (m.run w).2 = { w with conn }) : Keeps P m := by
  intro w hw
  obtain ⟨conn, heq⟩ := hm w
  rw [heq]
  exact hP w conn hw

namespace ConnFree

variable (hP : ConnFree P)

include hP

theorem xferWrite (buf : List UInt8) : Keeps P (xferWrite buf) := by
  refine hP.keeps fun w => ?_
  unfold Fallible.run Htxf.xferWrite
  dsimp only
  split
  · exact ⟨_, rfl⟩
  · exact ⟨_, rfl⟩
  · exact ⟨_, rfl⟩

theorem tell (bytes : List UInt8) : Keeps P (tell bytes) := (hP.xferWrite bytes).failWith

theorem setReadTimeout : Keeps P setReadTimeout := by
  refine hP.keeps fun w => ?_
  unfold Fallible.run Htxf.setReadTimeout
  dsimp only
  split
  · exact ⟨_, rfl⟩
  · exact ⟨w.conn, rfl⟩

theorem fillBuffer (want : ℕ) : Keeps P (fillBuffer want) := hP.keeps fun _ => ⟨_, rfl⟩

theorem xferRead (room : ℕ) : Keeps P (xferRead room) := by
  refine hP.keeps fun w => ?_
  unfold Fallible.run Htxf.xferRead
  dsimp only
  split
  · exact ⟨_, rfl⟩
  · exact ⟨_, rfl⟩

theorem forksRead (n : ℕ) : Keeps P (forksRead n) := hP.keeps fun _ => ⟨_, rfl⟩

theorem readFull (want : ℕ) : Keeps P (readFull want) := by
  refine (hP.fillBuffer want).bind fun got => ?_
  cases got with
  | full buffer => exact .pure _
  | ended got => exact .fail _
  | failed got kind => exact .fail _

theorem drainTimeout (wait : Bool) : Keeps P (drainTimeout wait) :=
  .ite (fun _ => .pure _) fun _ =>
    hP.setReadTimeout.bind fun _ => .ite (fun _ => .pure _) fun _ => .fail _

theorem readMacrMarker (wait : Bool) : Keeps P (readMacrMarker wait) := by
  refine (hP.drainTimeout wait).bind fun _ => (hP.fillBuffer _).bind fun got => ?_
  refine (hP.drainTimeout wait).bind fun _ => ?_
  cases got with
  | full marker => exact .pure _
  | ended got => exact .ite (fun _ => .pure _) fun _ => .fail _
  | failed got kind => exact .ite (fun _ => .pure _) fun _ => .fail _

theorem rdWrRecv {put : ℕ → List UInt8 → Work ω Unit} (hput : ∀ pos bytes, Keeps P (put pos bytes))
    (fuel pos dataLen : ℕ) : Keeps P (rdWrRecv put fuel pos dataLen) := by
  induction fuel generalizing pos dataLen with
  | zero => exact .pure _
  | succ fuel ih =>
    refine .ite (fun _ => .pure _) fun _ => (hP.xferRead _).bind fun got => ?_
    exact (hput _ _).bind fun _ => ih _ _

theorem rdWrRecv_sink (fuel pos dataLen : ℕ) : Keeps P (Htxf.rdWrRecv sink fuel pos dataLen) :=
  hP.rdWrRecv (fun _ _ => .pure _) fuel pos dataLen

theorem drain (fuel remaining : ℕ) : Keeps P (drain fuel remaining) := by
  induction fuel generalizing remaining with
  | zero => exact .pure _
  | succ fuel ih =>
    refine .ite (fun _ => .pure _) fun _ => (hP.xferRead _).attempt.bind fun got => ?_
    cases got with
    | ok got => exact ih _
    | error e => exact .pure _

theorem drainResource (totLen budget : ℕ) : Keeps P (drainResource totLen budget) := by
  refine .ite (fun _ => hP.setReadTimeout.bind fun ok => ?_) fun _ => .pure _
  refine .ite (fun _ => (hP.drain _ _).bind fun _ => ?_) fun _ => .pure _
  exact hP.setReadTimeout.bind fun ok => .ite (fun _ => .pure _) fun _ => .fail _

theorem skipResource (ffo : Ffo) (p : HxnetXferParams) (hdr : List UInt8) :
    Keeps P (skipResource ffo p hdr) := by
  refine (hP.readMacrMarker _).bind fun marker => ?_
  cases marker with
  | none => exact .pure _
  | some marker => exact hP.rdWrRecv_sink _ _ _

theorem previewFork (p : HxnetXferParams) (pi : FilpInfo) : Keeps P (previewFork p pi) := by
  unfold Htxf.previewFork
  cases p.preview with
  | none => exact .pure _
  | some setInfo =>
    exact (hP.rdWrRecv_sink _ _ _).bind fun _ => .ite (fun _ => .fail _) fun _ => .pure _

theorem readFilp (ffo : Ffo) (p : HxnetXferParams) : Keeps P (readFilp ffo p) :=
  (hP.readFull _).bind fun _ => (Keeps.ofOption _ _).bind fun _ =>
    (hP.readFull _).bind fun _ => (Keeps.ofOption _ _).bind fun _ => .pure _

theorem readNfi : Keeps P readNfi := by
  unfold Htxf.readNfi
  refine Keeps.state.bind fun w => .ite (fun _ => hP.setReadTimeout.bind fun ok => ?_) fun _ => ?_
  · refine .ite (fun _ => (hP.fillBuffer _).bind fun got => ?_) fun _ => .fail _
    rcases got with nfi | (_ | ⟨b, got⟩) | ⟨_ | ⟨b, got⟩, kind⟩
    · exact hP.setReadTimeout.bind fun ok => .ite (fun _ => .pure _) fun _ => .fail _
    · exact .pure _
    · exact .fail _
    · exact .ite (fun _ => .pure _) fun _ => .fail _
    · exact .fail _
  · refine (hP.fillBuffer _).bind fun got => ?_
    rcases got with nfi | (_ | ⟨b, got⟩) | ⟨got, kind⟩
    · exact .pure _
    · exact .pure _
    · exact .fail _
    · exact .fail _

theorem readComponent : Keeps P readComponent :=
  (hP.readFull _).bind fun _ => .ite (fun _ => .fail _) fun _ =>
    (hP.readFull _).bind fun _ => .ite (fun _ => .fail _) fun _ => .pure _

theorem readPath (pathcount : ℕ) (rel : List UInt8) : Keeps P (readPath pathcount rel) := by
  induction pathcount generalizing rel with
  | zero => exact .pure _
  | succ pathcount ih =>
    exact hP.readComponent.bind fun _ => .ite (fun _ => .fail _) fun _ => ih _

theorem nextEntry (hreceived : ∀ w received, P w → P { w with received }) :
    Keeps P nextEntry := by
  refine (hP.tell _).bind fun _ => hP.readNfi.bind fun nfi => ?_
  cases nfi with
  | none => exact .pure _
  | some nfi =>
    refine (Keeps.change fun w hw => hreceived w _ hw).bind fun _ => ?_
    exact (hP.readPath _ _).bind fun rel => .ite (fun _ => .fail _) fun _ => .pure _

end ConnFree

theorem Keeps.seekTo (os : Os ω) (path : PathBuf) (fork : Fork) (pos : ℕ) :
    Keeps P (seekTo os path fork pos) := by
  intro w hw
  unfold Fallible.run Htxf.seekTo
  split
  · exact hw
  · exact hw

theorem Keeps.placeFork (hwas : ∀ w was, P w → P { w with was }) (p : HxnetXferParams)
    (pi : FilpInfo) : Keeps P (placeFork p pi) := by
  intro w hw
  unfold Fallible.run Htxf.placeFork
  split
  · exact hwas w _ hw
  · exact hwas w _ hw

/-- Making a folder and those above it keeps what making it keeps, as long as those above
it keep it where they are missing. -/
theorem Keeps.createDirAllIn {os : Os ω} {P : ω → Prop} {p : PathBuf} {depth : ℕ}
    (hmkdir : Keeps P (os.mkdir p))
    (hparent : ∀ s s' q below, P s → (os.mkdir p).run s = (.error ENOENT, s') →
      p.parent = some q → depth = below + 1 → P ((createDirAllIn os below q).run s').2) :
    Keeps P (createDirAllIn os depth p) := by
  intro s hs
  have hmade := hmkdir s hs
  unfold Fallible.run Htxf.createDirAllIn
  by_cases hempty : p = .empty
  · rwa [if_pos hempty]
  rw [if_neg hempty]
  rcases hrun : (os.mkdir p).run s with ⟨e | u, s'⟩ <;> rw [hrun] at hmade <;> dsimp only
  · by_cases hmissing : e = ENOENT
    · subst hmissing
      rw [if_pos rfl]
      rcases depth with _ | below
      · exact hmade
      · rcases hup : p.parent with _ | q
        · exact hmade
        · have hq := hparent s s' q below hs hrun hup rfl
          dsimp only
          rcases hrec : Htxf.createDirAllIn os below q s' with ⟨e | u, t⟩ <;>
            rw [Fallible.run, hrec] at hq <;> dsimp only
          · exact hq
          · have hagain := hmkdir t hq
            rcases hrun' : (os.mkdir p).run t with ⟨e | u, t'⟩ <;>
              rw [hrun'] at hagain <;> dsimp only
            · split <;> exact hagain
            · exact hagain
    · rw [if_neg hmissing]
      split <;> exact hmade
  · exact hmade

/-- Making folders keeps what making one keeps. -/
theorem Keeps.createDirAll {os : Os ω} {Q : ω → Prop} (hmkdir : ∀ p, Keeps Q (os.mkdir p))
    (p : PathBuf) : Keeps (fun w : World ω => Q w.disk) (createDirAll os p) := by
  have hall : ∀ depth p, Keeps Q (Htxf.createDirAllIn os depth p) := by
    intro depth
    induction depth with
    | zero => exact fun p => Keeps.createDirAllIn (hmkdir p) fun _ _ _ _ _ _ _ h => by cases h
    | succ depth ih =>
      refine fun p => Keeps.createDirAllIn (hmkdir p) fun s s' q below hs hrun _ heq => ?_
      obtain rfl := Nat.succ.inj heq
      have hmade := hmkdir p s hs
      rw [hrun] at hmade
      exact ih q s' hmade
  exact fun w hw => hall _ p w.disk hw

/-- What is kept on the disk is kept by a worker. -/
theorem Keeps.onDisk {α : Type} {Q : ω → Prop} {m : Fallible Errno ω α} (hm : Keeps Q m) :
    Keeps (fun w : World ω => Q w.disk) (onDisk m) := fun w hw => hm w.disk hw

/-- What follows the data fork of a file at `path` keeps `P`. -/
structure TailKeeps (os : Os ω) (path : PathBuf) (P : World ω → Prop) : Prop where
  /-- It does not look at the subchannel. -/
  conn : ConnFree P
  /-- The file's sidecar is written. -/
  sidecar : ∀ info, Keeps P (sidecar os path info)
  /-- Its resource fork is opened. -/
  resourceOpen : Keeps P (onDisk (os.resourceOpen path))
  /-- Its resource fork is written. -/
  writeResource : ∀ pos bytes, Keeps P (toFile os path .resource pos bytes)

/-- What receiving a file at `path` does to the disk keeps `P`. -/
structure FileKeeps (os : Os ω) (path : PathBuf) (P : World ω → Prop) : Prop
    extends TailKeeps os path P where
  /-- The file is opened. -/
  openWrite : ∀ truncate, Keeps P (onDisk (os.openWrite path truncate))
  /-- It is written. -/
  writeData : ∀ pos bytes, Keeps P (toFile os path .data pos bytes)

namespace TailKeeps

variable {os : Os ω} {p : HxnetXferParams}

theorem receiveResource (h : TailKeeps os p.path P) (ffo : Ffo) (totLen budget : ℕ) :
    Keeps P (receiveResource os ffo p totLen budget) := by
  refine .ite (fun _ => .pure _) fun _ => (h.conn.readMacrMarker _).bind fun marker => ?_
  cases marker with
  | none => exact .pure _
  | some marker =>
    refine .ite (fun _ => .pure _) fun _ => h.resourceOpen.bind fun ok => ?_
    refine .ite (fun _ => (Keeps.seekTo os _ _ _).bind fun _ => ?_) fun _ => .fail _
    refine (h.conn.rdWrRecv h.writeResource _ _ _).bind fun _ => ?_
    exact .ite (fun _ => .pure _) fun _ => .fail _

/-- What follows the data fork keeps what the operations on its path keep. -/
theorem receiveTail (h : TailKeeps os p.path P) (ffo : Ffo) (hdr : List UInt8) (pi : FilpInfo)
    (totLen budget : ℕ) : Keeps P (receiveTail os ffo p hdr pi totLen budget) := by
  refine .ite (fun _ => ?_) fun _ => (h.receiveResource ffo _ _).bind fun _ => h.sidecar _
  have hskip : Keeps P (skipRest ffo p hdr totLen budget) :=
    .ite (fun _ => h.conn.skipResource ffo p hdr) fun _ => h.conn.drainResource _ _
  exact hskip.bind fun _ => h.sidecar _

end TailKeeps

/-- What the file was is set where its fork is placed, and nowhere else. -/
theorem wasKeeps (os : Os ω) (path : PathBuf) (was : Option Filp) :
    FileKeeps os path fun w => w.was = was where
  conn := fun _ _ hw => hw
  sidecar := fun _ => .change fun _ hw => hw
  resourceOpen := fun _ hw => hw
  writeResource := fun _ _ _ hw => hw
  openWrite := fun _ _ hw => hw
  writeData := fun _ _ _ hw => hw

namespace FileKeeps

variable {os : Os ω} {p : HxnetXferParams}

theorem receiveFork (h : FileKeeps os p.path P) (pi : FilpInfo) (start : ℕ) :
    Keeps P (receiveFork os p pi start) := by
  refine .ite (fun _ => .pure _) fun _ => (h.openWrite _).bind fun _ => ?_
  refine (Keeps.seekTo os _ _ _).bind fun _ => ?_
  refine (h.conn.rdWrRecv h.writeData _ _ _).bind fun _ => ?_
  exact (h.conn.rdWrRecv h.writeData _ _ _).bind fun _ => h.conn.forksRead _

/-- Receiving a file keeps what the operations on its path keep. -/
theorem fileRecv (h : FileKeeps os p.path P) (hwas : ∀ w was, P w → P { w with was })
    (ffo : Ffo) : Keeps P (fileRecv os ffo p) := by
  refine (h.conn.readFilp ffo p).bind fun ⟨hdr, pi, infoLen⟩ => ?_
  have hside : Keeps P (earlySidecar os p pi) :=
    .ite (fun _ => .pure _) fun _ => h.sidecar _
  refine hside.bind fun _ => (Keeps.placeFork hwas p pi).bind fun start => ?_
  refine .ite (fun _ => h.conn.previewFork p pi) fun _ => ?_
  exact (h.receiveFork pi start).bind fun _ => h.toTailKeeps.receiveTail ffo hdr pi _ _

/-- Answering the offer of a file keeps what the operations on its path keep. -/
theorem answerFile {fp : HxnetFolderParams} {full : PathBuf} (h : FileKeeps os full P)
    (hwas : ∀ w was, P w → P { w with was })
    (hledger : ∀ w ledger, P w → P { w with ledger }) (ffo : Ffo) (rel : List UInt8) :
    Keeps P (answerFile os ffo fp rel full) := by
  have hreceive : ∀ was dataPos, Keeps P (receiveFile os ffo fp rel full was dataPos) := by
    intro was dataPos
    refine (h.conn.readFull _).bind fun sz => .ite (fun _ => .fail _) fun _ => ?_
    refine (Keeps.change fun w hw => hwas w _ hw).bind fun _ => ?_
    have hfile := fun size =>
      FileKeeps.fileRecv (p := perFileParams fp full size dataPos) h hwas ffo
    refine (hfile _).attempt.bind fun rv => ?_
    refine (Keeps.change fun w hw => hledger w _ hw).bind fun _ => ?_
    cases rv with
    | ok _ => exact .pure _
    | error e => exact .fail _
  refine Keeps.state.bind fun w => ?_
  rcases Htxf.answer (w.ledger rel) (keptOf os w.disk full false none) with _ | data | _
  · exact (h.conn.tell _).bind fun _ => hreceive _ _
  · exact (h.conn.tell _).bind fun _ => (h.conn.forksRead _).bind fun _ => hreceive _ _
  · exact h.conn.forksRead _

end FileKeeps

/-- A turn of the loop that leads to another. -/
def Turn (os : Os ω) (ffo : Ffo) (fp : HxnetFolderParams) (w w' : World ω) : Prop :=
  (folderStep os ffo fp).run w = (.ok true, w')

/-- The loop, begun at `w`, comes to read the entry `e`. -/
def Offered (os : Os ω) (ffo : Ffo) (fp : HxnetFolderParams) (w : World ω) (e : Entry) : Prop :=
  ∃ w₁ w₂, Relation.ReflTransGen (Turn os ffo fp) w w₁ ∧ nextEntry.run w₁ = (.ok (some e), w₂)

/-- Where the loop of `folder_recv` begins. -/
def loopStart (os : Os ω) (fp : HxnetFolderParams) (w : World ω) : World ω :=
  { ((createDirAll os fp.base).run w).2 with received := 0 }

end Gtkhx.Htxf
