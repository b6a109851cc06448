import Gtkhx.Htxf.Disk
import Gtkhx.Htxf.Flattened
import Gtkhx.Htxf.Frames

/-!
# What a folder download touches

Every folder that a download makes and every file that it opens lies in the folder it was
asked to receive into, unless the platform takes the beginning of a name off the wire for
a drive.
-/

namespace Gtkhx.Htxf

open Reader Fallible

variable {ω : Type}

/-- Something a download did to the file system. -/
inductive Effect where
  /-- A folder was made. -/
  | created (p : PathBuf)
  /-- A file, or its resource fork, was opened to write it. -/
  | opened (p : PathBuf)
  /-- A file's sidecar was written. -/
  | sidecar (p : PathBuf)
  deriving DecidableEq, Repr

/-- The path it was done to. -/
def Effect.path : Effect → PathBuf
  | .created p | .opened p | .sidecar p => p

/-- The same file system, noting what is done to it. -/
def Os.logged (os : Os ω) : Os (ω × List Effect) where
  mkdir p := fun s =>
    match (os.mkdir p).run s.1 with
    | (.ok (), disk) => (.ok (), disk, s.2 ++ [.created p])
    | (.error e, disk) => (.error e, disk, s.2)
  isDir s := os.isDir s.1
  metadata s := os.metadata s.1
  openWrite p truncate := fun s =>
    let r := (os.openWrite p truncate).run s.1
    (r.1, r.2, s.2 ++ [.opened p])
  resourceOpen p := fun s =>
    let r := (os.resourceOpen p).run s.1
    (r.1, r.2, s.2 ++ [.opened p])
  seek s := os.seek s.1
  writeAll p fork pos bytes := fun s =>
    let r := (os.writeAll p fork pos bytes).run s.1
    (r.1, r.2, s.2)
  hfsinfoWrite p info s := (os.hfsinfoWrite p info s.1, s.2 ++ [.sidecar p])

/-- A worker on the noting file system, before it has done anything. -/
def World.logged (w : World ω) : World (ω × List Effect) where
  conn := w.conn
  disk := (w.disk, [])
  was := w.was
  ledger := w.ledger
  received := w.received

/-- The folder is there, and what was done so far was done in it. -/
def Held (os : Os ω) (base : PathBuf) (s : ω × List Effect) : Prop :=
  (base = .empty ∨ os.isDir s.1 base = true) ∧ ∀ effect ∈ s.2, base.Inside effect.path

/-- A component off the wire is plain. -/
theorem readComponent_returns {name : Name} {w w' : World ω}
    (h : readComponent.run w = (.ok name, w')) : Plain name := by
  obtain ⟨ph, w₁, -, h⟩ := bind_returns h
  dsimp only at h
  split at h
  · cases h
  · rename_i hlen
    obtain ⟨name', w₂, hread, h⟩ := bind_returns h
    split at h
    · cases h
    · rename_i hplain
      obtain ⟨hname, -⟩ := Prod.mk.inj h
      obtain rfl := Except.ok.inj hname
      obtain ⟨inner, -, -, hlength⟩ := readFull_returns hread
      simp only [not_or] at hplain
      refine ⟨?_, hplain.1, hplain.2.1, hplain.2.2⟩
      rintro rfl
      exact hlen hlength.symm

/-- What a path comes to is plain components joined, and not too long. -/
theorem readPath_returns {n : ℕ} (names : List Name) {w w' : World ω} {out : List UInt8}
    (hplain : ∀ name ∈ names, Plain name) (hlength : (joined names).length ≤ MAXPATHLEN)
    (h : (readPath n (joined names)).run w = (.ok out, w')) :
    ∃ names', out = joined names' ∧ (∀ name ∈ names', Plain name) ∧
      out.length ≤ MAXPATHLEN := by
  induction n generalizing names w with
  | zero =>
    obtain ⟨heq, -⟩ := Prod.mk.inj h
    obtain rfl := Except.ok.inj heq
    exact ⟨names, rfl, hplain, hlength⟩
  | succ n ih =>
    obtain ⟨name, w₁, hname, h⟩ := bind_returns h
    have hnext := readComponent_returns hname
    have hplain' : ∀ name' ∈ names ++ [name], Plain name' := by
      intro name' hmem
      rcases List.mem_append.mp hmem with hmem | hmem
      · exact hplain name' hmem
      · exact List.mem_singleton.mp hmem ▸ hnext
    have hjoin : (if joined names = [] then name else joined names ++ 47 :: name) =
        joined (names ++ [name]) := joined_concat hplain name
    dsimp only at h
    rw [hjoin] at h
    by_cases hlong : MAXPATHLEN < (joined names).length +
        if joined names = [] then name.length else 1 + name.length
    · rw [if_pos hlong] at h
      cases h
    · rw [if_neg hlong] at h
      refine ih _ hplain' ?_ h
      rw [← hjoin]
      by_cases hnil : joined names = []
      · simpa [hnil] using hlong
      · rw [if_neg hnil] at hlong ⊢
        simp only [List.length_append, List.length_cons]
        omega

/-- An entry's path is plain components joined, and not too long. -/
theorem nextEntry_returns {e : Entry} {w w' : World ω}
    (h : nextEntry.run w = (.ok (some e), w')) :
    ∃ names, e.rel = joined names ∧ names ≠ [] ∧ (∀ name ∈ names, Plain name) ∧
      e.rel.length ≤ MAXPATHLEN := by
  obtain ⟨-, w₁, -, h⟩ := bind_returns h
  obtain ⟨nfi, w₂, -, h⟩ := bind_returns h
  cases nfi with
  | none => cases h
  | some nfi =>
    obtain ⟨-, w₃, -, h⟩ := bind_returns h
    obtain ⟨rel, w₄, hrel, h⟩ := bind_returns h
    obtain ⟨names, rfl, hplain, hlength⟩ :=
      readPath_returns [] (by simp) (Nat.zero_le _) hrel
    split at h
    · cases h
    · rename_i hne
      obtain ⟨he, -⟩ := Prod.mk.inj h
      obtain rfl := Option.some.inj (Except.ok.inj he)
      refine ⟨names, rfl, ?_, hplain, hlength⟩
      rintro rfl
      exact hne rfl

/-- A folder that making it and those above it returned for is there. -/
theorem isDir_of_createDirAllIn (os : Os ω) {p : PathBuf} {depth : ℕ} {s s' : ω}
    (hmade : ∀ t t', (os.mkdir p).run t = (.ok (), t') → os.isDir t' p = true)
    (h : (createDirAllIn os depth p).run s = (.ok (), s')) :
    p = .empty ∨ os.isDir s' p = true := by
  unfold Fallible.run createDirAllIn at h
  by_cases hempty : p = .empty
  · exact .inl hempty
  right
  rw [if_neg hempty] at h
  rcases hrun : (os.mkdir p).run s with ⟨e | u, t⟩ <;> rw [hrun] at h <;> dsimp only at h
  · by_cases hmissing : e = ENOENT
    · rw [if_pos hmissing] at h
      rcases depth with _ | below
      · cases h
      · rcases hup : p.parent with _ | q <;> rw [hup] at h <;> dsimp only at h
        · cases h
        · rcases hrec : createDirAllIn os below q t with ⟨e | u, t'⟩ <;> rw [hrec] at h <;>
            dsimp only at h
          · cases h
          · rcases hrun' : (os.mkdir p).run t' with ⟨e | u, t''⟩ <;> rw [hrun'] at h <;>
              dsimp only at h
            · split at h
              · rename_i hdir
                obtain ⟨-, rfl⟩ := Prod.mk.inj h
                exact hdir
              · cases h
            · obtain ⟨-, rfl⟩ := Prod.mk.inj h
              exact hmade _ _ hrun'
    · rw [if_neg hmissing] at h
      split at h
      · rename_i hdir
        obtain ⟨-, rfl⟩ := Prod.mk.inj h
        exact hdir
      · cases h
  · obtain ⟨-, rfl⟩ := Prod.mk.inj h
    exact hmade _ _ hrun

/-- A folder that is there is not made. -/
theorem createDirAllIn_of_isDir {os : Os ω} (hos : FolderLaws os) {p : PathBuf}
    {s : ω × List Effect} (hdir : os.isDir s.1 p = true) (depth : ℕ) :
    ∃ disk, ((createDirAllIn os.logged depth p).run s).2 = (disk, s.2) ∧
      ∀ q, os.isDir s.1 q = true → os.isDir disk q = true := by
  obtain ⟨e, disk, hrun, he⟩ := hos.there hdir
  have hlogged : (os.logged.mkdir p).run s = (.error e, disk, s.2) := by
    unfold Fallible.run Os.logged
    dsimp only
    rw [hrun]
  have hkeeps := fun q => hos.mkdir_keeps (p := p) (s := s.1) q
  rw [hrun] at hkeeps
  unfold Fallible.run createDirAllIn
  by_cases hempty : p = .empty
  · rw [if_pos hempty]
    exact ⟨s.1, rfl, fun _ hq => hq⟩
  · refine ⟨disk, ?_, hkeeps⟩
    rw [if_neg hempty, hlogged]
    dsimp only
    rw [if_neg he]
    split <;> rfl

section Held

variable {os : Os ω} {base : PathBuf}

/-- Whatever is done in the folder, and removes no folder, keeps it. -/
theorem Held.next {s : ω × List Effect} (h : Held os base s) {disk : ω} {effects : List Effect}
    (hkeeps : ∀ q, os.isDir s.1 q = true → os.isDir disk q = true)
    (heffects : ∀ effect ∈ effects, base.Inside effect.path) :
    Held os base (disk, s.2 ++ effects) := by
  refine ⟨h.1.imp_right (hkeeps base), fun effect hmem => ?_⟩
  rcases List.mem_append.mp hmem with hmem | hmem
  · exact h.2 effect hmem
  · exact heffects effect hmem

/-- What is not noted changes nothing but the disk. -/
theorem Held.same {s : ω × List Effect} (h : Held os base s) {disk : ω}
    (hkeeps : ∀ q, os.isDir s.1 q = true → os.isDir disk q = true) :
    Held os base (disk, s.2) :=
  ⟨h.1.imp_right (hkeeps base), h.2⟩

variable (hos : FolderLaws os)

include hos

theorem Held.mkdir {p : PathBuf} (hp : base.Inside p) :
    Keeps (Held os base) (os.logged.mkdir p) := by
  intro s hs
  have hkeeps := fun q => hos.mkdir_keeps (p := p) (s := s.1) q
  unfold Fallible.run Os.logged
  dsimp only
  rcases hrun : (os.mkdir p).run s.1 with ⟨e | u, disk⟩ <;> rw [hrun] at hkeeps
  · exact hs.same hkeeps
  · exact hs.next hkeeps (by simpa [Effect.path] using hp)

/-- A path with the components of the folder is that folder, which is there. -/
theorem Held.isDir {s : ω × List Effect} (h : Held os base s) {p : PathBuf}
    (hp : base.Below p) (hcore : p.core = base.core) (hne : p ≠ .empty) :
    os.isDir s.1 p = true := by
  by_cases hbase : base = .empty
  · subst hbase
    exact hos.here hp.1 hp.2.1 (by simpa [PathBuf.core, PathBuf.empty] using hcore) hne
  · rw [hos.core hp.1 hp.2.1 hcore hne hbase]
    exact h.1.resolve_left hbase

/-- A folder that is there is not made. -/
theorem Held.there {s : ω × List Effect} (h : Held os base s) {p : PathBuf}
    (hdir : os.isDir s.1 p = true) (depth : ℕ) :
    Held os base ((Htxf.createDirAllIn os.logged depth p).run s).2 := by
  obtain ⟨disk, hrun, hkeeps⟩ := createDirAllIn_of_isDir hos hdir depth
  rw [hrun]
  exact h.same hkeeps

/-- Making a folder below the folder makes nothing outside it. -/
theorem Held.createDirAllIn {p : PathBuf} (hp : base.Below p) (depth : ℕ) :
    Keeps (Held os base) (createDirAllIn os.logged depth p) := by
  induction depth generalizing p with
  | zero => exact Keeps.createDirAllIn (Held.mkdir hos hp.inside) fun _ _ _ _ _ _ _ h => by cases h
  | succ depth ih =>
    refine Keeps.createDirAllIn (Held.mkdir hos hp.inside) ?_
    intro s s' q below hs hrun hup heq
    obtain rfl := Nat.succ.inj heq
    have hs' : Held os base s' := by
      have hmade := Held.mkdir hos hp.inside s hs
      rwa [hrun] at hmade
    rcases hp.parent with hcore | ⟨q', hq', hbelow⟩
    · exfalso
      have hne : p ≠ .empty := by
        rintro rfl
        cases hup
      obtain ⟨e, disk, hfail, he⟩ := hos.there (hs.isDir hos hp hcore hne)
      unfold Fallible.run Os.logged at hrun
      dsimp only at hrun
      rw [hfail] at hrun
      exact he (Except.error.inj (Prod.mk.inj hrun).1)
    · obtain rfl := Option.some.inj (hup.symm.trans hq')
      exact ih hbelow s' hs'

/-- A file in the folder is received without touching anything outside it. -/
theorem Held.fileKeeps {path : PathBuf} (hpath : base.Inside path) :
    FileKeeps os.logged path fun w => Held os base w.disk where
  conn := fun _ _ hw => hw
  sidecar := fun info => .change fun w hw =>
    hw.next (fun q => hos.hfsinfoWrite_keeps q) (by simpa [Effect.path] using hpath)
  openWrite := fun truncate => Keeps.onDisk fun s hs =>
    hs.next (fun q => hos.openWrite_keeps q) (by simpa [Effect.path] using hpath)
  resourceOpen := Keeps.onDisk fun s hs =>
    hs.next (fun q => hos.resourceOpen_keeps q) (by simpa [Effect.path] using hpath)
  writeData := fun pos bytes => Keeps.onDisk fun s hs => hs.same fun q => hos.writeAll_keeps q
  writeResource := fun pos bytes => Keeps.onDisk fun s hs =>
    hs.same fun q => hos.writeAll_keeps q

/-- An entry whose path stays below the folder is received in it. -/
theorem Held.receiveEntry {fp : HxnetFolderParams} (ffo : Ffo) {e : Entry}
    (he : fp.base.Below (fp.full e.rel)) :
    Keeps (fun w => Held os fp.base w.disk) (receiveEntry os.logged ffo fp e) := by
  refine .ite (fun _ => Keeps.onDisk (Held.createDirAllIn hos he _)) fun _ => ?_
  have hparent : Keeps (fun w => Held os fp.base w.disk) (makeParent os.logged fp e) := by
    refine .ite (fun _ => ?_) fun _ => .pure _
    rcases hup : (fp.full e.rel).parent with _ | parent
    · exact .pure _
    · rcases he.parent with hcore | ⟨q, hq, hbelow⟩
      · refine Keeps.onDisk fun s hs => ?_
        by_cases hempty : parent = .empty
        · unfold Fallible.run Htxf.createDirAllIn
          rwa [if_pos hempty]
        · have hne : fp.full e.rel ≠ .empty := by
            intro heq
            rw [heq] at hup
            cases hup
          exact hs.there hos (hos.up (hs.isDir hos he hcore hne) hup hempty) _
      · obtain rfl := Option.some.inj (hup.symm.trans hq)
        exact Keeps.onDisk (Held.createDirAllIn hos hbelow _)
  exact hparent.bind fun _ =>
    (Held.fileKeeps hos he.inside).answerFile (fun _ _ hw => hw) (fun _ _ hw => hw) ffo e.rel

/-- A turn of the loop stays in the folder, if the entry it reads does. -/
theorem Held.folderStep {fp : HxnetFolderParams} (ffo : Ffo) {w : World (ω × List Effect)}
    (hw : Held os fp.base w.disk)
    (hbelow : ∀ e w', nextEntry.run w = (.ok (some e), w') → fp.base.Below (fp.full e.rel)) :
    Held os fp.base ((folderStep os.logged ffo fp).run w).2.disk := by
  have hnext : Keeps (fun w : World (ω × List Effect) => Held os fp.base w.disk) nextEntry :=
    ConnFree.nextEntry (fun _ _ hw => hw) fun _ _ hw => hw
  have hmid := hnext w hw
  rw [Htxf.folderStep, run_bind]
  rcases hrun : nextEntry.run w with ⟨e | entry, w'⟩ <;> rw [hrun] at hmid
  · exact hmid
  · cases entry with
    | none => exact hmid
    | some entry =>
      have hentry := Held.receiveEntry hos ffo (hbelow entry w' hrun)
      exact (hentry.bind fun _ => Keeps.pure _) w' hmid

/-- The loop stays in the folder, if every entry it reads does. -/
theorem Held.folderLoop {fp : HxnetFolderParams} (ffo : Ffo) (fuel : ℕ)
    {w : World (ω × List Effect)} (hw : Held os fp.base w.disk)
    (hbelow : ∀ e, Offered os.logged ffo fp w e → fp.base.Below (fp.full e.rel)) :
    Held os fp.base ((folderLoop os.logged ffo fp fuel).run w).2.disk := by
  induction fuel generalizing w with
  | zero => exact hw
  | succ fuel ih =>
    have hstep := Held.folderStep hos ffo hw fun e w' hrun => hbelow e ⟨w, w', .refl, hrun⟩
    rw [Htxf.folderLoop, run_bind]
    rcases hrun : (Htxf.folderStep os.logged ffo fp).run w with ⟨e | more, w'⟩ <;>
      rw [hrun] at hstep
    · exact hstep
    · cases more with
      | false => exact hstep
      | true =>
        refine ih hstep fun e ⟨w₁, w₂, hreach, hrun'⟩ => hbelow e ⟨w₁, w₂, ?_, hrun'⟩
        exact Relation.ReflTransGen.head hrun hreach

/-- Making the folder itself makes nothing but it, when what it is in is there; and then
it is there. -/
theorem Held.createBase {disk : ω} {depth : ℕ} {r : Except Errno Unit} {s' : ω × List Effect}
    (hthere : os.isDir disk base = true ∨
      ∀ q, base.parent = some q → q = .empty ∨ os.isDir disk q = true)
    (hrun : (Htxf.createDirAllIn os.logged depth base).run (disk, []) = (r, s')) :
    (∀ effect ∈ s'.2, base.Inside effect.path) ∧ (r = .ok () → Held os base s') := by
  have hnoted : ∀ effect ∈ s'.2, base.Inside effect.path := by
    rcases hthere with hdir | hparent
    · have hheld := Held.there hos (s := (disk, [])) ⟨.inr hdir, by simp⟩ hdir depth
      rw [hrun] at hheld
      exact hheld.2
    · let Made : ω × List Effect → Prop := fun s => (∀ effect ∈ s.2, base.Inside effect.path) ∧
        ∀ q, base.parent = some q → q = .empty ∨ os.isDir s.1 q = true
      have hmkdir : Keeps Made (os.logged.mkdir base) := by
        intro s hs
        have hkeeps := fun q => hos.mkdir_keeps (p := base) (s := s.1) q
        unfold Fallible.run Os.logged
        dsimp only
        rcases hrun : (os.mkdir base).run s.1 with ⟨e | u, disk⟩ <;> rw [hrun] at hkeeps
        · exact ⟨hs.1, fun q hq => (hs.2 q hq).imp_right (hkeeps q)⟩
        · refine ⟨fun effect hmem => ?_, fun q hq => (hs.2 q hq).imp_right (hkeeps q)⟩
          rcases List.mem_append.mp hmem with hmem | hmem
          · exact hs.1 effect hmem
          · obtain rfl := List.mem_singleton.mp hmem
            exact (PathBuf.Below.refl base).inside
      have hkeeps : Keeps Made (Htxf.createDirAllIn os.logged depth base) := by
        refine Keeps.createDirAllIn hmkdir fun s t q below hs hmissing hup _ => ?_
        have ht : Made t := by
          have hmid := hmkdir s hs
          rwa [hmissing] at hmid
        rcases ht.2 q hup with rfl | hdir
        · unfold Fallible.run Htxf.createDirAllIn
          rwa [if_pos rfl]
        · obtain ⟨disk, hrun, hmono⟩ := createDirAllIn_of_isDir hos hdir below
          rw [hrun]
          exact ⟨ht.1, fun q hq => (ht.2 q hq).imp_right (hmono q)⟩
      have hend := hkeeps (disk, []) ⟨by simp, hparent⟩
      rw [hrun] at hend
      exact hend.1
  refine ⟨hnoted, fun hok => ⟨isDir_of_createDirAllIn os.logged ?_ (hok ▸ hrun), hnoted⟩⟩
  intro t t' hmade
  unfold Fallible.run Os.logged at hmade
  dsimp only at hmade
  rcases hrun : (os.mkdir base).run t.1 with ⟨e | u, disk'⟩ <;> rw [hrun] at hmade
  · cases hmade
  · obtain ⟨-, rfl⟩ := Prod.mk.inj hmade
    exact hos.made hrun

end Held

/-- **A folder download stays in its folder**, and no entry's path is longer than the
bound. The condition is on where the platform takes names off the wire for a drive, and
on what the folder is in, which is made too when it is missing. -/
theorem confined_of_no_drive {os : Os ω} (hos : FolderLaws os) (ffo : Ffo)
    (fp : HxnetFolderParams) (w : World ω) (fuel : ℕ)
    (hthere : os.isDir w.disk fp.base = true ∨
      ∀ q, fp.base.parent = some q → q = .empty ∨ os.isDir w.disk q = true)
    (hdrive : ∀ e, Offered os.logged ffo fp (loopStart os.logged fp w.logged) e →
      fp.platform = .windows → isDrivePrefix e.rel = false) :
    (∀ effect ∈ ((folderRecv os.logged ffo fp fuel).run w.logged).2.disk.2,
      fp.base.Inside effect.path) ∧
    ∀ e, Offered os.logged ffo fp (loopStart os.logged fp w.logged) e →
      e.rel.length ≤ MAXPATHLEN := by
  refine ⟨?_, ?_⟩
  · rw [folderRecv, run_bind]
    rcases hrun : (createDirAll os.logged fp.base).run w.logged with ⟨e | u, w'⟩
    · obtain ⟨hr, rfl⟩ := Prod.mk.inj hrun
      exact (Held.createBase hos hthere rfl).1
    · have hstart : loopStart os.logged fp w.logged = { w' with received := 0 } := by
        rw [loopStart, hrun]
      obtain ⟨hr, rfl⟩ := Prod.mk.inj hrun
      have hheld := (Held.createBase hos hthere rfl).2 hr
      refine (Held.folderLoop hos ffo fuel (w := loopStart os.logged fp w.logged) hheld ?_).2
      intro e he
      obtain ⟨w₁, w₂, -, hnext⟩ := id he
      obtain ⟨names, hrel, hne, hplain, -⟩ := nextEntry_returns hnext
      rw [HxnetFolderParams.full, hrel]
      exact join_below fp.base fp.platform hne hplain fun hwindows => hrel ▸ hdrive e he hwindows
  · rintro e ⟨w₁, w₂, -, hnext⟩
    obtain ⟨names, -, -, -, hlength⟩ := nextEntry_returns hnext
    exact hlength

/-- What a server sends to offer a folder. -/
def folderOffer (names : List Name) : List UInt8 :=
  [0, 0, 0, 1] ++ BigEndian.ofU16 (.ofNat names.length) ++
    names.flatMap fun name => [0, 0, UInt8.ofNat name.length] ++ name

/-- A worker that has a folder, `dl`, and the bytes of a server to read. -/
def dlWorker (drive : List UInt8) (stream : List UInt8) : World MemDisk where
  conn := ⟨[.bytes stream], [], [], [], 0, 0, 0⟩
  disk := ⟨[⟨drive, true, [[100, 108]]⟩], [], [], 0⟩
  was := none
  ledger := fun _ => none
  received := 0

/-- A download into that folder. -/
def dlParams (platform : Platform) (drive : List UInt8) : HxnetFolderParams where
  platform := platform
  base := ⟨drive, true, [[100, 108]]⟩
  optPreview := false
  optFolder := true
  optLarge := false

/-- A download into `/dl` of a folder `C:`. -/
theorem confined_to_dl :
    (∀ effect ∈ ((folderRecv MemDisk.os.logged flatFfo (dlParams .unix []) 2).run
        (dlWorker [] (folderOffer [[67, 58]])).logged).2.disk.2,
      (dlParams .unix []).base.Inside effect.path) ∧
    ∀ e, Offered MemDisk.os.logged flatFfo (dlParams .unix [])
        (loopStart MemDisk.os.logged (dlParams .unix [])
          (dlWorker [] (folderOffer [[67, 58]])).logged) e →
      e.rel.length ≤ MAXPATHLEN :=
  confined_of_no_drive MemDisk.folderLaws flatFfo (dlParams .unix [])
    (dlWorker [] (folderOffer [[67, 58]])) 2 (.inl (by decide)) fun _ _ h => by cases h

/-- On the other platform, into `D:\dl`, a folder `x` in `C:` is made on the drive `C:`. -/
theorem drive_escapes_dl :
    ¬ ∀ effect ∈ ((folderRecv MemDisk.os.logged flatFfo (dlParams .windows [68, 58]) 2).run
        (dlWorker [68, 58] (folderOffer [[67, 58], [120]])).logged).2.disk.2,
      (dlParams .windows [68, 58]).base.Inside effect.path := by
  intro h
  have hmade : .created ⟨[67, 58], true, [[120]]⟩ ∈
      ((folderRecv MemDisk.os.logged flatFfo (dlParams .windows [68, 58]) 2).run
        (dlWorker [68, 58] (folderOffer [[67, 58], [120]])).logged).2.disk.2 := by
    decide +kernel
  have hinside := h _ hmade
  revert hinside
  unfold PathBuf.Inside
  decide

end Gtkhx.Htxf
