import Gtkhx.Htxf.Confined
import Gtkhx.Htxf.Landed

/-!
# Resumed folder downloads

Any number of attempts at one folder, each cut anywhere, share a ledger of what they left
on the disk. As long as a file that is asked for whole over something else gets emptied
once it is there to be received, whatever the ledger says of a file that is still as it
was noted is true of it, and a file is passed over or gone on with only when it is the
server's, or its beginning.
-/

namespace Gtkhx.Htxf

open Reader Fallible

variable {ω : Type}

/-- The files of a server's folder, by relative path, and where they go: no two of them
are one file there. -/
structure ServerTree (fp : HxnetFolderParams) where
  /-- The file at a relative path. -/
  file : List UInt8 → Option ServerFile
  /-- No data fork is empty. -/
  fork_ne : ∀ {rel f}, file rel = some f → f.fork ≠ []
  /-- Lengths are 64-bit. -/
  fork_lt : ∀ {rel f}, file rel = some f → f.fork.length < 2 ^ 64
  /-- Two files go to two places. -/
  apart : ∀ {rel rel' f f'}, file rel = some f → file rel' = some f' → rel ≠ rel' →
    (fp.full rel).Apart (fp.full rel')

/-- A file on the disk is as the ledger noted it. -/
def Matching (os : Os ω) (fp : HxnetFolderParams) (disk : ω) (rel : List UInt8) (k : Kept) :
    Prop :=
  os.fileAt disk (fp.full rel) = some (k.len, k.modified)

/-- The loop begun at `w` comes to answer the offer of the file `rel`, at `w'`. -/
def Answering (os : Os ω) (ffo : Ffo) (fp : HxnetFolderParams) (w : World ω)
    (rel : List UInt8) (w' : World ω) : Prop :=
  ∃ w₁ w₂ e, Relation.ReflTransGen (Turn os ffo fp) w w₁ ∧
    nextEntry.run w₁ = (.ok (some e), w₂) ∧ e.ftype ≠ 1 ∧
    (makeParent os fp e).run w₂ = (.ok (), w') ∧ e.rel = rel

/-- The answer given there. -/
def answerAt (os : Os ω) (fp : HxnetFolderParams) (w : World ω) (rel : List UInt8) : Answer :=
  answer (w.ledger rel) (keptOf os w.disk (fp.full rel) false none)

/-- Where a file is asked from. -/
def Answer.askedFrom : Answer → Option ℕ
  | .send => some 0
  | .resume data => some data
  | .skip => none

/-- The server has the file it offers, and sends it as it was asked for: its size, and then
the file whole or from there on, cut anywhere. -/
def Honest {fp : HxnetFolderParams} (tree : ServerTree fp) (os : Os ω) (ffo : Ffo)
    (rel : List UInt8) (w : World ω) : Prop :=
  ∃ file, tree.file rel = some file ∧ ∀ dataPos, (answerAt os fp w rel).askedFrom = some dataPos →
    ∃ size body, size.length = 4 ∧ Sends ffo fp.optLarge file dataPos body ∧
      carried w.conn.inner <+: size ++ body

/-- A file that is asked for whole over something that is not its beginning gets emptied,
once its size has come. -/
def Emptied {fp : HxnetFolderParams} (tree : ServerTree fp) (os : Os ω) (ffo : Ffo)
    (data : ω → PathBuf → Option (List UInt8)) (rel : List UInt8) (w : World ω) : Prop :=
  answerAt os fp w rel = .send → 0 ∉ rel →
  ∀ file old, tree.file rel = some file → data w.disk (fp.full rel) = some old →
    ¬ old <+: file.fork →
  ∀ w₁ w₂ size, (tell (BigEndian.ofU16 FILE_SEND_CMD)).run w = (.ok (), w₁) →
    (readFull 4).run w₁ = (.ok size, w₂) →
    ((openedFor os ffo (perFileParams fp (fp.full rel) 0 0)).run
      { w₂ with was := none }).1 = .ok ()

/-- Attempts at a folder, and what others do to the disk between them. `history` holds the
disk at every moment between: a file that was changed is not as it was at any of them.
`Fit` is what attempts meet where they answer an offer. -/
inductive Retried (os : Os ω) (ffo : Ffo) (data : ω → PathBuf → Option (List UInt8))
    (fp : HxnetFolderParams) (Fit : List UInt8 → World ω → Prop) : List ω → World ω → Prop
  /-- Nothing has been received. -/
  | start (w : World ω) (hledger : ∀ rel, w.ledger rel = none) :
      Retried os ffo data fp Fit [w.disk] w
  /-- The disk is changed by others. -/
  | changed {history : List ω} {w : World ω} (disk : ω)
      (h : Retried os ffo data fp Fit history w)
      (hchanged : ∀ s ∈ history, ∀ path x, os.fileAt disk path = some x →
        os.fileAt s path = some x → data disk path = data s path) :
      Retried os ffo data fp Fit (disk :: history) { w with disk }
  /-- An attempt is made, over a new subchannel. -/
  | attempt {history : List ω} {w : World ω} (conn : HtxfConn) (fuel : ℕ)
      (h : Retried os ffo data fp Fit history w)
      (hfit : ∀ rel w', Answering os ffo fp (loopStart os fp { w with conn }) rel w' →
        Fit rel w') :
      Retried os ffo data fp Fit
        (((folderRecv os ffo fp fuel).run { w with conn }).2.disk :: history)
        ((folderRecv os ffo fp fuel).run { w with conn }).2

/-- What the ledger says of a file, as it is on the disk, is true of it: it is the beginning
of the server's, what it was told to be is the server's length, and if it is whole it is
the server's. -/
def Told {fp : HxnetFolderParams} (tree : ServerTree fp)
    (data : ω → PathBuf → Option (List UInt8)) (disk : ω) (rel : List UInt8) (k : Kept) :
    Prop :=
  ∃ file content, tree.file rel = some file ∧ data disk (fp.full rel) = some content ∧
    content <+: file.fork ∧ content.length = k.len ∧
    (∀ filp, k.filp = some filp → filp.len = file.fork.length) ∧
    (k.whole = true → content = file.fork)

/-- An answer that trusts the disk is right to, and a file that was received is the
server's. -/
def AnsweredRight {fp : HxnetFolderParams} (tree : ServerTree fp) (os : Os ω) (ffo : Ffo)
    (data : ω → PathBuf → Option (List UInt8)) (rel : List UInt8) (w : World ω) : Prop :=
  (answerAt os fp w rel = .skip → ∃ file, tree.file rel = some file ∧
    data w.disk (fp.full rel) = some file.fork) ∧
  (∀ dataPos, answerAt os fp w rel = .resume dataPos → ∃ file, tree.file rel = some file ∧
    dataPos ≤ file.fork.length ∧
    data w.disk (fp.full rel) = some (file.fork.take dataPos)) ∧
  (∀ w', (answerFile os ffo fp rel (fp.full rel)).run w = (.ok (), w') →
    ∃ file, tree.file rel = some file ∧ data w'.disk (fp.full rel) = some file.fork)

section Ledger

variable {os : Os ω} {data : ω → PathBuf → Option (List UInt8)} {fp : HxnetFolderParams}
  {tree : ServerTree fp} {history : List ω}

/-- An entry of the ledger tells the truth of the file it was noted of, and of the file on
the disk if that is as it was noted. -/
structure EntrySound (os : Os ω) (data : ω → PathBuf → Option (List UInt8))
    (tree : ServerTree fp) (history : List ω) (disk : ω) (rel : List UInt8) (k : Kept) :
    Prop where
  /-- The file it was noted of. -/
  noted : ∃ s, (s ∈ history ∨ s = disk) ∧ Matching os fp s rel k ∧ Told tree data s rel k
  /-- The file on the disk. -/
  now : Matching os fp disk rel k → Told tree data disk rel k

/-- Every entry of the ledger tells the truth, but for one that may not. -/
def LedgerSound (os : Os ω) (data : ω → PathBuf → Option (List UInt8)) (tree : ServerTree fp)
    (history : List ω) (but : Option (List UInt8)) (w : World ω) : Prop :=
  ∀ rel k, some rel ≠ but → w.ledger rel = some k → EntrySound os data tree history w.disk rel k

theorem EntrySound.same {s s' : ω} {rel : List UInt8} {k : Kept}
    (h : EntrySound os data tree history s rel k)
    (hsame : Untouched os data (fp.full rel) s s') :
    EntrySound os data tree history s' rel k := by
  have htold : Told tree data s rel k → Told tree data s' rel k := by
    rintro ⟨file, content, hfile, hcontent, hrest⟩
    exact ⟨file, content, hfile, hsame.1.trans hcontent, hrest⟩
  refine ⟨?_, fun hmatch => htold (h.now (hsame.2.symm.trans hmatch))⟩
  obtain ⟨t, ht | rfl, hmatch, hfile⟩ := h.noted
  · exact ⟨t, .inl ht, hmatch, hfile⟩
  · exact ⟨s', .inr rfl, hsame.2.trans hmatch, htold hfile⟩

theorem keptOf_eq (disk : ω) (path : PathBuf) (whole : Bool) (filp : Option Filp) :
    keptOf os disk path whole filp =
      (os.fileAt disk path).map fun x => ⟨x.1, x.2, whole, filp⟩ := by
  unfold keptOf Os.fileAt
  cases os.metadata disk path with
  | none => rfl
  | some md => cases hfile : md.isFile <;> simp [hfile]

/-- An answer that trusts the disk does so for a file that is as it was noted. -/
theorem answerAt_trusts {w : World ω} {rel : List UInt8} (h : answerAt os fp w rel ≠ .send) :
    ∃ k, w.ledger rel = some k ∧ Matching os fp w.disk rel k ∧
      (answerAt os fp w rel = .skip ∧ k.whole = true ∨
        answerAt os fp w rel = .resume k.len ∧ ∃ filp, k.filp = some filp) := by
  unfold answerAt at h ⊢
  rw [keptOf_eq] at h ⊢
  rcases hk : w.ledger rel with _ | k <;> rw [hk] at h
  · exact absurd rfl h
  rcases hfile : os.fileAt w.disk (fp.full rel) with _ | ⟨len, modified⟩ <;> rw [hfile] at h
  · exact absurd rfl h
  simp only [Option.map_some, answer] at h ⊢
  by_cases hsame : k.len = len ∧ k.modified = modified
  · refine ⟨k, rfl, by rw [Matching, hfile, hsame.1, hsame.2], ?_⟩
    rw [if_pos hsame] at h ⊢
    cases hwhole : k.whole with
    | true => exact .inl ⟨by simp, rfl⟩
    | false =>
      rw [hwhole] at h
      simp only [Bool.false_eq_true, if_false] at h ⊢
      by_cases hfits : k.filp.isSome = true ∧ k.len < 2 ^ 32
      · exact .inr ⟨if_pos hfits, Option.isSome_iff_exists.mp hfits.1⟩
      · exact absurd (if_neg hfits) h
  · exact absurd (if_neg hsame) h

/-- A property of the files on the disk and the ledger does not look at the rest. -/
theorem LedgerSound.connFree (but : Option (List UInt8)) :
    ConnFree (LedgerSound os data tree history but) := fun _ _ hw => hw

section Laws

variable (hos : FileLaws os data)

include hos

variable (tree history) in
/-- Making a folder changes nothing that the ledger tells of. -/
theorem LedgerSound.mkdir (ledger : FolderLedger) (p : PathBuf) :
    Keeps (fun s => ∀ rel k, ledger rel = some k → EntrySound os data tree history s rel k)
      (os.mkdir p) :=
  fun _ hs rel k hk => (hs rel k hk).same hos.mkdir_apart

theorem LedgerSound.makeParent (e : Entry) :
    Keeps (LedgerSound os data tree history none) (makeParent os fp e) := by
  refine .ite (fun _ => ?_) fun _ => .pure _
  cases (fp.full e.rel).parent with
  | none => exact .pure _
  | some parent =>
    intro w hw
    have hmade := Keeps.createDirAll (LedgerSound.mkdir tree history hos
      w.ledger) parent w fun rel k hk => hw rel k (by simp) hk
    exact fun rel k _ hk => hmade rel k hk

variable (history) in
/-- Receiving one file changes nothing that the ledger tells of the others. -/
theorem LedgerSound.fileKeeps {rel : List UInt8} {file : ServerFile}
    (hfile : tree.file rel = some file) :
    FileKeeps os (fp.full rel) (LedgerSound os data tree history (some rel)) := by
  have hothers : ∀ w w' : World ω, w'.ledger = w.ledger →
      (∀ q, (fp.full rel).Apart q → Untouched os data q w.disk w'.disk) →
      LedgerSound os data tree history (some rel) w →
      LedgerSound os data tree history (some rel) w' := by
    intro w w' hledger huntouched hw rel' k hne hk
    have hentry := hw rel' k hne (hledger ▸ hk)
    obtain ⟨-, -, -, file', -, hfile', -⟩ := hentry.noted
    exact hentry.same (huntouched _ (tree.apart hfile hfile' fun heq => hne (by rw [heq])))
  exact {
    conn := LedgerSound.connFree _
    sidecar := fun info => .change fun w hw => hothers w _ rfl (fun q hq => hos.sidecar_apart hq) hw
    resourceOpen := fun w hw => hothers w _ rfl (fun q hq => hos.resource_apart hq) hw
    writeResource := fun pos bytes w hw => hothers w _ rfl (fun q hq => hos.write_apart hq) hw
    openWrite := fun truncate w hw => hothers w _ rfl (fun q hq => hos.open_apart hq) hw
    writeData := fun pos bytes w hw => hothers w _ rfl (fun q hq => hos.write_apart hq) hw }

/-- What is noted of a file that a server's landed in is true of it. -/
theorem LedgerSound.note {rel : List UInt8} {file : ServerFile}
    (hfile : tree.file rel = some file) {w : World ω} (whole : Bool)
    (hw : LedgerSound os data tree history (some rel) w)
    (hlanded : Landed data file (fp.full rel) w)
    (hwhole : whole = true → data w.disk (fp.full rel) = some file.fork) :
    LedgerSound os data tree history none
      { w with ledger := w.ledger.note rel (keptOf os w.disk (fp.full rel) whole w.was) } := by
  intro rel' k _ hk
  by_cases hrel : rel' = rel
  · subst hrel
    simp only [FolderLedger.note, Function.update_self, keptOf_eq] at hk
    obtain ⟨⟨len, modified⟩, hat, rfl⟩ := Option.map_eq_some_iff.mp hk
    obtain ⟨content, hcontent, hlength⟩ := hos.length hat
    have htold : Told tree data w.disk rel' ⟨len, modified, whole, w.was⟩ := by
      refine ⟨file, content, hfile, hcontent, hlanded.1 content hcontent, hlength,
        hlanded.2, fun hall => ?_⟩
      exact Option.some.inj (hcontent.symm.trans (hwhole hall))
    exact ⟨⟨w.disk, .inr rfl, hat, htold⟩, fun _ => htold⟩
  · simp only [FolderLedger.note, Function.update_of_ne hrel] at hk
    exact hw rel' k (by simpa using hrel) hk

/-- A file that is received is noted as it lands. -/
theorem LedgerSound.receiveFile {ffo : Ffo} (hpreview : fp.optPreview = false)
    {rel : List UInt8} {file : ServerFile} (hfile : tree.file rel = some file)
    {was : Option Filp} {dataPos : ℕ} {w : World ω}
    (hw : LedgerSound os data tree history none w) {size body : List UInt8}
    (hsize : size.length = 4) (hsends : Sends ffo fp.optLarge file dataPos body)
    (hstream : carried w.conn.inner <+: size ++ body)
    (hwas : ∀ filp, was = some filp → filp.len = file.fork.length)
    (hasked : was = none → dataPos = 0)
    (hheld : dataPos = 0 ∨
      ∃ old, data w.disk (fp.full rel) = some old ∧ old.length = dataPos)
    (hbefore : ∀ old, data w.disk (fp.full rel) = some old → old <+: file.fork ∨
      was = none ∧ ∀ w₁ got, (readFull 4).run w = (.ok got, w₁) → 0 ∉ rel →
        ((openedFor os ffo (perFileParams fp (fp.full rel) 0 0)).run
          { w₁ with was := none }).1 = .ok ()) :
    Ends ((receiveFile os ffo fp rel (fp.full rel) was dataPos).run w)
      (fun _ w' => LedgerSound os data tree history none w' ∧
        data w'.disk (fp.full rel) = some file.fork)
      (fun _ w' => LedgerSound os data tree history none w') := by
  rw [Htxf.receiveFile]
  rcases hread : (readFull 4).run w with ⟨e | got, w₁⟩
  · rw [run_bind_error hread]
    have hkeeps : LedgerSound os data tree history none _ :=
      (LedgerSound.connFree none).readFull 4 w hw
    rwa [hread] at hkeeps
  rw [run_bind_ok hread]
  obtain ⟨inner, rfl, hbytes, hgot⟩ := readFull_returns hread
  have hbody : carried inner <+: body := by
    rw [hbytes] at hstream
    obtain ⟨more, hmore⟩ := hstream
    rw [List.append_assoc] at hmore
    exact ⟨more, (List.append_inj hmore (by rw [hgot, hsize])).2⟩
  split
  · exact hw
  rename_i hnul
  let w₂ : World ω := { w.reading inner with was := was }
  have hlanded := hos.landed (p := perFileParams fp (fp.full rel) (readBe32 got 0) dataPos)
    (w := w₂) hpreview (tree.fork_ne hfile) (tree.fork_lt hfile) hsends hbody hwas hasked hheld
    fun old hold => (hbefore old hold).imp_right fun ⟨hnone, hopened⟩ => ⟨hnone, by
      have hok := hopened _ _ hread hnul
      rwa [← hnone] at hok⟩
  have hothers := (LedgerSound.fileKeeps history hos hfile).fileRecv
    (p := perFileParams fp (fp.full rel) (readBe32 got 0) dataPos) (fun _ _ hw => hw) ffo w₂
    fun rel' k _ hk => hw rel' k (by simp) hk
  rw [run_bind_ok (show (Fallible.change _).run _ = (.ok (), w₂) from rfl)]
  rcases hrun : (fileRecv os ffo (perFileParams fp (fp.full rel) (readBe32 got 0) dataPos)).run w₂
    with ⟨e | u, w₃⟩ <;> rw [hrun] at hlanded hothers
  · rw [run_bind_ok (show (Fallible.attempt _).run w₂ = (.ok (.error e), w₃) by simp [hrun])]
    exact LedgerSound.note hos hfile false hothers hlanded (by simp)
  · rw [run_bind_ok (show (Fallible.attempt _).run w₂ = (.ok (.ok u), w₃) by simp [hrun])]
    exact ⟨LedgerSound.note hos hfile true hothers hlanded.1 fun _ => hlanded.2, hlanded.2⟩

/-- A file that is offered is answered from what is true of it. -/
theorem LedgerSound.answerFile {ffo : Ffo} (hpreview : fp.optPreview = false)
    {rel : List UInt8} {w : World ω} (hw : LedgerSound os data tree history none w)
    (hhonest : Honest tree os ffo rel w) (hemptied : Emptied tree os ffo data rel w) :
    Ends ((answerFile os ffo fp rel (fp.full rel)).run w)
      (fun _ w' => LedgerSound os data tree history none w' ∧
        ∃ file, tree.file rel = some file ∧ data w'.disk (fp.full rel) = some file.fork)
      (fun _ w' => LedgerSound os data tree history none w') := by
  obtain ⟨file, hfile, hsent⟩ := hhonest
  rw [Htxf.answerFile, run_bind_ok (run_state w)]
  have hresult : ∀ {r : Except Errno Unit × World ω},
      Ends r (fun _ w' => LedgerSound os data tree history none w' ∧
        data w'.disk (fp.full rel) = some file.fork)
        (fun _ w' => LedgerSound os data tree history none w') →
      Ends r (fun _ w' => LedgerSound os data tree history none w' ∧
        ∃ file, tree.file rel = some file ∧ data w'.disk (fp.full rel) = some file.fork)
        (fun _ w' => LedgerSound os data tree history none w') := fun h =>
    h.mono (fun _ _ _ hend => ⟨hend.1, file, hfile, hend.2⟩) fun _ _ _ hend => hend
  rcases hanswer : answerAt os fp w rel with _ | dataPos | _ <;>
    rw [show answer (w.ledger rel) (keptOf os w.disk (fp.full rel) false none) = _ from hanswer]
  · obtain ⟨size, body, hsize, hsends, hstream⟩ := hsent 0 (by rw [hanswer]; rfl)
    dsimp only
    rcases htell : (tell (BigEndian.ofU16 FILE_SEND_CMD)).run w with ⟨e | u, w₁⟩ <;>
      obtain ⟨conn, rfl, hinner⟩ := tell_run htell
    · rw [run_bind_error htell]
      exact hw
    rw [run_bind_ok htell]
    refine hresult (LedgerSound.receiveFile hos (w := { w with conn }) hpreview hfile hw hsize
      hsends (hinner ▸ hstream) (fun _ h => by cases h) (fun _ => rfl) (.inl rfl) ?_)
    intro old hold
    by_cases hfront : old <+: file.fork
    · exact .inl hfront
    · exact .inr ⟨rfl, fun w₂ got hread hnul =>
        hemptied hanswer hnul file old hfile hold hfront _ _ _ htell hread⟩
  · obtain ⟨size, body, hsize, hsends, hstream⟩ := hsent dataPos (by rw [hanswer]; rfl)
    obtain ⟨k, hk, hmatch, ⟨hskip, -⟩ | ⟨hresume, filp, hfilp⟩⟩ :=
      answerAt_trusts (show answerAt os fp w rel ≠ .send by rw [hanswer]; simp)
    · rw [hanswer] at hskip
      cases hskip
    obtain rfl : dataPos = k.len := Answer.resume.inj (hanswer.symm.trans hresume)
    obtain ⟨file', content, hfile', hcontent, hfront, hlength, htold, -⟩ :=
      (hw rel k (by simp) hk).now hmatch
    obtain rfl := Option.some.inj (hfile.symm.trans hfile')
    dsimp only
    rcases htell : (tell (BigEndian.ofU16 FILE_RESUME_CMD ++
      BigEndian.ofU16 (.ofNat ffo.rfltLen) ++ ffo.encodeRflt k.len 0)).run w with ⟨e | u, w₁⟩ <;>
      obtain ⟨conn, rfl, hinner⟩ := tell_run htell
    · rw [run_bind_error htell]
      exact hw
    rw [run_bind_ok htell, hk]
    refine hresult (LedgerSound.receiveFile hos (w := { w with
      conn := { conn with forks := satAdd64 conn.forks k.len } }) hpreview hfile hw hsize
      hsends (hinner ▸ hstream) ?_ ?_ (.inr ⟨content, hcontent, hlength⟩) ?_)
    · exact fun filp' h => htold filp' h
    · exact fun hnone => by cases hfilp.symm.trans hnone
    · intro old hold
      obtain rfl := Option.some.inj (hcontent.symm.trans hold)
      exact .inl hfront
  · obtain ⟨k, hk, hmatch, ⟨-, hwhole⟩ | ⟨hresume, -⟩⟩ :=
      answerAt_trusts (show answerAt os fp w rel ≠ .send by rw [hanswer]; simp)
    · obtain ⟨file', content, hfile', hcontent, -, -, -, hall⟩ :=
        (hw rel k (by simp) hk).now hmatch
      obtain rfl := Option.some.inj (hfile.symm.trans hfile')
      exact hresult ⟨hw, hcontent.trans (congrArg some (hall hwhole))⟩
    · rw [hanswer] at hresume
      cases hresume

omit hos in
/-- An entry is read without touching what the ledger tells of. -/
theorem LedgerSound.nextEntry :
    Keeps (LedgerSound os data tree history none) (nextEntry : Work ω (Option Entry)) :=
  (LedgerSound.connFree none).nextEntry fun _ _ hw => hw

/-- What attempts meet where they answer an offer. -/
abbrev Fits (tree : ServerTree fp) (os : Os ω) (ffo : Ffo)
    (data : ω → PathBuf → Option (List UInt8)) (rel : List UInt8) (w : World ω) : Prop :=
  Honest tree os ffo rel w ∧ Emptied tree os ffo data rel w

theorem LedgerSound.folderStep {ffo : Ffo} (hpreview : fp.optPreview = false) {w : World ω}
    (hw : LedgerSound os data tree history none w)
    (hfit : ∀ rel w', Answering os ffo fp w rel w' → Fits tree os ffo data rel w') :
    LedgerSound os data tree history none ((folderStep os ffo fp).run w).2 := by
  have hnext := LedgerSound.nextEntry w hw
  rw [Htxf.folderStep]
  rcases hrun : Htxf.nextEntry.run w with ⟨e | entry, w₁⟩ <;> rw [hrun] at hnext
  · rwa [run_bind_error hrun]
  rw [run_bind_ok hrun]
  cases entry with
  | none => exact hnext
  | some e =>
    have hentry : LedgerSound os data tree history none ((receiveEntry os ffo fp e).run w₁).2 := by
      unfold receiveEntry
      split
      · have hmade := Keeps.createDirAll (LedgerSound.mkdir tree history hos
          w₁.ledger) (fp.full e.rel) w₁ fun rel k hk => hnext rel k (by simp) hk
        exact fun rel k _ hk => hmade rel k hk
      · rename_i hftype
        have hparent := LedgerSound.makeParent hos e w₁ hnext
        rcases hmade : (Htxf.makeParent os fp e).run w₁ with ⟨err | u, w₂⟩ <;>
          rw [hmade] at hparent
        · rwa [run_bind_error hmade]
        · rw [run_bind_ok hmade]
          have hfits := hfit e.rel w₂ ⟨w, w₁, e, .refl, hrun, hftype, hmade, rfl⟩
          have hanswered := LedgerSound.answerFile hos hpreview hparent hfits.1 hfits.2
          rcases hdone : (Htxf.answerFile os ffo fp e.rel (fp.full e.rel)).run w₂ with
            ⟨err | u, w₃⟩ <;> rw [hdone] at hanswered
          · exact hanswered
          · exact hanswered.1
    rcases hdone : (receiveEntry os ffo fp e).run w₁ with ⟨err | u, w₂⟩ <;> rw [hdone] at hentry
    · rwa [run_bind_error hdone]
    · rwa [run_bind_ok hdone]

omit hos in
/-- What is answered later in the loop is answered in the loop. -/
theorem Answering.head {ffo : Ffo} {w w₁ w' : World ω} {rel : List UInt8}
    (hturn : Turn os ffo fp w w₁) (h : Answering os ffo fp w₁ rel w') :
    Answering os ffo fp w rel w' := by
  obtain ⟨w₂, w₃, e, hreach, hrest⟩ := h
  exact ⟨w₂, w₃, e, .head hturn hreach, hrest⟩

theorem LedgerSound.folderLoop {ffo : Ffo} (hpreview : fp.optPreview = false) (fuel : ℕ)
    {w : World ω} (hw : LedgerSound os data tree history none w)
    (hfit : ∀ rel w', Answering os ffo fp w rel w' → Fits tree os ffo data rel w') :
    LedgerSound os data tree history none ((folderLoop os ffo fp fuel).run w).2 := by
  induction fuel generalizing w with
  | zero => exact hw
  | succ fuel ih =>
    have hstep := LedgerSound.folderStep hos hpreview hw hfit
    rw [Htxf.folderLoop]
    rcases hrun : (Htxf.folderStep os ffo fp).run w with ⟨e | more, w₁⟩ <;> rw [hrun] at hstep
    · rwa [run_bind_error hrun]
    rw [run_bind_ok hrun]
    cases more with
    | false => exact hstep
    | true => exact ih hstep fun rel w' h => hfit rel w' (h.head hrun)

/-- Where the loop answers an offer, the ledger tells the truth. -/
theorem LedgerSound.answering {ffo : Ffo} (hpreview : fp.optPreview = false) {w w' : World ω}
    {rel : List UInt8} (hw : LedgerSound os data tree history none w)
    (hfit : ∀ rel w', Answering os ffo fp w rel w' → Fits tree os ffo data rel w')
    (h : Answering os ffo fp w rel w') : LedgerSound os data tree history none w' := by
  obtain ⟨w₁, w₂, e, hreach, hnext, -, hparent, -⟩ := h
  induction hreach using Relation.ReflTransGen.head_induction_on with
  | refl =>
    have hmid := LedgerSound.nextEntry w₁ hw
    rw [hnext] at hmid
    have hend := LedgerSound.makeParent hos e w₂ hmid
    rwa [hparent] at hend
  | head hturn hrest ih =>
    rename_i v v₁
    have hstep := LedgerSound.folderStep hos hpreview hw hfit
    rw [Turn] at hturn
    rw [hturn] at hstep
    exact ih hstep fun rel w' h => hfit rel w' (h.head hturn)

theorem LedgerSound.loopStart {w : World ω} (hw : LedgerSound os data tree history none w) :
    LedgerSound os data tree history none (loopStart os fp w) := by
  have hmade := Keeps.createDirAll (LedgerSound.mkdir tree history hos
    w.ledger) fp.base w fun rel k hk => hw rel k (by simp) hk
  exact fun rel k _ hk => hmade rel k hk

/-- Where an attempt answers an offer it is right to. -/
theorem LedgerSound.answeredRight {ffo : Ffo} (hpreview : fp.optPreview = false) {w : World ω}
    {rel : List UInt8} (hw : LedgerSound os data tree history none w)
    (hfits : Fits tree os ffo data rel w) : AnsweredRight tree os ffo data rel w := by
  refine ⟨fun hskip => ?_, fun dataPos hresume => ?_, fun w' hdone => ?_⟩
  · obtain ⟨k, hk, hmatch, ⟨-, hwhole⟩ | ⟨hother, -⟩⟩ :=
      answerAt_trusts (show answerAt os fp w rel ≠ .send by rw [hskip]; simp)
    · obtain ⟨file, content, hfile, hcontent, -, -, -, hall⟩ := (hw rel k (by simp) hk).now hmatch
      exact ⟨file, hfile, hcontent.trans (congrArg some (hall hwhole))⟩
    · rw [hskip] at hother
      cases hother
  · obtain ⟨k, hk, hmatch, ⟨hother, -⟩ | ⟨hother, -⟩⟩ :=
      answerAt_trusts (show answerAt os fp w rel ≠ .send by rw [hresume]; simp)
    · rw [hresume] at hother
      cases hother
    · obtain rfl : dataPos = k.len := Answer.resume.inj (hresume.symm.trans hother)
      obtain ⟨file, content, hfile, hcontent, hfront, hlength, -, -⟩ :=
        (hw rel k (by simp) hk).now hmatch
      refine ⟨file, hfile, hlength ▸ hfront.length_le, ?_⟩
      rw [hcontent, ← hlength, ← List.prefix_iff_eq_take.mp hfront]
  · have hanswered := LedgerSound.answerFile hos hpreview hw hfits.1 hfits.2
    rw [hdone] at hanswered
    exact hanswered.2

/-- Over any number of attempts the ledger tells the truth. -/
theorem Retried.sound {ffo : Ffo} (hpreview : fp.optPreview = false) {w : World ω}
    (h : Retried os ffo data fp (Fits tree os ffo data) history w) :
    w.disk ∈ history ∧ LedgerSound os data tree history none w := by
  induction h with
  | start w hledger =>
    refine ⟨List.mem_singleton_self _, fun rel k _ hk => ?_⟩
    rw [hledger rel] at hk
    cases hk
  | @changed history w disk h hchanged ih =>
    obtain ⟨hmem, hsound⟩ := ih
    refine ⟨List.mem_cons_self, fun rel k hne hk => ?_⟩
    obtain ⟨s, hs, hmatch, htold⟩ := (hsound rel k hne hk).noted
    have hs' : s ∈ history := hs.elim id fun heq => heq ▸ hmem
    refine ⟨⟨s, .inl (List.mem_cons_of_mem _ hs'), hmatch, htold⟩, fun hnow => ?_⟩
    obtain ⟨file, content, hfile, hcontent, hrest⟩ := htold
    exact ⟨file, content, hfile, (hchanged s hs' _ _ hnow hmatch).trans hcontent, hrest⟩
  | @attempt history w conn fuel h hfit ih =>
    have hstart : LedgerSound os data tree history none (Htxf.loopStart os fp { w with conn }) :=
      LedgerSound.loopStart hos (w := { w with conn }) ih.2
    have hend : LedgerSound os data tree history none
        ((folderRecv os ffo fp fuel).run { w with conn }).2 := by
      rw [folderRecv]
      rcases hmade : (createDirAll os fp.base).run { w with conn } with ⟨e | u, w₁⟩
      · rw [run_bind_error hmade]
        rw [Htxf.loopStart, hmade] at hstart
        exact hstart
      · rw [run_bind_ok hmade]
        rw [Htxf.loopStart, hmade] at hstart
        refine LedgerSound.folderLoop hos hpreview fuel hstart fun rel w' hanswering => ?_
        refine hfit rel w' ?_
        rwa [Htxf.loopStart, hmade]
    refine ⟨List.mem_cons_self, fun rel k hne hk => ?_⟩
    obtain ⟨⟨s, hs, hmatch, htold⟩, hnow⟩ := hend rel k hne hk
    refine ⟨⟨s, .inl ?_, hmatch, htold⟩, hnow⟩
    exact hs.elim (List.mem_cons_of_mem _) fun heq => heq ▸ List.mem_cons_self

end Laws

end Ledger

/-- A subchannel that brings these bytes and then ends. -/
def bringing (stream : List UInt8) : HtxfConn where
  inner := [.bytes stream]
  sent := []
  writes := []
  timeouts := []
  folderItems := 0
  folderSize := 0
  forks := 0

/-- What a server sends to offer a file of one component, and to answer that it is asked
for. -/
def fileOffer (name : Name) (modified fork : List UInt8) : List UInt8 :=
  [0, 0, 0, 0, 0, 1] ++ ([0, 0, UInt8.ofNat name.length] ++ name) ++
    (be32 (133 + fork.length) ++ flatFile modified fork)

/-- A server's folder of one file, `f`, of three bytes. -/
def oneFile : ServerTree (dlParams .unix []) where
  file rel := if rel = [102] then some ⟨[1, 2, 3], List.replicate 4 0⟩ else none
  fork_ne := by
    intro rel f h
    split at h
    · obtain rfl := Option.some.inj h
      simp
    · cases h
  fork_lt := by
    intro rel f h
    split at h
    · obtain rfl := Option.some.inj h
      decide
    · cases h
  apart := by
    intro rel rel' f f' h h' hne
    split at h
    · rename_i hrel
      split at h'
      · rename_i hrel'
        exact absurd (hrel.trans hrel'.symm) hne
      · cases h'
    · cases h

/-- A loop that is offered one file answers once. -/
private theorem answering_once {os : Os ω} {ffo : Ffo} {fp : HxnetFolderParams} {w w' : World ω}
    {rel : List UInt8} {e : Entry} (hfirst : (nextEntry.run w).1 = .ok (some e))
    (hone : e.pathcount ≤ 1)
    (hlast : ((nextEntry.run ((folderStep os ffo fp).run w).2).1.toOption.bind id).isNone = true)
    (h : Answering os ffo fp w rel w') : rel = e.rel ∧ w' = (nextEntry.run w).2 := by
  obtain ⟨w₁, w₂, e', hreach, hnext, -, hparent, rfl⟩ := h
  have hnone : ∀ v, Turn os ffo fp w v → ∀ e' v', nextEntry.run v ≠ (.ok (some e'), v') := by
    intro v hturn e' v' hrun
    rw [Turn] at hturn
    rw [hturn, hrun] at hlast
    cases hlast
  have hsame : w₁ = w := by
    rcases hreach.cases_head with rfl | ⟨v, hturn, hrest⟩
    · rfl
    · exfalso
      rcases hrest.cases_head with rfl | ⟨v', hturn', -⟩
      · exact hnone _ hturn _ _ hnext
      · rw [Turn, folderStep] at hturn'
        obtain ⟨e'', v'', hrun, hmore⟩ := bind_returns hturn'
        cases e'' with
        | none => cases hmore
        | some e'' => exact hnone v hturn _ _ hrun
  subst hsame
  rw [hnext] at hfirst
  obtain rfl := Option.some.inj (Except.ok.inj hfirst)
  rw [makeParent, if_neg (by omega)] at hparent
  obtain ⟨-, rfl⟩ := Prod.mk.inj hparent
  exact ⟨rfl, by rw [hnext]⟩

/-- That server, where it sends `f` as it was asked for. -/
private theorem honest_oneFile {w : World MemDisk} (start : ℕ) {fork : List UInt8}
    {pi : FilpInfo} (hasked : (answerAt MemDisk.os (dlParams .unix []) w [102]).askedFrom =
      some start)
    (hcarries : Carries flatFfo false (flatFile [] fork) pi fork)
    (hmodified : pi.modifyTime = List.replicate 4 0)
    (hfork : fork = [1, 2, 3].drop start ∨ fork = [1, 2, 3])
    (hstream : carried w.conn.inner = be32 (133 + fork.length) ++ flatFile [] fork) :
    Honest oneFile MemDisk.os flatFfo [102] w := by
  refine ⟨⟨[1, 2, 3], List.replicate 4 0⟩, rfl, fun dataPos h => ?_⟩
  obtain rfl := Option.some.inj (hasked.symm.trans h)
  refine ⟨be32 (133 + fork.length), flatFile [] fork, rfl,
    ⟨pi, fork, hcarries, hmodified, hfork⟩, ?_⟩
  rw [hstream]

/-- An attempt at that folder. -/
def attempted (w : World MemDisk) (stream : List UInt8) : World MemDisk :=
  ((folderRecv MemDisk.os flatFfo (dlParams .unix []) 2).run
    { w with conn := bringing stream }).2

/-- The whole of `f` carries what it holds. -/
private theorem whole_carried : Carries flatFfo false (flatFile [] [1, 2, 3])
    ⟨List.replicate 8 0, List.replicate 4 0, List.replicate 4 0, [], 3⟩ [1, 2, 3] :=
  ⟨flatHeader, flatInfo [] 3, [], by decide, by decide, by decide, by decide, by decide⟩

/-- A worker with a folder in which `f` holds another byte and may not be written. -/
def lockedWorker : World MemDisk where
  conn := bringing []
  disk := ⟨[⟨[], true, [[100, 108]]⟩], [(⟨[], true, [[100, 108], [102]]⟩, ⟨[9], [], 0⟩)],
    [⟨[], true, [[100, 108], [102]]⟩], 1⟩
  was := none
  ledger := fun _ => none
  received := 0

/-- The same worker, where every file may be written. -/
def unlocked (w : World MemDisk) : World MemDisk :=
  { w with disk := { w.disk with locked := [] } }

end Gtkhx.Htxf
