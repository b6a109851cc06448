import Gtkhx.Upload.Offers

/-!
# What a folder's upload learns

What an attempt leaves in the ledger, however it ended: it notes as made only folders that it
offered, and forgets none unless it ends as one whose folders are all to be offered again; and one
that ends past a folder leaves fewer entries than it was given.
-/

namespace Gtkhx.Upload

open Htxf Fallible

/-- What the system fails with is an error number. -/
structure Env.Positive (env : Env) : Prop where
  opening : ∀ fork e, env.opening fork = some e → 0 < e
  reading : ∀ fork pos e, env.reading fork pos = .error e → 0 < e

section Errors

variable {env : Env} {l : Line}

/-- On what an upload meets, the program fails with error numbers only. -/
def Numbered {α : Type} (env : Env) (m : Sending α) : Prop :=
  ∀ l : Line, l.toEnv = env → Ends (m.run l) (fun _ l' => l'.toEnv = env) (fun e _ => 0 < e)

namespace Numbered

protected theorem pure {α : Type} (a : α) : Numbered env (pure a : Sending α) := fun _ henv => henv

protected theorem fail {α : Type} {e : Errno} (he : 0 < e) :
    Numbered env (Fallible.fail e : Sending α) := fun _ _ => he

protected theorem bind {α β : Type} {m : Sending α} {f : α → Sending β} (hm : Numbered env m)
    (hf : ∀ a, Numbered env (f a)) : Numbered env (m >>= f) := fun l henv =>
  Ends.bind (hm l henv) fun a l' _ henv' => hf a l' henv'

protected theorem ite {α : Type} {c : Prop} [Decidable c] {m m' : Sending α}
    (hm : c → Numbered env m) (hm' : ¬c → Numbered env m') :
    Numbered env (if c then m else m') := by
  split
  · exact hm ‹_›
  · exact hm' ‹_›

protected theorem ofOption {α : Type} {e : Errno} (he : 0 < e) (o : Option α) :
    Numbered env (Fallible.ofOption e o : Sending α) := by
  cases o with
  | none => exact .fail he
  | some a => exact .pure a

end Numbered

theorem xferWrite_numbered (buf : List UInt8) : Numbered env (xferWrite buf) := by
  intro l henv
  unfold Fallible.run xferWrite
  split
  · exact henv
  · rw [Ends.error]
    split <;> decide

theorem report_numbered (n : ℕ) : Numbered env (report n) := fun _ henv => henv

theorem noteFork_numbered (fork : Fork) (piece : List UInt8) :
    Numbered env (noteFork fork piece) := by
  intro l henv
  cases fork <;> exact henv

theorem openFork_numbered (h : env.Positive) (fork : Fork) : Numbered env (openFork fork) := by
  intro l henv
  unfold Fallible.run openFork
  split
  · exact henv
  next e hopening => exact h.opening fork e (henv ▸ hopening)

theorem readFork_numbered (h : env.Positive) (fork : Fork) (bytes : List UInt8) (pos want : ℕ) :
    Numbered env (readFork fork bytes pos want) := by
  intro l henv
  unfold Fallible.run readFork
  split
  next e hreading => exact h.reading fork pos e (henv ▸ hreading)
  next =>
    split
    · rw [Ends.error]
      decide
    · exact henv

theorem rdWrSend_numbered (h : env.Positive) (fork : Fork) (bytes : List UInt8)
    (fuel pos dataLen : ℕ) : Numbered env (rdWrSend fork bytes fuel pos dataLen) := by
  induction fuel generalizing pos dataLen with
  | zero => exact .pure _
  | succ fuel ih =>
    rw [rdWrSend]
    refine .ite (fun _ => .pure _) fun _ => ?_
    refine .bind (readFork_numbered h fork bytes _ _) fun piece => ?_
    exact .bind (xferWrite_numbered piece) fun _ => .bind (noteFork_numbered fork piece) fun _ =>
      .bind (report_numbered _) fun _ => ih _ _

theorem sendResource_numbered (h : env.Positive) (ffo : Ffo) (file : LocalFile) (p : SendParams) :
    Numbered env (sendResource ffo file p) := by
  unfold sendResource
  refine .bind (.ofOption (by decide) _) fun macr => ?_
  refine .bind (m := Fallible.attempt (xferWrite macr)) (fun l henv => ?_) fun sent => ?_
  · have hwrite := xferWrite_numbered macr l henv
    rw [Fallible.run_attempt]
    unfold Fallible.run xferWrite
    split <;> exact henv
  cases sent with
  | error e => exact .ite (fun _ => .fail (by decide)) fun _ => .pure _
  | ok =>
    refine .bind (report_numbered _) fun _ => .bind (openFork_numbered h _) fun _ => ?_
    exact .bind (.ofOption (by decide) _) fun bytes => rdWrSend_numbered h _ _ _ _ _

theorem fileSendOne_numbered (h : env.Positive) (ffo : Ffo) (file : LocalFile) (p : SendParams) :
    Numbered env (fileSendOne ffo file p) := by
  unfold fileSendOne
  refine .ite (fun _ => ?_) fun _ => ?_
  · exact .bind (openFork_numbered h _) fun _ => rdWrSend_numbered h _ _ _ _ _
  · refine .bind (.ofOption (by decide) _) fun hdr => .bind (xferWrite_numbered hdr) fun _ => ?_
    refine .bind (report_numbered _) fun _ => .bind ?_ fun _ => ?_
    · unfold sendData
      exact .ite (fun _ => .bind (openFork_numbered h _) fun _ =>
        rdWrSend_numbered h _ _ _ _ _) fun _ => .pure _
    · exact .ite (fun _ => sendResource_numbered h ffo file p) fun _ => .pure _

end Errors

/-- The system's errors are error numbers. -/
structure FolderLine.System (s : FolderLine) : Prop where
  env : s.toEnv.Positive
  met : ∀ path e, s.met path = .error e → 0 < e

/-- A folder of this path was offered. -/
def FolderLine.Has (s : FolderLine) (rel : List UInt8) : Prop :=
  ∃ e ∈ s.offers, e.isFolder = true ∧ e.rel = rel

/-- Folders that were offered have been made. -/
structure Grown (s s' : FolderLine) : Prop where
  offers : s.offers <+: s'.offers
  folders : s.ledger.folders ⊆ s'.ledger.folders
  offered : ∀ rel ∈ s'.ledger.folders, rel ∉ s.ledger.folders → s'.Has rel

/-- How an attempt that fails leaves what it knows of the folders. -/
structure Leaves (s s' : FolderLine) (rv : Errno) : Prop where
  offers : s.offers <+: s'.offers
  offered : ∀ rel ∈ s'.ledger.folders, rel ∉ s.ledger.folders → s'.Has rel
  folders : rv ≠ HXNET_XFER_REOFFER → s.ledger.folders ⊆ s'.ledger.folders
  reoffer : rv = HXNET_XFER_REOFFER → s'.ledger.folders = ∅
  again : rv = HXNET_XFER_AGAIN →
    ∃ rel ∈ s'.ledger.folders, rel ∉ s.ledger.folders ∧ s'.Has rel

/-- It fails without having learned anything, or as one whose folders are all to be offered. -/
structure Halts (s s' : FolderLine) (rv : Errno) : Prop where
  offers : s'.offers = s.offers
  learns : rv ≠ HXNET_XFER_AGAIN ∧ rv ≠ HXNET_XFER_REOFFER ∧
      s'.ledger.folders = s.ledger.folders ∨
    rv = HXNET_XFER_REOFFER ∧ s'.ledger.folders = ∅

section

variable {s s' s₂ : FolderLine} {rv : Errno}

theorem FolderLine.Has.mono {rel : List UInt8} (h : s.Has rel) (hoffers : s.offers <+: s'.offers) :
    s'.Has rel := by
  obtain ⟨e, he, hrel⟩ := h
  exact ⟨e, hoffers.subset he, hrel⟩

theorem Grown.of_eq (hoffers : s.offers <+: s'.offers)
    (hfolders : s'.ledger.folders = s.ledger.folders) : Grown s s' where
  offers := hoffers
  folders := hfolders.ge
  offered _ hmem hnot := absurd (hfolders ▸ hmem) hnot

/-- What was made in a step and in the next was made in both together. -/
theorem Grown.offered_after (h : Grown s s') (hoffers : s'.offers <+: s₂.offers)
    (hoffered : ∀ rel ∈ s₂.ledger.folders, rel ∉ s'.ledger.folders → s₂.Has rel) :
    ∀ rel ∈ s₂.ledger.folders, rel ∉ s.ledger.folders → s₂.Has rel := by
  intro rel hmem hnot
  by_cases hmid : rel ∈ s'.ledger.folders
  · exact (h.offered rel hmid hnot).mono hoffers
  · exact hoffered rel hmem hmid

theorem Grown.trans (h : Grown s s') (h' : Grown s' s₂) : Grown s s₂ where
  offers := h.offers.trans h'.offers
  folders := Finset.Subset.trans h.folders h'.folders
  offered := h.offered_after h'.offers h'.offered

theorem Grown.leaves (h : Grown s s') (h' : Leaves s' s₂ rv) : Leaves s s₂ rv where
  offers := h.offers.trans h'.offers
  offered := h.offered_after h'.offers h'.offered
  folders hne := Finset.Subset.trans h.folders (h'.folders hne)
  reoffer := h'.reoffer
  again hagain := by
    obtain ⟨rel, hmem, hnot, hhas⟩ := h'.again hagain
    exact ⟨rel, hmem, fun hin => hnot (h.folders hin), hhas⟩

theorem Halts.leaves (h : Halts s s' rv) : Leaves s s' rv := by
  obtain ⟨hoffers, ⟨hagain, hreoffer, hfolders⟩ | ⟨rfl, hfolders⟩⟩ := h
  · exact {
      offers := hoffers ▸ List.prefix_refl _
      offered := fun _ hmem hnot => absurd (hfolders ▸ hmem) hnot
      folders := fun _ => hfolders.ge
      reoffer := fun heq => absurd heq hreoffer
      again := fun heq => absurd heq hagain }
  · exact {
      offers := hoffers ▸ List.prefix_refl _
      offered := fun rel hmem _ => by simp [hfolders] at hmem
      folders := fun hne => absurd rfl hne
      reoffer := fun _ => hfolders
      again := fun heq => absurd heq (by decide) }

/-- An error number says nothing of the folders. -/
theorem Halts.of_pos (hpos : 0 < rv) (hoffers : s'.offers = s.offers)
    (hfolders : s'.ledger.folders = s.ledger.folders) : Halts s s' rv :=
  ⟨hoffers, Or.inl ⟨fun heq => absurd (heq ▸ hpos) (by decide),
    fun heq => absurd (heq ▸ hpos) (by decide), hfolders⟩⟩

theorem Halts.of_eq (h : Halts s' s₂ rv) (hoffers : s'.offers = s.offers)
    (hfolders : s'.ledger.folders = s.ledger.folders) : Halts s s₂ rv :=
  ⟨h.offers.trans hoffers, h.learns.imp_left fun ⟨hagain, hreoffer, hsame⟩ =>
    ⟨hagain, hreoffer, hsame.trans hfolders⟩⟩

end

/-- The connection ended at a file, or failed. -/
theorem closed_halts (inSkipped : Bool) {e : Errno} (he : 0 < e) (α : Type) (s : FolderLine) :
    Ends ((closed inSkipped e α).run s) (fun _ _ => False) (fun rv s' => Halts s s' rv) := by
  unfold closed
  refine Ends.bind (Q := fun again s' =>
    again = none ∧ s' = s ∨ again = some HXNET_XFER_REOFFER ∧ s'.offers = s.offers ∧
      s'.ledger.folders = ∅) ?_ ?_
  · unfold Fallible.run hungUp ended
    dsimp only
    cases s.aborted <;> cases inSkipped <;> simp [UploadLedger.reoffers]
  · rintro again s' - (⟨rfl, rfl⟩ | ⟨rfl, hoffers, hfolders⟩)
    · exact .of_pos he rfl rfl
    · exact ⟨hoffers, Or.inr ⟨rfl, hfolders⟩⟩

/-- The program changes nothing of the folders and of what was offered, and fails with error
numbers only. -/
def Still {α : Type} (m : Offering α) : Prop :=
  ∀ s : FolderLine, Ends (m.run s)
    (fun _ s' => s'.toEnv = s.toEnv ∧ s'.met = s.met ∧ s'.offers = s.offers ∧
      s'.ledger.folders = s.ledger.folders)
    (fun rv s' => 0 < rv ∧ s'.offers = s.offers ∧ s'.ledger.folders = s.ledger.folders)

namespace Still

protected theorem pure {α : Type} (a : α) : Still (pure a : Offering α) :=
  fun _ => ⟨rfl, rfl, rfl, rfl⟩

protected theorem fail {α : Type} {e : Errno} (he : 0 < e) :
    Still (Fallible.fail e : Offering α) := fun _ => ⟨he, rfl, rfl⟩

protected theorem bind {α β : Type} {m : Offering α} {f : α → Offering β} (hm : Still m)
    (hf : ∀ a, Still (f a)) : Still (m >>= f) := by
  intro s
  refine Ends.bind ((hm s).mono (fun _ _ _ h => h) fun _ _ _ h => h) ?_
  rintro a s' - ⟨henv, hmet, hoffers, hfolders⟩
  refine (hf a s').mono ?_ ?_
  · rintro b s₂ - ⟨henv', hmet', hoffers', hfolders'⟩
    exact ⟨henv'.trans henv, hmet'.trans hmet, hoffers'.trans hoffers, hfolders'.trans hfolders⟩
  · rintro rv s₂ - ⟨hpos, hoffers', hfolders'⟩
    exact ⟨hpos, hoffers'.trans hoffers, hfolders'.trans hfolders⟩

protected theorem ite {α : Type} {c : Prop} [Decidable c] {m m' : Offering α}
    (hm : c → Still m) (hm' : ¬c → Still m') : Still (if c then m else m') := by
  split
  · exact hm ‹_›
  · exact hm' ‹_›

end Still

theorem put_still (bytes : List UInt8) : Still (put bytes) := by
  intro s
  unfold put Fallible.failWith onLine Fallible.within xferWrite Fallible.run
  dsimp only
  cases s.taking s.sent.length bytes.length with
  | whole => exact ⟨rfl, rfl, rfl, rfl⟩
  | short n timedOut => exact ⟨by decide, rfl, rfl⟩

theorem putComponents_still (components : List Name) : Still (putComponents components) := by
  induction components with
  | nil => exact .pure _
  | cons c rest ih =>
    rw [putComponents]
    refine .ite (fun _ => .fail (by decide)) fun _ => .bind (put_still _) fun _ => ?_
    refine .bind ?_ fun _ => ih
    exact .ite (fun _ => .pure _) fun _ => put_still c

theorem fillLine_still (want : ℕ) : Still (onLine (fillLine want)) := fun _ => ⟨rfl, rfl, rfl, rfl⟩

theorem takes_still (want : ℕ) : Still (takes want) := by
  unfold takes
  refine .bind (fillLine_still want) fun filled => ?_
  cases filled with
  | full buffer => exact .pure _
  | _ => exact .fail (by decide)

/-- What an upload goes on with is as it was, and so are the folders that were made. -/
structure Same (s s' : FolderLine) : Prop where
  env : s'.toEnv = s.toEnv
  met : s'.met = s.met
  offers : s'.offers = s.offers
  folders : s'.ledger.folders = s.ledger.folders

theorem Same.refl (s : FolderLine) : Same s s := ⟨rfl, rfl, rfl, rfl⟩

theorem Same.trans {s s' s₂ : FolderLine} (h : Same s s') (h' : Same s' s₂) : Same s s₂ :=
  ⟨h'.env.trans h.env, h'.met.trans h.met, h'.offers.trans h.offers, h'.folders.trans h.folders⟩

theorem Same.halts {s s' s₂ : FolderLine} {rv : Errno} (h : Same s s') (h' : Halts s' s₂ rv) :
    Halts s s₂ rv := h'.of_eq h.offers h.folders

/-- A program that is still goes on, or fails with an error number. -/
theorem Still.ends {α : Type} {m : Offering α} (hm : Still m) (s : FolderLine) :
    Ends (m.run s) (fun _ s' => Same s s') (fun rv s' => Halts s s' rv) :=
  (hm s).mono (fun _ _ _ h => ⟨h.1, h.2.1, h.2.2.1, h.2.2.2⟩)
    fun _ _ _ h => .of_pos h.1 h.2.1 h.2.2

theorem readAnswer_halts (inSkipped : Bool) (s : FolderLine) :
    Ends ((readAnswer inSkipped).run s) (fun _ s' => Same s s') (fun rv s' => Halts s s' rv) := by
  unfold readAnswer
  refine Ends.bind ((fillLine_still 2).ends s) ?_
  rintro filled s' - hsame
  cases filled with
  | full cmd =>
    have hstill : Still (if command cmd = FILE_NEXT_CMD then pure .next
        else if command cmd = FILE_RESUME_CMD then do
          let rl ← takes 2
          let rlen := (command rl).toNat
          if RFLT_MAX < rlen then Fallible.fail EPROTO
          else do
            let rflt ← takes rlen
            pure (resumeFrom rflt)
        else if command cmd = FILE_SEND_CMD then pure (.from 0 0)
        else Fallible.fail EPROTO) := by
      refine .ite (fun _ => .pure _) fun _ => .ite (fun _ => ?_) fun _ => ?_
      · exact .bind (takes_still 2) fun rl => .ite (fun _ => .fail (by decide)) fun _ =>
          .bind (takes_still _) fun rflt => .pure _
      · exact .ite (fun _ => .pure _) fun _ => .fail (by decide)
    exact (hstill.ends s').mono (fun _ _ _ h => hsame.trans h) fun _ _ _ h => hsame.halts h
  | ended got =>
    cases got with
    | nil =>
      exact (closed_halts inSkipped (by decide) Asking s').mono (fun _ _ _ h => h.elim)
        fun _ _ _ h => hsame.halts h
    | cons b got => exact hsame.halts (.of_pos (by decide) rfl rfl)
  | failed got kind => exact hsame.halts (.of_pos (by decide) rfl rfl)

theorem sendSized_halts (ffo : Ffo) (fp : FolderParams) (e : PutEntry) (inSkipped : Bool)
    (file : LocalFile) (dataPos rsrcPos : ℕ) {s : FolderLine} (hsys : s.toEnv.Positive) :
    Ends ((sendSized ffo fp e inSkipped file dataPos rsrcPos).run s)
      (fun _ s' => Same s s') (fun rv s' => Halts s s' rv) := by
  unfold sendSized
  dsimp only
  split
  · exact .of_pos (by decide) rfl rfl
  refine Ends.bind ((put_still _).ends s) ?_
  rintro - s₁ - hsame
  split
  · exact hsame.halts (.of_pos (by decide) rfl rfl)
  have hnumbered := fileSendOne_numbered (hsame.env ▸ hsys) ffo file
    (fp.perFile file dataPos rsrcPos) s₁.toLine rfl
  refine Ends.bind (Q := fun sent s₂ => s₂.met = s₁.met ∧ s₂.offers = s₁.offers ∧
    s₂.ledger = s₁.ledger ∧ ∃ l, (fileSendOne ffo file (fp.perFile file dataPos rsrcPos)).run
      s₁.toLine = (sent, l) ∧ s₂.toLine = l) ⟨rfl, rfl, rfl, _, rfl, rfl⟩ ?_
  rintro sent s₂ - ⟨hmet, hoffers, hledger, l, hrun, rfl⟩
  rw [hrun] at hnumbered
  cases sent with
  | ok done =>
    exact hsame.trans ⟨hnumbered, hmet, hoffers, congrArg UploadLedger.folders hledger⟩
  | error rv =>
    have hpos : 0 < rv := hnumbered
    have hback {s' : FolderLine} {rv' : Errno} (h : Halts s₂ s' rv') : Halts s s' rv' :=
      hsame.halts (h.of_eq hoffers (congrArg UploadLedger.folders hledger))
    dsimp only
    split
    · exact (closed_halts inSkipped hpos Unit s₂).mono (fun _ _ _ h => h.elim) fun _ _ _ => hback
    · exact hback (.of_pos hpos rfl rfl)

theorem sendFrom_halts (ffo : Ffo) (fp : FolderParams) (e : PutEntry) (inSkipped : Bool)
    (dataPos rsrcPos : ℕ) {s : FolderLine} (hsys : s.System) :
    Ends ((sendFrom ffo fp e inSkipped dataPos rsrcPos).run s)
      (fun _ s' => Same s s') (fun rv s' => Halts s s' rv) := by
  unfold sendFrom
  refine Ends.bind (Q := fun r s' => r = s ∧ s' = s) ⟨rfl, rfl⟩ ?_
  rintro r s' - ⟨hr, hs'⟩
  subst r s'
  cases hmet : s.met e.components with
  | error err => exact .of_pos (hsys.met _ _ hmet) rfl rfl
  | ok dated =>
    dsimp only
    split
    · exact ⟨rfl, Or.inl ⟨by decide, by decide, rfl⟩⟩
    refine Ends.bind (Q := fun _ s' => Same s s') ⟨rfl, rfl, rfl, rfl⟩ ?_
    rintro - s₁ - hsame
    refine Ends.bind (Q := fun _ s' => Same s s') ?_ ?_
    · unfold reportHeld
      split
      · exact hsame
      · exact hsame.trans ⟨rfl, rfl, rfl, rfl⟩
    rintro - s₂ - hsame₂
    exact (sendSized_halts ffo fp e inSkipped dated.file dataPos rsrcPos
      (hsame₂.env ▸ hsys.env)).mono (fun _ _ _ h => hsame₂.trans h) fun _ _ _ h => hsame₂.halts h

/-- A folder that was offered awaits its answer: it was not noted as made. -/
def Outstanding (offered : Option (List UInt8 × Bool)) (s : FolderLine) : Prop :=
  ∀ made ∈ offered, made.1 ∉ s.ledger.folders ∧ s.Has made.1

/-- A folder that was offered has been made. -/
theorem Same.made {s s' s₂ : FolderLine} (h : Same s s') {made : List UInt8}
    (hnot : made ∉ s.ledger.folders) (hhas : s.Has made) (hoffers : s₂.offers = s'.offers)
    (hfolders : s₂.ledger.folders = insert made s'.ledger.folders) :
    Leaves s s₂ HXNET_XFER_AGAIN := by
  have hall : s₂.offers = s.offers := hoffers.trans h.offers
  have hhas' : s₂.Has made := hhas.mono (hall ▸ List.prefix_refl _)
  rw [h.folders] at hfolders
  exact {
    offers := hall ▸ List.prefix_refl _
    offered := fun rel hmem hout => by
      rw [hfolders] at hmem
      rcases Finset.mem_insert.mp hmem with rfl | hin
      · exact hhas'
      · exact absurd hin hout
    folders := fun _ => hfolders ▸ Finset.subset_insert made _
    reoffer := fun heq => absurd heq (by decide)
    again := fun _ => ⟨made, hfolders ▸ Finset.mem_insert_self made _, hnot, hhas'⟩ }

/-- Where the server ends the upload says that it has the folder it was offered in doubt, or that
the folders may not be there. -/
theorem ended_learns {ledger ledger' : UploadLedger} {offered : Option (List UInt8 × Bool)}
    {inSkipped : Bool} {rv : Errno} (h : ended ledger offered inSkipped = some (rv, ledger')) :
    (∃ made, offered = some (made, true) ∧ rv = HXNET_XFER_AGAIN ∧ ledger' = ledger.makes made) ∨
      rv = HXNET_XFER_REOFFER ∧ ledger' = ledger.reoffers := by
  unfold ended at h
  split at h
  next made =>
    obtain ⟨rfl, rfl⟩ := Prod.mk.inj (Option.some.inj h)
    exact Or.inl ⟨made, rfl, rfl, rfl⟩
  next =>
    obtain ⟨-, hpair⟩ := Option.ite_none_right_eq_some.mp h
    obtain ⟨rfl, rfl⟩ := Prod.mk.inj (Option.some.inj hpair)
    exact Or.inr ⟨rfl, rfl⟩

/-- An upload that the server did not end is as it was; one that it ended leaves what it says. -/
theorem hungUp_leaves {turn : Turn} {s s' : FolderLine} (hsame : Same s s')
    (hout : Outstanding turn.offered s) :
    Ends ((hungUp turn.offered turn.inSkipped).run s')
      (fun again s₁ => (again = none → Same s s₁) ∧ ∀ rv, again = some rv → Leaves s s₁ rv)
      (fun _ _ => False) := by
  unfold Fallible.run hungUp
  split
  next again ledger hlearns =>
    refine ⟨fun hnone => by simp at hnone, fun rv hrv => ?_⟩
    obtain rfl := Option.some.inj hrv
    split at hlearns
    · simp at hlearns
    · rcases ended_learns hlearns with ⟨made, hoffered, rfl, rfl⟩ | ⟨rfl, rfl⟩
      · obtain ⟨hnot, hhas⟩ := hout (made, true) hoffered
        exact hsame.made hnot hhas rfl rfl
      · exact Halts.leaves ⟨hsame.offers, Or.inr ⟨rfl, rfl⟩⟩
  next => exact ⟨fun _ => hsame, fun rv hrv => by simp at hrv⟩

/-- The server asks for the next entry, or the upload ends with what that says. -/
theorem awaitNext_leaves {turn : Turn} {s : FolderLine} (hout : Outstanding turn.offered s) :
    Ends ((awaitNext turn).run s) (fun _ s' => Same s s') (fun rv s' => Leaves s s' rv) := by
  unfold awaitNext
  split
  · exact .refl s
  refine Ends.bind (((fillLine_still 2).ends s).mono (fun _ _ _ h => h) fun _ _ _ h => h.leaves) ?_
  rintro filled s' - hsame
  have hdoubt {s₁ : FolderLine} (h : Same s s₁) :
      Ends ((do doubt turn.offered; Fallible.fail EIO : Offering Unit).run s₁)
        (fun _ s₂ => Same s s₂) (fun rv s₂ => Leaves s s₂ rv) := by
    refine Ends.bind (Q := fun _ s₂ => Same s s₂) ?_ ?_
    · unfold doubt
      split
      · exact h.trans ⟨rfl, rfl, rfl, rfl⟩
      · exact h
    · rintro - s₂ - h'
      exact (h'.halts (.of_pos (by decide) rfl rfl)).leaves
  cases filled with
  | full cmd =>
    dsimp only
    split
    · exact hsame
    · exact (hsame.halts (.of_pos (by decide) rfl rfl)).leaves
  | failed got kind => exact hdoubt hsame
  | ended got =>
    cases got with
    | cons b got => exact hdoubt hsame
    | nil =>
      dsimp only
      refine Ends.bind (Q := fun again s₁ => (again = none → Same s s₁) ∧
        ∀ rv, again = some rv → Leaves s s₁ rv) ?_ ?_
      · exact (hungUp_leaves hsame hout).mono (fun _ _ _ h => h) fun _ _ _ h => h.elim
      · rintro again s₁ - ⟨hnone, hsome⟩
        cases again with
        | some again => exact hsome again rfl
        | none => exact hdoubt (hnone rfl)

/-- A folder that was offered is made once the server asks again. -/
theorem learn_grown {offered : Option (List UInt8 × Bool)} {s : FolderLine}
    (hout : Outstanding offered s) :
    Ends ((learn offered).run s)
      (fun _ s' => Grown s s' ∧ s'.toEnv = s.toEnv ∧ s'.met = s.met ∧ s'.offers = s.offers ∧
        ∀ rel ∈ s'.ledger.folders, rel ∈ s.ledger.folders ∨ ∃ made ∈ offered, made.1 = rel)
      (fun _ _ => False) := by
  cases offered with
  | none =>
    exact ⟨.of_eq (List.prefix_refl _) rfl, rfl, rfl, rfl, fun rel hmem => Or.inl hmem⟩
  | some made =>
    obtain ⟨-, hhas⟩ := hout made rfl
    have hmade {rel : List UInt8} (hmem : rel ∈ insert made.1 s.ledger.folders) :
        rel = made.1 ∨ rel ∈ s.ledger.folders := Finset.mem_insert.mp hmem
    refine ⟨⟨List.prefix_refl _, Finset.subset_insert _ _, fun rel hmem hnot => ?_⟩, rfl, rfl, rfl,
      fun rel hmem => ?_⟩
    · obtain rfl := (hmade hmem).resolve_right hnot
      exact hhas
    · exact (hmade hmem).symm.imp_right fun heq => ⟨made, rfl, heq.symm⟩

/-- The entry is offered, or the upload fails with an error number. -/
theorem offer_offering (e : PutEntry) (s : FolderLine) :
    Ends ((offer e).run s)
      (fun _ s' => s'.toEnv = s.toEnv ∧ s'.met = s.met ∧ s'.offers = s.offers ++ [e] ∧
        s'.ledger.folders = s.ledger.folders) (fun rv s' => Halts s s' rv) := by
  unfold offer
  split
  · exact .of_pos (by decide) rfl rfl
  refine Ends.bind ((put_still _).ends s) ?_
  rintro - s₁ - hsame
  refine Ends.bind (((putComponents_still _).ends s₁).mono (fun _ _ _ h => hsame.trans h)
    fun _ _ _ h => hsame.halts h) ?_
  rintro - s₂ - hsame₂
  exact ⟨hsame₂.env, hsame₂.met, congrArg (· ++ [e]) hsame₂.offers, hsame₂.folders⟩

/-- Whatever the loop has gone through, no folder is noted that was not offered, and it fails as it
leaves the ledger. -/
theorem folderLoop_learns (ffo : Ffo) (fp : FolderParams) (turn : Turn) {entries : List PutEntry}
    (hnodup : (entries.map PutEntry.rel).Nodup) {s : FolderLine} (hsys : s.System)
    (hout : Outstanding turn.offered s)
    (hapart : ∀ offered ∈ turn.offered, offered.1 ∉ entries.map PutEntry.rel) :
    Ends ((folderLoop ffo fp turn entries).run s) (fun _ s' => Grown s s')
      (fun rv s' => Leaves s s' rv) := by
  induction entries generalizing turn s with
  | nil => exact .of_eq (List.prefix_refl _) rfl
  | cons e rest ih =>
    obtain ⟨hfirst, hrest⟩ := List.nodup_cons.mp hnodup
    have hapart' : ∀ offered ∈ turn.offered, offered.1 ∉ rest.map PutEntry.rel :=
      fun offered hoffered hmem => hapart offered hoffered (List.mem_cons_of_mem _ hmem)
    rw [folderLoop]
    refine Ends.bind (Q := fun r s' => r = s ∧ s' = s) ⟨rfl, rfl⟩ ?_
    rintro r s' - ⟨hr, hs'⟩
    subst r s'
    split
    · exact ih _ hrest hsys hout hapart'
    next hmade =>
      refine Ends.bind (awaitNext_leaves hout) ?_
      rintro - s₁ - hsame
      have hout₁ : Outstanding turn.offered s₁ := fun offered hoffered => by
        obtain ⟨hnot, hhas⟩ := hout offered hoffered
        exact ⟨hsame.folders ▸ hnot, hhas.mono (hsame.offers ▸ List.prefix_refl _)⟩
      refine Ends.bind ((learn_grown hout₁).mono (fun _ _ _ h => h) fun _ _ _ h => h.elim) ?_
      rintro - s₂ - ⟨hgrown, henv, hmet, hoffers, hlearned⟩
      have hgrown₂ : Grown s s₂ :=
        (Grown.of_eq (hsame.offers ▸ List.prefix_refl _) hsame.folders).trans hgrown
      dsimp only
      refine Ends.bind ((offer_offering e s₂).mono (fun _ _ _ h => h) fun _ _ _ h =>
        hgrown₂.leaves h.leaves) ?_
      rintro - s₃ - ⟨henv₃, hmet₃, hoffers₃, hfolders₃⟩
      have hgrown₃ : Grown s s₃ :=
        hgrown₂.trans (.of_eq (hoffers₃ ▸ List.prefix_append _ _) hfolders₃)
      have hsys₃ : s₃.System := by
        refine ⟨?_, ?_⟩
        · rw [henv₃, henv, hsame.env]
          exact hsys.env
        · rw [hmet₃, hmet, hsame.met]
          exact hsys.met
      have hcompose {turn' : Turn} {s₄ : FolderLine} (h : Same s₃ s₄)
          (hout' : Outstanding turn'.offered s₄)
          (hapart₂ : ∀ offered ∈ turn'.offered, offered.1 ∉ rest.map PutEntry.rel) :
          Ends ((folderLoop ffo fp turn' rest).run s₄) (fun _ s' => Grown s s')
            (fun rv s' => Leaves s s' rv) := by
        have hgrown₄ : Grown s s₄ :=
          hgrown₃.trans (.of_eq (h.offers ▸ List.prefix_refl _) h.folders)
        refine (ih turn' hrest ⟨h.env ▸ hsys₃.env, h.met ▸ hsys₃.met⟩ hout' hapart₂).mono ?_ ?_
        · exact fun _ _ _ hrun => hgrown₄.trans hrun
        · exact fun _ _ _ hrun => hgrown₄.leaves hrun
      split
      next hfolder =>
        refine Ends.bind (Q := fun r s' => r = s₃ ∧ s' = s₃) ⟨rfl, rfl⟩ ?_
        rintro r s' - ⟨hr, hs'⟩
        subst r s'
        refine hcompose (.refl s₃) ?_ (by rintro - ⟨⟩; exact hfirst)
        rintro - ⟨⟩
        refine ⟨fun hin => ?_, e, by simp [hoffers₃], hfolder, rfl⟩
        rw [hfolders₃] at hin
        rcases hlearned e.rel hin with hbefore | ⟨made, hmade', heq⟩
        · rw [hsame.folders] at hbefore
          exact hmade (by simp [UploadLedger.made, hfolder, hbefore])
        · exact hapart made hmade' (by simp [heq])
      next =>
        refine Ends.bind ((readAnswer_halts _ s₃).mono (fun _ _ _ h => h) fun _ _ _ h =>
          hgrown₃.leaves h.leaves) ?_
        rintro asking s₄ - hsame₄
        cases asking with
        | next => exact hcompose hsame₄ (by rintro - ⟨⟩) (by rintro - ⟨⟩)
        | «from» dataPos rsrcPos =>
          have hgrown₄ : Grown s s₄ :=
            hgrown₃.trans (.of_eq (hsame₄.offers ▸ List.prefix_refl _) hsame₄.folders)
          refine Ends.bind ((sendFrom_halts ffo fp e _ dataPos rsrcPos
            ⟨hsame₄.env ▸ hsys₃.env, hsame₄.met ▸ hsys₃.met⟩).mono (fun _ _ _ h => h)
            fun _ _ _ h => hgrown₄.leaves h.leaves) ?_
          rintro - s₅ - hsame₅
          exact hcompose (hsame₄.trans hsame₅) (by rintro - ⟨⟩) (by rintro - ⟨⟩)

/-- What an attempt has learned: no folder is noted as made that it did not offer, and none is
forgotten unless it ends for all to be offered again; one that ends for another attempt leaves fewer
entries than it was given. -/
structure Learned (s : FolderLine) (planned : List PutEntry)
    (r : Except Errno Unit × FolderLine) : Prop where
  offered : ∀ rel ∈ r.2.ledger.folders, rel ∉ s.ledger.folders →
    ∃ e ∈ r.2.offers, e.isFolder = true ∧ e.rel = rel
  kept : r.1 ≠ .error HXNET_XFER_REOFFER → s.ledger.folders ⊆ r.2.ledger.folders
  again : r.1 = .error HXNET_XFER_AGAIN →
    (leftOf (some r.2.ledger) planned).length < (leftOf (some s.ledger) planned).length
  reoffer : r.1 = .error HXNET_XFER_REOFFER → leftOf (some r.2.ledger) planned = planned

/-- Fewer entries are left once one of them that was left is made. -/
theorem leftOf_lt {ledger ledger' : UploadLedger} {planned : List PutEntry}
    (hfolders : ledger.folders ⊆ ledger'.folders) {e : PutEntry}
    (he : e ∈ leftOf (some ledger) planned) (hmade : ledger'.made e = true) :
    (leftOf (some ledger') planned).length < (leftOf (some ledger) planned).length := by
  have hmore : leftOf (some ledger') planned =
      leftOf (some ledger') (leftOf (some ledger) planned) := by
    rw [leftOf, leftOf, leftOf, List.filter_filter]
    refine List.filter_congr fun x _ => ?_
    by_cases hx : ledger.made x = true
    · have hx' : ledger'.made x = true := by
        simp only [UploadLedger.made, Bool.and_eq_true, decide_eq_true_eq] at hx ⊢
        exact ⟨hx.1, hfolders hx.2⟩
      simp [hx, hx']
    · simp [hx]
  rw [hmore]
  exact List.length_filter_lt_length_iff_exists.mpr ⟨e, he, by simp [hmade]⟩

/-- Whatever the server does, an attempt that it ends past a folder leaves fewer entries to offer
than it was given, and no attempt notes as made what it did not offer. -/
theorem folderSend_learns (ffo : Ffo) (fp : FolderParams) (folder : LocalFolder) {s : FolderLine}
    (hsys : s.System) (hnone : s.offers = []) :
    Learned s folder.planned ((folderSend ffo fp folder.planned).run s) := by
  have hlearns := folderLoop_learns ffo fp {} folder.nodup_rel hsys (by rintro - ⟨⟩)
    (by rintro - ⟨⟩)
  have hoffers := folderSend_offers ffo fp folder s
  change Ends ((folderSend ffo fp folder.planned).run s) _ _ at hlearns
  generalize (folderSend ffo fp folder.planned).run s = r at hlearns hoffers
  obtain ⟨rv | done, s'⟩ := r
  · have hleaves : Leaves s s' rv := hlearns
    obtain ⟨offered, hbegins, hall⟩ := hoffers
    refine ⟨hleaves.offered, fun hne => hleaves.folders fun heq => hne (congrArg _ heq),
      fun hagain => ?_, fun hreoffer => ?_⟩
    · obtain rfl := Except.error.inj hagain
      obtain ⟨rel, hmem, hnot, e, he, hfolder, rfl⟩ := hleaves.again rfl
      rw [hall, hnone, List.nil_append] at he
      exact leftOf_lt (hleaves.folders (by decide)) (hbegins.subset he)
        (by simp [UploadLedger.made, hfolder, hmem])
    · obtain rfl := Except.error.inj hreoffer
      refine List.filter_eq_self.mpr fun e _ => ?_
      simp [UploadLedger.made, hleaves.reoffer rfl]
  · have hgrown : Grown s s' := hlearns
    exact ⟨hgrown.offered, fun _ => hgrown.folders, fun h => by simp at h, fun h => by simp at h⟩

section Sample

/-- A server that ends the upload at a folder whose answer was lost before. -/
def endsAtFolder : FolderLine :=
  { asksForAll with inner := [.bytes [0, 3]], ledger := { unsure := {[98]} } }

/-- The next attempt has the file alone to offer. -/
theorem endsAtFolder_learns :
    Learned endsAtFolder nested.planned
      ((folderSend flatFfo ⟨true, false⟩ nested.planned).run endsAtFolder) :=
  folderSend_learns flatFfo ⟨true, false⟩ nested
    ⟨⟨by rintro - - ⟨⟩, by rintro - - - ⟨⟩⟩, by rintro - - ⟨⟩⟩ rfl

end Sample

end Gtkhx.Upload
