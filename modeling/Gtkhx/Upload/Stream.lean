import Gtkhx.Upload.Announced
import Gtkhx.Upload.Folder

/-!
# The stream of a folder's upload

What `folder_send` puts out is at any time the beginning of a stream of the entries that are left to
offer, each once and in the walk's order, and of as many bytes for a file as its size says; and once
it returns, every entry that `put_totals` counted was offered.
-/

namespace Gtkhx.Upload

open Htxf Reader

/-- A connection that failed takes no more. -/
def Env.Breaks (env : Env) : Prop :=
  ∀ pos len n, env.taking pos len = .short n false →
    ∀ len', ∃ timedOut, env.taking (pos + min n (len - 1)) len' = .short 0 timedOut

/-- It takes no more. -/
def Line.Broken (l : Line) : Prop :=
  ∀ len, ∃ timedOut, l.taking l.sent.length len = .short 0 timedOut

/-- These bytes went out, and no more. -/
structure Line.Puts (bytes : List UInt8) (l l' : Line) : Prop where
  env : l'.toEnv = l.toEnv
  sent : l'.sent = l.sent ++ bytes

/-- At most so many bytes went out. -/
def Line.Within (n : ℕ) (l l' : Line) : Prop :=
  ∃ bytes, Line.Puts bytes l l' ∧ bytes.length ≤ n

namespace Line

variable {l l' l₂ : Line} {m n : ℕ} {bytes more : List UInt8}

theorem Puts.refl (l : Line) : Puts [] l l := ⟨rfl, (List.append_nil _).symm⟩

theorem Puts.trans (h : Puts bytes l l') (h' : Puts more l' l₂) : Puts (bytes ++ more) l l₂ where
  env := h'.env.trans h.env
  sent := by rw [h'.sent, h.sent, List.append_assoc]

theorem Puts.within (h : Puts bytes l l') (hle : bytes.length ≤ n) : Within n l l' :=
  ⟨bytes, h, hle⟩

theorem Within.refl (n : ℕ) (l : Line) : Within n l l := (Puts.refl l).within (Nat.zero_le n)

theorem Within.trans (h : Within m l l') (h' : Within n l' l₂) : Within (m + n) l l₂ := by
  obtain ⟨bytes, hputs, hle⟩ := h
  obtain ⟨more, hmore, hle'⟩ := h'
  refine (hputs.trans hmore).within ?_
  rw [List.length_append]
  omega

theorem Within.mono (h : Within m l l') (hle : m ≤ n) : Within n l l' := by
  obtain ⟨bytes, hputs, hle'⟩ := h
  exact hputs.within (hle'.trans hle)

/-- A sequence sends what its parts send. -/
theorem Within.bind {α β : Type} {x : Sending α} {f : α → Sending β}
    (hx : Within m l (x.run l).2)
    (hf : ∀ a l', x.run l = (.ok a, l') → Within n l' ((f a).run l').2) :
    Within (m + n) l ((x >>= f).run l).2 := by
  rw [Fallible.run_bind]
  rcases hrun : x.run l with ⟨e | a, l'⟩ <;> rw [hrun] at hx
  · exact hx.mono (Nat.le_add_right m n)
  · exact hx.trans (hf a l' hrun)

end Line

open Line (Puts Within)

theorem xferWrite_within (buf : List UInt8) (l : Line) :
    Within buf.length l ((xferWrite buf).run l).2 := by
  unfold Fallible.run xferWrite
  split
  · exact ⟨buf, ⟨rfl, rfl⟩, le_refl _⟩
  · refine ⟨_, ⟨rfl, rfl⟩, ?_⟩
    rw [List.length_take]
    omega

theorem openFork_within (fork : Fork) (l : Line) : Within 0 l ((openFork fork).run l).2 := by
  unfold Fallible.run openFork
  split <;> exact .refl 0 l

theorem readFork_state (fork : Fork) (bytes : List UInt8) (pos want : ℕ) (l : Line) :
    ((readFork fork bytes pos want).run l).2 = l := by
  unfold Fallible.run readFork
  split
  · rfl
  · split <;> rfl

theorem noteFork_within (fork : Fork) (piece : List UInt8) (l : Line) :
    Within 0 l ((noteFork fork piece).run l).2 := by
  cases fork <;> exact ⟨[], ⟨rfl, (List.append_nil _).symm⟩, le_refl _⟩

theorem report_within (n : ℕ) (l : Line) : Within 0 l ((report n).run l).2 :=
  ⟨[], ⟨rfl, (List.append_nil _).symm⟩, le_refl _⟩

theorem ofOption_within {α : Type} (e : Errno) (o : Option α) (l : Line) :
    Within 0 l ((Fallible.ofOption e o : Sending α).run l).2 := by
  cases o <;> exact .refl 0 l

/-- Copying a fork sends no more of it than it is to. -/
theorem rdWrSend_within (fork : Fork) (bytes : List UInt8) (fuel pos dataLen : ℕ) (l : Line) :
    Within dataLen l ((rdWrSend fork bytes fuel pos dataLen).run l).2 := by
  induction fuel generalizing pos dataLen l with
  | zero => exact .refl dataLen l
  | succ fuel ih =>
    rw [rdWrSend]
    split
    · exact .refl dataLen l
    rcases hread : (readFork fork bytes pos (min 0xf000 dataLen)).run l with ⟨e | piece, l₁⟩
    · rw [Fallible.run_bind_error hread]
      obtain rfl : l = l₁ := by
        simpa [hread] using (readFork_state fork bytes pos (min 0xf000 dataLen) l).symm
      exact .refl dataLen l
    · obtain ⟨rfl, -, hwant, -⟩ := readFork_returns hread
      rw [Fallible.run_bind_ok hread]
      have hpiece : piece.length ≤ dataLen := hwant.trans (Nat.min_le_right _ _)
      refine (Within.bind (xferWrite_within piece l₁) fun _ l₂ _ =>
        Within.bind (noteFork_within fork piece l₂) fun _ l₃ _ =>
          Within.bind (report_within _ l₃) fun _ l₄ _ => ih _ _ l₄).mono ?_
      omega

theorem sendData_within (file : LocalFile) (p : SendParams) (l : Line) :
    Within p.dataLeft l ((sendData file p).run l).2 := by
  unfold sendData
  split
  · exact (Within.bind (openFork_within _ l) fun _ l₁ _ =>
      rdWrSend_within _ _ _ _ _ l₁).mono (by omega)
  · exact .refl _ l

theorem sendResource_within {ffo : Ffo} (hffo : Framed ffo) (file : LocalFile) (p : SendParams)
    (l : Line) : Within (FORK_HEADER_LEN + p.rsrcLeft) l ((sendResource ffo file p).run l).2 := by
  unfold sendResource
  cases hpack : ffo.packForkHeader macrKind p.rsrcLeft p.optLarge with
  | none => exact .refl _ l
  | some macr =>
    have hmacr : (Fallible.ofOption EFBIG (some macr) : Sending _).run l = (.ok macr, l) := rfl
    rw [Fallible.run_bind_ok hmacr, ← hffo rfl hpack]
    have hwrite : Within macr.length l ((Fallible.attempt (xferWrite macr)).run l).2 :=
      xferWrite_within macr l
    refine hwrite.bind fun r l₁ _ => ?_
    cases r with
    | error e =>
      dsimp only
      split <;> exact .refl _ l₁
    | ok =>
      refine (Within.bind (report_within _ l₁) fun _ l₂ _ =>
        Within.bind (openFork_within _ l₂) fun _ l₃ _ =>
          Within.bind (ofOption_within _ _ l₃) fun bytes l₄ _ =>
            rdWrSend_within _ bytes _ _ _ l₄).mono (by omega)

/-- A flattened file is sent as this many bytes. -/
def flatSize (file : LocalFile) (p : SendParams) : ℕ :=
  FILP_HEADER_LEN + file.comment.length + p.dataLeft +
    if p.rsrcLeft = 0 then 0 else FORK_HEADER_LEN + p.rsrcLeft

/-- A file is never sent as more bytes than its size. -/
theorem fileSendOne_within {ffo : Ffo} (hffo : Framed ffo) (file : LocalFile) {p : SendParams}
    (hflat : ¬(p.optLarge = true ∧ p.optFolder = false)) (l : Line) :
    Within (flatSize file p) l ((fileSendOne ffo file p).run l).2 := by
  rw [fileSendOne, if_neg hflat]
  cases hpack : filpHeader ffo file p with
  | none => exact .refl _ l
  | some hdr =>
    have hlen := length_filpHeader hffo hpack
    refine (Within.bind (xferWrite_within hdr l) fun _ l₁ _ =>
      Within.bind (report_within _ l₁) fun _ l₂ _ =>
        Within.bind (sendData_within file p l₂) fun _ l₃ _ =>
          (?_ : Within (if p.rsrcLeft = 0 then 0 else FORK_HEADER_LEN + p.rsrcLeft) l₃ _)).mono ?_
    · by_cases hleft : p.rsrcLeft = 0
      · rw [if_pos hleft, if_neg (not_not.mpr hleft)]
        exact .refl 0 l₃
      · rw [if_neg hleft, if_pos hleft]
        exact sendResource_within hffo file p l₃
    · rw [flatSize, hlen]
      omega

theorem Wrote.puts {l l' : Line} {bytes data : List UInt8} (h : Wrote l l' bytes data) :
    Puts bytes l l' := ⟨h.env, h.sent⟩

/-- A resource fork was sent, or the connection failed at its header. -/
theorem sendResource_puts {ffo : Ffo} (hffo : Framed ffo) {file : LocalFile} {p : SendParams}
    {l l' : Line} (hbreaks : l.toEnv.Breaks)
    (h : (sendResource ffo file p).run l = (.ok (), l')) :
    (∃ bytes, Puts bytes l l' ∧ bytes.length = FORK_HEADER_LEN + p.rsrcLeft) ∨ l'.Broken := by
  rcases sendResource_returns hffo h with ⟨rest, hrest, -, hwrote⟩ | ⟨hshort, -⟩
  · exact Or.inl ⟨rest, hwrote.puts, hrest⟩
  refine Or.inr ?_
  obtain ⟨macr, l₁, hmacr, h₁⟩ := Fallible.bind_returns h
  obtain ⟨r, l₂, hattempt, h₂⟩ := Fallible.bind_returns h₁
  cases hpack : ffo.packForkHeader macrKind p.rsrcLeft p.optLarge with
  | none =>
    rw [hpack] at hmacr
    cases (Prod.mk.inj hmacr).1
  | some header =>
    rw [hpack] at hmacr
    obtain ⟨hok, rfl⟩ := Prod.mk.inj hmacr
    obtain rfl := Except.ok.inj hok
    rw [← hffo rfl hpack] at hshort
    rw [Fallible.run_attempt] at hattempt
    obtain ⟨hr, rfl⟩ := Prod.mk.inj hattempt
    obtain rfl := Except.ok.inj hr
    cases htook : l.taking l.sent.length header.length with
    | whole => exact absurd htook hshort
    | short n timedOut =>
      have hwrite : (xferWrite header).run l =
          (.error (if timedOut then ETIMEDOUT else EPIPE),
            { l with sent := l.sent ++ header.take (min n (header.length - 1)) }) := by
        unfold Fallible.run xferWrite
        rw [htook]
      rw [hwrite] at h₂
      cases timedOut with
      | true => cases (Prod.mk.inj h₂).1
      | false =>
        obtain rfl : { l with sent := l.sent ++ header.take (min n (header.length - 1)) } = l' :=
          (Prod.mk.inj h₂).2
        have hlen : (l.sent ++ header.take (min n (header.length - 1))).length =
            l.sent.length + min n (header.length - 1) := by
          rw [List.length_append, List.length_take]
          omega
        intro len
        rw [hlen]
        exact hbreaks _ _ _ htook len

/-- A file that was sent flattened was sent as its size, or the connection failed. -/
theorem fileSendOne_puts {ffo : Ffo} (hffo : Framed ffo) {file : LocalFile} {p : SendParams}
    (hflat : ¬(p.optLarge = true ∧ p.optFolder = false)) {l l' : Line}
    (hbreaks : l.toEnv.Breaks) (h : (fileSendOne ffo file p).run l = (.ok (), l')) :
    (∃ bytes, Puts bytes l l' ∧ bytes.length = flatSize file p) ∨ l'.Broken := by
  rw [fileSendOne, if_neg hflat] at h
  obtain ⟨hdr, l₁, hhdr, h₁⟩ := Fallible.bind_returns h
  obtain ⟨_, l₂, hwrite, h₂⟩ := Fallible.bind_returns h₁
  obtain ⟨_, l₃, hreport, h₃⟩ := Fallible.bind_returns h₂
  obtain ⟨_, l₄, hdata, h₄⟩ := Fallible.bind_returns h₃
  cases hpack : filpHeader ffo file p with
  | none =>
    rw [hpack] at hhdr
    cases (Prod.mk.inj hhdr).1
  | some header =>
    rw [hpack] at hhdr
    obtain ⟨hok, rfl⟩ := Prod.mk.inj hhdr
    obtain rfl := Except.ok.inj hok
    have hlen := length_filpHeader hffo hpack
    obtain ⟨hsize, hwrote⟩ := sendData_returns hdata
    have hheader : Puts header l l₃ := by
      obtain ⟨-, rfl⟩ := xferWrite_returns hwrite
      obtain rfl := (Prod.mk.inj hreport).2
      exact ⟨rfl, rfl⟩
    have hboth := hheader.trans hwrote.puts
    by_cases hleft : p.rsrcLeft = 0
    · rw [if_neg (not_not.mpr hleft)] at h₄
      obtain rfl : l₄ = l' := (Prod.mk.inj h₄).2
      refine Or.inl ⟨_, hboth, ?_⟩
      rw [List.length_append, hlen, hsize, flatSize, if_pos hleft, Nat.add_zero]
    · rw [if_pos hleft] at h₄
      refine (sendResource_puts hffo (hboth.env ▸ hbreaks) h₄).imp_left ?_
      rintro ⟨rest, hrest, hlength⟩
      refine ⟨_, hboth.trans hrest, ?_⟩
      rw [List.length_append, List.length_append, hlen, hsize, hlength, flatSize, if_neg hleft]

/-- A file that is not longer than the server holds is sent as the size that is announced for it. -/
theorem fileSize_eq {file : LocalFile} (hfile : file.Honest) {dataPos rsrcPos : ℕ}
    (hdata : dataPos ≤ file.data.length) (hrsrc : rsrcPos ≤ file.resourceLen) (fp : FolderParams) :
    fileSize file dataPos rsrcPos = flatSize file (fp.perFile file dataPos rsrcPos) := by
  have hfits := hfile.fits
  have hcomment := hfile.comment_eq
  obtain ⟨hleft, hrest⟩ := sized_left hfile hdata hrsrc
  have hdataLeft : (fp.perFile file dataPos rsrcPos).dataLeft = file.data.length - dataPos := hleft
  have hrsrcLeft : (fp.perFile file dataPos rsrcPos).rsrcLeft = file.resourceLen - rsrcPos := hrest
  have hfork : FORK_HEADER_LEN = 16 := rfl
  have hfilp : FILP_HEADER_LEN = 133 := rfl
  rw [fileSize, flatSize, hdataLeft, hrsrcLeft, hleft, hrest,
    add64_eq (show FILP_HEADER_LEN + file.commentLen < 2 ^ 64 by omega),
    add64_eq (show FILP_HEADER_LEN + file.commentLen + (file.data.length - dataPos) < 2 ^ 64 by
      omega)]
  by_cases hdone : file.resourceLen - rsrcPos = 0
  · rw [if_pos hdone, if_pos hdone, add64_eq (by omega)]
    omega
  · rw [if_neg hdone, if_neg hdone,
      add64_eq (show FORK_HEADER_LEN + (file.resourceLen - rsrcPos) < 2 ^ 64 by omega),
      add64_eq (by omega)]
    omega

namespace FolderLine

variable (s : FolderLine)

/-- These bytes went out. -/
def putting (bytes : List UInt8) : FolderLine := { s with sent := s.sent ++ bytes }

/-- The reads are going to meet something else. -/
def meeting (inner : Source UInt8) : FolderLine := { s with inner }

/-- A folder that was offered is made. -/
def learned (offered : Option (List UInt8 × Bool)) : FolderLine :=
  { s with ledger := offered.elim s.ledger fun made => s.ledger.makes made.1 }

@[simp] theorem putting_nil : s.putting [] = s := by simp [putting]

@[simp] theorem putting_putting (bytes more : List UInt8) :
    (s.putting bytes).putting more = s.putting (bytes ++ more) := by simp [putting]

end FolderLine

/-- How a component of a path goes out. -/
def componentBytes (c : Name) : List UInt8 := 0 :: 0 :: .ofNat c.length :: c

/-- How an entry goes out. -/
def nfiBytes (e : PutEntry) : List UInt8 := nfiHeader e ++ e.components.flatMap componentBytes

open Fallible (Ends)

theorem put_ends (bytes : List UInt8) (s : FolderLine) :
    Ends ((put bytes).run s) (fun _ s' => s' = s.putting bytes)
      (fun _ s' => ∃ part, part <+: bytes ∧ s' = s.putting part) := by
  unfold put Fallible.failWith onLine Fallible.within xferWrite Fallible.run
  dsimp only
  split
  next hwrite =>
    split at hwrite
    · obtain ⟨-, rfl⟩ := Prod.mk.inj hwrite
      rfl
    · cases (Prod.mk.inj hwrite).1
  next hwrite =>
    split at hwrite
    · cases (Prod.mk.inj hwrite).1
    · obtain ⟨-, rfl⟩ := Prod.mk.inj hwrite
      exact ⟨_, List.take_prefix _ _, rfl⟩

/-- A connection that failed takes nothing. -/
theorem put_broken {s : FolderLine} (hbroken : s.toLine.Broken) (bytes : List UInt8) :
    (put bytes).run s = (.error EIO, s) := by
  obtain ⟨timedOut, htook⟩ := hbroken bytes.length
  unfold put Fallible.failWith onLine Fallible.within xferWrite Fallible.run
  dsimp only
  rw [htook]
  simp

/-- A path goes out, or the beginning of it. -/
theorem putComponents_ends (components : List Name) (s : FolderLine) :
    Ends ((putComponents components).run s)
      (fun _ s' => s' = s.putting (components.flatMap componentBytes) ∧
        ∀ c ∈ components, c.length ≤ 255)
      (fun _ s' => ∃ part, part <+: components.flatMap componentBytes ∧ s' = s.putting part) := by
  induction components generalizing s with
  | nil => exact ⟨(s.putting_nil).symm, by simp⟩
  | cons c rest ih =>
    have hbytes : (c :: rest).flatMap componentBytes =
        [0, 0, .ofNat c.length] ++ (c ++ rest.flatMap componentBytes) := rfl
    rw [putComponents, hbytes]
    split
    · exact ⟨[], List.nil_prefix, s.putting_nil.symm⟩
    next hlen =>
      refine Ends.bind (R := fun _ s' => _) ((put_ends _ s).mono (fun _ _ _ h => h) ?_) ?_
      · rintro - s' - ⟨part, hpart, rfl⟩
        exact ⟨part, hpart.trans (List.prefix_append _ _), rfl⟩
      rintro - s' - rfl
      refine Ends.bind (Q := fun _ s' => s' = s.putting ([0, 0, .ofNat c.length] ++ c)) ?_ ?_
      · unfold putName
        split
        next hnil =>
          rw [Fallible.run_pure, Ends.ok, hnil, List.append_nil]
        next =>
          refine (put_ends c _).mono (fun _ s' _ h => by simpa using h) ?_
          rintro - s' - ⟨part, hpart, rfl⟩
          refine ⟨[0, 0, .ofNat c.length] ++ part, ?_, by simp⟩
          rw [List.prefix_append_right_inj]
          exact hpart.trans (List.prefix_append _ _)
      rintro - s' - rfl
      refine (ih _).mono ?_ ?_
      · rintro - s' - ⟨rfl, hfits⟩
        refine ⟨by simp, fun c' hc' => ?_⟩
        rcases List.mem_cons.mp hc' with rfl | hc'
        · omega
        · exact hfits c' hc'
      · rintro - s' - ⟨part, hpart, rfl⟩
        refine ⟨[0, 0, .ofNat c.length] ++ c ++ part, ?_, by simp⟩
        rw [List.append_assoc, List.prefix_append_right_inj, List.prefix_append_right_inj]
        exact hpart

/-- An entry was offered. -/
def FolderLine.offering (s : FolderLine) (e : PutEntry) : FolderLine :=
  { s.putting (nfiBytes e) with offers := s.offers ++ [e] }

/-- A header and its path fit what their lengths are told in. -/
structure Fits (e : PutEntry) : Prop where
  wire : wireLen e ≤ 0xffff
  count : e.components.length ≤ 0xffff
  names : ∀ c ∈ e.components, c.length ≤ 255

/-- An entry goes out, or the beginning of it. -/
theorem offer_ends (e : PutEntry) (s : FolderLine) :
    Ends ((offer e).run s)
      (fun _ s' => s' = s.offering e ∧ Fits e)
      (fun _ s' => ∃ part, part <+: nfiBytes e ∧ s' = s.putting part) := by
  unfold offer
  split
  · exact ⟨[], List.nil_prefix, s.putting_nil.symm⟩
  next hfits =>
    obtain ⟨hwire, hcount⟩ := not_or.mp hfits
    refine Ends.bind ((put_ends _ s).mono (fun _ _ _ h => h) ?_) ?_
    · rintro - s' - ⟨part, hpart, rfl⟩
      exact ⟨part, hpart.trans (List.prefix_append _ _), rfl⟩
    rintro - s' - rfl
    refine Ends.bind ((putComponents_ends e.components _).mono (fun _ _ _ h => h) ?_) ?_
    · rintro - s' - ⟨part, hpart, rfl⟩
      refine ⟨nfiHeader e ++ part, ?_, by simp⟩
      rw [nfiBytes, List.prefix_append_right_inj]
      exact hpart
    rintro - s' - ⟨rfl, hnames⟩
    rw [Fallible.run_change, Ends.ok, FolderLine.putting_putting]
    exact ⟨rfl, by omega, by omega, hnames⟩

/-- Nothing goes out on a connection that failed. -/
theorem offer_broken {s : FolderLine} (hbroken : s.toLine.Broken) (e : PutEntry) :
    ∃ err, (offer e).run s = (.error err, s) := by
  unfold offer
  split
  · exact ⟨_, rfl⟩
  · exact ⟨_, Fallible.run_bind_error (put_broken hbroken _)⟩

/-- The connection, its files and what was sent are as they were. -/
structure FolderLine.Quiet (s s' : FolderLine) : Prop where
  env : s'.toEnv = s.toEnv
  sent : s'.sent = s.sent
  met : s'.met = s.met
  offers : s'.offers = s.offers

namespace FolderLine.Quiet

theorem refl (s : FolderLine) : Quiet s s := ⟨rfl, rfl, rfl, rfl⟩

variable {s s' s₂ : FolderLine}

theorem trans (h : Quiet s s') (h' : Quiet s' s₂) : Quiet s s₂ :=
  ⟨h'.env.trans h.env, h'.sent.trans h.sent, h'.met.trans h.met, h'.offers.trans h.offers⟩

end FolderLine.Quiet

open FolderLine (Quiet)

/-- Reading changes nothing else. -/
theorem fillLine_ends (want : ℕ) (s : FolderLine) :
    Ends ((onLine (fillLine want)).run s)
      (fun filled s' => filled = (fill want [] s.inner).1 ∧
        s' = s.meeting (fill want [] s.inner).2) (fun _ _ => False) :=
  ⟨rfl, rfl⟩

theorem takes_ends (want : ℕ) (s : FolderLine) :
    Ends ((takes want).run s) (fun _ s' => ∃ inner, s' = s.meeting inner)
      (fun _ s' => ∃ inner, s' = s.meeting inner) := by
  unfold takes
  refine Ends.bind ((fillLine_ends want s).mono (fun _ _ _ h => h) (fun _ _ _ h => h.elim)) ?_
  rintro filled s' - ⟨-, rfl⟩
  cases filled <;> exact ⟨_, rfl⟩

theorem hungUp_ends (offered : Option (List UInt8 × Bool)) (inSkipped : Bool) (s : FolderLine) :
    Ends ((hungUp offered inSkipped).run s) (fun _ s' => ∃ ledger, s' = { s with ledger })
      (fun _ _ => False) := by
  unfold Fallible.run hungUp
  split <;> exact ⟨_, rfl⟩

theorem closed_ends (inSkipped : Bool) (e : Errno) {α : Type} (s : FolderLine) :
    Ends ((closed inSkipped e α).run s) (fun _ _ => False)
      (fun _ s' => ∃ ledger, s' = { s with ledger }) := by
  unfold closed
  refine Ends.bind ((hungUp_ends none inSkipped s).mono (fun _ _ _ h => h)
    (fun _ _ _ h => h.elim)) ?_
  rintro again s' - ⟨ledger, rfl⟩
  cases again <;> exact ⟨ledger, rfl⟩

theorem noting_ends (f : UploadLedger → UploadLedger) (s : FolderLine) :
    Ends ((noting f).run s) (fun _ s' => s' = { s with ledger := f s.ledger })
      (fun _ _ => False) := rfl

theorem doubt_ends (offered : Option (List UInt8 × Bool)) (s : FolderLine) :
    Ends ((doubt offered).run s) (fun _ s' => ∃ ledger, s' = { s with ledger })
      (fun _ _ => False) := by
  unfold doubt
  split
  · exact ⟨_, rfl⟩
  · exact ⟨s.ledger, rfl⟩

/-- Before the next entry the client only waits; the ledger is as it was if the server asks. -/
theorem awaitNext_ends (turn : Turn) (s : FolderLine) :
    Ends ((awaitNext turn).run s) (fun _ s' => ∃ inner, s' = s.meeting inner)
      (fun _ s' => Quiet s s') := by
  unfold awaitNext
  split
  · exact ⟨s.inner, rfl⟩
  refine Ends.bind ((fillLine_ends 2 s).mono (fun _ _ _ h => h) (fun _ _ _ h => h.elim)) ?_
  rintro filled s' - ⟨-, rfl⟩
  have hdoubt (s' : FolderLine) (hs' : Quiet s s') :
      Ends ((do doubt turn.offered; Fallible.fail EIO : Offering Unit).run s')
        (fun _ s₂ => ∃ inner, s₂ = s.meeting inner) (fun _ s₂ => Quiet s s₂) := by
    refine Ends.bind ((doubt_ends turn.offered s').mono (fun _ _ _ h => h)
      (fun _ _ _ h => h.elim)) ?_
    rintro - s₂ - ⟨ledger, rfl⟩
    exact ⟨hs'.env, hs'.sent, hs'.met, hs'.offers⟩
  have hmeeting (inner : Source UInt8) : Quiet s (s.meeting inner) := ⟨rfl, rfl, rfl, rfl⟩
  split
  next cmd =>
    split
    · exact ⟨_, rfl⟩
    · exact hmeeting _
  next =>
    refine Ends.bind ((hungUp_ends turn.offered turn.inSkipped _).mono (fun _ _ _ h => h)
      (fun _ _ _ h => h.elim)) ?_
    rintro again s' - ⟨ledger, rfl⟩
    cases again with
    | some again => exact ⟨rfl, rfl, rfl, rfl⟩
    | none => exact hdoubt _ ⟨rfl, rfl, rfl, rfl⟩
  next => exact hdoubt _ (hmeeting _)

theorem learn_ends (offered : Option (List UInt8 × Bool)) (s : FolderLine) :
    Ends ((learn offered).run s) (fun _ s' => s' = s.learned offered) (fun _ _ => False) := by
  unfold learn
  cases offered <;> rfl

/-- Nothing goes out while the server's answer is read. -/
theorem readAnswer_ends (inSkipped : Bool) (s : FolderLine) :
    Ends ((readAnswer inSkipped).run s) (fun _ s' => ∃ inner, s' = s.meeting inner)
      (fun _ s' => Quiet s s') := by
  unfold readAnswer
  refine Ends.bind ((fillLine_ends 2 s).mono (fun _ _ _ h => h) (fun _ _ _ h => h.elim)) ?_
  rintro filled s' - ⟨-, rfl⟩
  have hmeeting (inner : Source UInt8) : Quiet s (s.meeting inner) := ⟨rfl, rfl, rfl, rfl⟩
  have htakes (want : ℕ) (inner : Source UInt8) :
      Ends ((takes want).run (s.meeting inner)) (fun _ s' => ∃ inner, s' = s.meeting inner)
        (fun _ s' => Quiet s s') := by
    refine (takes_ends want _).mono (fun _ s' _ h => h) ?_
    rintro - s' - ⟨inner', rfl⟩
    exact hmeeting inner'
  split
  next cmd =>
    split
    · exact ⟨_, rfl⟩
    split
    · refine Ends.bind (htakes 2 _) ?_
      rintro rl s' - ⟨inner, rfl⟩
      dsimp only
      split
      · exact hmeeting _
      · refine Ends.bind (htakes _ _) ?_
        rintro rflt s' - ⟨inner', rfl⟩
        exact ⟨_, rfl⟩
    split
    · exact ⟨_, rfl⟩
    · exact hmeeting _
  next =>
    refine (closed_ends inSkipped EIO _).mono (fun _ _ _ h => h.elim) ?_
    rintro - s' - ⟨ledger, rfl⟩
    exact ⟨rfl, rfl, rfl, rfl⟩
  next => exact hmeeting _

/-- An item of the stream: an entry, and what came after the size of a file that was sent. -/
structure Item where
  entry : PutEntry
  payload : Option (List UInt8)

/-- How an item goes out. -/
def Item.bytes (i : Item) : List UInt8 :=
  nfiBytes i.entry ++ i.payload.elim [] fun payload =>
    BigEndian.ofU32 (.ofNat payload.length) ++ payload

/-- A folder has nothing after its path, and a file as much as 32 bits count. -/
structure Item.Whole (i : Item) : Prop where
  folder : i.entry.isFolder = true → i.payload = none
  size : ∀ payload ∈ i.payload, payload.length < 2 ^ 32

/-- A stream of these entries, or the beginning of one. -/
inductive Streams : List PutEntry → List UInt8 → Prop
  | part {i : Item} {rest : List PutEntry} {bytes : List UInt8} (hwhole : i.Whole)
    (hpart : bytes <+: i.bytes) : Streams (i.entry :: rest) bytes
  | nothing {left : List PutEntry} : Streams left []
  | item {i : Item} {rest : List PutEntry} {bytes : List UInt8} (hwhole : i.Whole)
    (hfits : Fits i.entry) (hrest : Streams rest bytes) :
    Streams (i.entry :: rest) (i.bytes ++ bytes)

/-- A whole stream of these entries. -/
inductive Streamed : List PutEntry → List UInt8 → Prop
  | nil : Streamed [] []
  | item {i : Item} {rest : List PutEntry} {bytes : List UInt8} (hwhole : i.Whole)
    (hfits : Fits i.entry) (hrest : Streamed rest bytes) :
    Streamed (i.entry :: rest) (i.bytes ++ bytes)

/-- A file's size, and as many bytes. -/
def Payload (bytes : List UInt8) : Prop :=
  ∃ payload : List UInt8, payload.length < 2 ^ 32 ∧
    bytes = BigEndian.ofU32 (.ofNat payload.length) ++ payload

/-- The beginning of that. -/
def BeginsPayload (bytes : List UInt8) : Prop := ∃ all, Payload all ∧ bytes <+: all

theorem BeginsPayload.of_le {size : ℕ} {bytes : List UInt8} (hlt : size < 2 ^ 32)
    (hle : bytes.length ≤ size) : BeginsPayload (BigEndian.ofU32 (.ofNat size) ++ bytes) := by
  -- The bytes that never come are as good as any.
  have hlength : (bytes ++ List.replicate (size - bytes.length) 0).length = size := by
    rw [List.length_append, List.length_replicate]
    omega
  refine ⟨_, ⟨bytes ++ List.replicate (size - bytes.length) 0, hlength ▸ hlt, rfl⟩, ?_⟩
  rw [hlength, List.prefix_append_right_inj]
  exact List.prefix_append _ _

theorem BeginsPayload.nil : BeginsPayload [] := ⟨_, ⟨[], by decide, rfl⟩, List.nil_prefix⟩

theorem BeginsPayload.cut {bytes more : List UInt8} (h : BeginsPayload more)
    (hpre : bytes <+: more) : BeginsPayload bytes := by
  obtain ⟨all, hall, hmore⟩ := h
  exact ⟨all, hall, hpre.trans hmore⟩

/-- A file is sent as its size and as many bytes, or the beginning of that. -/
theorem sendSized_ends {ffo : Ffo} (hffo : Framed ffo) {fp : FolderParams}
    (hfolder : fp.optFolder = true) (e : PutEntry) (inSkipped : Bool) {file : LocalFile}
    (hfile : file.Honest) {dataPos rsrcPos : ℕ} (hdata : dataPos ≤ file.data.length)
    (hrsrc : rsrcPos ≤ file.resourceLen) {s : FolderLine} (hbreaks : s.toEnv.Breaks) :
    Ends ((sendSized ffo fp e inSkipped file dataPos rsrcPos).run s)
      (fun _ s' => ∃ bytes, Puts bytes s.toLine s'.toLine ∧ BeginsPayload bytes ∧
        (Payload bytes ∨ s'.toLine.Broken) ∧ s'.met = s.met ∧ s'.offers = s.offers ∧
          s'.ledger = s.ledger)
      (fun _ s' => ∃ bytes, Puts bytes s.toLine s'.toLine ∧ BeginsPayload bytes ∧
        s'.offers = s.offers) := by
  have hsize := fileSize_eq hfile hdata hrsrc fp
  unfold sendSized
  generalize fileSize file dataPos rsrcPos = size at hsize ⊢
  dsimp only
  split
  · exact ⟨[], Puts.refl _, .nil, rfl⟩
  next hfits =>
    have hlt : size < 2 ^ 32 := not_le.mp hfits
    refine Ends.bind ((put_ends _ s).mono (fun _ _ _ h => h) ?_) ?_
    · rintro - s' - ⟨part, hpre, rfl⟩
      have hsized : BeginsPayload (BigEndian.ofU32 (.ofNat size) ++ []) :=
        .of_le hlt (Nat.zero_le _)
      exact ⟨part, ⟨rfl, rfl⟩, hsized.cut (hpre.trans (List.prefix_append _ _)), rfl⟩
    rintro - s₁ - rfl
    let sized := s.putting (BigEndian.ofU32 (.ofNat size))
    have hputs {bytes : List UInt8} {l' : Line} (h : Puts bytes sized.toLine l') :
        Puts (BigEndian.ofU32 (.ofNat size) ++ bytes) s.toLine l' :=
      ⟨h.env, by rw [h.sent, ← List.append_assoc]; rfl⟩
    split
    · exact ⟨_, hputs (Puts.refl _), .of_le hlt (Nat.zero_le _), rfl⟩
    let p := fp.perFile file dataPos rsrcPos
    refine Ends.bind (Q := fun r s' => ∃ l', (fileSendOne ffo file p).run sized.toLine = (r, l') ∧
      s' = { sized with toLine := l' }) ⟨_, rfl, rfl⟩ ?_
    rintro r s' - ⟨l', hrun, rfl⟩
    have hflat : ¬(p.optLarge = true ∧ p.optFolder = false) := by
      simp [p, FolderParams.perFile, hfolder]
    obtain ⟨bytes, hbytes, hle⟩ := fileSendOne_within hffo file hflat sized.toLine
    rw [hrun] at hbytes
    have hbegins := BeginsPayload.of_le hlt (hle.trans hsize.ge)
    cases r with
    | ok =>
      have hbreaks' : sized.toEnv.Breaks := hbreaks
      rcases fileSendOne_puts hffo hflat hbreaks' hrun with ⟨payload, hall, hlength⟩ | hbroken
      · have hpayload : Payload (BigEndian.ofU32 (.ofNat size) ++ payload) :=
          ⟨payload, by rwa [hlength, ← hsize], by rw [hlength, ← hsize]⟩
        exact ⟨_, hputs hall, ⟨_, hpayload, List.prefix_refl _⟩, Or.inl hpayload, rfl, rfl, rfl⟩
      · exact ⟨_, hputs hbytes, hbegins, Or.inr hbroken, rfl, rfl, rfl⟩
    | error rv =>
      dsimp only
      split
      · refine (closed_ends inSkipped rv _).mono (fun _ _ _ h => h.elim) ?_
        rintro - s' - ⟨ledger, rfl⟩
        exact ⟨_, hputs hbytes, hbegins, rfl⟩
      · exact ⟨_, hputs hbytes, hbegins, rfl⟩

/-- A file is sent from where the server has it, as its size and as many bytes. -/
theorem sendFrom_ends {ffo : Ffo} (hffo : Framed ffo) {fp : FolderParams}
    (hfolder : fp.optFolder = true) (e : PutEntry) (inSkipped : Bool) (dataPos rsrcPos : ℕ)
    {s : FolderLine} (hbreaks : s.toEnv.Breaks)
    (hmet : ∀ path dated, s.met path = .ok dated → dated.file.Honest) :
    Ends ((sendFrom ffo fp e inSkipped dataPos rsrcPos).run s)
      (fun _ s' => ∃ bytes, Puts bytes s.toLine s'.toLine ∧ BeginsPayload bytes ∧
        (Payload bytes ∨ s'.toLine.Broken) ∧ s'.met = s.met ∧ s'.offers = s.offers ∧
          s'.ledger.folders = s.ledger.folders)
      (fun _ s' => ∃ bytes, Puts bytes s.toLine s'.toLine ∧ BeginsPayload bytes ∧
        s'.offers = s.offers) := by
  unfold sendFrom
  refine Ends.bind (Q := fun r s' => r = s ∧ s' = s) ⟨rfl, rfl⟩ ?_
  rintro r s' - ⟨hr, hs'⟩
  subst r s'
  cases hfile : s.met e.components with
  | error err => exact ⟨[], Puts.refl _, .nil, rfl⟩
  | ok dated =>
    dsimp only
    split
    · exact ⟨[], Puts.refl _, .nil, rfl⟩
    next hsplices =>
      have hwithin : dataPos ≤ dated.file.data.length ∧ rsrcPos ≤ dated.file.resourceLen := by
        simp only [splices, Bool.or_eq_true, decide_eq_true_eq, not_or] at hsplices
        omega
      refine Ends.bind ((noting_ends _ s).mono (fun _ _ _ h => h) fun _ _ _ h => h.elim) ?_
      rintro - s₁ - rfl
      refine Ends.bind (Q := fun _ s₂ => Quiet s s₂ ∧ s₂.ledger.folders = s.ledger.folders)
        ?_ ?_
      · unfold reportHeld
        split <;> exact ⟨⟨rfl, rfl, rfl, rfl⟩, rfl⟩
      rintro - s₂ - ⟨hquiet, hfolders⟩
      have hputs {bytes : List UInt8} {l' : Line} (h : Puts bytes s₂.toLine l') :
          Puts bytes s.toLine l' := ⟨h.env.trans hquiet.env, by rw [h.sent, hquiet.sent]⟩
      refine (sendSized_ends hffo hfolder e inSkipped (hmet _ _ hfile) hwithin.1 hwithin.2
        (hquiet.env ▸ hbreaks)).mono ?_ ?_
      · rintro - s' - ⟨bytes, hbytes, hbegins, hend, hmet', hoffers, hledger⟩
        exact ⟨bytes, hputs hbytes, hbegins, hend, hmet'.trans hquiet.met,
          hoffers.trans hquiet.offers, hledger ▸ hfolders⟩
      · rintro - s' - ⟨bytes, hbytes, hbegins, hoffers⟩
        exact ⟨bytes, hputs hbytes, hbegins, hoffers.trans hquiet.offers⟩

/-- What is left to offer does not depend on what is made elsewhere. -/
theorem leftOf_makes {ledger : UploadLedger} {rel : List UInt8} {entries : List PutEntry}
    (hout : rel ∉ entries.map PutEntry.rel) :
    leftOf (some (ledger.makes rel)) entries = leftOf (some ledger) entries := by
  refine List.filter_congr fun e he => ?_
  have hne : e.rel ≠ rel := fun heq => hout (List.mem_map.mpr ⟨e, he, heq⟩)
  simp [UploadLedger.made, UploadLedger.makes, hne]

theorem leftOf_of_folders {ledger ledger' : UploadLedger} (h : ledger'.folders = ledger.folders)
    (entries : List PutEntry) : leftOf (some ledger') entries = leftOf (some ledger) entries := by
  refine List.filter_congr fun e _ => ?_
  simp [UploadLedger.made, h]

theorem leftOf_cons_made {ledger : UploadLedger} {e : PutEntry} (h : ledger.made e = true)
    (rest : List PutEntry) : leftOf (some ledger) (e :: rest) = leftOf (some ledger) rest := by
  simp [leftOf, h]

theorem leftOf_cons {ledger : UploadLedger} {e : PutEntry} (h : ¬ledger.made e = true)
    (rest : List PutEntry) :
    leftOf (some ledger) (e :: rest) = e :: leftOf (some ledger) rest := by
  simp [leftOf, h]

/-- On a connection that failed nothing more is offered, and it is found out if anything is. -/
theorem folderLoop_broken (ffo : Ffo) (fp : FolderParams) (turn : Turn)
    (entries : List PutEntry) {s : FolderLine} (hbroken : s.toLine.Broken) :
    Ends ((folderLoop ffo fp turn entries).run s)
      (fun _ s' => s'.sent = s.sent ∧ s'.offers = s.offers ∧ s'.toLine.Broken ∧
        leftOf (some s.ledger) entries = [])
      (fun _ s' => s'.sent = s.sent) := by
  induction entries generalizing turn with
  | nil => exact ⟨rfl, rfl, hbroken, rfl⟩
  | cons e rest ih =>
    rw [folderLoop]
    refine Ends.bind (Q := fun r s' => r = s ∧ s' = s) ⟨rfl, rfl⟩ ?_
    rintro r s' - ⟨hr, hs'⟩
    subst r s'
    split
    next hmade =>
      rw [leftOf_cons_made hmade]
      exact ih _
    next hmade =>
      refine Ends.bind ((awaitNext_ends turn s).mono (fun _ _ _ h => h)
        fun _ s' _ h => h.sent) ?_
      rintro - s₁ - ⟨inner, rfl⟩
      refine Ends.bind ((learn_ends turn.offered _).mono (fun _ _ _ h => h)
        fun _ _ _ h => h.elim) ?_
      rintro - s₂ - rfl
      dsimp only
      obtain ⟨err, hoffer⟩ :=
        offer_broken (s := (s.meeting inner).learned turn.offered) hbroken e
      rw [Fallible.run_bind_error hoffer]
      rfl

theorem BeginsPayload.part {bytes : List UInt8} (h : BeginsPayload bytes) {e : PutEntry}
    (hfile : e.isFolder = false) (rest : List PutEntry) :
    Streams (e :: rest) (nfiBytes e ++ bytes) := by
  obtain ⟨all, ⟨payload, hlt, rfl⟩, hpre⟩ := h
  refine Streams.part (i := ⟨e, some payload⟩) ⟨by simp [hfile], by simpa using hlt⟩ ?_
  rw [Item.bytes, List.prefix_append_right_inj]
  exact hpre

/-- An entry with nothing after its path. -/
theorem whole_bare (e : PutEntry) : Item.Whole ⟨e, none⟩ := ⟨fun _ => rfl, by simp⟩

theorem bytes_bare (e : PutEntry) : Item.bytes ⟨e, none⟩ = nfiBytes e := by simp [Item.bytes]

theorem Streams.bare {e : PutEntry} {bytes : List UInt8} (h : bytes <+: nfiBytes e)
    (rest : List PutEntry) : Streams (e :: rest) bytes :=
  .part (i := ⟨e, none⟩) (whole_bare e) (bytes_bare e ▸ h)

/-- The entries that were left were all offered, and the stream of them is whole unless the
connection failed. -/
structure Finishes (s s' : FolderLine) (left : List PutEntry) (bytes : List UInt8) : Prop where
  sent : s'.sent = s.sent ++ bytes
  streams : Streams left bytes
  whole : Streamed left bytes ∨ s'.toLine.Broken
  offers : s'.offers = s.offers ++ left

/-- A stream of the entries that were left was begun. -/
structure Stops (s s' : FolderLine) (left : List PutEntry) (bytes : List UInt8) : Prop where
  sent : s'.sent = s.sent ++ bytes
  streams : Streams left bytes

/-- An item went out: its entry was offered, and the ledger says of folders what it did. -/
structure Item.Sent (i : Item) (s s' : FolderLine) : Prop where
  whole : i.Whole
  fits : Fits i.entry
  env : s'.toEnv = s.toEnv
  sent : s'.sent = s.sent ++ i.bytes
  met : s'.met = s.met
  offers : s'.offers = s.offers ++ [i.entry]
  folders : s'.ledger.folders = s.ledger.folders

namespace Item.Sent

variable {i : Item} {s s' s₂ : FolderLine} {rest : List PutEntry} {bytes : List UInt8}

/-- The rest of the stream goes out behind it. -/
theorem finishes (h : i.Sent s s') (hrest : Finishes s' s₂ rest bytes) :
    Finishes s s₂ (i.entry :: rest) (i.bytes ++ bytes) where
  sent := by rw [hrest.sent, h.sent, List.append_assoc]
  streams := .item h.whole h.fits hrest.streams
  whole := hrest.whole.imp_left (.item h.whole h.fits)
  offers := by rw [hrest.offers, h.offers, List.append_assoc, List.singleton_append]

theorem stops (h : i.Sent s s') (hrest : Stops s' s₂ rest bytes) :
    Stops s s₂ (i.entry :: rest) (i.bytes ++ bytes) where
  sent := by rw [hrest.sent, h.sent, List.append_assoc]
  streams := .item h.whole h.fits hrest.streams

end Item.Sent

/-- What the loop puts out is a stream of the entries that are left to offer, or the beginning of
one; when it returns all of them were offered, and the stream is whole unless the connection
failed. -/
theorem folderLoop_ends {ffo : Ffo} (hffo : Framed ffo) {fp : FolderParams}
    (hfolder : fp.optFolder = true) (turn : Turn) {entries : List PutEntry}
    (hnodup : (entries.map PutEntry.rel).Nodup) {s : FolderLine} (hbreaks : s.toEnv.Breaks)
    (hmet : ∀ path dated, s.met path = .ok dated → dated.file.Honest)
    (hout : ∀ offered ∈ turn.offered, offered.1 ∉ entries.map PutEntry.rel) :
    Ends ((folderLoop ffo fp turn entries).run s)
      (fun _ s' => ∃ bytes, Finishes s s' (leftOf (some s.ledger) entries) bytes)
      (fun _ s' => ∃ bytes, Stops s s' (leftOf (some s.ledger) entries) bytes) := by
  induction entries generalizing turn s with
  | nil =>
    exact ⟨[], (List.append_nil _).symm, .nothing, Or.inl .nil, (List.append_nil _).symm⟩
  | cons e rest ih =>
    obtain ⟨hfirst, hrest⟩ := List.nodup_cons.mp hnodup
    rw [folderLoop]
    refine Ends.bind (Q := fun r s' => r = s ∧ s' = s) ⟨rfl, rfl⟩ ?_
    rintro r s' - ⟨hr, hs'⟩
    subst r s'
    split
    next hmade =>
      rw [leftOf_cons_made hmade]
      exact ih _ hrest hbreaks hmet fun offered hoffered hmem =>
        hout offered hoffered (List.mem_cons_of_mem _ hmem)
    next hmade =>
      rw [leftOf_cons hmade]
      refine Ends.bind ((awaitNext_ends turn s).mono (fun _ _ _ h => h) fun _ s' _ h =>
        ⟨[], by rw [h.sent, List.append_nil], .nothing⟩) ?_
      rintro - s₁ - ⟨inner, rfl⟩
      refine Ends.bind ((learn_ends turn.offered _).mono (fun _ _ _ h => h)
        fun _ _ _ h => h.elim) ?_
      rintro - s₂ - rfl
      have hleft : leftOf (some s.ledger) rest =
          leftOf (some ((s.meeting inner).learned turn.offered).ledger) rest := by
        cases hoffered : turn.offered with
        | none => rfl
        | some made =>
          exact (leftOf_makes fun hmem =>
            hout made hoffered (List.mem_cons_of_mem _ hmem)).symm
      have hquiet : Quiet s ((s.meeting inner).learned turn.offered) := ⟨rfl, rfl, rfl, rfl⟩
      generalize (s.meeting inner).learned turn.offered = s₂ at hleft hquiet ⊢
      rw [hleft]
      -- What went out since the state was as quiet as it is now went out in this turn.
      have hfinishes {s' : FolderLine} {left : List PutEntry} :
          (∃ bytes, Finishes s₂ s' left bytes) → ∃ bytes, Finishes s s' left bytes :=
        fun ⟨bytes, h⟩ => ⟨bytes, h.sent.trans (congrArg (· ++ bytes) hquiet.sent), h.streams,
          h.whole, h.offers.trans (congrArg (· ++ left) hquiet.offers)⟩
      have hstops {s' : FolderLine} {left : List PutEntry} :
          (∃ bytes, Stops s₂ s' left bytes) → ∃ bytes, Stops s s' left bytes :=
        fun ⟨bytes, h⟩ => ⟨bytes, h.sent.trans (congrArg (· ++ bytes) hquiet.sent), h.streams⟩
      have hbreaks₂ : s₂.toEnv.Breaks := hquiet.env ▸ hbreaks
      have hmet₂ : ∀ path dated, s₂.met path = .ok dated → dated.file.Honest :=
        hquiet.met ▸ hmet
      refine Ends.mono (Q := fun _ s' => ∃ bytes, Finishes s₂ s' _ bytes)
        (E := fun _ s' => ∃ bytes, Stops s₂ s' _ bytes) ?_ (fun _ _ _ => hfinishes)
        fun _ _ _ => hstops
      have hcompose {turn' : Turn} {s₄ : FolderLine} {i : Item} (hentry : i.entry = e)
          (hsent : i.Sent s₂ s₄)
          (hout' : ∀ offered ∈ turn'.offered, offered.1 ∉ rest.map PutEntry.rel) :
          Ends ((folderLoop ffo fp turn' rest).run s₄)
            (fun _ s' => ∃ bytes, Finishes s₂ s' (e :: leftOf (some s₂.ledger) rest) bytes)
            (fun _ s' => ∃ bytes, Stops s₂ s' (e :: leftOf (some s₂.ledger) rest) bytes) := by
        refine (ih turn' hrest (hsent.env ▸ hbreaks₂) (hsent.met ▸ hmet₂) hout').mono ?_ ?_ <;>
          rw [leftOf_of_folders hsent.folders, ← hentry]
        · rintro - s' - ⟨bytes, h⟩
          exact ⟨_, hsent.finishes h⟩
        · rintro - s' - ⟨bytes, h⟩
          exact ⟨_, hsent.stops h⟩
      refine Ends.bind ((offer_ends e s₂).mono (fun _ _ _ h => h) ?_) ?_
      · rintro - s' - ⟨part, hpart, rfl⟩
        exact ⟨part, rfl, .bare hpart _⟩
      rintro - s₃ - ⟨rfl, hfits⟩
      have hbare (inner' : Source UInt8) : Item.Sent ⟨e, none⟩ s₂
          ((s₂.offering e).meeting inner') :=
        ⟨whole_bare e, hfits, rfl, by rw [bytes_bare]; rfl, rfl, rfl, rfl⟩
      split
      next =>
        exact hcompose rfl (hbare s₂.inner) (by rintro - ⟨⟩; exact hfirst)
      next hfile =>
        have hfile' : e.isFolder = false := by simpa using hfile
        refine Ends.bind ((readAnswer_ends _ _).mono (fun _ _ _ h => h) ?_) ?_
        · rintro - s' - hquiet'
          exact ⟨nfiBytes e, hquiet'.sent, .bare (List.prefix_refl _) _⟩
        rintro asking s₄ - ⟨inner', rfl⟩
        cases asking with
        | next => exact hcompose rfl (hbare inner') (by rintro - ⟨⟩)
        | «from» dataPos rsrcPos =>
          dsimp only
          refine Ends.bind ((sendFrom_ends hffo hfolder e _ dataPos rsrcPos
            (s := (s₂.offering e).meeting inner') hbreaks₂ hmet₂).mono (fun _ _ _ h => h) ?_) ?_
          · rintro - s' - ⟨bytes, hbytes, hbegins, -⟩
            exact ⟨nfiBytes e ++ bytes, by rw [hbytes.sent, ← List.append_assoc]; rfl,
              hbegins.part hfile' _⟩
          rintro - s₅ - ⟨bytes, hbytes, hbegins, hend, hmet', hoffers, hfolders⟩
          have hsent : s₅.sent = s₂.sent ++ (nfiBytes e ++ bytes) := by
            rw [hbytes.sent, ← List.append_assoc]
            rfl
          rcases hend with hpayload | hbroken
          · obtain ⟨payload, hlt, rfl⟩ := hpayload
            exact hcompose (i := ⟨e, some payload⟩) rfl
              ⟨⟨by simp [hfile'], by simpa using hlt⟩, hfits, hbytes.env, hsent, hmet', hoffers,
                hfolders⟩ (by rintro - ⟨⟩)
          · refine (folderLoop_broken ffo fp _ rest hbroken).mono ?_ ?_
            · rintro - s' - ⟨hsame, hoffered, hbroken', hnone⟩
              have hnone' : leftOf (some s₂.ledger) rest = [] :=
                (leftOf_of_folders hfolders rest).symm.trans hnone
              rw [hnone']
              exact ⟨_, hsame.trans hsent, hbegins.part hfile' _, Or.inr hbroken',
                hoffered.trans hoffers⟩
            · rintro - s' - hsame
              exact ⟨_, hsame.trans hsent, hbegins.part hfile' _⟩

/-- What `folder_send` puts out is a stream of the entries that `put_totals` counts, or the beginning
of one: each entry once and in the walk's order, and as many bytes for a file as its size says. When
it returns every one of them was offered, and the stream is whole unless the connection failed. -/
theorem folderSend_streams {ffo : Ffo} (hffo : Framed ffo) (large : Bool) (folder : LocalFolder)
    {s : FolderLine} (hbreaks : s.toEnv.Breaks)
    (hmet : ∀ path dated, s.met path = .ok dated → dated.file.Honest) :
    ∃ left, (putTotals folder.entries (some s.ledger)).2 = min left.length (2 ^ 32 - 1) ∧
      left = folder.planned.filter (fun e => !s.ledger.made e) ∧
      Ends ((folderSend ffo ⟨true, large⟩ folder.planned).run s)
        (fun _ s' => ∃ bytes, Finishes s s' left bytes)
        (fun _ s' => ∃ bytes, Stops s s' left bytes) := by
  refine ⟨leftOf (some s.ledger) folder.planned, rfl, rfl, ?_⟩
  exact folderLoop_ends hffo rfl {} folder.nodup_rel hbreaks hmet (by simp)

/-- A stream goes out whole on a connection that takes everything. -/
theorem Finishes.streamed {s s' : FolderLine} {left : List PutEntry} {bytes : List UInt8}
    (h : Finishes s s' left bytes) (hwilling : ∀ pos len, s'.taking pos len = .whole) :
    Streamed left bytes := by
  refine h.whole.resolve_right fun hbroken => ?_
  obtain ⟨timedOut, htook⟩ := hbroken 0
  rw [hwilling] at htook
  cases htook

section Sample

/-- A folder with a folder in it, which has a file in it. -/
def nested : LocalFolder where
  entries := [([98], .folder [([97], .file ⟨twoForks, some 1⟩)])]
  listed := by simp [Listing, Node.Listed, Proper, curDir, parentDir]

/-- A server that makes the folder and asks for the whole file. -/
def asksForAll : FolderLine where
  toEnv := willing
  inner := [.bytes [0, 3, 0, 3, 0, 1]]
  ledger := {}
  aborted := false
  met := fun _ => .ok ⟨twoForks, some 1⟩
  offers := []

/-- It is sent both entries, and the file. -/
theorem nested_streams :
    ∃ left, (putTotals nested.entries (some asksForAll.ledger)).2 = min left.length (2 ^ 32 - 1) ∧
      left = nested.planned.filter (fun e => !asksForAll.ledger.made e) ∧
      Ends ((folderSend flatFfo ⟨true, false⟩ nested.planned).run asksForAll)
        (fun _ s' => ∃ bytes, Finishes asksForAll s' left bytes)
        (fun _ s' => ∃ bytes, Stops asksForAll s' left bytes) :=
  folderSend_streams framed_flatFfo false nested (by rintro pos len n ⟨⟩) (by
    rintro path dated ⟨⟩
    exact ⟨rfl, rfl, by decide⟩)

end Sample

end Gtkhx.Upload
