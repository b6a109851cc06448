import Gtkhx.Upload.Send

/-!
# What an upload announces

`upload_ready` sizes an upload from the local file and the server's reply, `htxf_connect`
announces that size and decides on large-file mode, and `settle_pause` measures progress
by it. Flattened, what is sent is what was announced; in large-file mode it never is
(`sends_announced_iff`).
-/

namespace Gtkhx.Upload

open Htxf Reader

/-- What a reply to a transfer's request says of an upload. -/
structure Transfer where
  reference : UInt32
  /-- How much of the data fork the server has. -/
  dataFrom : UInt32 := 0
  /-- How much of the resource fork it has. -/
  rsrcFrom : UInt32 := 0
  queue : UInt32 := 0
  deriving DecidableEq, Repr

/-- What `upload_ready` and `htxf_connect` set of an upload's `HtxfHandle`. -/
structure HtxfHandle where
  dataSize : ℕ := 0
  dataPos : ℕ := 0
  rsrcSize : ℕ := 0
  rsrcPos : ℕ := 0
  totalSize : ℕ := 0
  optLarge : Bool := false
  ref : UInt32 := 0
  queue : UInt32 := 0
  deriving DecidableEq, Repr

/-- What `upload_ready` comes to. -/
inductive Ready
  /-- A reply with no reference starts nothing. -/
  | nothing
  /-- The server holds more than the file has. -/
  | larger (htxf : HtxfHandle)
  /-- The transfer may go. -/
  | ready (htxf : HtxfHandle)
  deriving DecidableEq, Repr

/-- A file upload's size, from its forks' and the comment's lengths and what the server has
of the forks. -/
def uploadTotal (dataSize rsrcSize dataPos rsrcPos commentLen : ℕ) : ℕ :=
  add64 (add64 (add64 (add64 133 (if wrappingSub64 rsrcSize rsrcPos ≠ 0 then 16 else 0))
    commentLen) (wrappingSub64 dataSize dataPos)) (wrappingSub64 rsrcSize rsrcPos)

/-- `upload_ready`, for a file's upload in the list whose file may be gone. -/
def uploadReady (htxf : HtxfHandle) (file : Option LocalFile) (t : Transfer) : Ready :=
  if t.reference = 0 then .nothing
  else
    let dataPos := t.dataFrom.toNat
    let rsrcPos := t.rsrcFrom.toNat
    let dataSize := file.elim htxf.dataSize fun file => file.data.length
    let rsrcSize := file.elim 0 LocalFile.resourceLen
    let sized := { htxf with dataPos, rsrcPos, dataSize, rsrcSize, queue := t.queue }
    if dataSize < dataPos ∨ rsrcSize < rsrcPos then .larger sized
    else
      let commentLen := file.elim 0 LocalFile.commentLen
      let totalSize := uploadTotal dataSize rsrcSize dataPos rsrcPos commentLen
      .ready { sized with totalSize, ref := t.reference }

/-- `htxf_connect`, up to the preamble that announces the size: large-file mode is for a
connection that agreed to it and a size past 32 bits, which no other can announce. -/
def htxfConnect (capLarge : Bool) (htxf : HtxfHandle) : Option HtxfHandle :=
  let size64 := capLarge && decide (0xFFFFFFFF < htxf.totalSize)
  if 0xFFFFFFFF < htxf.totalSize ∧ size64 = false then none
  else some { htxf with optLarge := size64 }

/-- `xfer_send_params`, for a file's upload. -/
def HtxfHandle.sendParams (htxf : HtxfHandle) : SendParams where
  dataSize := htxf.dataSize
  rsrcSize := htxf.rsrcSize
  dataPos := htxf.dataPos
  rsrcPos := htxf.rsrcPos
  optFolder := false
  optLarge := htxf.optLarge

/-- `settle_pause`'s test of a file that finished before the pause could stop it. -/
def HtxfHandle.finished (htxf : HtxfHandle) (totalPos : ℕ) : Prop := htxf.totalSize ≤ totalPos

/-- What is left of the forks is what the server does not hold of them. -/
theorem sized_left {file : LocalFile} (hfile : file.Honest) {dataPos rsrcPos : ℕ}
    (hdata : dataPos ≤ file.data.length) (hrsrc : rsrcPos ≤ file.resourceLen) :
    wrappingSub64 file.data.length dataPos = file.data.length - dataPos ∧
      wrappingSub64 file.resourceLen rsrcPos = file.resourceLen - rsrcPos := by
  have hfits := hfile.fits
  constructor
  · exact wrappingSub64_eq hdata (by omega)
  · exact wrappingSub64_eq hrsrc (by omega)

/-- A file upload's size, without wrapping. -/
theorem uploadTotal_eq {file : LocalFile} (hfile : file.Honest) {dataPos rsrcPos : ℕ}
    (hdata : dataPos ≤ file.data.length) (hrsrc : rsrcPos ≤ file.resourceLen) :
    uploadTotal file.data.length file.resourceLen dataPos rsrcPos file.commentLen =
      133 + (if file.resourceLen - rsrcPos ≠ 0 then 16 else 0) + file.commentLen +
        (file.data.length - dataPos) + (file.resourceLen - rsrcPos) := by
  have hfits := hfile.fits
  obtain ⟨hleft, hrest⟩ := sized_left hfile hdata hrsrc
  rw [uploadTotal, hleft, hrest]
  generalize hmarker : (if file.resourceLen - rsrcPos ≠ 0 then 16 else 0) = marker
  have hle : marker ≤ 16 := by
    rw [← hmarker]
    split <;> omega
  have hhead : add64 133 marker = 133 + marker := add64_eq (by omega)
  have hcomment : add64 (133 + marker) file.commentLen = 133 + marker + file.commentLen :=
    add64_eq (by omega)
  rw [hhead, hcomment, add64_eq (show 133 + marker + file.commentLen +
    (file.data.length - dataPos) < 2 ^ 64 by omega), add64_eq (by omega)]

/-- What `upload_ready` lets go is sized from the file. -/
theorem uploadReady_ready {htxf sized : HtxfHandle} {file : LocalFile} {t : Transfer}
    (h : uploadReady htxf (some file) t = .ready sized) :
    t.dataFrom.toNat ≤ file.data.length ∧ t.rsrcFrom.toNat ≤ file.resourceLen ∧
      sized = { htxf with
        dataPos := t.dataFrom.toNat, rsrcPos := t.rsrcFrom.toNat,
        dataSize := file.data.length, rsrcSize := file.resourceLen, queue := t.queue,
        totalSize := uploadTotal file.data.length file.resourceLen t.dataFrom.toNat
          t.rsrcFrom.toNat file.commentLen,
        ref := t.reference } := by
  unfold uploadReady at h
  split at h
  · cases h
  · by_cases hlarger : file.data.length < t.dataFrom.toNat ∨ file.resourceLen < t.rsrcFrom.toNat
    · rw [Option.elim_some, Option.elim_some, if_pos hlarger] at h
      cases h
    · rw [Option.elim_some, Option.elim_some, if_neg hlarger] at h
      obtain rfl := Ready.ready.inj h
      exact ⟨by omega, by omega, rfl⟩

/-- What sending a file flattened has done when it returned. -/
inductive Flattened (file : LocalFile) (p : SendParams) (l l' : Line) : Prop
  /-- There was no resource fork left. -/
  | data (hdr : List UInt8) (hhdr : hdr.length = FILP_HEADER_LEN + file.comment.length)
    (hleft : p.rsrcLeft = 0)
    (hwrote : Wrote l l' (hdr ++ (file.data.drop p.dataPos).take p.dataLeft)
      ((file.data.drop p.dataPos).take p.dataLeft))
  /-- The resource fork was sent. -/
  | both (hdr rest : List UInt8) (hhdr : hdr.length = FILP_HEADER_LEN + file.comment.length)
    (hleft : p.rsrcLeft ≠ 0) (hrest : rest.length = FORK_HEADER_LEN + p.rsrcLeft)
    (hmarker : l.taking (l.sent.length + (FILP_HEADER_LEN + file.comment.length) + p.dataLeft)
      FORK_HEADER_LEN = .whole)
    (hwrote : Wrote l l' (hdr ++ (file.data.drop p.dataPos).take p.dataLeft ++ rest)
      ((file.data.drop p.dataPos).take p.dataLeft))
  /-- The server did not take the resource fork's header. -/
  | declined (hleft : p.rsrcLeft ≠ 0)
    (hmarker : l.taking (l.sent.length + (FILP_HEADER_LEN + file.comment.length) + p.dataLeft)
      FORK_HEADER_LEN ≠ .whole)
    (hprogress : l'.progress =
      l.progress + (FILP_HEADER_LEN + file.comment.length + p.dataLeft))

theorem openFork_returns {fork : Fork} {l l' : Line}
    (h : (openFork fork).run l = (.ok (), l')) : l' = l := by
  unfold Fallible.run openFork at h
  split at h
  · exact (Prod.mk.inj h).2.symm
  · cases (Prod.mk.inj h).1

/-- What is left of the data fork was sent. -/
theorem sendData_returns {file : LocalFile} {p : SendParams} {l l' : Line}
    (h : (sendData file p).run l = (.ok (), l')) :
    ((file.data.drop p.dataPos).take p.dataLeft).length = p.dataLeft ∧
      Wrote l l' ((file.data.drop p.dataPos).take p.dataLeft)
        ((file.data.drop p.dataPos).take p.dataLeft) := by
  unfold sendData at h
  split at h
  · obtain ⟨_, l₁, hopen, hcopy⟩ := Fallible.bind_returns h
    obtain rfl := openFork_returns hopen
    exact rdWrSend_returns (le_refl _) hcopy
  · rename_i hdone
    obtain rfl : l = l' := (Prod.mk.inj h).2
    have hnone : p.dataLeft = 0 := by omega
    rw [hnone]
    exact ⟨rfl, Wrote.refl l⟩

/-- What is left of the resource fork was sent after its header, or the server did not take
the header. -/
theorem sendResource_returns {ffo : Ffo} (hffo : Framed ffo) {file : LocalFile}
    {p : SendParams} {l l' : Line} (h : (sendResource ffo file p).run l = (.ok (), l')) :
    (∃ rest, rest.length = FORK_HEADER_LEN + p.rsrcLeft ∧
      l.taking l.sent.length FORK_HEADER_LEN = .whole ∧ Wrote l l' rest []) ∨
    l.taking l.sent.length FORK_HEADER_LEN ≠ .whole ∧ l'.progress = l.progress := by
  obtain ⟨macr, l₁, hmacr, h₁⟩ := Fallible.bind_returns h
  obtain ⟨r, l₂, hattempt, h₂⟩ := Fallible.bind_returns h₁
  cases hpack : ffo.packForkHeader macrKind p.rsrcLeft p.optLarge with
  | none =>
    rw [hpack] at hmacr
    cases (Prod.mk.inj hmacr).1
  | some header =>
    rw [hpack] at hmacr
    obtain ⟨hok, rfl⟩ := Prod.mk.inj hmacr
    obtain rfl := Except.ok.inj hok
    have hlen := hffo rfl hpack
    rw [Fallible.run_attempt] at hattempt
    obtain ⟨hr, rfl⟩ := Prod.mk.inj hattempt
    obtain rfl := Except.ok.inj hr
    cases hwrite : ((xferWrite header).run l).1 with
    | error e =>
      rw [hwrite] at h₂
      have hshort : l.taking l.sent.length FORK_HEADER_LEN ≠ .whole ∧
          ((xferWrite header).run l).2.progress = l.progress := by
        unfold Fallible.run xferWrite at hwrite ⊢
        rw [hlen] at hwrite ⊢
        cases htook : l.taking l.sent.length FORK_HEADER_LEN with
        | whole =>
          rw [htook] at hwrite
          cases hwrite
        | short n timedOut => exact ⟨nofun, rfl⟩
      by_cases htimed : e = ETIMEDOUT
      · simp only [if_pos htimed] at h₂
        cases (Prod.mk.inj h₂).1
      · simp only [if_neg htimed] at h₂
        obtain rfl := (Prod.mk.inj h₂).2
        exact .inr hshort
    | ok =>
      obtain ⟨hwhole, hsent⟩ := xferWrite_returns (Fallible.run_eq_of_fst hwrite)
      rw [hwrite, hsent] at h₂
      obtain ⟨_, l₃, hreport, h₃⟩ := Fallible.bind_returns h₂
      obtain ⟨_, l₄, hopen, h₄⟩ := Fallible.bind_returns h₃
      obtain ⟨bytes, l₅, hbytes, h₅⟩ := Fallible.bind_returns h₄
      obtain rfl := openFork_returns hopen
      have hheader : Wrote l l₄ header [] := by
        obtain rfl := (Prod.mk.inj hreport).2
        refine ⟨rfl, rfl, ?_, (List.append_nil _).symm⟩
        rw [hlen]
      cases hresource : file.resource with
      | none =>
        rw [hresource] at hbytes
        cases (Prod.mk.inj hbytes).1
      | some resource =>
        rw [hresource] at hbytes
        obtain ⟨hok, rfl⟩ := Prod.mk.inj hbytes
        obtain rfl := Except.ok.inj hok
        obtain ⟨hsize, hfork⟩ := rdWrSend_returns (le_refl _) h₅
        rw [hlen] at hwhole
        refine .inl ⟨_, ?_, hwhole, hheader.trans hfork⟩
        rw [List.length_append, hlen, hsize]

/-- What sending a file flattened has done when it returned. -/
theorem fileSendOne_flattened {ffo : Ffo} (hffo : Framed ffo) {file : LocalFile}
    {p : SendParams} (hflat : ¬ (p.optLarge = true ∧ p.optFolder = false)) {l l' : Line}
    (h : (fileSendOne ffo file p).run l = (.ok (), l')) :
    ((file.data.drop p.dataPos).take p.dataLeft).length = p.dataLeft ∧
      Flattened file p l l' := by
  rw [fileSendOne, if_neg hflat] at h
  obtain ⟨hdr, l₁, hhdr, h₁⟩ := Fallible.bind_returns h
  obtain ⟨_, l₂, hwrite, h₂⟩ := Fallible.bind_returns h₁
  obtain ⟨_, l₃, hreport, h₃⟩ := Fallible.bind_returns h₂
  obtain ⟨_, l₄, hdata, h₄⟩ := Fallible.bind_returns h₃
  cases hpack : filpHeader ffo file p with
  | none =>
    rw [hpack] at hhdr
    cases (Prod.mk.inj hhdr).1
  | some header =>
    rw [hpack] at hhdr
    obtain ⟨hok, rfl⟩ := Prod.mk.inj hhdr
    obtain rfl := Except.ok.inj hok
    have hlen := length_filpHeader hffo hpack
    have hheader : Wrote l l₃ header [] := by
      obtain ⟨-, rfl⟩ := xferWrite_returns hwrite
      obtain rfl := (Prod.mk.inj hreport).2
      refine ⟨rfl, rfl, ?_, (List.append_nil _).symm⟩
      rw [hlen]
    obtain ⟨hsize, hsent⟩ := sendData_returns hdata
    have hboth := hheader.trans hsent
    rw [List.nil_append] at hboth
    refine ⟨hsize, ?_⟩
    by_cases hleft : p.rsrcLeft = 0
    · rw [if_neg (not_not.mpr hleft)] at h₄
      obtain rfl : l₄ = l' := (Prod.mk.inj h₄).2
      exact .data header hlen hleft hboth
    · rw [if_pos hleft] at h₄
      have hpos : l₄.sent.length =
          l.sent.length + (FILP_HEADER_LEN + file.comment.length) + p.dataLeft := by
        rw [hboth.sent, List.length_append, List.length_append, hlen, hsize]
        omega
      have henv : l₄.taking = l.taking := congrArg Env.taking hboth.env
      rcases sendResource_returns hffo h₄ with ⟨rest, hrest, hmarker, hwrote⟩ | ⟨hmarker, hsame⟩
      · rw [hpos, henv] at hmarker
        have hall := hboth.trans hwrote
        rw [List.append_nil] at hall
        exact .both header rest hlen hleft hrest hmarker hall
      · rw [hpos, henv] at hmarker
        refine .declined hleft hmarker ?_
        rw [hsame, hboth.progress, List.length_append, hlen, hsize]

/-- A large file on its own was sent as its data fork, from the start. -/
theorem fileSendOne_large {ffo : Ffo} {file : LocalFile} {p : SendParams}
    (hlarge : p.optLarge = true ∧ p.optFolder = false) (hsize : p.dataSize = file.data.length)
    {l l' : Line} (h : (fileSendOne ffo file p).run l = (.ok (), l')) :
    Wrote l l' file.data file.data := by
  rw [fileSendOne, if_pos hlarge] at h
  obtain ⟨_, l₁, hopen, hcopy⟩ := Fallible.bind_returns h
  obtain rfl := openFork_returns hopen
  obtain ⟨-, hwrote⟩ := rdWrSend_returns (le_refl _) hcopy
  rwa [List.drop_zero, hsize, List.take_length] at hwrote

/-- What was sent is what was announced: as many bytes went out, and were reported, and the
data fork's among them are those the server does not have. -/
structure SentAsAnnounced (file : LocalFile) (htxf : HtxfHandle) (l : Line) : Prop where
  size : l.sent.length = htxf.totalSize
  progress : l.progress = htxf.totalSize
  data : l.dataSent = file.data.drop htxf.dataPos

/-- An upload sized from a file and a reply. -/
structure Sized (file : LocalFile) (t : Transfer) (htxf : HtxfHandle) : Prop where
  dataSize : htxf.dataSize = file.data.length
  rsrcSize : htxf.rsrcSize = file.resourceLen
  dataPos : htxf.dataPos = t.dataFrom.toNat
  rsrcPos : htxf.rsrcPos = t.rsrcFrom.toNat
  data_le : t.dataFrom.toNat ≤ file.data.length
  rsrc_le : t.rsrcFrom.toNat ≤ file.resourceLen
  totalSize : htxf.totalSize =
    133 + (if file.resourceLen - t.rsrcFrom.toNat ≠ 0 then 16 else 0) + file.commentLen +
      (file.data.length - t.dataFrom.toNat) + (file.resourceLen - t.rsrcFrom.toNat)

/-- What `upload_ready` lets go and `htxf_connect` announces is sized from the file. -/
theorem Sized.announced {file : LocalFile} (hfile : file.Honest) {capLarge : Bool}
    {htxf sized announced : HtxfHandle} {t : Transfer}
    (hready : uploadReady htxf (some file) t = .ready sized)
    (hconnect : htxfConnect capLarge sized = some announced) :
    Sized file t announced ∧
      (announced.optLarge = true ↔ capLarge = true ∧ 0xFFFFFFFF < sized.totalSize) := by
  obtain ⟨hdata, hrsrc, hsized⟩ := uploadReady_ready hready
  have htotal := uploadTotal_eq hfile hdata hrsrc
  simp only [htxfConnect, Option.ite_none_left_eq_some, Option.some.injEq] at hconnect
  obtain ⟨-, rfl⟩ := hconnect
  refine ⟨?_, by simp⟩
  rw [hsized]
  exact ⟨rfl, rfl, rfl, rfl, hdata, hrsrc, htotal⟩

/-- In large-file mode what is sent is not what was announced: the header, the comment and
the resource fork are announced, and the data fork is sent whole. -/
theorem Sized.not_sentAsAnnounced {ffo : Ffo} {file : LocalFile} {t : Transfer}
    {htxf : HtxfHandle} (h : Sized file t htxf) (hlarge : htxf.optLarge = true) {env : Env}
    {l : Line} (hrun : (fileSendOne ffo file htxf.sendParams).run { toEnv := env } = (.ok (), l)) :
    ¬ SentAsAnnounced file htxf l := by
  have hwrote := fileSendOne_large ⟨hlarge, rfl⟩ h.dataSize hrun
  rintro ⟨hsize, -, hdata⟩
  have htotal := h.totalSize
  have hle := h.data_le
  have hsent : l.sent.length = file.data.length := by rw [hwrote.sent, List.nil_append]
  have hfork : file.data = file.data.drop t.dataFrom.toNat := by
    rw [← h.dataPos, ← hdata, hwrote.dataSent, List.nil_append]
  have hlen := congrArg List.length hfork
  rw [List.length_drop] at hlen
  -- All of the data fork, so none was skipped; but then the header makes the total larger.
  omega

/-- Flattened, what is sent is what was announced unless the resource fork is declined. -/
theorem Sized.sentAsAnnounced_iff {ffo : Ffo} (hffo : Framed ffo) {file : LocalFile}
    (hfile : file.Honest) {t : Transfer} {htxf : HtxfHandle} (h : Sized file t htxf)
    (hflat : htxf.optLarge = false) {env : Env} {l : Line}
    (hrun : (fileSendOne ffo file htxf.sendParams).run { toEnv := env } = (.ok (), l)) :
    SentAsAnnounced file htxf l ↔ file.resourceLen ≤ t.rsrcFrom.toNat ∨
      env.taking (FILP_HEADER_LEN + file.commentLen +
        (file.data.length - t.dataFrom.toNat)) FORK_HEADER_LEN = .whole := by
  obtain ⟨hdataLeft, hrsrcLeft⟩ := sized_left hfile h.data_le h.rsrc_le
  have hdataLeft : htxf.sendParams.dataLeft = file.data.length - t.dataFrom.toNat := by
    rw [← hdataLeft, ← h.dataSize, ← h.dataPos]
    rfl
  have hrsrcLeft : htxf.sendParams.rsrcLeft = file.resourceLen - t.rsrcFrom.toNat := by
    rw [← hrsrcLeft, ← h.rsrcSize, ← h.rsrcPos]
    rfl
  have hpos : htxf.sendParams.dataPos = t.dataFrom.toNat := h.dataPos
  have htotal := h.totalSize
  have hle := h.rsrc_le
  have hhdr : FILP_HEADER_LEN = 133 := rfl
  have hfork : FORK_HEADER_LEN = 16 := rfl
  have hrest : (file.data.drop t.dataFrom.toNat).take (file.data.length - t.dataFrom.toNat) =
      file.data.drop t.dataFrom.toNat := by
    rw [← List.length_drop, List.take_length]
  obtain ⟨hlen, hsent⟩ := fileSendOne_flattened hffo (by simp [hflat, HtxfHandle.sendParams]) hrun
  rw [hpos, hdataLeft, hrest] at hlen
  cases hsent with
  | data hdr hhdrLen hleft hwrote =>
    rw [hpos, hdataLeft, hrest] at hwrote
    rw [hrsrcLeft] at hleft
    have hall : (hdr ++ file.data.drop t.dataFrom.toNat).length = htxf.totalSize := by
      rw [List.length_append, hhdrLen, hlen, htotal, if_neg (not_not.mpr hleft),
        hfile.comment_eq]
      omega
    constructor
    · exact fun _ => .inl (by omega)
    · intro _
      refine ⟨?_, ?_, ?_⟩
      · rw [hwrote.sent, List.nil_append, hall]
      · rw [hwrote.progress, Nat.zero_add, hall]
      · rw [hwrote.dataSent, List.nil_append, h.dataPos]
  | both hdr rest hhdrLen hleft hrestLen hmarker hwrote =>
    rw [hpos, hdataLeft, hrest] at hwrote
    rw [hrsrcLeft] at hleft hrestLen
    rw [hdataLeft, List.length_nil, Nat.zero_add, ← hfile.comment_eq] at hmarker
    have hall : (hdr ++ file.data.drop t.dataFrom.toNat ++ rest).length = htxf.totalSize := by
      rw [List.length_append, List.length_append, hhdrLen, hlen, hrestLen, htotal, if_pos hleft,
        hfile.comment_eq]
      omega
    constructor
    · exact fun _ => .inr hmarker
    · intro _
      refine ⟨?_, ?_, ?_⟩
      · rw [hwrote.sent, List.nil_append, hall]
      · rw [hwrote.progress, Nat.zero_add, hall]
      · rw [hwrote.dataSent, List.nil_append, h.dataPos]
  | declined hleft hmarker hprogress =>
    rw [hrsrcLeft] at hleft
    rw [hdataLeft, List.length_nil, Nat.zero_add, ← hfile.comment_eq] at hmarker
    rw [hdataLeft, Nat.zero_add, ← hfile.comment_eq] at hprogress
    constructor
    · intro hsent
      have hsame := hsent.progress
      rw [hprogress, htotal, if_pos hleft] at hsame
      omega
    · rintro (hnone | hwhole)
      · omega
      · exact absurd hwhole hmarker

/-- The flattened file format's fork headers take sixteen bytes. -/
theorem framed_flatFfo : Framed flatFfo := by
  intro kind len large header hkind h
  simp only [flatFfo, Option.ite_none_right_eq_some, Option.some.injEq] at h
  obtain ⟨-, rfl⟩ := h
  have hbe : ∀ n, (be32 n).length = 4 := fun n => rfl
  simp only [List.length_append, List.length_replicate, hkind, hbe]
  rfl

/-- A server that takes everything, and forks that can be read. -/
def willing : Env where
  taking := fun _ _ => .whole
  opening := fun _ => none
  reading := fun _ _ => .ok 0xf000

/-- Copying a fork to a willing server returns, if the fork is long enough. -/
theorem rdWrSend_willing {fork : Fork} {bytes : List UInt8} {fuel pos dataLen : ℕ} {l : Line}
    (henv : l.toEnv = willing) (hlen : pos + dataLen ≤ bytes.length) :
    ∃ l', (rdWrSend fork bytes fuel pos dataLen).run l = (.ok (), l') := by
  induction fuel generalizing pos dataLen l with
  | zero => exact ⟨l, rfl⟩
  | succ fuel ih =>
    by_cases hdone : dataLen = 0
    · subst hdone
      exact ⟨l, rfl⟩
    have hreading : l.reading fork pos = .ok 0xf000 := congrArg (fun e => e.reading fork pos) henv
    have hread : ∃ piece, (readFork fork bytes pos (min 0xf000 dataLen)).run l = (.ok piece, l) ∧
        0 < piece.length ∧ piece.length ≤ dataLen := by
      unfold Fallible.run readFork
      rw [hreading]
      cases hpiece : (bytes.drop pos).take (min (0xf000 + 1) (min 0xf000 dataLen)) with
      | nil =>
        have hnone := congrArg List.length hpiece
        rw [List.length_take, List.length_drop, List.length_nil] at hnone
        omega
      | cons b rest =>
        have hsome := congrArg List.length hpiece
        rw [List.length_take, List.length_drop] at hsome
        exact ⟨b :: rest, by simp only [hpiece], by simp, by omega⟩
    obtain ⟨piece, hread, hpos, hroom⟩ := hread
    have htaking : l.taking l.sent.length piece.length = .whole :=
      congrArg (fun e => e.taking l.sent.length piece.length) henv
    have hwrite : (xferWrite piece).run l = (.ok (), { l with sent := l.sent ++ piece }) := by
      unfold Fallible.run xferWrite
      rw [htaking]
    rw [rdWrSend, if_neg hdone, Fallible.run_bind_ok hread, Fallible.run_bind_ok hwrite]
    have hnext : ∀ l₂ : Line, l₂.toEnv = willing → ∃ l',
        (rdWrSend fork bytes fuel (pos + piece.length) (dataLen - piece.length)).run l₂ =
          (.ok (), l') := fun l₂ h₂ => ih h₂ (by omega)
    cases fork with
    | data | resource => exact hnext _ henv

/-- A file longer than 32 bits count, sent in large-file mode, is announced with a header
that is not sent, and once sent it does not count as finished. -/
theorem large_differs {file : LocalFile} (hfile : file.Honest)
    (hlen : 0xFFFFFFFF < file.data.length) : ∃ sized announced l,
      uploadReady {} (some file) { reference := 1 } = .ready sized ∧
      htxfConnect true sized = some announced ∧
      (fileSendOne flatFfo file announced.sendParams).run { toEnv := willing } = (.ok (), l) ∧
      ¬ SentAsAnnounced file announced l ∧ ¬ announced.finished l.progress := by
  obtain ⟨sized, hready⟩ : ∃ sized,
      uploadReady {} (some file) { reference := 1 } = .ready sized := by
    simp [uploadReady]
  obtain ⟨hdata, hrsrc, hsized⟩ := uploadReady_ready hready
  have htotal : 0xFFFFFFFF < sized.totalSize := by
    have hsum := uploadTotal_eq hfile hdata hrsrc
    rw [congrArg HtxfHandle.totalSize hsized]
    change 0xFFFFFFFF < uploadTotal _ _ _ _ _
    rw [hsum]
    change 0xFFFFFFFF < _ + (file.data.length - 0) + _
    omega
  have hconnect : htxfConnect true sized = some { sized with optLarge := true } := by
    simp [htxfConnect, htotal]
  have hlarge := Sized.announced hfile hready hconnect
  have hrun : ∃ l, (fileSendOne flatFfo file
      ({ sized with optLarge := true } : HtxfHandle).sendParams).run { toEnv := willing } =
        (.ok (), l) := by
    rw [fileSendOne, if_pos ⟨rfl, rfl⟩]
    have hopen : (openFork .data).run { toEnv := willing } = (.ok (), { toEnv := willing }) := rfl
    rw [Fallible.run_bind_ok hopen]
    apply rdWrSend_willing rfl
    rw [Nat.zero_add]
    exact le_of_eq hlarge.1.dataSize
  obtain ⟨l, hrun⟩ := hrun
  have hdiffers := hlarge.1.not_sentAsAnnounced rfl hrun
  refine ⟨sized, _, l, hready, hconnect, hrun, hdiffers, ?_⟩
  have hwrote := fileSendOne_large ⟨rfl, rfl⟩ hlarge.1.dataSize hrun
  have hprogress := hwrote.progress
  have hsum := hlarge.1.totalSize
  have hle := hlarge.1.data_le
  rw [HtxfHandle.finished, hprogress, hsum, Nat.zero_add]
  change ¬ _ + (file.data.length - 0) + _ ≤ _
  omega

/-- A file of four gigabytes. -/
def fourGigabytes : LocalFile where
  data := List.replicate 4294967296 0
  resource := none
  resourceLen := 0
  comment := []
  commentLen := 0
  typeCreator := Vector.replicate 8 0
  createTime := Vector.replicate 4 0
  modifyTime := Vector.replicate 4 0

/-- A file of two forks and a comment. -/
def twoForks : LocalFile where
  data := [1, 2, 3]
  resource := some [9, 9]
  resourceLen := 2
  comment := [7]
  commentLen := 1
  typeCreator := Vector.replicate 8 0
  createTime := Vector.replicate 4 0
  modifyTime := Vector.replicate 4 0

/-- It is resumed after its first byte. -/
def twoForksSized : HtxfHandle where
  dataSize := 3
  dataPos := 1
  rsrcSize := 2
  totalSize := 154
  ref := 1

end Gtkhx.Upload
