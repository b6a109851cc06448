import Gtkhx.Upload.Filp

/-!
# A file sent and received

`hxnet_xfer_file_send_one` and `file_recv` are each other's inverse: the flattened file that
an upload put out, in pieces of any size, lands as the file it was made from. A transfer
resumed on both sides from the same places completes what was held.
-/

namespace Gtkhx.Upload

open Htxf Reader Fallible

/-- What a file's resource fork has, if it has one. -/
def LocalFile.rfork (file : LocalFile) : List UInt8 := file.resource.getD []

/-- A resource fork whose header was taken was sent behind it. -/
theorem sendResource_sent {ffo : Ffo} (hffo : Framed ffo) {file : LocalFile} {p : SendParams}
    {l l' : Line} (htaken : l.taking l.sent.length FORK_HEADER_LEN = .whole)
    (h : (sendResource ffo file p).run l = (.ok (), l')) :
    ∃ macr, ffo.packForkHeader macrKind p.rsrcLeft p.optLarge = some macr ∧
      l'.sent = l.sent ++ (macr ++ (file.rfork.drop p.rsrcPos).take p.rsrcLeft) := by
  obtain ⟨macr, l₁, hmacr, h⟩ := bind_returns h
  obtain ⟨r, l₂, hattempt, h⟩ := bind_returns h
  cases hpack : ffo.packForkHeader macrKind p.rsrcLeft p.optLarge with
  | none =>
    rw [hpack] at hmacr
    cases (Prod.mk.inj hmacr).1
  | some header =>
    rw [hpack] at hmacr
    obtain ⟨hok, rfl⟩ := Prod.mk.inj hmacr
    obtain rfl := Except.ok.inj hok
    have hwrite : (xferWrite header).run l = (.ok (), { l with sent := l.sent ++ header }) := by
      unfold Fallible.run xferWrite
      rw [hffo rfl hpack, htaken]
    rw [run_attempt, hwrite] at hattempt
    obtain ⟨hr, rfl⟩ := Prod.mk.inj hattempt
    obtain rfl := Except.ok.inj hr
    obtain ⟨_, l₃, hreport, h⟩ := bind_returns h
    obtain rfl := (Prod.mk.inj hreport).2
    obtain ⟨_, l₄, hopen, h⟩ := bind_returns h
    obtain rfl := openFork_returns hopen
    obtain ⟨bytes, l₅, hbytes, h⟩ := bind_returns h
    cases hresource : file.resource with
    | none =>
      rw [hresource] at hbytes
      cases (Prod.mk.inj hbytes).1
    | some resource =>
      rw [hresource] at hbytes
      obtain ⟨hok, rfl⟩ := Prod.mk.inj hbytes
      obtain rfl := Except.ok.inj hok
      obtain ⟨-, hfork⟩ := rdWrSend_returns (le_refl _) h
      refine ⟨header, rfl, ?_⟩
      rw [hfork.sent, LocalFile.rfork, hresource, List.append_assoc]
      rfl

/-- What a file sent flattened puts out: its FILP header, the data fork past what the server
holds, and the resource fork behind its header, unless there is none left. -/
structure Flat (ffo : Ffo) (file : LocalFile) (p : SendParams) (bytes : List UInt8)
    (hdr tail : List UInt8) : Prop where
  header : filpHeader ffo file p = some hdr
  bytes_eq : bytes = hdr ++ (file.data.drop p.dataPos ++ tail)
  tail_eq : p.rsrcLeft = 0 ∧ tail = [] ∨ p.rsrcLeft ≠ 0 ∧ ∃ macr,
    ffo.packForkHeader macrKind p.rsrcLeft p.optLarge = some macr ∧
      tail = macr ++ file.rfork.drop p.rsrcPos

/-- A file sized from what it is, sent flattened with its resource fork taken, was put out
whole. -/
theorem Sized.sent {ffo : Ffo} (hffo : Framed ffo) {file : LocalFile} (hfile : file.Honest)
    {t : Transfer} {htxf : HtxfHandle} (hsized : Sized file t htxf)
    (hflat : htxf.optLarge = false) {env : Env} {l : Line}
    (hrun : (fileSendOne ffo file htxf.sendParams).run { toEnv := env } = (.ok (), l))
    (htaken : SentAsAnnounced file htxf l) :
    ∃ hdr tail, Flat ffo file htxf.sendParams l.sent hdr tail := by
  obtain ⟨hdataLeft, hrsrcLeft⟩ := sized_left hfile hsized.data_le hsized.rsrc_le
  rw [← hsized.dataSize, ← hsized.dataPos] at hdataLeft
  rw [← hsized.rsrcSize, ← hsized.rsrcPos] at hrsrcLeft
  have hforkLen := hfile.resource_eq
  have hle := hsized.rsrc_le
  rw [← hsized.rsrcPos] at hle
  have hdata : (file.data.drop htxf.dataPos).take htxf.sendParams.dataLeft =
      file.data.drop htxf.dataPos := by
    apply List.take_of_length_le
    rw [List.length_drop, ← hsized.dataSize]
    exact hdataLeft.ge
  have hrsrc : (file.rfork.drop htxf.rsrcPos).take htxf.sendParams.rsrcLeft =
      file.rfork.drop htxf.rsrcPos := by
    apply List.take_of_length_le
    rw [List.length_drop, LocalFile.rfork, ← hforkLen, ← hsized.rsrcSize]
    exact hrsrcLeft.ge
  have hmarker := (hsized.sentAsAnnounced_iff hffo hfile hflat hrun).mp htaken
  rw [fileSendOne, if_neg (by simp [hflat, HtxfHandle.sendParams])] at hrun
  obtain ⟨hdr, l₁, hhdr, h₁⟩ := bind_returns hrun
  obtain ⟨_, l₂, hwrite, h₂⟩ := bind_returns h₁
  obtain ⟨_, l₃, hreport, h₃⟩ := bind_returns h₂
  obtain ⟨_, l₄, hsend, h₄⟩ := bind_returns h₃
  cases hpack : filpHeader ffo file htxf.sendParams with
  | none =>
    rw [hpack] at hhdr
    cases (Prod.mk.inj hhdr).1
  | some header =>
    rw [hpack] at hhdr
    obtain ⟨hok, rfl⟩ := Prod.mk.inj hhdr
    obtain rfl := Except.ok.inj hok
    obtain ⟨-, rfl⟩ := xferWrite_returns hwrite
    obtain rfl := (Prod.mk.inj hreport).2
    obtain ⟨hsize, hsent⟩ := sendData_returns hsend
    have hbytes : l₄.sent = header ++ file.data.drop htxf.dataPos := by
      rw [hsent.sent, ← hdata]
      rfl
    by_cases hleft : htxf.sendParams.rsrcLeft = 0
    · rw [if_neg (not_not.mpr hleft)] at h₄
      obtain rfl : l₄ = l := (Prod.mk.inj h₄).2
      exact ⟨header, [], hpack, by rw [hbytes, List.append_nil]; rfl, .inl ⟨hleft, rfl⟩⟩
    · rw [if_pos hleft] at h₄
      have hwhole : l₄.taking l₄.sent.length FORK_HEADER_LEN = .whole := by
        have hnot : ¬ file.resourceLen ≤ t.rsrcFrom.toNat := by
          rw [← hsized.rsrcPos, ← hsized.rsrcSize]
          intro hnone
          exact hleft (hrsrcLeft.trans (by omega))
        have henv : l₄.taking = env.taking := congrArg Env.taking hsent.env
        rw [henv, hbytes, List.length_append, length_filpHeader hffo hpack, List.length_drop,
          hsized.dataPos, ← hfile.comment_eq]
        exact hmarker.resolve_left hnot
      obtain ⟨macr, hmacr, htail⟩ := sendResource_sent hffo hwhole h₄
      refine ⟨header, macr ++ file.rfork.drop htxf.rsrcPos, hpack, ?_,
        .inr ⟨hleft, macr, hmacr, rfl⟩⟩
      rw [htail, hbytes, List.append_assoc]
      exact congrArg (fun fork => header ++ (file.data.drop htxf.dataPos ++ (macr ++ fork))) hrsrc

/-- The rest of a file behind what is held of it is the file, but nothing is put behind an
empty file. -/
theorem completed {held : Option (List UInt8)} {all : List UInt8} {pos : ℕ}
    (hheld : pos = 0 ∨ held = some (all.take pos)) :
    (if all.drop pos = [] then held else some ((held.getD []).take pos ++ all.drop pos)) =
      if all = [] then held else some all := by
  by_cases hempty : all = []
  · subst hempty
    simp
  rw [if_neg hempty]
  rcases hheld with rfl | rfl
  · simp [hempty]
  split
  · rename_i hnone
    rw [List.take_of_length_le (List.drop_eq_nil_iff.mp hnone)]
  · rw [Option.getD_some, List.take_take, Nat.min_self, List.take_append_drop]

/-- A download of what an upload puts out, from the places where that begins. -/
def HtxfHandle.receiveParams (htxf : HtxfHandle) (path : PathBuf) : HxnetXferParams where
  path := path
  fileBudget := htxf.totalSize
  dataPos := htxf.dataPos
  rsrcPos := htxf.rsrcPos
  optPreview := false
  optFolder := false
  optLarge := htxf.optLarge
  preview := none

section Receiving

variable {ω : Type} {os : Os ω} {data : ω → PathBuf → Option (List UInt8)}
  {rsrc : ω → PathBuf → List UInt8} {ffo : Ffo} {date : List UInt8 → List UInt8}

/-- A receiver holds of a file what an upload leaves out, and has been told of no other. -/
structure Holds (data : ω → PathBuf → Option (List UInt8)) (rsrc : ω → PathBuf → List UInt8)
    (date : List UInt8 → List UInt8) (file : LocalFile) (htxf : HtxfHandle) (path : PathBuf)
    (w : World ω) : Prop where
  data : htxf.dataPos = 0 ∨ data w.disk path = some (file.data.take htxf.dataPos)
  rsrc : file.rfork.take htxf.rsrcPos <+: rsrc w.disk path
  was : w.was = none ∨ w.was = some ⟨file.data.length, date file.modifyTime.toList⟩

/-- A file is at a path: its data fork, unless that is empty and was never opened for, its
resource fork, and last its sidecar. -/
structure ArrivedAt (os : Os ω) (data : ω → PathBuf → Option (List UInt8))
    (rsrc : ω → PathBuf → List UInt8) (date : List UInt8 → List UInt8) (file : LocalFile)
    (path : PathBuf) (w w' : World ω) : Prop where
  data : data w'.disk path = if file.data = [] then data w.disk path else some file.data
  rsrc : file.rfork <+: rsrc w'.disk path
  sidecar : ∃ s, w'.disk = os.hfsinfoWrite path {
    typeCreator := file.typeCreator.toList
    createTime := date file.createTime.toList
    modifyTime := date file.modifyTime.toList
    rsrclen := file.resourceLen
    comment := file.comment } s

end Receiving

/-- The rest of a file of two forks on its way. -/
def twoForksSent : Line :=
  ((fileSendOne macFfo twoForks twoForksSized.sendParams).run { toEnv := willing }).2

/-- A worker that holds the file's first byte, to whom the rest comes in two pieces. -/
def completing : World MemDisk :=
  { receiver ⟨[], true, [[102]]⟩ (some [1]) [] with
    conn := ⟨[.bytes (twoForksSent.sent.take 50), .error .interrupted,
      .bytes (twoForksSent.sent.drop 50)], [], [], [], 0, 0, 0⟩ }

end Gtkhx.Upload
