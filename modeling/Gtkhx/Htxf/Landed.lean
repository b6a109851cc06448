import Gtkhx.Htxf.Received

/-!
# Where a server's file lands

A server that sends a file, whole or from where it was asked to go on, and is cut
anywhere: what `file_recv` leaves on the disk is the beginning of that file, and what it
says of the file is right, as long as an earlier content that is not its beginning gets
emptied.
-/

namespace Gtkhx.Htxf

open Reader Fallible

variable {ω : Type}

/-- A file as a server has it. -/
structure ServerFile where
  /-- Its data fork. -/
  fork : List UInt8
  /-- Its modify date. -/
  modified : List UInt8

/-- What a server sends of a file asked from `dataPos`: from there on, or the whole fork,
with anything behind it. -/
def Sends (ffo : Ffo) (large : Bool) (file : ServerFile) (dataPos : ℕ)
    (body : List UInt8) : Prop :=
  ∃ pi fork, Carries ffo large body pi fork ∧ pi.modifyTime = file.modified ∧
    (fork = file.fork.drop dataPos ∨ fork = file.fork)

/-- The part of receiving a file that comes before its first byte is written. -/
def openedFor (os : Os ω) (ffo : Ffo) (p : HxnetXferParams) : Work ω Unit := do
  let (_, pi, _) ← readFilp ffo p
  earlySidecar os p pi
  onDisk (os.openWrite p.path true)

/-- The beginning of a stream that carries a file says what the file is. -/
theorem Carries.of_prefix {ffo : Ffo} {large : Bool} {body hdr info rest : List UInt8}
    {pi pi' : FilpInfo} {fork : List UInt8} (h : Carries ffo large body pi fork)
    (hpre : hdr ++ (info ++ rest) <+: body) (hhdr : hdr.length = 40)
    (hblock : ffo.infoBlockLen (hdr.getD 38 0) (hdr.getD 39 0) = some info.length)
    (hparse : ffo.parseFilpInfo info large = some pi') :
    pi' = pi ∧ (rest <+: fork ∨ fork <+: rest) := by
  obtain ⟨more, hmore⟩ := hpre
  rw [List.append_assoc, List.append_assoc] at hmore
  obtain ⟨hpi, hfork⟩ := h.unique hmore.symm hhdr hblock hparse
  exact ⟨hpi, List.prefix_or_prefix_of_prefix (List.prefix_append rest more) hfork⟩

section Laws

variable {os : Os ω} {data : ω → PathBuf → Option (List UInt8)} (hos : FileLaws os data)

include hos

/-- Copying to the end of a file leaves it with a beginning of what was to come. -/
theorem FileLaws.copy {path : PathBuf} (dataLen : ℕ) {old : List UInt8} {w : World ω}
    (hold : data w.disk path = some old) :
    Ends ((rdWrRecv (toFile os path .data) dataLen old.length dataLen).run w)
      (fun _ w' => ∃ bytes, bytes.length = dataLen ∧
        carried w.conn.inner = bytes ++ carried w'.conn.inner ∧
        data w'.disk path = some (old ++ bytes))
      (fun _ w' => ∃ bytes, bytes.length ≤ dataLen ∧ bytes <+: carried w.conn.inner ∧
        ∃ content, data w'.disk path = some content ∧ content <+: old ++ bytes) := by
  have hrun := rdWrRecv_run (toFile os path .data) old.length
    (fun got w => data w.disk path = some (old ++ got))
    (fun got w => ∃ content, data w.disk path = some content ∧ content <+: old ++ got)
    (fun inner hw => hw) (fun hw => ⟨_, hw, List.prefix_refl _⟩) ?_ (le_refl dataLen) []
    (by simpa using hold)
  · simpa using hrun
  · intro got bytes w hw
    rcases hput : (toFile os path .data (old.length + got.length) bytes).run w with ⟨e | u, w'⟩ <;>
      obtain ⟨disk, hwrite, rfl⟩ := onDisk_run hput <;> rw [← List.length_append] at hwrite
    · obtain ⟨n, hpart⟩ := hos.write_failed hw hwrite
      rw [overwrite_end] at hpart
      refine ⟨_, hpart, ?_⟩
      rw [← List.append_assoc, List.prefix_append_right_inj]
      exact List.take_prefix _ _
    · have hwritten := hos.written hw hwrite
      rw [overwrite_end, List.append_assoc] at hwritten
      exact ⟨hwritten, rfl⟩

omit hos in
private theorem front_of_comparable {bytes stream fork : List UInt8}
    (hpre : stream <+: fork ∨ fork <+: stream) (hbytes : bytes <+: stream)
    (hle : bytes.length ≤ fork.length) : bytes <+: fork := by
  rcases hpre with hpre | hpre
  · exact hbytes.trans hpre
  · exact List.prefix_of_prefix_length_le hbytes hpre hle

/-- A fork that goes to `start` leaves the file with a beginning of what was kept of it and
the fork, as long as it held one before or is emptied. -/
theorem FileLaws.receiveFork {p : HxnetXferParams} {pi : FilpInfo} {start : ℕ} {w : World ω}
    {fork whole : List UInt8} (hne : pi.dataForkLen ≠ 0) (hlength : fork.length = pi.dataForkLen)
    (hpre : carried w.conn.inner <+: fork ∨ fork <+: carried w.conn.inner)
    (hstart : start = 0 ∨ ∃ old, data w.disk p.path = some old ∧ old.length = start)
    (hwhole : ((data w.disk p.path).getD []).take start ++ fork = whole)
    (hbefore : ∀ old, data w.disk p.path = some old → old <+: whole ∨
      start = 0 ∧ ((os.openWrite p.path true).run w.disk).1 = .ok ()) :
    Ends ((receiveFork os p pi start).run w)
      (fun _ w' => data w'.disk p.path = some whole)
      (fun _ w' => ∀ content, data w'.disk p.path = some content → content <+: whole) := by
  rw [Htxf.receiveFork, if_neg hne]
  refine Ends.bind (Q := fun _ w₁ => ∃ kept, data w₁.disk p.path = some kept ∧
    kept.length = start ∧ kept ++ fork = whole ∧ w₁.conn = w.conn) ?_ ?_
  · rcases hrun : (onDisk (os.openWrite p.path (start == 0))).run w with ⟨e | u, w₁⟩ <;>
      obtain ⟨disk, hopen, rfl⟩ := onDisk_run hrun
    · intro content hcontent
      rw [hos.open_failed hopen] at hcontent
      refine (hbefore content hcontent).resolve_right ?_
      rintro ⟨rfl, hok⟩
      rw [show (0 == 0) = true from rfl] at hopen
      rw [hopen] at hok
      cases hok
    · obtain ⟨kept, hkept, hlen, heq⟩ := hos.toDataLaws.kept hstart hopen
      exact ⟨kept, hkept, hlen, heq ▸ hwhole, rfl⟩
  rintro - w₁ - ⟨kept, hkept, rfl, rfl, hconn⟩
  rw [← hconn] at hpre
  have hinto : ∀ {bytes content : List UInt8}, bytes <+: carried w₁.conn.inner →
      bytes.length ≤ pi.dataForkLen → content <+: kept ++ bytes → content <+: kept ++ fork := by
    intro bytes content hbytes hle hcontent
    refine hcontent.trans ?_
    rw [List.prefix_append_right_inj]
    exact front_of_comparable hpre hbytes (by omega)
  refine Ends.bind (Q := fun _ w₂ => w₂ = w₁) ?_ ?_
  · rcases hseek : (seekTo os p.path .data kept.length).run w₁ with ⟨e | u, w₂⟩
    · obtain rfl := seekTo_fails hseek
      intro content hcontent
      obtain rfl := Option.some.inj (hkept.symm.trans hcontent)
      exact List.prefix_append _ _
    · exact seekTo_returns hseek
  rintro - w₂ - rfl
  refine Ends.bind ((hos.copy (min (p.dataPos - kept.length) pi.dataForkLen) hkept).mono
    (fun _ _ _ h => h) ?_) ?_
  · rintro e w₃ - ⟨bytes, hle, hbytes, content, hcontent, hfront⟩ content' hcontent'
    obtain rfl := Option.some.inj (hcontent.symm.trans hcontent')
    exact hinto hbytes (by omega) hfront
  rintro - w₃ - ⟨first, hfirst, hbytes₁, hdata₁⟩
  have hcopy := hos.copy (pi.dataForkLen - min (p.dataPos - kept.length) pi.dataForkLen) hdata₁
  rw [List.length_append, hfirst] at hcopy
  refine Ends.bind (hcopy.mono (fun _ _ _ h => h) ?_) ?_
  · rintro e w₄ - ⟨bytes, hle, hbytes, content, hcontent, hfront⟩ content' hcontent'
    obtain rfl := Option.some.inj (hcontent.symm.trans hcontent')
    rw [List.append_assoc] at hfront
    refine hinto ?_ ?_ hfront
    · rw [hbytes₁, List.prefix_append_right_inj]
      exact hbytes
    · rw [List.length_append]
      omega
  rintro - w₄ - ⟨second, hsecond, hbytes₂, hdata₂⟩
  have hfull : first ++ second = fork := by
    have hfront : first ++ second <+: carried w₂.conn.inner :=
      ⟨carried w₄.conn.inner, by rw [hbytes₁, hbytes₂, List.append_assoc]⟩
    have hlen : (first ++ second).length = pi.dataForkLen := by
      rw [List.length_append]
      omega
    exact (front_of_comparable hpre hfront (by omega)).eq_of_length (by omega)
  rw [List.append_assoc, hfull] at hdata₂
  exact hdata₂

omit hos in
/-- A fork is placed where it belongs in the file it is of. -/
theorem placed_where_sent {file : ServerFile} {was : Option Filp}
    {dataPos forkLen start : ℕ} {modified fork : List UInt8} (hne : file.fork ≠ [])
    (hwas : ∀ filp, was = some filp → filp.len = file.fork.length)
    (hasked : was = none → dataPos = 0)
    (hfork : fork = file.fork.drop dataPos ∨ fork = file.fork)
    (hlength : fork.length = forkLen)
    (hstart : dataFrom was dataPos forkLen modified = .ok start) :
    fork = file.fork.drop start ∧ start + forkLen = file.fork.length := by
  have hpos : 0 < file.fork.length := List.length_pos_iff.mpr hne
  have hwhole : dataPos = 0 → fork = file.fork := by
    rintro rfl
    simpa using hfork
  unfold dataFrom at hstart
  cases was with
  | none =>
    obtain rfl := Except.ok.inj hstart
    obtain hzero := hasked rfl
    have hall := hwhole hzero
    subst hall
    simp [hzero, hlength]
  | some filp =>
    have hlen := hwas filp rfl
    dsimp only at hstart
    split at hstart
    · cases hstart
    · split at hstart
      · rename_i hsum
        obtain rfl := Except.ok.inj hstart
        refine ⟨?_, by omega⟩
        rcases hfork with rfl | rfl
        · rfl
        · have hzero : dataPos = 0 := by omega
          simp [hzero]
      · split at hstart
        · rename_i hall
          obtain rfl := Except.ok.inj hstart
          refine ⟨?_, by omega⟩
          rcases hfork with rfl | rfl
          · rw [List.length_drop] at hlength
            have hzero : dataPos = 0 := by omega
            rw [hzero]
          · rfl
        · cases hstart

/-- What `file_recv` has left of a server's file, and what it says of it. -/
def Landed (data : ω → PathBuf → Option (List UInt8)) (file : ServerFile) (path : PathBuf)
    (w : World ω) : Prop :=
  (∀ content, data w.disk path = some content → content <+: file.fork) ∧
    ∀ filp, w.was = some filp → filp.len = file.fork.length

/-- A server's file lands. -/
theorem FileLaws.landed {ffo : Ffo} {p : HxnetXferParams} (hpreview : p.optPreview = false)
    {file : ServerFile} (hne : file.fork ≠ []) (hlt : file.fork.length < 2 ^ 64) {w : World ω}
    {body : List UInt8} (hsends : Sends ffo p.optLarge file p.dataPos body)
    (hstream : carried w.conn.inner <+: body)
    (hwas : ∀ filp, w.was = some filp → filp.len = file.fork.length)
    (hasked : w.was = none → p.dataPos = 0)
    (hheld : p.dataPos = 0 ∨ ∃ old, data w.disk p.path = some old ∧ old.length = p.dataPos)
    (hbefore : ∀ old, data w.disk p.path = some old → old <+: file.fork ∨
      w.was = none ∧ ((openedFor os ffo p).run w).1 = .ok ()) :
    Ends ((fileRecv os ffo p).run w)
      (fun _ w' => Landed data file p.path w' ∧ data w'.disk p.path = some file.fork)
      (fun _ w' => Landed data file p.path w') := by
  obtain ⟨pi, fork, hcarries, -, hfork⟩ := hsends
  rw [fileRecv]
  rcases hfilp : (readFilp ffo p).run w with ⟨e | out, w₁⟩
  · rw [run_bind_error hfilp]
    have hsame : w₁.disk = w.disk ∧ w₁.was = w.was := by
      have hkeeps := (ConnFree.readFilp (P := fun v => v.disk = w.disk ∧ v.was = w.was)
        (fun _ _ hv => hv) ffo p) w ⟨rfl, rfl⟩
      rwa [hfilp] at hkeeps
    refine ⟨fun content hcontent => ?_, fun filp hw => hwas filp (hsame.2 ▸ hw)⟩
    rw [hsame.1] at hcontent
    refine (hbefore content hcontent).resolve_right ?_
    rintro ⟨-, hok⟩
    rw [openedFor, run_bind_error hfilp] at hok
    cases hok
  rw [run_bind_ok hfilp]
  obtain ⟨info, inner, rfl, hbytes, hhdr, hblock, hparse, -⟩ := readFilp_returns hfilp
  obtain ⟨hdr, pi', infoLen⟩ := out
  obtain ⟨heq, hpre⟩ := hcarries.of_prefix (hbytes ▸ hstream) hhdr hblock hparse
  obtain rfl : pi' = pi := heq
  have hlength : fork.length = pi'.dataForkLen := by
    obtain ⟨-, -, -, -, -, -, -, hlength⟩ := hcarries
    exact hlength
  let w₂ : World ω := { w.reading inner with
    disk := os.hfsinfoWrite p.path (makeHfsinfo arriving pi' p.rsrcPos) w.disk }
  have hside : (earlySidecar os p pi').run (w.reading inner) = (.ok (), w₂) := by
    rw [earlySidecar, hpreview]
    rfl
  have hdata : data w₂.disk p.path = data w.disk p.path := hos.sidecar
  have hemptied : ((openedFor os ffo p).run w).1 = .ok () →
      ((os.openWrite p.path true).run w₂.disk).1 = .ok () := by
    intro hok
    rw [openedFor, run_bind_ok hfilp] at hok
    dsimp only at hok
    rw [run_bind_ok hside] at hok
    exact hok
  dsimp only
  rw [run_bind_ok hside]
  rcases hplace : (placeFork p pi').run w₂ with ⟨e | start, w₃⟩
  · rw [run_bind_error hplace]
    obtain ⟨hstart, rfl⟩ := placeFork_fails hplace
    refine ⟨fun content hcontent => ?_, fun filp hfilp => by cases hfilp⟩
    refine (hbefore content (hdata ▸ hcontent)).resolve_right ?_
    rintro ⟨hnone, -⟩
    rw [show w₂.was = none from hnone] at hstart
    cases hstart
  obtain ⟨hstart, rfl⟩ := placeFork_returns hplace
  rw [run_bind_ok hplace, hpreview]
  obtain ⟨rfl, hsum⟩ := placed_where_sent hne hwas hasked hfork hlength hstart
  have hadd : add64 start pi'.dataForkLen = file.fork.length := by
    rw [add64, hsum]
    exact Nat.mod_eq_of_lt hlt
  rw [hadd]
  have hzero : start = 0 ∨ ∃ old, data w.disk p.path = some old ∧ old.length = start ∧
      old = file.fork.take start := by
    rcases dataFrom_ok hstart with rfl | rfl
    · rcases hheld with hzero | ⟨old, hold, hlen⟩
      · exact .inl hzero
      · rcases hbefore old hold with hfront | ⟨hnone, -⟩
        · exact .inr ⟨old, hold, hlen, hlen ▸ (List.prefix_iff_eq_take.mp hfront)⟩
        · exact .inl (hasked hnone)
    · exact .inl rfl
  let w₃ : World ω := { w₂ with was := some ⟨file.fork.length, pi'.modifyTime⟩ }
  have hreceived : Ends ((Htxf.receiveFork os p pi' start).run w₃)
      (fun _ w' => data w'.disk p.path = some file.fork)
      (fun _ w' => ∀ content, data w'.disk p.path = some content → content <+: file.fork) := by
    by_cases hempty : pi'.dataForkLen = 0
    · rw [Htxf.receiveFork, if_pos hempty]
      have hpos : 0 < file.fork.length := List.length_pos_iff.mpr hne
      obtain ⟨old, hold, hlen, heq⟩ := hzero.resolve_left (by omega)
      rw [hempty, Nat.add_zero] at hsum
      rw [hsum, List.take_length] at heq
      exact (hdata.trans hold).trans (congrArg some heq)
    · refine hos.receiveFork (w := w₃) hempty hlength hpre ?_ ?_ ?_
      · refine hzero.imp_right ?_
        rintro ⟨old, hold, hlen, -⟩
        exact ⟨old, hdata.trans hold, hlen⟩
      · rcases hzero with rfl | ⟨old, hold, hlen, heq⟩
        · rfl
        · rw [show data w₃.disk p.path = some old from hdata.trans hold, Option.getD_some,
            ← hlen, List.take_length, hlen]
          exact (congrArg (· ++ file.fork.drop start) heq).trans (List.take_append_drop _ _)
      · intro old hold
        refine (hbefore old (hdata ▸ hold)).imp_right ?_
        rintro ⟨hnone, hok⟩
        refine ⟨?_, hemptied hok⟩
        rcases dataFrom_ok hstart with rfl | rfl
        · exact hasked hnone
        · rfl
  refine Ends.bind ((hreceived.and_keeps ((wasKeeps os p.path w₃.was).receiveFork pi' start)
    rfl).mono (fun _ _ _ h => h) ?_) ?_
  · rintro e w' - ⟨hcontent, hw'⟩
    refine ⟨hcontent, fun filp hfilp => ?_⟩
    obtain rfl := Option.some.inj (hw'.symm.trans hfilp)
    rfl
  · rintro - w₄ - ⟨hcontent, hw₄⟩
    have htail := ((hos.tailKeeps p.path (some file.fork)).receiveTail ffo hdr pi'
      (add64 infoLen pi'.dataForkLen)
      (if p.fileBudget = 0 then 0 else satAdd64 p.fileBudget (p.dataPos - start))).and
      ((wasKeeps os p.path w₃.was).receiveTail ffo hdr pi' _ _)
    have hlanded : ∀ w' : World ω, data w'.disk p.path = some file.fork → w'.was = w₃.was →
        Landed data file p.path w' := by
      refine fun w' hend hwas' => ⟨fun content hcontent' => ?_, fun filp hfilp => ?_⟩
      · obtain rfl := Option.some.inj (hend.symm.trans hcontent')
        exact List.prefix_refl _
      · obtain rfl := Option.some.inj (hwas'.symm.trans hfilp)
        rfl
    refine (Ends.of_keeps htail ⟨hcontent, hw₄⟩).mono ?_ ?_
    · exact fun _ w' _ hend => ⟨hlanded w' hend.1 hend.2, hend.1⟩
    · exact fun _ w' _ hend => hlanded w' hend.1 hend.2

end Laws

end Gtkhx.Htxf
