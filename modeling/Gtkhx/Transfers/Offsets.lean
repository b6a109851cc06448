import Gtkhx.Library.Reactive
import Gtkhx.Transfers.Handle

/-!
# What a download asks for

The attempts at one download of a file, from its first start on: what the pauses and the refusals
between them leave in its handle, and whatever happens to the local files meanwhile. Each request is
compared with what is on the disk when it is built.
-/

namespace Gtkhx.Transfers

/-- The download, its pause, and the local files. -/
structure Download where
  handle : Handle
  pause : Option Pause
  files : Files

/-- What the pause kept of the file, where the download is resumed. -/
def keptBy : Option Pause → Option Disk
  | some (.paused kept) | some (.failed kept _) => some kept
  | _ => none

/-- What happens to the download. -/
inductive DownloadEvent
  /-- It is started, or resumed. -/
  | goes
  /-- The server answered, with a reference and the size that is left. -/
  | answered (ref : UInt32) (size : ℕ)
  /-- The server refused it, and the queue takes it back. -/
  | putBack
  /-- The server refused to resume it. -/
  | resumeRefused
  /-- It is paused, its worker still running. -/
  | pauses
  /-- Its worker has returned, for a pause or for a failure, and the download is kept. -/
  | held (why : Option ℤ)
  /-- The local files change. -/
  | filesChange (files : Files)

/-- A request as it is built: what it is built from, and the handle it leaves. -/
structure Asking where
  before : Download
  after : Handle
  request : FileRequest

namespace Download

/-- `answered`: the download is no longer paused. -/
def answered (d : Download) (ref : UInt32) (size : ℕ) : Download where
  handle := { d.handle with ref := ref, totalSize := max size 1 }
  pause :=
    match d.pause with
    | some (.asked _) | some (.restarted _) => none
    | pause => pause
  files := d.files

/-- `resume_refused`. -/
def resumeRefused (d : Download) : Download where
  handle := d.handle
  pause :=
    match d.pause with
    | some (.asked kept) => some (.paused kept)
    | pause => pause
  files := d.files

/-- `hold`. -/
def held (d : Download) (why : Option ℤ) : Download where
  handle := d.handle
  pause :=
    match why with
    | some why => some (.failed (d.files.disk d.handle.path) why)
    | none => some (.paused (d.files.disk d.handle.path))
  files := d.files

def step (large : Bool) (d : Download) : DownloadEvent → Download × List Asking
  | .goes =>
    match d.handle.go d.files large d.pause with
    | (h, pause, some r) => (⟨h, pause, d.files⟩, [⟨d, h, r⟩])
    | (h, pause, none) => (⟨h, pause, d.files⟩, [])
  | .answered ref size => (d.answered ref size, [])
  | .putBack => ({ d with handle := { d.handle with gone := false } }, [])
  | .resumeRefused => (d.resumeRefused, [])
  | .pauses => ({ d with pause := some .winding }, [])
  | .held why => (d.held why, [])
  | .filesChange files => ({ d with files := files }, [])

end Download

/-- A download with these files around it, on a connection that takes large files or not. -/
def downloading (h : Handle) (files : Files) (large : Bool) :
    Reactive.Machine Download DownloadEvent Asking where
  start := ⟨h, none, files⟩
  step := Download.step large

/-- The data fork's offset in a resume record. -/
def rfltData (rflt : List UInt8) : Option UInt32 :=
  (BigEndian.takeU32 (rflt.drop 46)).map Prod.fst

namespace Asking

variable (a : Asking)

/-- The local path when the request is built. -/
def path : Path := a.before.handle.path

def files : Files := a.before.files

def kept : Option Disk := keptBy a.before.pause

def rflt : Option (List UInt8) :=
  match a.request with
  | .get _ _ rflt => rflt
  | .put _ _ _ _ _ => none

/-- The download asks for exactly what it lacks. -/
structure Right : Prop where
  /-- It goes on where a file that is not empty is what the pause kept, or is shorter than the
  server's. -/
  resumes : a.rflt.isSome = true ↔ ∃ s, a.files.stat a.path = some s ∧ 0 < s.len ∧
    (a.kept = some (a.files.disk a.path) ∧ s.len ≤ U32_MAX ∨ s.len < a.before.handle.srvDataSize)
  /-- Where it goes on is the file's end, for the server and for the worker. -/
  offset : ∀ rflt, a.rflt = some rflt → ∃ s, a.files.stat a.path = some s ∧
    a.after.dataPos = s.len ∧ (rfltData rflt).map UInt32.toNat = some s.len
  /-- Otherwise it begins at the beginning, of no file but the empty one the pause kept. -/
  anew : a.rflt = none → a.after.dataPos = 0 ∧ a.after.rsrcPos = 0 ∧
    (a.files.stat a.after.path = none ∨
      a.kept = some (a.files.disk a.path) ∧ a.files.size a.path = 0 ∧ a.after.path = a.path)

/-- No offset of an attempt that was refused is left. -/
def Clean : Prop := a.kept = none → a.before.handle.dataPos = 0 ∧ a.before.handle.rsrcPos = 0

/-- A name is free among the numbered ones. -/
def Nameable : Prop :=
  (∃ n, 1 ≤ n ∧ n ≤ NUMBERS ∧ a.files.taken (numbered a.path n) = false) ∨
    a.files.stat (numbered a.path NUMBERS) = none

/-- Nothing is in the way: the file is what the pause kept; or it is not taken for a shorter one
because of its length's lower half, nor goes on empty; and where it begins anew, no offset is left
and a name is free. -/
def Clear : Prop :=
  match a.files.stat a.path with
  | none => a.Clean
  | some s =>
    a.kept = some (a.files.disk a.path) ∧ s.len ≤ U32_MAX ∨
      if s.len % 2 ^ 32 < a.before.handle.srvDataSize then 0 < s.len ∧ s.len < 2 ^ 32
      else a.Clean ∧ a.Nameable

end Asking

section Names

variable {taken : Path → Bool} {files : Files} {path : Path}

/-- The loop ends at the first free name, or at the last one. -/
theorem uniquifyFrom_cases (taken : Path → Bool) (path : Path) (tries n : ℕ) (last : Path) :
    (∃ m, n ≤ m ∧ m < n + tries ∧ taken (numbered path m) = false ∧
        uniquifyFrom taken path tries n last = numbered path m) ∨
      (∀ m, n ≤ m → m < n + tries → taken (numbered path m) = true) ∧
        uniquifyFrom taken path tries n last =
          if tries = 0 then last else numbered path (n + tries - 1) := by
  induction tries generalizing n last with
  | zero => exact Or.inr ⟨fun m hn hm => by omega, rfl⟩
  | succ tries ih =>
    rw [uniquifyFrom, if_neg (Nat.succ_ne_zero tries)]
    by_cases htaken : taken (numbered path n) = true
    · rw [if_pos htaken]
      rcases ih (n + 1) (numbered path n) with ⟨m, hn, hm, hfree, heq⟩ | ⟨hall, heq⟩
      · exact Or.inl ⟨m, by omega, by omega, hfree, heq⟩
      · refine Or.inr ⟨?_, ?_⟩
        · intro m hn hm
          rcases Nat.eq_or_lt_of_le hn with rfl | hlt
          · exact htaken
          · exact hall m hlt (by omega)
        · rw [heq]
          split_ifs with hzero
          · rw [hzero]
            rfl
          · congr 1
            omega
    · rw [if_neg htaken]
      exact Or.inl ⟨n, by omega, by omega, Bool.eq_false_of_not_eq_true htaken, rfl⟩

theorem stat_of_not_taken (h : files.taken path = false) : files.stat path = none := by
  cases hstat : files.stat path with
  | none => rfl
  | some s => simp [Files.taken, Files.size, hstat] at h

theorem taken_of_stat {s : Stat} (h : files.stat path = some s) : files.taken path = true := by
  simp [Files.taken, Files.size, h]

/-- A name that has no file is found exactly if one of the numbered names is free. -/
theorem stat_uniquify (h : files.taken path = true) :
    files.stat (uniquify files.taken path) = none ↔
      (∃ n, 1 ≤ n ∧ n ≤ NUMBERS ∧ files.taken (numbered path n) = false) ∨
        files.stat (numbered path NUMBERS) = none := by
  rw [uniquify, if_pos h]
  rcases uniquifyFrom_cases files.taken path NUMBERS 1 path with
    ⟨m, hone, hlast, hfree, heq⟩ | ⟨hall, heq⟩
  · rw [heq, stat_of_not_taken hfree]
    exact iff_of_true rfl (Or.inl ⟨m, hone, by omega, hfree⟩)
  · have hnumber : uniquifyFrom files.taken path NUMBERS 1 path = numbered path NUMBERS := heq
    rw [hnumber]
    refine ⟨Or.inr, fun hor => hor.elim ?_ id⟩
    rintro ⟨n, hone, hlast, hfree⟩
    rw [hall n hone (by omega)] at hfree
    cases hfree

end Names

@[simp] theorem rfltData_resumeRflt (dataPos rsrcPos : UInt32) :
    rfltData (resumeRflt dataPos rsrcPos) = some dataPos := by
  have hdrop : (resumeRflt dataPos rsrcPos).drop 46 = BigEndian.ofU32 dataPos ++
      (List.replicate 8 0 ++ ([77, 65, 67, 82] ++ BigEndian.ofU32 rsrcPos ++
        List.replicate 8 0)) := by
    simp [resumeRflt, BigEndian.ofU32]
  rw [rfltData, hdrop, BigEndian.takeU32_ofU32_append]
  rfl

namespace Handle

variable {h h' : Handle} {files : Files} {large : Bool} {pause p : Option Pause} {r : FileRequest}

/-- The handle as the request is built from it. -/
def starting (h : Handle) (kept : Option Disk) : Handle :=
  { if kept.isSome then h.afresh else h with gone := true }

/-- What a download that goes asks for, and what its handle keeps of it. -/
structure AsksFrom (h : Handle) (files : Files) (kept : Option Disk) (h' : Handle)
    (rflt : Option (List UInt8)) : Prop where
  path : h'.path = ((h.starting kept).resumeOrRename files kept).1.path
  dataPos : h'.dataPos = ((h.starting kept).resumeOrRename files kept).1.dataPos
  rsrcPos : h'.rsrcPos = ((h.starting kept).resumeOrRename files kept).1.rsrcPos
  rflt : rflt = if ((h.starting kept).resumeOrRename files kept).2 then
    some (resumeRflt (.ofNat h'.dataPos) (.ofNat h'.rsrcPos)) else none

/-- A request that was built from a handle, a starting one of this. -/
theorem asksFrom_of_request (hget : h.upload = false) (kept : Option Disk) {full : Option ℕ}
    (hrequest : (h.starting kept).request files large kept full = (h', r)) :
    ∃ name dir rflt, r = .get name dir rflt ∧ h.AsksFrom files kept h' rflt := by
  have hstarting : (h.starting kept).upload = false := by
    cases kept <;> exact hget
  unfold request goGet at hrequest
  rw [if_neg (by simp [hstarting])] at hrequest
  cases hm : (h.starting kept).resumeOrRename files kept with
  | mk m resuming =>
    rw [hm] at hrequest
    obtain ⟨hh', rfl⟩ := Prod.mk.inj hrequest
    have hkeeps : h'.path = m.path ∧ h'.dataPos = m.dataPos ∧ h'.rsrcPos = m.rsrcPos := by
      cases full <;> subst hh' <;> exact ⟨rfl, rfl, rfl⟩
    obtain ⟨hpath, hdata, hrsrc⟩ := hkeeps
    refine ⟨_, _, _, rfl, ?_⟩
    constructor
    · rw [hm, hpath]
    · rw [hm, hdata]
    · rw [hm, hrsrc]
    · rw [hm, hdata, hrsrc]

/-- A download that goes asks with the offsets it keeps. -/
theorem asksFrom_of_go (hget : h.upload = false)
    (hgo : h.go files large pause = (h', p, some r)) :
    ∃ name dir rflt, r = .get name dir rflt ∧ h.AsksFrom files (keptBy pause) h' rflt := by
  have hresumed : ∀ kept,
      (({ h.afresh with gone := true }.request files large (some kept)
        (some (add64 h.totalSize h.resumedBytes))).1, some (Pause.asked kept),
        some ({ h.afresh with gone := true }.request files large (some kept)
          (some (add64 h.totalSize h.resumedBytes))).2) = (h', p, some r) →
      ∃ name dir rflt, r = .get name dir rflt ∧ h.AsksFrom files (some kept) h' rflt := by
    intro kept hrequest
    simp only [Prod.mk.injEq, Option.some.injEq] at hrequest
    exact asksFrom_of_request hget (some kept) (Prod.ext hrequest.1 hrequest.2.2)
  unfold go at hgo
  split at hgo
  · rw [if_neg (by simp [hget])] at hgo
    exact hresumed _ hgo
  · rw [if_neg (by simp [hget])] at hgo
    exact hresumed _ hgo
  · simp at hgo
  · split_ifs at hgo with hgone
    · simp at hgo
    · simp only [Prod.mk.injEq, Option.some.injEq] at hgo
      exact asksFrom_of_request hget none (Prod.ext hgo.1 hgo.2.2)

section Deciding

variable {kept : Option Disk} {rflt : Option (List UInt8)} {s : Stat}

theorem starting_fields (h : Handle) (kept : Option Disk) :
    (h.starting kept).path = h.path ∧ (h.starting kept).preview = h.preview ∧
      (h.starting kept).srvDataSize = h.srvDataSize := by
  cases kept <;> exact ⟨rfl, rfl, rfl⟩

/-- The offsets a request starts from are zero unless an attempt that was refused left them. -/
theorem starting_offsets (h : Handle) (kept : Option Disk) :
    ((h.starting kept).dataPos = 0 ∧ (h.starting kept).rsrcPos = 0) ↔
      (kept = none → h.dataPos = 0 ∧ h.rsrcPos = 0) := by
  cases kept with
  | none => exact ⟨fun hzero _ => hzero, fun hzero => hzero rfl⟩
  | some kept => exact iff_of_true ⟨rfl, rfl⟩ (fun hnone => nomatch hnone)

theorem size_of_stat (hs : files.stat h.path = some s) : files.size h.path = s.len := by
  simp [Files.size, hs]

/-- Whether the local file is what the pause kept, and a resume record can say its size. -/
def Ours (h : Handle) (files : Files) (kept : Option Disk) (s : Stat) : Prop :=
  kept = some (files.disk h.path) ∧ s.len ≤ U32_MAX

instance (h : Handle) (files : Files) (kept : Option Disk) (s : Stat) :
    Decidable (h.Ours files kept s) :=
  inferInstanceAs (Decidable (_ ∧ _))

/-- Where there is no file, a download begins anew under its name. -/
theorem AsksFrom.of_none (hask : h.AsksFrom files kept h' rflt)
    (hstat : files.stat h.path = none) :
    rflt = none ∧ h'.path = h.path ∧ h'.dataPos = (h.starting kept).dataPos ∧
      h'.rsrcPos = (h.starting kept).rsrcPos := by
  obtain ⟨hpath, hpreview, -⟩ := h.starting_fields kept
  have hsize : files.size (h.starting kept).path < 0 := by
    rw [hpath, Files.size, hstat]
    decide
  have hkeep : (h.starting kept).resumeOrRename files kept = (h.starting kept, false) := by
    unfold resumeOrRename
    rw [if_pos hsize]
    split_ifs <;> rfl
  obtain ⟨hpath', hdata, hrsrc, hrflt⟩ := hask
  rw [hkeep] at hpath' hdata hrsrc hrflt
  exact ⟨hrflt, hpath'.trans hpath, hdata, hrsrc⟩

/-- Where there is a file, the branch is taken by whether it is the kept one, and by the lower half
of its length. -/
theorem AsksFrom.of_some (hask : h.AsksFrom files kept h' rflt) (hpreview : h.preview = false)
    (hs : files.stat h.path = some s) :
    (h.Ours files kept s ∧ s.len = 0 ∧ rflt = none ∧ h'.path = h.path ∧ h'.dataPos = 0 ∧
        h'.rsrcPos = 0) ∨
      ((h.Ours files kept s ∧ 0 < s.len ∨
          ¬h.Ours files kept s ∧ s.len % 2 ^ 32 < h.srvDataSize) ∧
        rflt = some (resumeRflt (.ofNat h'.dataPos) (.ofNat h'.rsrcPos)) ∧
        h'.dataPos = s.len % 2 ^ 32) ∨
      (¬h.Ours files kept s ∧ ¬s.len % 2 ^ 32 < h.srvDataSize ∧ rflt = none ∧
        h'.path = uniquify files.taken h.path ∧ h'.dataPos = (h.starting kept).dataPos ∧
        h'.rsrcPos = (h.starting kept).rsrcPos) := by
  obtain ⟨hpath, hpreview', hsrv⟩ := h.starting_fields kept
  have hsize : files.size (h.starting kept).path = s.len := by
    rw [hpath, size_of_stat hs]
  have hours : (kept = some (files.disk (h.starting kept).path) ∧
      (s.len : ℤ) ≤ U32_MAX) ↔ h.Ours files kept s := by
    rw [hpath, Ours, Int.ofNat_le]
  have hsrv' : (0 < (h.starting kept).srvDataSize ∧
      s.len % 2 ^ 32 < (h.starting kept).srvDataSize) ↔ s.len % 2 ^ 32 < h.srvDataSize := by
    rw [hsrv]
    omega
  have hdecide : (h.starting kept).resumeOrRename files kept =
      if h.Ours files kept s ∧ s.len = 0 then (h.starting kept, false)
      else if h.Ours files kept s ∨ s.len % 2 ^ 32 < h.srvDataSize then
        ({ h.starting kept with
          dataPos := s.len % 2 ^ 32, rsrcPos := files.resourceLen (h.starting kept).path }, true)
      else
        ({ h.starting kept with path := uniquify files.taken (h.starting kept).path }, false) := by
    have hstored : ¬(h.starting kept).preview = true := by
      rw [hpreview', hpreview]
      exact Bool.false_ne_true
    unfold resumeOrRename
    rw [if_neg hstored, hsize, if_neg (not_lt.mpr (Int.natCast_nonneg _))]
    simp only [decide_eq_true_eq, hours, hsrv', Int.toNat_natCast, Int.ofNat_eq_zero]
  obtain ⟨hpath', hdata, hrsrc, hrflt⟩ := hask
  by_cases hkept : h.Ours files kept s
  · by_cases hzero : s.len = 0
    · rw [if_pos ⟨hkept, hzero⟩] at hdecide
      rw [hdecide] at hpath' hdata hrsrc hrflt
      have hoffsets : (h.starting kept).dataPos = 0 ∧ (h.starting kept).rsrcPos = 0 := by
        rw [starting_offsets]
        intro hnone
        rw [hnone] at hkept
        exact nomatch hkept.1
      exact Or.inl ⟨hkept, hzero, hrflt, hpath'.trans hpath, hdata.trans hoffsets.1,
        hrsrc.trans hoffsets.2⟩
    · rw [if_neg (fun hboth => hzero hboth.2), if_pos (Or.inl hkept)] at hdecide
      rw [hdecide] at hdata hrflt
      exact Or.inr (Or.inl ⟨Or.inl ⟨hkept, Nat.pos_of_ne_zero hzero⟩, hrflt, hdata⟩)
  · by_cases hshort : s.len % 2 ^ 32 < h.srvDataSize
    · rw [if_neg (fun hboth => hkept hboth.1), if_pos (Or.inr hshort)] at hdecide
      rw [hdecide] at hdata hrflt
      exact Or.inr (Or.inl ⟨Or.inr ⟨hkept, hshort⟩, hrflt, hdata⟩)
    · rw [if_neg (fun hboth => hkept hboth.1), if_neg (fun hor => hor.elim hkept hshort)]
        at hdecide
      rw [hdecide] at hpath' hdata hrsrc hrflt
      refine Or.inr (Or.inr ⟨hkept, hshort, hrflt, ?_, hdata, hrsrc⟩)
      rw [hpath', hpath]

end Deciding

end Handle

namespace Asking

variable {a : Asking}

/-- The request was built by the download going. -/
structure Built (a : Asking) : Prop where
  download : a.before.handle.upload = false
  stored : a.before.handle.preview = false
  goes : ∃ large p, a.before.handle.go a.files large a.before.pause = (a.after, p, some a.request)

theorem Built.asksFrom (h : a.Built) : a.before.handle.AsksFrom a.files a.kept a.after a.rflt := by
  obtain ⟨large, p, hgo⟩ := h.goes
  obtain ⟨name, dir, rflt, hrequest, hask⟩ := Handle.asksFrom_of_go h.download hgo
  have hrflt : a.rflt = rflt := by rw [Asking.rflt, hrequest]
  rw [hrflt]
  exact hask

theorem clean_iff : a.Clean ↔ (a.before.handle.starting a.kept).dataPos = 0 ∧
    (a.before.handle.starting a.kept).rsrcPos = 0 :=
  (Handle.starting_offsets _ _).symm

/-- Each request is right exactly if nothing is in its way. -/
theorem Built.right_iff_clear (h : a.Built) : a.Right ↔ a.Clear := by
  have hask := h.asksFrom
  cases hstat : a.files.stat a.path with
  | none =>
    obtain ⟨hrflt, hpath, hdata, hrsrc⟩ := hask.of_none hstat
    have hclear : a.Clear ↔ a.Clean := by rw [Clear, hstat]
    rw [hclear, clean_iff]
    constructor
    · intro hright
      obtain ⟨hdata0, hrsrc0, -⟩ := hright.anew hrflt
      exact ⟨hdata ▸ hdata0, hrsrc ▸ hrsrc0⟩
    · rintro ⟨hdata0, hrsrc0⟩
      constructor
      · rw [hrflt]
        simp [hstat]
      · intro rflt hsome
        rw [hrflt] at hsome
        cases hsome
      · intro _
        refine ⟨hdata.trans hdata0, hrsrc.trans hrsrc0, Or.inl ?_⟩
        rw [hpath]
        exact hstat
  | some s =>
    have hours : a.before.handle.Ours a.files a.kept s ↔
        a.kept = some (a.files.disk a.path) ∧ s.len ≤ U32_MAX := Iff.rfl
    have hclear : a.Clear ↔ a.before.handle.Ours a.files a.kept s ∨
        if s.len % 2 ^ 32 < a.before.handle.srvDataSize then 0 < s.len ∧ s.len < 2 ^ 32
        else a.Clean ∧ a.Nameable := by
      rw [Clear, hstat, hours]
    rw [hclear]
    rcases hask.of_some h.stored hstat with ⟨hkept, hzero, hrflt, hpath, hdata, hrsrc⟩ |
      ⟨hwhy, hrflt, hdata⟩ | ⟨hkept, hlong, hrflt, hpath, hdata, hrsrc⟩
    · -- the empty file the pause kept
      refine iff_of_true ⟨?_, ?_, ?_⟩ (Or.inl hkept)
      · rw [hrflt, hstat]
        simp [hzero]
      · intro rflt hsome
        rw [hrflt] at hsome
        cases hsome
      · intro _
        refine ⟨hdata, hrsrc, Or.inr ⟨hkept.1, ?_, hpath⟩⟩
        rw [Asking.path, Handle.size_of_stat hstat, hzero]
        rfl
    · -- it goes on
      have hdata' : (rfltData (resumeRflt (.ofNat a.after.dataPos) (.ofNat a.after.rsrcPos))).map
          UInt32.toNat = some (s.len % 2 ^ 32) := by
        rw [rfltData_resumeRflt, hdata, Option.map_some, UInt32.toNat_ofNat', Nat.mod_mod]
      have hfits : a.Right ↔ 0 < s.len ∧ s.len < 2 ^ 32 := by
        constructor
        · intro hright
          obtain ⟨s', hs', hpos, -⟩ := hright.resumes.mp (by rw [hrflt, Option.isSome_some])
          obtain ⟨s'', hs'', hlen, -⟩ := hright.offset _ hrflt
          obtain rfl := Option.some.inj (hstat.symm.trans hs')
          obtain rfl := Option.some.inj (hstat.symm.trans hs'')
          have hmod := Nat.mod_lt s.len (by decide : 0 < 2 ^ 32)
          omega
        · rintro ⟨hpos, hlt⟩
          have hmod : s.len % 2 ^ 32 = s.len := Nat.mod_eq_of_lt hlt
          refine ⟨?_, ?_, ?_⟩
          · refine iff_of_true (by rw [hrflt, Option.isSome_some]) ⟨s, hstat, hpos, ?_⟩
            rcases hwhy with ⟨hkept, -⟩ | ⟨-, hshort⟩
            · exact Or.inl hkept
            · exact Or.inr (hmod ▸ hshort)
          · intro rflt hsome
            rw [hrflt] at hsome
            obtain rfl := Option.some.inj hsome
            exact ⟨s, hstat, hdata.trans hmod, hdata'.trans (congrArg some hmod)⟩
          · intro hnone
            rw [hrflt] at hnone
            cases hnone
      rw [hfits]
      rcases hwhy with ⟨hkept, hpos⟩ | ⟨hkept, hshort⟩
      · have hmax : s.len < 2 ^ 32 := Nat.lt_succ_of_le hkept.2
        exact iff_of_true ⟨hpos, hmax⟩ (Or.inl hkept)
      · rw [if_pos hshort]
        exact ⟨Or.inr, fun hor => hor.resolve_left hkept⟩
    · -- it begins anew
      have htaken : a.files.taken a.path = true := taken_of_stat hstat
      have hclearAnew : a.Right ↔ a.Clean ∧ a.Nameable := by
        have hname : a.files.stat a.after.path = none ↔ a.Nameable := by
          rw [hpath]
          exact stat_uniquify htaken
        rw [← hname, clean_iff, ← hdata, ← hrsrc]
        constructor
        · intro hright
          obtain ⟨hdata0, hrsrc0, hor⟩ := hright.anew hrflt
          refine ⟨⟨hdata0, hrsrc0⟩, hor.resolve_right ?_⟩
          rintro ⟨hsame, hsize, -⟩
          rw [Asking.path, Handle.size_of_stat hstat] at hsize
          exact hkept ⟨hsame, by omega⟩
        · rintro ⟨⟨hdata0, hrsrc0⟩, hfree⟩
          refine ⟨?_, ?_, fun _ => ⟨hdata0, hrsrc0, Or.inl hfree⟩⟩
          · rw [hrflt]
            refine iff_of_false (by simp) ?_
            rintro ⟨s', hs', -, hor⟩
            obtain rfl := Option.some.inj (hstat.symm.trans hs')
            rcases hor with hours' | hshort
            · exact hkept hours'
            · have hmod := Nat.mod_le s.len (2 ^ 32)
              omega
          · intro rflt hsome
            rw [hrflt] at hsome
            cases hsome
      rw [hclearAnew, if_neg hlong]
      exact ⟨Or.inr, fun hor => hor.resolve_left hkept⟩

end Asking

namespace Handle

variable {h : Handle}

theorem resumeOrRename_kind (h : Handle) (files : Files) (kept : Option Disk) :
    (h.resumeOrRename files kept).1.upload = h.upload ∧
      (h.resumeOrRename files kept).1.preview = h.preview := by
  unfold resumeOrRename
  dsimp only
  split_ifs <;> exact ⟨rfl, rfl⟩

theorem request_kind (h : Handle) (files : Files) (large : Bool) (kept : Option Disk)
    (full : Option ℕ) : (h.request files large kept full).1.upload = h.upload ∧
      (h.request files large kept full).1.preview = h.preview := by
  have hkind := h.resumeOrRename_kind files kept
  unfold request goGet
  split_ifs
  · cases full <;> exact ⟨rfl, rfl⟩
  · cases full <;> exact hkind

/-- Going makes a download no upload, and no preview. -/
theorem go_kind (h : Handle) (files : Files) (large : Bool) (pause : Option Pause) :
    (h.go files large pause).1.upload = h.upload ∧
      (h.go files large pause).1.preview = h.preview := by
  unfold go
  split
  · split_ifs
    · exact ⟨rfl, rfl⟩
    · exact request_kind _ _ _ _ _
  · split_ifs
    · exact ⟨rfl, rfl⟩
    · exact request_kind _ _ _ _ _
  · exact ⟨rfl, rfl⟩
  · split_ifs
    · exact ⟨rfl, rfl⟩
    · exact request_kind _ _ _ _ _

end Handle

/-- A download of a file to the disk. -/
def Download.Stored (d : Download) : Prop := d.handle.upload = false ∧ d.handle.preview = false

theorem Download.Stored.step {d : Download} (h : d.Stored) (large : Bool) (e : DownloadEvent) :
    (d.step large e).1.Stored ∧ ∀ a ∈ (d.step large e).2, a.Built := by
  have hkept : ∀ d' : Download, d'.handle.upload = d.handle.upload →
      d'.handle.preview = d.handle.preview → d'.Stored := by
    intro d' hupload hpreview
    exact ⟨hupload.trans h.1, hpreview.trans h.2⟩
  cases e with
  | goes =>
    have hkind := d.handle.go_kind d.files large d.pause
    cases hgo : d.handle.go d.files large d.pause with
    | mk h' rest =>
      obtain ⟨p, r⟩ := rest
      rw [hgo] at hkind
      cases r with
      | none =>
        simp only [Download.step, hgo]
        exact ⟨hkept _ hkind.1 hkind.2, fun a ha => absurd ha List.not_mem_nil⟩
      | some r =>
        simp only [Download.step, hgo]
        refine ⟨hkept _ hkind.1 hkind.2, fun a ha => ?_⟩
        obtain rfl := List.mem_singleton.mp ha
        exact ⟨h.1, h.2, large, p, hgo⟩
  | _ => exact ⟨hkept _ rfl rfl, fun a ha => absurd ha List.not_mem_nil⟩

/-- Every request in the history of a download is built from a download. -/
theorem built_of_mem_emitted {h : Handle} (hget : h.upload = false) (hstored : h.preview = false)
    (files : Files) (large : Bool) (events : List DownloadEvent) :
    ∀ a ∈ (downloading h files large).emitted events, a.Built := by
  refine ((downloading h files large).record_invariant
    (Q := fun d (asked : List Asking) => d.Stored ∧ ∀ a ∈ asked, a.Built) ?_ ?_ events).2
  · exact ⟨⟨hget, hstored⟩, fun a ha => absurd ha List.not_mem_nil⟩
  · intro d asked e hd
    obtain ⟨hd, hasked⟩ := hd
    obtain ⟨hd', hnew⟩ := hd.step large e
    refine ⟨hd', fun a ha => ?_⟩
    rcases List.mem_append.mp ha with ha | ha
    · exact hasked a ha
    · exact hnew a ha

/-- In every history of a download, and whatever becomes of the local files, each request asks for
exactly what the download lacks if and only if nothing is in its way. -/
theorem asks_for_what_it_lacks_iff {h : Handle} (hget : h.upload = false)
    (hstored : h.preview = false) (files : Files) (large : Bool) (events : List DownloadEvent) :
    ∀ a ∈ (downloading h files large).emitted events, a.Right ↔ a.Clear :=
  fun a ha => (built_of_mem_emitted hget hstored files large events a ha).right_iff_clear

/-- A download to the path `a`, of a file the listing gave 100 bytes. -/
def listed : Handle where
  htlc := 1
  upload := false
  folder := false
  preview := false
  path := [97]
  remotedir := []
  remotename := [97]
  srvDataSize := 100
  gone := false
  ref := 0
  queue := 0
  dataPos := 0
  rsrcPos := 0
  dataSize := 0
  rsrcSize := 0
  totalSize := 100
  totalPos := 0
  canceled := false

/-- The path `a` alone has a file, of this many bytes. -/
def holding (len : ℕ) : Files where
  stat path := if path = [97] then some ⟨len, some 1⟩ else none
  resourceLen _ := 0

/-- No path has a file. -/
def nothing : Files where
  stat _ := none
  resourceLen _ := 0

/-- A download paused at five bytes, refused when it is resumed, and resumed again. -/
def resumedTwice : List DownloadEvent :=
  [.goes, .answered 7 100, .filesChange (holding 5), .pauses, .held none, .goes, .resumeRefused,
    .goes]

theorem listed_asks_right :
    ∃ a ∈ (downloading listed nothing true).emitted resumedTwice,
      a.rflt.isSome = true ∧ a.after.dataPos = 5 ∧ a.Right := by
  refine ⟨_, List.mem_of_getLast? rfl, rfl, by decide, ?_⟩
  have hright := asks_for_what_it_lacks_iff (h := listed) rfl rfl nothing true resumedTwice
  refine (hright _ (List.mem_of_getLast? rfl)).mpr ?_
  exact Or.inl ⟨rfl, by decide⟩

/-- An attempt that went on is refused, and its file removed before the next one, which keeps its
offset; a file of 2^32 + 5 bytes is taken for one of five; and a download goes on with a file that
is empty. -/
theorem putBack_not_right :
    (∃ a ∈ (downloading listed (holding 5) true).emitted
      [.goes, .putBack, .filesChange nothing, .goes], ¬a.Right) ∧
    (∃ a ∈ (downloading listed (holding 4294967301) true).emitted [.goes], ¬a.Right) ∧
    ∃ a ∈ (downloading listed (holding 0) true).emitted [.goes], ¬a.Right := by
  refine ⟨⟨_, List.mem_of_getLast? rfl, ?_⟩, ⟨_, List.mem_of_getLast? rfl, ?_⟩,
    ⟨_, List.mem_of_getLast? rfl, ?_⟩⟩
  · intro hright
    exact absurd (hright.anew rfl).1 (by decide)
  · intro hright
    obtain ⟨s, hs, hlen, -⟩ := hright.offset _ rfl
    have hs' : some (⟨4294967301, some 1⟩ : Stat) = some s := hs
    obtain rfl := Option.some.inj hs'
    exact absurd hlen (by decide)
  · intro hright
    obtain ⟨s, hs, hpos, -⟩ := hright.resumes.mp rfl
    have hs' : some (⟨0, some 1⟩ : Stat) = some s := hs
    obtain rfl := Option.some.inj hs'
    exact absurd hpos (by decide)

end Gtkhx.Transfers
