import Gtkhx.Htxf.Worker

/-!
# A file system

What the workers rely on the local file system for, as laws of its operations, and a file
system in memory that keeps them.
-/

namespace Gtkhx.Htxf

variable {ω : Type}

/-- What the folders of a file system do, whatever else is on it. -/
structure FolderLaws (os : Os ω) : Prop where
  /-- A folder that was made is there. -/
  made : ∀ {p s s'}, (os.mkdir p).run s = (.ok (), s') → os.isDir s' p = true
  /-- A folder that is there is not made again, and not found missing. -/
  there : ∀ {p s}, os.isDir s p = true → ∃ e s', (os.mkdir p).run s = (.error e, s') ∧ e ≠ ENOENT
  /-- Making a folder removes none. -/
  mkdir_keeps : ∀ {p s} q, os.isDir s q = true → os.isDir ((os.mkdir p).run s).2 q = true
  /-- Opening a file removes no folder. -/
  openWrite_keeps : ∀ {p truncate s} q, os.isDir s q = true →
    os.isDir ((os.openWrite p truncate).run s).2 q = true
  /-- Opening a resource fork removes no folder. -/
  resourceOpen_keeps : ∀ {p s} q, os.isDir s q = true →
    os.isDir ((os.resourceOpen p).run s).2 q = true
  /-- Writing removes no folder. -/
  writeAll_keeps : ∀ {p fork pos bytes s} q, os.isDir s q = true →
    os.isDir ((os.writeAll p fork pos bytes).run s).2 q = true
  /-- Writing a sidecar removes no folder. -/
  hfsinfoWrite_keeps : ∀ {p info s} q, os.isDir s q = true →
    os.isDir (os.hfsinfoWrite p info s) q = true
  /-- A `.` in a path makes no difference to whether a folder is there. -/
  core : ∀ {p q : PathBuf} {s}, p.drive = q.drive → p.rooted = q.rooted → p.core = q.core →
    p ≠ .empty → q ≠ .empty → os.isDir s p = os.isDir s q
  /-- The current folder is there. -/
  here : ∀ {p : PathBuf} {s}, p.drive = [] → p.rooted = false → p.core = [] → p ≠ .empty →
    os.isDir s p = true
  /-- What a folder is in is a folder. -/
  up : ∀ {p q : PathBuf} {s}, os.isDir s p = true → p.parent = some q → q ≠ .empty →
    os.isDir s q = true

/-- What is in a file after bytes are written at a position: a gap before it reads as
zeros. -/
def overwrite (old : List UInt8) (pos : ℕ) (bytes : List UInt8) : List UInt8 :=
  old.take pos ++ List.replicate (pos - old.length) 0 ++ bytes ++ old.drop (pos + bytes.length)

theorem overwrite_nil {old : List UInt8} {pos : ℕ} (h : pos ≤ old.length) :
    overwrite old pos [] = old := by
  simp [overwrite, Nat.sub_eq_zero_of_le h]

/-- Writing at the end appends. -/
theorem overwrite_end (old bytes : List UInt8) : overwrite old old.length bytes = old ++ bytes := by
  simp [overwrite]

/-- What the operations on a file do to its data fork. -/
structure DataLaws (os : Os ω) (data : ω → PathBuf → Option (List UInt8)) : Prop where
  /-- An open file is there, with what was in it unless it was emptied. -/
  opened : ∀ {p truncate s s'}, (os.openWrite p truncate).run s = (.ok (), s') →
    data s' p = some (if truncate then [] else (data s p).getD [])
  /-- Bytes are written where they were to go. -/
  written : ∀ {p pos bytes s s' old}, data s p = some old →
    (os.writeAll p .data pos bytes).run s = (.ok (), s') →
    data s' p = some (overwrite old pos bytes)
  /-- The resource fork is kept apart. -/
  resource_opened : ∀ {p s}, data ((os.resourceOpen p).run s).2 p = data s p
  /-- It is written apart. -/
  resource_written : ∀ {p pos bytes s},
    data ((os.writeAll p .resource pos bytes).run s).2 p = data s p
  /-- So is the sidecar. -/
  sidecar : ∀ {p info s}, data (os.hfsinfoWrite p info s) p = data s p

/-- The regular file at a path, as its length and when it was last changed. -/
def Os.fileAt (os : Os ω) (disk : ω) (p : PathBuf) : Option (ℕ × Option ℕ) :=
  match os.metadata disk p with
  | some md => if md.isFile then some (md.len, md.modified) else none
  | none => none

/-- Two paths that differ by more than a `.`. -/
def PathBuf.Apart (p q : PathBuf) : Prop :=
  ¬ (p.drive = q.drive ∧ p.rooted = q.rooted ∧ p.core = q.core)

/-- The file at a path is as it was. -/
def Untouched (os : Os ω) (data : ω → PathBuf → Option (List UInt8)) (q : PathBuf)
    (s s' : ω) : Prop :=
  data s' q = data s q ∧ os.fileAt s' q = os.fileAt s q

/-- What the operations on a file do to it when they fail, and to the other files. -/
structure FileLaws (os : Os ω) (data : ω → PathBuf → Option (List UInt8)) : Prop
    extends DataLaws os data where
  /-- A regular file's length is that of its data fork. -/
  length : ∀ {s p len modified}, os.fileAt s p = some (len, modified) →
    ∃ bytes, data s p = some bytes ∧ bytes.length = len
  /-- A file that could not be opened is as it was. -/
  open_failed : ∀ {p truncate s s' e}, (os.openWrite p truncate).run s = (.error e, s') →
    data s' p = data s p
  /-- A write that failed may have written a part. -/
  write_failed : ∀ {p pos bytes s s' e old}, data s p = some old →
    (os.writeAll p .data pos bytes).run s = (.error e, s') →
    ∃ n, data s' p = some (overwrite old pos (bytes.take n))
  /-- Making a folder touches no file. -/
  mkdir_apart : ∀ {p q s}, Untouched os data q s ((os.mkdir p).run s).2
  /-- Opening a file touches no other. -/
  open_apart : ∀ {p q truncate s}, p.Apart q →
    Untouched os data q s ((os.openWrite p truncate).run s).2
  /-- Opening a resource fork touches no other file. -/
  resource_apart : ∀ {p q s}, p.Apart q → Untouched os data q s ((os.resourceOpen p).run s).2
  /-- Writing touches no other file. -/
  write_apart : ∀ {p q fork pos bytes s}, p.Apart q →
    Untouched os data q s ((os.writeAll p fork pos bytes).run s).2
  /-- Writing a sidecar touches no other file. -/
  sidecar_apart : ∀ {p q info s}, p.Apart q → Untouched os data q s (os.hfsinfoWrite p info s)

theorem Untouched.refl (os : Os ω) (data : ω → PathBuf → Option (List UInt8)) (q : PathBuf)
    (s : ω) : Untouched os data q s s := ⟨rfl, rfl⟩

/-- A file in memory. -/
structure MemFile where
  /-- Its data fork. -/
  data : List UInt8
  /-- Its resource fork. -/
  rsrc : List UInt8
  /-- When it was last changed. -/
  modified : ℕ
  deriving DecidableEq, Repr

/-- A file system in memory. Paths differ by more than a `.` in them. -/
structure MemDisk where
  /-- The folders, but for the current one and the roots. -/
  folders : List PathBuf
  /-- The files. -/
  files : List (PathBuf × MemFile)
  /-- The files that may not be written. -/
  locked : List PathBuf
  /-- The time, which passes with every change of a file. -/
  clock : ℕ
  deriving DecidableEq, Repr

namespace MemDisk

/-- What a path is known under. -/
def key (p : PathBuf) : PathBuf := { p with comps := p.core }

/-- Whether every folder on the way down `names` is there. -/
def leads (d : MemDisk) (p : PathBuf) (names : List Name) : Bool :=
  names.inits.all fun lead => lead = [] || { p with comps := lead } ∈ d.folders

/-- Whether a path is a folder. -/
def isDir (d : MemDisk) (p : PathBuf) : Bool := p ≠ .empty && d.leads p p.core

/-- The file at a path. -/
def file (d : MemDisk) (p : PathBuf) : Option MemFile := d.files.lookup (key p)

/-- Put a file at a path, as changed now. -/
def put (d : MemDisk) (p : PathBuf) (f : MemFile) : MemDisk :=
  { d with
    files := (key p, { f with modified := d.clock }) :: d.files.filter (·.1 ≠ key p)
    clock := d.clock + 1 }

/-- A path's file exists. -/
def EEXIST : Errno := 17

/-- A file that may not be written. -/
def EACCES : Errno := 13

/-- A folder where a file was expected. -/
def EISDIR : Errno := 21

/-- A file that is not open. -/
def EBADF : Errno := 9

/-- The operations on a file system in memory. Its sidecar settings are to write none. -/
def os : Os MemDisk where
  mkdir p := fun d =>
    if p = .empty then (.error ENOENT, d)
    else if d.isDir p ∨ (d.file p).isSome then (.error EEXIST, d)
    else if d.leads p p.core.dropLast then
      (.ok (), { d with folders := key p :: d.folders })
    else (.error ENOENT, d)
  isDir := isDir
  metadata := fun d p =>
    match d.file p with
    | some f => some ⟨true, f.data.length, some f.modified⟩
    | none => if d.isDir p then some ⟨false, 0, none⟩ else none
  openWrite p truncate := fun d =>
    if d.isDir p then (.error EISDIR, d)
    else if key p ∈ d.locked then (.error EACCES, d)
    else if p.core = [] ∨ d.leads p p.core.dropLast = false then (.error ENOENT, d)
    else
      let f := (d.file p).getD ⟨[], [], 0⟩
      (.ok (), d.put p { f with data := if truncate then [] else f.data })
  resourceOpen p := fun d => (.ok (d.file p).isSome, d)
  seek := fun _ _ _ _ => true
  writeAll p fork pos bytes := fun d =>
    match d.file p, fork with
    | none, _ => (.error EBADF, d)
    | some f, .data => (.ok (), d.put p { f with data := overwrite f.data pos bytes })
    | some f, .resource => (.ok (), d.put p { f with rsrc := overwrite f.rsrc pos bytes })
  hfsinfoWrite _ _ := id

theorem leads_mono {d : MemDisk} {p : PathBuf} {names names' : List Name} (hpre : names' <+: names)
    (h : d.leads p names = true) : d.leads p names' = true := by
  simp only [leads, List.all_eq_true, List.mem_inits] at h ⊢
  exact fun lead hlead => h lead (hlead.trans hpre)

theorem leads_of_folders {d d' : MemDisk} {p : PathBuf} {names : List Name}
    (hsub : ∀ q ∈ d.folders, q ∈ d'.folders) (h : d.leads p names = true) :
    d'.leads p names = true := by
  simp only [leads, List.all_eq_true, Bool.or_eq_true, decide_eq_true_eq] at h ⊢
  exact fun lead hlead => (h lead hlead).imp_right (hsub _)

theorem isDir_of_folders {d d' : MemDisk} {p : PathBuf} (hsub : ∀ q ∈ d.folders, q ∈ d'.folders)
    (h : d.isDir p = true) : d'.isDir p = true := by
  simp only [isDir, Bool.and_eq_true] at h ⊢
  exact ⟨h.1, leads_of_folders hsub h.2⟩

theorem folders_openWrite (d : MemDisk) (p : PathBuf) (truncate : Bool) :
    ((os.openWrite p truncate).run d).2.folders = d.folders := by
  unfold Fallible.run os
  dsimp only
  split
  · rfl
  · split
    · rfl
    · split <;> rfl

theorem folders_writeAll (d : MemDisk) (p : PathBuf) (fork : Fork) (pos : ℕ)
    (bytes : List UInt8) : ((os.writeAll p fork pos bytes).run d).2.folders = d.folders := by
  unfold Fallible.run os
  dsimp only
  split <;> rfl

/-- A folder made where everything above it is there leads down to itself. -/
theorem leads_made {d : MemDisk} {p : PathBuf} (h : d.leads p p.core.dropLast = true) :
    { d with folders := key p :: d.folders }.leads p p.core = true := by
  simp only [leads, List.all_eq_true, List.mem_inits, Bool.or_eq_true, decide_eq_true_eq] at h ⊢
  rintro lead ⟨t, ht⟩
  rcases List.eq_nil_or_concat t with rfl | ⟨t, last, rfl⟩
  · rw [List.append_nil] at ht
    exact .inr (by simp [ht, key])
  · have hshort : lead <+: p.core.dropLast := ⟨t, by simp [← ht, ← List.append_assoc]⟩
    exact (h lead hshort).imp_right (List.mem_cons_of_mem _)

/-- The folders of the file system in memory are a file system's. -/
theorem folderLaws : FolderLaws os where
  made := by
    intro p d d' h
    unfold Fallible.run os at h
    dsimp only at h
    split at h
    · cases h
    · rename_i hne
      split at h
      · cases h
      · split at h
        · rename_i hleads
          obtain ⟨-, rfl⟩ := Prod.mk.inj h
          simp [os, isDir, hne, leads_made hleads]
        · cases h
  there := by
    intro p d h
    have hne : p ≠ .empty := by
      simp only [isDir, os, Bool.and_eq_true, decide_eq_true_eq] at h
      exact h.1
    exact ⟨EEXIST, d, by simp [Fallible.run, os, hne, show d.isDir p = true from h], by decide⟩
  mkdir_keeps := by
    intro p d q h
    refine isDir_of_folders (fun r hr => ?_) h
    unfold Fallible.run os
    dsimp only
    split
    · exact hr
    · split
      · exact hr
      · split
        · exact List.mem_cons_of_mem _ hr
        · exact hr
  openWrite_keeps := fun q h =>
    isDir_of_folders (fun r hr => by rwa [folders_openWrite]) h
  resourceOpen_keeps := fun q h => h
  writeAll_keeps := fun q h =>
    isDir_of_folders (fun r hr => by rwa [folders_writeAll]) h
  hfsinfoWrite_keeps := fun q h => h
  core := by
    intro p q d hdrive hrooted hcore hp hq
    simp [os, isDir, leads, hdrive, hrooted, hcore, hp, hq]
  here := by
    intro p d _ _ hcore hp
    simp [os, isDir, leads, hcore, hp]
  up := by
    intro p q d h hparent hq
    simp only [os, isDir, Bool.and_eq_true, decide_eq_true_eq] at h ⊢
    refine ⟨hq, ?_⟩
    have hshort : q.core <+: p.core ∧ q.drive = p.drive ∧ q.rooted = p.rooted := by
      by_cases hcore : p.core = []
      · have hcomps : p.components = [curDir] := by
          rcases p.components_eq with heq | heq
          · rw [PathBuf.parent, heq, hcore] at hparent
            cases hparent
          · rw [heq, hcore]
        rw [PathBuf.parent, hcomps] at hparent
        obtain rfl := Option.some.inj hparent
        simp [PathBuf.core]
      · obtain ⟨q', hq', hdrive, hrooted, hdrop⟩ := p.parent_of_core hcore
        obtain rfl := Option.some.inj (hparent.symm.trans hq')
        exact ⟨hdrop ▸ List.dropLast_prefix _, hdrive, hrooted⟩
    have hlead := leads_mono hshort.1 h.2
    simpa [leads, hshort.2.1, hshort.2.2] using hlead

/-- The data fork of the file at a path. -/
def data (d : MemDisk) (p : PathBuf) : Option (List UInt8) := (d.file p).map MemFile.data

@[simp] theorem file_put (d : MemDisk) (p : PathBuf) (f : MemFile) :
    (d.put p f).file p = some { f with modified := d.clock } := by
  simp [file, put]

/-- The files of the file system in memory are a file system's. -/
theorem dataLaws : DataLaws os data where
  opened := by
    intro p truncate d d' h
    unfold Fallible.run os at h
    dsimp only at h
    split at h
    · cases h
    · split at h
      · cases h
      · split at h
        · cases h
        · obtain ⟨-, rfl⟩ := Prod.mk.inj h
          cases hfile : d.file p <;> simp [data, hfile]
  written := by
    intro p pos bytes d d' old hold h
    unfold Fallible.run os at h
    dsimp only at h
    cases hfile : d.file p with
    | none => simp [data, hfile] at hold
    | some f =>
      rw [hfile] at h
      obtain ⟨-, rfl⟩ := Prod.mk.inj h
      simp only [data, hfile, Option.map_some, Option.some.injEq] at hold
      simp [data, hold]
  resource_opened := rfl
  resource_written := by
    intro p pos bytes d
    unfold Fallible.run os
    dsimp only
    cases hfile : d.file p <;> simp [data, hfile]
  sidecar := rfl

theorem key_ne {p q : PathBuf} (h : p.Apart q) : key q ≠ key p := by
  intro heq
  simp only [key, PathBuf.mk.injEq] at heq
  exact h ⟨heq.1.symm, heq.2.1.symm, heq.2.2.symm⟩

theorem fileAt_eq (d : MemDisk) (q : PathBuf) :
    os.fileAt d q = (d.file q).map fun f => (f.data.length, some f.modified) := by
  cases hfile : d.file q with
  | none => cases hdir : d.isDir q <;> simp [Os.fileAt, os, hfile, hdir]
  | some f => simp [Os.fileAt, os, hfile]

/-- What is known of a file is what is under its path. -/
theorem untouched_of_file {d d' : MemDisk} {q : PathBuf} (h : d'.file q = d.file q) :
    Untouched os data q d d' :=
  ⟨by rw [data, data, h], by rw [fileAt_eq, fileAt_eq, h]⟩

private theorem lookup_filter_ne {k k' : PathBuf} (h : k' ≠ k)
    (files : List (PathBuf × MemFile)) :
    (files.filter (·.1 ≠ k)).lookup k' = files.lookup k' := by
  induction files with
  | nil => rfl
  | cons entry files ih =>
    obtain ⟨path, f⟩ := entry
    by_cases hkey : path = k
    · subst hkey
      have hne : (k' == path) = false := beq_eq_false_iff_ne.mpr h
      simpa [List.lookup_cons, hne] using ih
    · have hstep : ((path, f) :: files).filter (·.1 ≠ k) =
          (path, f) :: files.filter (·.1 ≠ k) := by simp [hkey]
      rw [hstep, List.lookup_cons, List.lookup_cons, ih]

/-- Putting a file at a path touches no other. -/
theorem untouched_put (d : MemDisk) {p q : PathBuf} (h : p.Apart q) (f : MemFile) :
    Untouched os data q d (d.put p f) := by
  refine untouched_of_file ?_
  have hne : (key q == key p) = false := beq_eq_false_iff_ne.mpr (key_ne h)
  simp only [file, put, List.lookup_cons, hne]
  exact lookup_filter_ne (key_ne h) d.files

/-- The files of the file system in memory are apart. -/
theorem fileLaws : FileLaws os data where
  toDataLaws := dataLaws
  length := by
    intro d p len modified h
    rw [fileAt_eq] at h
    obtain ⟨f, hfile, hlen⟩ := Option.map_eq_some_iff.mp h
    exact ⟨f.data, by simp [data, hfile], (Prod.mk.inj hlen).1⟩
  open_failed := by
    intro p truncate d d' e h
    unfold Fallible.run os at h
    dsimp only at h
    split at h
    · rw [(Prod.mk.inj h).2]
    · split at h
      · rw [(Prod.mk.inj h).2]
      · split at h
        · rw [(Prod.mk.inj h).2]
        · cases h
  write_failed := by
    intro p pos bytes d d' e old hold h
    unfold Fallible.run os at h
    dsimp only at h
    cases hfile : d.file p with
    | none => simp [data, hfile] at hold
    | some f =>
      rw [hfile] at h
      cases h
  mkdir_apart := by
    intro p q d
    refine untouched_of_file ?_
    unfold Fallible.run os
    dsimp only
    split
    · rfl
    · split
      · rfl
      · split <;> rfl
  open_apart := by
    intro p q truncate d h
    unfold Fallible.run os
    dsimp only
    split
    · exact .refl _ _ _ _
    · split
      · exact .refl _ _ _ _
      · split
        · exact .refl _ _ _ _
        · exact untouched_put d h _
  resource_apart := fun _ => .refl _ _ _ _
  write_apart := by
    intro p q fork pos bytes d h
    unfold Fallible.run os
    dsimp only
    split
    · exact .refl _ _ _ _
    · exact untouched_put d h _
    · exact untouched_put d h _
  sidecar_apart := fun _ => .refl _ _ _ _

end MemDisk

end Gtkhx.Htxf
