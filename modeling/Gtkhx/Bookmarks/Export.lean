import Gtkhx.Bookmarks.Legacy
import Mathlib.Data.List.Dedup
import Mathlib.Data.List.Perm.Lattice

/-!
# Exported bookmarks

Each bookmark is a file of a directory, under its name, and the files of a directory are bookmarks.
-/

namespace Gtkhx.Bookmarks

/-- Names are compared character by character. -/
local instance lawfulNames : LawfulBEq (List Char) := inferInstance

/-- A directory: the files it has, by their names. -/
structure Directory where
  /-- Each with what it holds. -/
  files : List (List Char × List UInt8)
  /-- No two have one name. -/
  distinct : (files.map Prod.fst).Nodup

/-- A directory without files. -/
def Directory.empty : Directory := ⟨[], List.nodup_nil⟩

/-- The files after one is written, over what it held if it was there. -/
def written (files : List (List Char × List UInt8)) (name : List Char) (bytes : List UInt8) :
    List (List Char × List UInt8) :=
  if name ∈ files.map Prod.fst then
    files.map fun file => if file.1 = name then (name, bytes) else file
  else files ++ [(name, bytes)]

theorem names_written (files : List (List Char × List UInt8)) (name : List Char)
    (bytes : List UInt8) : (written files name bytes).map Prod.fst =
      if name ∈ files.map Prod.fst then files.map Prod.fst else files.map Prod.fst ++ [name] := by
  unfold written
  split_ifs with hmem
  · rw [List.map_map]
    refine List.map_congr_left fun file _ => ?_
    rw [Function.comp_apply]
    split_ifs with hname
    · exact hname.symm
    · rfl
  · rw [List.map_append, List.map_singleton]

/-- A directory after a file is written. -/
def Directory.write (d : Directory) (name : List Char) (bytes : List UInt8) : Directory where
  files := written d.files name bytes
  distinct := by
    rw [names_written]
    split_ifs with hmem
    · exact d.distinct
    · rw [List.nodup_append]
      refine ⟨d.distinct, List.nodup_singleton name, fun a ha b hb => ?_⟩
      rw [List.mem_singleton] at hb
      rintro rfl
      exact hmem (hb ▸ ha)

@[simp] theorem files_write (d : Directory) (name : List Char) (bytes : List UInt8) :
    (d.write name bytes).files = written d.files name bytes := rfl

/-- A name that a file can have. -/
def safeFilename (name : List Char) : List Char := name.map fun c => if c = '/' then '\\' else c

/-- One bookmark more in the directory, and in the count. -/
def exportOne (state : Directory × ℕ) (bm : Bookmark) : Directory × ℕ :=
  if bm.name = [] then state
  else (state.1.write (safeFilename bm.name) (write bm), state.2 + 1)

/-- Every bookmark as a file, and how many were written. -/
def exportDir (bookmarks : List Bookmark) (d : Directory) : Directory × ℕ :=
  bookmarks.foldl exportOne (d, 0)

/-- A file as a bookmark. -/
def importFile (file : List Char × List UInt8) : Option Bookmark :=
  if file.1.head? = some '.' then none
  else (parse file.2).map fun bm => { bm with name := file.1 }

/-- The bookmarks of a directory's entries, in the order of their names' bytes. -/
def importDir (entries : List (List Char × List UInt8)) : List Bookmark :=
  (entries.mergeSort fun a b => decide (Utf8.encode a.1 ≤ Utf8.encode b.1)).filterMap importFile

/-- A bookmark as its file has it, under the file's name. -/
def exported (bm : Bookmark) : Option Bookmark :=
  (parse (write bm)).map fun b => { b with name := safeFilename bm.name }

/-- Every bookmark is counted, has a file, and comes back from it, in whatever order the directory
lists its files. -/
def Lossless (bookmarks : List Bookmark) : Prop :=
  (exportDir bookmarks Directory.empty).2 = bookmarks.length ∧
  (exportDir bookmarks Directory.empty).1.files.length =
    (exportDir bookmarks Directory.empty).2 ∧
  ∀ entries, entries.Perm (exportDir bookmarks Directory.empty).1.files →
    ((importDir entries).map some).Perm (bookmarks.map exported)

theorem head?_safeFilename (name : List Char) :
    (safeFilename name).head? = some '.' ↔ name.head? = some '.' := by
  cases name with
  | nil => exact Iff.rfl
  | cons c name =>
    rw [safeFilename, List.map_cons, List.head?_cons, List.head?_cons, Option.some_inj,
      Option.some_inj]
    split_ifs with hc
    · rw [hc]
      decide
    · exact Iff.rfl

section Files

variable {bookmarks : List Bookmark}

theorem exportDir_concat (bookmarks : List Bookmark) (bm : Bookmark) (d : Directory) :
    exportDir (bookmarks ++ [bm]) d = exportOne (exportDir bookmarks d) bm := by
  rw [exportDir, exportDir, List.foldl_append]
  rfl

/-- Every bookmark with a name is counted. -/
theorem exportDir_count (hnames : ∀ bm ∈ bookmarks, bm.name ≠ []) (d : Directory) :
    (exportDir bookmarks d).2 = bookmarks.length := by
  induction bookmarks using List.reverseRecOn with
  | nil => rfl
  | append_singleton bookmarks bm ih =>
    have hbm : bm.name ≠ [] := hnames bm (by simp)
    rw [exportDir_concat, exportOne, if_neg hbm, List.length_append,
      ih fun bm hbm => hnames bm (List.mem_append_left _ hbm)]
    rfl

/-- The files are those of the bookmarks' names. -/
theorem mem_names_exportDir (hnames : ∀ bm ∈ bookmarks, bm.name ≠ []) (name : List Char) :
    name ∈ (exportDir bookmarks Directory.empty).1.files.map Prod.fst ↔
      name ∈ bookmarks.map fun bm => safeFilename bm.name := by
  induction bookmarks using List.reverseRecOn with
  | nil => exact Iff.rfl
  | append_singleton bookmarks bm ih =>
    have hbm : bm.name ≠ [] := hnames bm (by simp)
    have ih' := ih fun bm hbm => hnames bm (List.mem_append_left _ hbm)
    rw [exportDir_concat, exportOne, if_neg hbm, files_write, names_written, List.map_append,
      List.mem_append, ← ih', List.map_singleton]
    split_ifs with hmem
    · refine ⟨Or.inl, fun h => h.elim id fun hname => ?_⟩
      rw [List.mem_singleton.mp hname]
      exact hmem
    · rw [List.mem_append]

/-- Bookmarks whose files have different names have one file each. -/
theorem files_exportDir (hnames : ∀ bm ∈ bookmarks, bm.name ≠ [])
    (hdistinct : (bookmarks.map fun bm => safeFilename bm.name).Nodup) :
    (exportDir bookmarks Directory.empty).1.files =
      bookmarks.map fun bm => (safeFilename bm.name, write bm) := by
  induction bookmarks using List.reverseRecOn with
  | nil => rfl
  | append_singleton bookmarks bm ih =>
    have hbm : bm.name ≠ [] := hnames bm (by simp)
    have hbefore : ∀ bm ∈ bookmarks, bm.name ≠ [] :=
      fun bm hbm => hnames bm (List.mem_append_left _ hbm)
    rw [List.map_append, List.nodup_append] at hdistinct
    obtain ⟨hnodup, -, hdisjoint⟩ := hdistinct
    have hnew : safeFilename bm.name ∉
        (exportDir bookmarks Directory.empty).1.files.map Prod.fst := by
      rw [mem_names_exportDir hbefore]
      intro hmem
      exact hdisjoint _ hmem (safeFilename bm.name) (by simp) rfl
    rw [exportDir_concat, exportOne, if_neg hbm, files_write, written, if_neg hnew,
      ih hbefore hnodup, List.map_append, List.map_singleton]

/-- There are as many files as bookmarks just if their names are different. -/
theorem length_files_iff (hnames : ∀ bm ∈ bookmarks, bm.name ≠ []) :
    (exportDir bookmarks Directory.empty).1.files.length = bookmarks.length ↔
      (bookmarks.map fun bm => safeFilename bm.name).Nodup := by
  constructor
  · intro hlength
    have hperm : ((exportDir bookmarks Directory.empty).1.files.map Prod.fst).Perm
        (bookmarks.map fun bm => safeFilename bm.name).dedup := by
      refine (List.perm_ext_iff_of_nodup (exportDir bookmarks _).1.distinct
        (List.nodup_dedup _)).mpr fun name => ?_
      rw [mem_names_exportDir hnames, List.mem_dedup]
    have hsame : (bookmarks.map fun bm => safeFilename bm.name).dedup =
        bookmarks.map fun bm => safeFilename bm.name := by
      refine (List.dedup_sublist _).eq_of_length ?_
      rw [← hperm.length_eq, List.length_map, List.length_map, hlength]
    exact List.dedup_eq_self.mp hsame
  · intro hdistinct
    rw [files_exportDir hnames hdistinct, List.length_map]

end Files

section Lossless

variable {bookmarks : List Bookmark}

theorem isSome_exported (bm : Bookmark) : (exported bm).isSome = true := by
  rw [exported, Option.isSome_map, isSome_parse_write]

/-- A bookmark's file is imported unless its name begins with a dot. -/
theorem importFile_write (bm : Bookmark) : importFile (safeFilename bm.name, write bm) =
    if bm.name.head? = some '.' then none else exported bm := by
  simp only [importFile, head?_safeFilename, exported]

theorem map_some_filterMap {α β : Type*} {f : α → Option β} {l : List α}
    (h : ∀ a ∈ l, (f a).isSome = true) : (l.filterMap f).map some = l.map f := by
  induction l with
  | nil => rfl
  | cons a l ih =>
    obtain ⟨b, hb⟩ := Option.isSome_iff_exists.mp (h a List.mem_cons_self)
    rw [List.filterMap_cons, hb, List.map_cons, List.map_cons, hb,
      ih fun a ha => h a (List.mem_cons_of_mem _ ha)]

/-- What is imported when each bookmark has its file. -/
theorem importDir_perm {entries : List (List Char × List UInt8)}
    (hperm : entries.Perm (bookmarks.map fun bm => (safeFilename bm.name, write bm))) :
    (importDir entries).Perm (bookmarks.filterMap fun bm =>
      if bm.name.head? = some '.' then none else exported bm) := by
  have hsorted : (importDir entries).Perm _ :=
    ((List.mergeSort_perm entries _).trans hperm).filterMap importFile
  simp only [List.filterMap_map, Function.comp_def, importFile_write] at hsorted
  exact hsorted

theorem not_dot_of_perm
    (hback : ((importDir (bookmarks.map fun bm => (safeFilename bm.name, write bm))).map some).Perm
      (bookmarks.map exported)) : ∀ bm ∈ bookmarks, bm.name.head? ≠ some '.' := by
  intro bm hbm hdot
  have hlength := hback.length_eq
  rw [List.length_map, (importDir_perm (List.Perm.refl _)).length_eq, List.length_map] at hlength
  have hsome := List.filterMap_length_eq_length.mp hlength bm hbm
  rw [if_pos hdot] at hsome
  cases hsome

/-- For every list of bookmarks that have names, exporting loses none exactly if no name begins
with a dot and no two are alike once slashes are replaced. -/
theorem lossless_iff (bookmarks : List Bookmark) (hnames : ∀ bm ∈ bookmarks, bm.name ≠ []) :
    Lossless bookmarks ↔ (∀ bm ∈ bookmarks, bm.name.head? ≠ some '.') ∧
      (bookmarks.map fun bm => safeFilename bm.name).Nodup := by
  have hcount := exportDir_count hnames Directory.empty
  rw [Lossless, hcount, length_files_iff hnames]
  constructor
  · rintro ⟨-, hdistinct, hback⟩
    rw [files_exportDir hnames hdistinct] at hback
    exact ⟨not_dot_of_perm (hback _ (List.Perm.refl _)), hdistinct⟩
  · rintro ⟨hdots, hdistinct⟩
    refine ⟨rfl, hdistinct, fun entries hperm => ?_⟩
    rw [files_exportDir hnames hdistinct] at hperm
    have hall : bookmarks.filterMap (fun bm =>
        if bm.name.head? = some '.' then none else exported bm) =
          bookmarks.filterMap exported :=
      List.filterMap_congr fun bm hbm => if_neg (hdots bm hbm)
    have hmap := (importDir_perm hperm).map some
    rw [hall, map_some_filterMap fun bm _ => isSome_exported bm] at hmap
    exact hmap

/-- Two bookmarks with different names come back. -/
theorem names_lossless : Lossless [sample, { sample with name := "a/b".toList }] :=
  (lossless_iff _ (by decide)).mpr ⟨by decide, by decide⟩

/-- Two bookmarks are counted and one file is written when their names differ in a slash only. -/
theorem slash_not_lossless :
    (exportDir [{ sample with name := "a/b".toList }, { sample with name := "a\\b".toList }]
      Directory.empty).2 = 2 ∧
    ¬Lossless [{ sample with name := "a/b".toList }, { sample with name := "a\\b".toList }] := by
  have hnames : ∀ bm ∈ [{ sample with name := "a/b".toList },
      { sample with name := "a\\b".toList }], bm.name ≠ [] := by decide
  have hcount := exportDir_count hnames Directory.empty
  refine ⟨hcount, fun h => ?_⟩
  have hdistinct := (length_files_iff hnames).mp (h.2.1.trans hcount)
  exact absurd hdistinct (by decide)

end Lossless

end Gtkhx.Bookmarks
