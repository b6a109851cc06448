import Gtkhx.Library.Text
import Gtkhx.Library.Tree
import Gtkhx.Requests.Files

/-!
# Moving and renaming

A server's files are a tree. FILE_MOVE puts an item into another folder and FILE_SETINFO renames it
where it is, so that a move to another name is both, the second once the first has succeeded.
Whatever the server refuses, only the item that was to be moved has been.
-/

namespace Gtkhx.Requests

/-- What the builders of a move and of a rename do: they carry what they are given, and refuse only
a chunk that is too long. -/
structure Build.Exact (B : Build) : Prop where
  fileMove : ∀ req, B.fileMove req ≠ [] →
    chunk (B.fileMove req) TAG_FILE_NAME = some req.name ∧
      chunk (B.fileMove req) TAG_DIR = some req.dir ∧
      chunk (B.fileMove req) TAG_DIR_RENAME = some req.dirRename
  fileMove_refused : ∀ req, B.fileMove req = [] →
    MAX_CHUNK < req.name.length ∨ MAX_CHUNK < req.dir.length ∨ MAX_CHUNK < req.dirRename.length
  fileSetInfo : ∀ req, B.fileSetInfo req ≠ [] →
    chunk (B.fileSetInfo req) TAG_FILE_NAME = some req.name ∧
      chunk (B.fileSetInfo req) TAG_FILE_RENAME = req.rename ∧
      chunk (B.fileSetInfo req) TAG_DIR = req.dir
  fileSetInfo_refused : ∀ req, B.fileSetInfo req = [] →
    ∃ data ∈ [some req.name, req.rename, req.comment, req.dir], MAX_CHUNK < (data.getD []).length

section Server

variable {α : Type}

/-- FILE_MOVE: an item goes to another folder under its name. -/
def fileMove (t : NameTree Component α) (name : Component) (dir newdir : List Component) :
    Option (NameTree Component α) :=
  t.move (dir ++ [name]) newdir name

/-- The rename of a FILE_SETINFO: an item gets another name where it is. -/
def fileRename (t : NameTree Component α) (name : Component) (dir : List Component)
    (rename : Component) : Option (NameTree Component α) :=
  t.move (dir ++ [name]) dir rename

/-- The files once a server has done what a request asks, if it does. -/
def serve (permits : NameTree Component α → Request → Bool) (t : NameTree Component α)
    (r : Request) :
    Option (NameTree Component α) :=
  if permits t r = false then none
  else match r.opcode with
    | .fileMove => do
      let name ← r.chunk TAG_FILE_NAME
      let dir ← dirNamed (r.chunk TAG_DIR)
      let newdir ← dirNamed (r.chunk TAG_DIR_RENAME)
      fileMove t name dir newdir
    | .fileSetInfo => do
      let name ← r.chunk TAG_FILE_NAME
      let rename ← r.chunk TAG_FILE_RENAME
      let dir ← dirNamed (r.chunk TAG_DIR)
      fileRename t name dir rename
    | _ => none

end Server

section Client

variable (B : Build)

/-- `hx_file_move`: the request that is sent, and the one that waits for its answer. -/
def hxFileMove (src dst : List UInt8) : Option (Request × Option Request) :=
  match moves B src dst with
  | [] => none
  | first :: rest => some (first, rest.head?)

/-- `changed` and `failed`: the request that is sent once the one it waits for is answered. -/
def answered (waiting : Option Request) (succeeded : Bool) : Option Request :=
  if succeeded then waiting else none

variable {α : Type}

/-- A move from one path to another: the files after it, and whether every request that was sent
has succeeded. -/
def moveFile (permits : NameTree Component α → Request → Bool) (t : NameTree Component α)
    (src dst : List UInt8) : NameTree Component α × Bool :=
  match hxFileMove B src dst with
  | none => (t, true)
  | some (first, waiting) =>
    let moved := serve permits t first
    match answered waiting moved.isSome with
    | none => (moved.getD t, moved.isSome)
    | some rename =>
      let renamed := serve permits (moved.getD t) rename
      (renamed.getD (moved.getD t), renamed.isSome)

end Client

/-- A path from the root down to an item, without an empty component. -/
def IsAbsolute (path : List UInt8) : Prop :=
  path.head? = some SEP ∧ ∀ part ∈ path.tail.splitOn SEP, part ≠ []

/-- The path's directory and its name fit into their chunks. -/
def Sendable (path : List UInt8) : Prop :=
  Fits (components (split path).1) ∧ (split path).2.length ≤ MAX_CHUNK

instance (path : List UInt8) : Decidable (IsAbsolute path) := by
  unfold IsAbsolute
  infer_instance

instance (path : List UInt8) : Decidable (Sendable path) := by
  unfold Sendable
  infer_instance

section Paths

/-- The components of an absolute path, each after a separator. -/
def fromRoot (names : List Component) : List UInt8 := names.flatMap (SEP :: ·)

theorem components_fromRoot {names : List Component} (h : ∀ name ∈ names, name ≠ [] ∧ SEP ∉ name) :
    components (fromRoot names) = names := by
  induction names using List.reverseRecOn with
  | nil => rfl
  | append_singleton names name ih =>
    obtain ⟨hne, hsep⟩ := h name (by simp)
    rw [fromRoot, List.flatMap_append, List.flatMap_singleton, components_append,
      components_of_not_mem hsep, if_neg hne]
    rw [← fromRoot, ih fun n hn => h n (List.mem_append_left _ hn)]

private theorem fromRoot_eq_cons {names : List Component} (h : names ≠ []) :
    fromRoot names = SEP :: [SEP].intercalate names := by
  induction names with
  | nil => exact absurd rfl h
  | cons name names ih =>
    cases names with
    | nil => simp [fromRoot]
    | cons next names =>
      rw [fromRoot, List.flatMap_cons, ← fromRoot, ih (List.cons_ne_nil _ _)]
      simp

/-- An absolute path is made of its components. -/
theorem IsAbsolute.parts {path : List UInt8} (h : IsAbsolute path) :
    ∃ dir name, path = fromRoot dir ++ SEP :: name ∧ (name ≠ [] ∧ SEP ∉ name) ∧
      ∀ part ∈ dir, part ≠ [] ∧ SEP ∉ part := by
  obtain ⟨hroot, hparts⟩ := h
  obtain ⟨tail, rfl⟩ : ∃ tail, path = SEP :: tail := List.head?_eq_some_iff.mp hroot
  rw [List.tail_cons] at hparts
  have hne := List.splitOn_ne_nil SEP tail
  have hplain : ∀ part ∈ tail.splitOn SEP, part ≠ [] ∧ SEP ∉ part := fun part hpart =>
    ⟨hparts part hpart, Text.not_mem_of_mem_splitOn hpart⟩
  have hpath : SEP :: tail = fromRoot (tail.splitOn SEP) := by
    rw [fromRoot_eq_cons hne, List.intercalate_splitOn]
  have hlast := List.dropLast_append_getLast hne
  refine ⟨(tail.splitOn SEP).dropLast, (tail.splitOn SEP).getLast hne, ?_,
    hplain _ (List.getLast_mem hne), fun part hpart => hplain _ (List.dropLast_subset _ hpart)⟩
  rw [hpath]
  conv_lhs => rw [← hlast]
  rw [fromRoot, List.flatMap_append, List.flatMap_singleton, ← fromRoot]

/-- What the client makes of an absolute path. -/
structure Parts (path : List UInt8) (dir : List Component) (name : Component) : Prop where
  split_name : (split path).2 = name
  split_dir : components (split path).1 = dir
  components_eq : components path = dir ++ [name]
  dirPrefix_eq : dirPrefix path = fromRoot dir ++ [SEP]
  name_ne : name ≠ []

theorem IsAbsolute.exists_parts {path : List UInt8} (h : IsAbsolute path) :
    ∃ dir name, Parts path dir name ∧ components (fromRoot dir) = dir := by
  obtain ⟨dir, name, rfl, ⟨hne, hsep⟩, hdir⟩ := h.parts
  have hcomponents := components_fromRoot hdir
  refine ⟨dir, name, ⟨?_, ?_, ?_, ?_, hne⟩, hcomponents⟩
  · rw [split_append hsep]
  · rw [split_append hsep]
    cases hroot : fromRoot dir with
    | nil =>
      rw [hroot] at hcomponents
      rw [if_pos rfl, ← hcomponents]
      rfl
    | cons b front => rw [if_neg (List.cons_ne_nil _ _), ← hroot, hcomponents]
  · rw [components_append, hcomponents, components_of_not_mem hsep, if_neg hne]
  · rw [dirPrefix, split_append hsep, List.append_cons, List.length_append, Nat.add_sub_cancel,
      List.take_left]

/-- A move changes the directory if the directories are not the same. -/
theorem changesDir_eq {src dst : List UInt8} {dir dir' : List Component} {name name' : Component}
    (hsrc : Parts src dir name) (hdst : Parts dst dir' name')
    (hdir : components (fromRoot dir) = dir) (hdir' : components (fromRoot dir') = dir') :
    changesDir src dst = decide (dir' ≠ dir) := by
  have hsame : fromRoot dir' ++ [SEP] = fromRoot dir ++ [SEP] ↔ dir' = dir := by
    constructor
    · intro h
      rw [← hdir, ← hdir', (List.append_inj' h rfl).1]
    · rintro rfl
      rfl
  rw [changesDir, hsrc.dirPrefix_eq, hdst.dirPrefix_eq, decide_eq_decide, ne_eq, ne_eq, hsame]
  simp

end Paths

section Requests

variable {B : Build} {src dst : List UInt8}

/-- The directory that is sent for an item is the one it is in. -/
theorem dirNamed_of_fits {path : List UInt8} (h : Fits (components (split path).1)) :
    dirNamed (some (encodeDir path true)) = some (components (split path).1) := by
  rw [dirNamed_encodeDir_item, (sent_eq_iff _).mpr h]

/-- The request puts the item at `src` at `place`, which was free, if a server does what it asks. -/
def Request.Puts (r : Request) (src place : List Component) : Prop :=
  ∀ (α : Type) (permits : NameTree Component α → Request → Bool) (t t' : NameTree Component α),
    serve permits t r = some t' →
      t'.item = NameTree.relocated t.item src place ∧ t.item place = none

/-- A move to another folder is sent, and puts the item there under its name. -/
theorem moveRequest_puts (hB : B.Exact) (hsrc : Sendable src) (hdst : Sendable dst)
    (hdir : changesDir src dst = true) :
    ∃ r, moveRequest B src dst = some r ∧
      r.Puts (components (split src).1 ++ [(split src).2])
        (components (split dst).1 ++ [(split src).2]) := by
  rw [moveRequest, if_pos hdir, Request.fromBuilt]
  generalize hreq : FileMoveRequest.mk (split src).2 (encodeDir src true) (encodeDir dst true) = req
  have hsent : B.fileMove req ≠ [] := by
    intro hrefused
    have hlong := hB.fileMove_refused req hrefused
    have hsrcDir := encodeDir_length src true
    have hdstDir := encodeDir_length dst true
    have hname := hsrc.2
    subst hreq
    dsimp only at hlong
    omega
  obtain ⟨hname, hdirChunk, hnewdir⟩ := hB.fileMove req hsent
  subst hreq
  refine ⟨_, if_neg hsent, fun α permits t t' hserve => ?_⟩
  unfold serve at hserve
  split_ifs at hserve with hpermits
  simp only [Request.chunk, hname, hdirChunk, hnewdir, dirNamed_of_fits hsrc.1,
    dirNamed_of_fits hdst.1, Option.bind_eq_bind, Option.bind_some] at hserve
  exact NameTree.item_of_move hserve

/-- A rename is sent, and gives the item at `dir` another name there. -/
theorem renameRequest_puts (hB : B.Exact) (hsrc : Sendable src) (hdst : Sendable dst)
    (hne : (split dst).2 ≠ []) (hname : (split src).2 ≠ (split dst).2) {dir : List Component}
    (hdir : (if changesDir src dst then components (split dst).1 else components (split src).1) =
      dir) :
    ∃ r, renameRequest B src dst = some r ∧
      r.Puts (dir ++ [(split src).2]) (dir ++ [(split dst).2]) := by
  have hnamed : dirNamed (some (if changesDir src dst then encodeDir dst true
      else encodeDir src true)) = some dir := by
    rw [← hdir]
    split_ifs
    · exact dirNamed_of_fits hdst.1
    · exact dirNamed_of_fits hsrc.1
  have hlength : (if changesDir src dst then encodeDir dst true
      else encodeDir src true).length ≤ MAX_CHUNK := by
    split_ifs
    · exact encodeDir_length dst true
    · exact encodeDir_length src true
  rw [renameRequest, if_pos ⟨hne, hname⟩, Request.fromBuilt]
  generalize (if changesDir src dst then encodeDir dst true else encodeDir src true) = enc
    at hnamed hlength ⊢
  generalize hreq : FileSetInfoRequest.mk (split src).2 (some (split dst).2) none (some enc) = req
  have hsent : B.fileSetInfo req ≠ [] := by
    intro hrefused
    obtain ⟨data, hmem, hlong⟩ := hB.fileSetInfo_refused req hrefused
    subst hreq
    simp only [List.mem_cons, List.not_mem_nil, or_false] at hmem
    have hsrcName := hsrc.2
    have hdstName := hdst.2
    rcases hmem with rfl | rfl | rfl | rfl <;> dsimp only [Option.getD] at hlong
    · omega
    · omega
    · exact absurd hlong (by decide)
    · omega
  obtain ⟨hnameChunk, hrename, hdirChunk⟩ := hB.fileSetInfo req hsent
  subst hreq
  refine ⟨_, if_neg hsent, fun α permits t t' hserve => ?_⟩
  unfold serve at hserve
  split_ifs at hserve with hpermits
  simp only [Request.chunk, hnameChunk, hrename, hdirChunk, hnamed, Option.bind_eq_bind,
    Option.bind_some] at hserve
  exact NameTree.item_of_move hserve

end Requests

section Moved

variable {B : Build} {src dst : List UInt8} {α : Type}
  {permits : NameTree Component α → Request → Bool} {t : NameTree Component α}

/-- The files after a move that went from `src` to `dst`, if it succeeded, or else to some free
place on the way. -/
structure Moved (t : NameTree Component α) (src dst : List Component)
    (after : NameTree Component α × Bool) : Prop where
  /-- If every request has succeeded, what was at `src` is at `dst`. -/
  succeeded : after.2 = true → after.1.item = NameTree.relocated t.item src dst
  /-- If one has failed, what was at `src` is there or where nothing was, and nothing else has
  moved. -/
  failed : after.2 = false → ∃ place, (place = src ∨ t.item place = none) ∧
    after.1.item = NameTree.relocated t.item src place

theorem moveFile_nothing (h : moves B src dst = []) : moveFile B permits t src dst = (t, true) := by
  simp only [moveFile, hxFileMove, h]

theorem moveFile_one {r : Request} (h : moves B src dst = [r]) :
    moveFile B permits t src dst = ((serve permits t r).getD t, (serve permits t r).isSome) := by
  simp only [moveFile, hxFileMove, h, List.head?_nil, answered, ite_self]

/-- A rename that waits for a move is not sent if the move fails. -/
theorem moveFile_of_none {first second : Request} (h : moves B src dst = [first, second])
    (hserve : serve permits t first = none) : moveFile B permits t src dst = (t, false) := by
  simp only [moveFile, hxFileMove, h, hserve]
  rfl

/-- It is sent once the move has succeeded. -/
theorem moveFile_of_some {first second : Request} (h : moves B src dst = [first, second])
    {t' : NameTree Component α} (hserve : serve permits t first = some t') :
    moveFile B permits t src dst =
      ((serve permits t' second).getD t', (serve permits t' second).isSome) := by
  simp only [moveFile, hxFileMove, h, hserve]
  rfl

private theorem Moved.one {r : Request} {place place' : List Component}
    (h : r.Puts place place') :
    Moved t place place' ((serve permits t r).getD t, (serve permits t r).isSome) := by
  cases hserve : serve permits t r with
  | none =>
    exact ⟨fun h => Bool.noConfusion h, fun _ =>
      ⟨place, Or.inl rfl, (NameTree.relocated_self t.item place).symm⟩⟩
  | some t' => exact ⟨fun _ => (h α permits t t' hserve).1, fun h => Bool.noConfusion h⟩

/-- A move to another path puts the item there if every request that is sent succeeds, and moves no
other item if one fails. A move to the same path asks for nothing. -/
theorem moveFile_moves (hB : B.Exact) (hsrc : IsAbsolute src) (hdst : IsAbsolute dst)
    (hsrcFits : Sendable src) (hdstFits : Sendable dst)
    (permits : NameTree Component α → Request → Bool) (t : NameTree Component α) :
    Moved t (components src) (components dst) (moveFile B permits t src dst) ∧
      moves B src src = [] := by
  obtain ⟨dir, name, hparts, hdir⟩ := hsrc.exists_parts
  obtain ⟨dir', name', hparts', hdir'⟩ := hdst.exists_parts
  have hchanges := changesDir_eq hparts hparts' hdir hdir'
  have hself : moves B src src = [] := by
    rw [moves, moveRequest, if_neg (by simp [changesDir]), renameRequest, if_neg (by simp)]
    rfl
  have hkeeps (hname : name = name') : renameRequest B src dst = none :=
    if_neg fun h => h.2 (hparts.split_name.trans (hname.trans hparts'.split_name.symm))
  have hrenames (hname : name ≠ name') : ∃ r, renameRequest B src dst = some r ∧
      r.Puts (dir' ++ [name]) (dir' ++ [name']) := by
    have hputs := renameRequest_puts hB hsrcFits hdstFits
      (by rw [hparts'.split_name]; exact hparts'.name_ne)
      (by rwa [hparts.split_name, hparts'.split_name]) rfl
    have hplace : (if changesDir src dst then components (split dst).1
        else components (split src).1) = dir' := by
      rw [hparts.split_dir, hparts'.split_dir, hchanges]
      split_ifs with hsame
      · rfl
      · have heq : dir' = dir := by simpa using hsame
        exact heq.symm
    rwa [hplace, hparts.split_name, hparts'.split_name] at hputs
  refine ⟨?_, hself⟩
  rw [hparts.components_eq, hparts'.components_eq]
  by_cases hsame : dir' = dir
  · have hmove : moveRequest B src dst = none := by
      rw [moveRequest, hchanges, hsame]
      simp
    by_cases hname : name = name'
    · have hmoves : moves B src dst = [] := by rw [moves, hmove, hkeeps hname]; rfl
      rw [moveFile_nothing hmoves, hsame, ← hname]
      exact ⟨fun _ => (NameTree.relocated_self t.item _).symm, fun h => Bool.noConfusion h⟩
    · obtain ⟨r, hrename, hputs⟩ := hrenames hname
      have hmoves : moves B src dst = [r] := by rw [moves, hmove, hrename]; rfl
      rw [moveFile_one hmoves, ← hsame]
      exact Moved.one hputs
  · obtain ⟨first, hmove, hputs⟩ := moveRequest_puts hB hsrcFits hdstFits
      (hchanges.trans (decide_eq_true hsame))
    rw [hparts.split_dir, hparts'.split_dir, hparts.split_name] at hputs
    by_cases hname : name = name'
    · have hmoves : moves B src dst = [first] := by rw [moves, hmove, hkeeps hname]; rfl
      rw [moveFile_one hmoves, ← hname]
      exact Moved.one hputs
    · obtain ⟨second, hrename, hputs'⟩ := hrenames hname
      have hmoves : moves B src dst = [first, second] := by rw [moves, hmove, hrename]; rfl
      cases hserve : serve permits t first with
      | none =>
        rw [moveFile_of_none hmoves hserve]
        exact ⟨fun h => Bool.noConfusion h, fun _ =>
          ⟨_, Or.inl rfl, (NameTree.relocated_self t.item _).symm⟩⟩
      | some t' =>
        obtain ⟨hitem, hfree⟩ := hputs α permits t t' hserve
        rw [moveFile_of_some hmoves hserve]
        cases hserve' : serve permits t' second with
        | none => exact ⟨fun h => Bool.noConfusion h, fun _ => ⟨_, Or.inr hfree, hitem⟩⟩
        | some t'' =>
          refine ⟨fun _ => ?_, fun h => Bool.noConfusion h⟩
          have hitem' := (hputs' α permits t' t'' hserve').1
          rw [hitem, NameTree.relocated_relocated hfree] at hitem'
          exact hitem'

end Moved

/-- The builders that fill the chunks in the order of the wire do. -/
theorem wire_exact : wire.Exact where
  fileMove := by
    intro req h
    simp only [wire, wireChunks] at h ⊢
    split at h
    · rename_i hfits
      rw [if_pos hfits]
      exact ⟨rfl, rfl, rfl⟩
    · exact absurd rfl h
  fileMove_refused := wire_lawful.fileMove_refused
  fileSetInfo := by
    intro req h
    simp only [wire, wireChunks] at h ⊢
    split at h
    · rename_i hfits
      rw [if_pos hfits]
      obtain ⟨name, _ | rename, _ | comment, _ | dir⟩ := req <;> exact ⟨rfl, rfl, rfl⟩
    · exact absurd rfl h
  fileSetInfo_refused := by
    intro req h
    simp only [wire, wireChunks] at h
    split at h
    · cases h
    · rename_i hlong
      by_contra hnone
      simp only [List.mem_cons, List.not_mem_nil, or_false, exists_eq_or_imp, exists_eq_left,
        not_or, Nat.not_lt] at hnone
      obtain ⟨hname, hrename, hcomment, hdir⟩ := hnone
      apply hlong
      obtain ⟨name, _ | rename, _ | comment, _ | dir⟩ := req <;>
        simp_all only [optional, Option.getD_some, Option.getD_none, Option.toList_some,
          Option.toList_none, List.map_cons, List.map_nil, List.nil_append, List.cons_append,
          List.all_cons, List.all_nil, decide_true, Bool.and_self]

/-- A file `f` in a folder `a`, and a folder `b`. -/
def twoFolders : NameTree Component Unit where
  item path :=
    if path = [] ∨ path = [[97]] ∨ path = [[98]] then some ⟨true, ()⟩
    else if path = [[97], [102]] then some ⟨false, ()⟩
    else none
  root := rfl
  above path name h := by
    have hpath : path = [] ∨ path = [[97]] := by
      rcases path with _ | ⟨first, _ | ⟨second, rest⟩⟩
      · exact Or.inl rfl
      · right
        split_ifs at h with hfolder hfile
        · simp at hfolder
        · simp only [List.cons_append, List.nil_append, List.cons.injEq] at hfile
          rw [hfile.1]
        · cases h
      · split_ifs at h with hfolder hfile
        · simp at hfolder
        · simp at hfile
        · cases h
    rcases hpath with rfl | rfl <;> rfl

/-- The file goes into the other folder and gets another name. -/
theorem f_moved :
    Moved twoFolders [[97], [102]] [[98], [103]]
        (moveFile wire (fun _ _ => true) twoFolders [47, 97, 47, 102] [47, 98, 47, 103]) ∧
      moves wire [47, 97, 47, 102] [47, 97, 47, 102] = [] ∧
      (moveFile wire (fun _ _ => true) twoFolders [47, 97, 47, 102] [47, 98, 47, 103]).2 =
        true := by
  have h := moveFile_moves wire_exact (show IsAbsolute [47, 97, 47, 102] by decide)
    (show IsAbsolute [47, 98, 47, 103] by decide) (by decide) (by decide) (fun _ _ => true)
    twoFolders
  exact ⟨h.1, h.2, by decide⟩

end Gtkhx.Requests
