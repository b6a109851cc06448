import Gtkhx.Requests.Path

/-!
# File requests

The builders of the file-browser requests. Each names a directory in a DIR chunk and an
item in it in a FILE_NAME chunk. The chunks themselves are filled by builders outside the
repository, which refuse a chunk that is too long, so those are parameters.
-/

namespace Gtkhx.Requests

/-- The transactions of file requests. -/
inductive ClientHdr where
  | fileList
  | fileGet
  | filePut
  | fileDelete
  | fileMkdir
  | fileGetInfo
  | fileSetInfo
  | fileMove
  | fileGetFolder
  | filePutFolder
  deriving DecidableEq, Repr

/-- A chunk's tag and its data. -/
abbrev Chunk := UInt16 × List UInt8

/-- The upload's size. -/
def TAG_HTXF_SIZE : UInt16 := 0x006c

/-- The name of an item. -/
def TAG_FILE_NAME : UInt16 := 0x00c9

/-- The directory it is in. -/
def TAG_DIR : UInt16 := 0x00ca

/-- The resume list. -/
def TAG_RFLT : UInt16 := 0x00cb

/-- A resumed upload. -/
def TAG_FILE_PREVIEW : UInt16 := 0x00cc

/-- A comment. -/
def TAG_FILE_COMMENT : UInt16 := 0x00d2

/-- A new name. -/
def TAG_FILE_RENAME : UInt16 := 0x00d3

/-- The directory an item is moved to. -/
def TAG_DIR_RENAME : UInt16 := 0x00d4

/-- How many items a folder upload has. -/
def TAG_FILE_NFILES : UInt16 := 0x00dc

/-- The data of the first chunk with a tag. -/
def chunk (chunks : List Chunk) (tag : UInt16) : Option (List UInt8) :=
  (chunks.find? (·.1 = tag)).map (·.2)

/-- One request: the transaction and its chunks, in order. -/
structure Request where
  /-- The transaction. -/
  opcode : ClientHdr
  /-- Its chunks. -/
  chunks : List Chunk
  deriving DecidableEq, Repr

/-- `Request::chunk`. -/
def Request.chunk (r : Request) (tag : UInt16) : Option (List UInt8) :=
  Requests.chunk r.chunks tag

/-- `from_built`: the request whose chunks a builder filled, none if it refused. -/
def Request.fromBuilt (opcode : ClientHdr) (chunks : List Chunk) : Option Request :=
  if chunks = [] then none else some ⟨opcode, chunks⟩

/-- What `build_file_setinfo_chunks` is given. -/
structure FileSetInfoRequest where
  /-- The item. -/
  name : Component
  /-- Its new name. -/
  rename : Option Component
  /-- Its comment. -/
  comment : Option (List UInt8)
  /-- The directory it is in. -/
  dir : Option (List UInt8)

/-- What `build_file_move_chunks` is given. -/
structure FileMoveRequest where
  /-- The item. -/
  name : Component
  /-- The directory it is in. -/
  dir : List UInt8
  /-- The directory it goes to. -/
  dirRename : List UInt8

/-- What `build_file_get_chunks` is given. -/
structure FileGetRequest where
  /-- The file. -/
  name : Component
  /-- The directory it is in. -/
  dir : Option (List UInt8)
  /-- The resume list. -/
  rflt : Option (List UInt8)

/-- What `build_file_put_chunks` is given. -/
structure FilePutRequest where
  /-- The file. -/
  name : Component
  /-- The directory it goes to. -/
  dir : Option (List UInt8)
  /-- The rest of a file that the server holds part of. -/
  hasPreview : Bool
  /-- Its size. -/
  size : UInt32
  /-- Its 64-bit size. -/
  size64 : Option UInt64

/-- What `build_file_putfolder_chunks` is given. -/
structure FilePutFolderRequest where
  /-- The folder. -/
  name : Component
  /-- The directory it goes to. -/
  dir : Option (List UInt8)
  /-- A folder that the server holds part of. -/
  resume : Bool
  /-- The size of its files. -/
  size : UInt32
  /-- How many items it has. -/
  nfiles : UInt32

/-- `hxproto::build`: the chunks of each request, none if the input is refused. -/
structure Build where
  /-- `build_file_list_chunks`. -/
  fileList : (dir : List UInt8) → List Chunk
  /-- `build_file_mkdir_chunks`. -/
  fileMkdir : (dir : List UInt8) → List Chunk
  /-- `build_file_delete_chunks`. -/
  fileDelete : (name : Component) → (dir : Option (List UInt8)) → List Chunk
  /-- `build_file_getinfo_chunks`. -/
  fileGetInfo : (name : Component) → (dir : Option (List UInt8)) → List Chunk
  /-- `build_file_setinfo_chunks`. -/
  fileSetInfo : FileSetInfoRequest → List Chunk
  /-- `build_file_move_chunks`. -/
  fileMove : FileMoveRequest → List Chunk
  /-- `build_file_get_chunks`. -/
  fileGet : FileGetRequest → List Chunk
  /-- `build_file_getfolder_chunks`. -/
  fileGetFolder : (name : Component) → (dir : Option (List UInt8)) → List Chunk
  /-- `build_file_put_chunks`. -/
  filePut : FilePutRequest → List Chunk
  /-- `build_file_putfolder_chunks`. -/
  filePutFolder : FilePutFolderRequest → List Chunk

/-- The chunks, unless refused, name an item and its directory. -/
def Carries (chunks : List Chunk) (name : Option Component) (dir : Option (List UInt8)) : Prop :=
  chunks ≠ [] → chunk chunks TAG_FILE_NAME = name ∧ chunk chunks TAG_DIR = dir

/-- What the builders of chunks do: they carry what they are given, and a move is refused
for a chunk that is too long, as a rename is. -/
structure Build.Lawful (B : Build) : Prop where
  fileList : ∀ dir, Carries (B.fileList dir) none (some dir)
  fileMkdir : ∀ dir, Carries (B.fileMkdir dir) none (some dir)
  fileDelete : ∀ name dir, Carries (B.fileDelete name dir) (some name) dir
  fileGetInfo : ∀ name dir, Carries (B.fileGetInfo name dir) (some name) dir
  fileSetInfo : ∀ req, Carries (B.fileSetInfo req) (some req.name) req.dir
  fileMove : ∀ req, Carries (B.fileMove req) (some req.name) (some req.dir)
  fileGet : ∀ req, Carries (B.fileGet req) (some req.name) req.dir
  fileGetFolder : ∀ name dir, Carries (B.fileGetFolder name dir) (some name) dir
  filePut : ∀ req, Carries (B.filePut req) (some req.name) req.dir
  filePutFolder : ∀ req, Carries (B.filePutFolder req) (some req.name) req.dir
  /-- A move is refused only for a chunk that is too long. -/
  fileMove_refused : ∀ req, B.fileMove req = [] →
    MAX_CHUNK < req.name.length ∨ MAX_CHUNK < req.dir.length ∨ MAX_CHUNK < req.dirRename.length
  /-- A change of an item with a name that is too long is refused. -/
  fileSetInfo_refused : ∀ req, MAX_CHUNK < req.name.length → B.fileSetInfo req = []

/-- The DIR chunk of a directory, where the root has none. -/
def dirBelowRoot (dir : List UInt8) : Option (List UInt8) :=
  if belowRoot dir then some (encodeDir dir false) else none

/-- The DIR chunk of the directory of an item, where a bare name has none. -/
def dirOfItem (path : List UInt8) : Option (List UInt8) :=
  if (split path).1 ≠ [] then some (encodeDir path true) else none

section Builders

variable (B : Build)

/-- `list`. -/
def list (dir : List UInt8) : Option Request :=
  Request.fromBuilt .fileList (B.fileList (encodeDir dir false))

/-- `mkdir`. -/
def mkdir (path : List UInt8) : Option Request :=
  Request.fromBuilt .fileMkdir (B.fileMkdir (encodeDir path false))

/-- `delete`. -/
def delete (path : List UInt8) : Option Request :=
  Request.fromBuilt .fileDelete (B.fileDelete (split path).2 (dirOfItem path))

/-- `get_info`. -/
def getInfo (dir : List UInt8) (name : Component) : Option Request :=
  Request.fromBuilt .fileGetInfo (B.fileGetInfo name (dirBelowRoot dir))

/-- `set_info`, where `forWire` encodes the comment. -/
def setInfo (forWire : List UInt8 → Bool → Bool → List UInt8) (path : List UInt8)
    (rename : Option Component) (comment : Option (List UInt8)) (utf8 : Bool) : Option Request :=
  Request.fromBuilt .fileSetInfo (B.fileSetInfo
    { name := (split path).2
      rename := rename.filter (· ≠ (split path).2)
      comment := comment.map fun c => forWire c utf8 true
      dir := dirOfItem path })

/-- The directory of a path through its trailing separator. -/
def dirPrefix (path : List UInt8) : List UInt8 :=
  path.take (path.length - (split path).2.length)

/-- Whether a move from `src` to `dst` changes the directory. -/
def changesDir (src dst : List UInt8) : Bool :=
  dirPrefix dst ≠ [] ∧ dirPrefix dst ≠ dirPrefix src

/-- The FILE_MOVE of a move, if the directory changes. -/
def moveRequest (src dst : List UInt8) : Option Request :=
  if changesDir src dst then
    Request.fromBuilt .fileMove (B.fileMove
      { name := (split src).2, dir := encodeDir src true, dirRename := encodeDir dst true })
  else none

/-- The FILE_SETINFO of a move, if the name changes. -/
def renameRequest (src dst : List UInt8) : Option Request :=
  if (split dst).2 ≠ [] ∧ (split src).2 ≠ (split dst).2 then
    Request.fromBuilt .fileSetInfo (B.fileSetInfo
      { name := (split src).2
        rename := some (split dst).2
        comment := none
        dir := some (if changesDir src dst then encodeDir dst true else encodeDir src true) })
  else none

/-- `moves`. -/
def moves (src dst : List UInt8) : List Request :=
  (moveRequest B src dst).toList ++ (renameRequest B src dst).toList

/-- `resume_rflt`: the resume list from two offsets. -/
def resumeRflt (dataPos rsrcPos : UInt32) : List UInt8 :=
  [82, 70, 76, 84, 0, 1] ++ List.replicate 34 0 ++ [0, 2] ++
    ([68, 65, 84, 65] ++ BigEndian.ofU32 dataPos ++ List.replicate 8 0) ++
    ([77, 65, 67, 82] ++ BigEndian.ofU32 rsrcPos ++ List.replicate 8 0)

/-- `get_from`. -/
def getFrom (dir : List UInt8) (name : Component) (dataPos : UInt32) : Option Request :=
  Request.fromBuilt .fileGet (B.fileGet
    { name := name
      dir := dirBelowRoot dir
      rflt := if 0 < dataPos then some (resumeRflt dataPos 0) else none })

/-- `get_folder`. -/
def getFolder (dir : List UInt8) (name : Component) : Option Request :=
  Request.fromBuilt .fileGetFolder (B.fileGetFolder name (dirBelowRoot dir))

/-- `put`. -/
def put (dir : List UInt8) (name : Component) (size : UInt32) (resume : Bool) : Option Request :=
  Request.fromBuilt .filePut (B.filePut
    { name := name, dir := dirBelowRoot dir, hasPreview := resume, size := size, size64 := none })

/-- `put_folder`. -/
def putFolder (dir : List UInt8) (name : Component) (totalBytes : UInt64) (nfiles : UInt32)
    (resume : Bool) : Option Request :=
  Request.fromBuilt .filePutFolder (B.filePutFolder
    { name := name
      dir := dirBelowRoot dir
      resume := resume
      size := .ofNat (min totalBytes.toNat (2 ^ 32 - 1))
      nfiles := nfiles })

end Builders

/-- A call of one of the builders. -/
inductive Call where
  | list (dir : List UInt8)
  | mkdir (path : List UInt8)
  | delete (path : List UInt8)
  | getInfo (dir : List UInt8) (name : Component)
  | setInfo (path : List UInt8) (rename : Option Component) (comment : Option (List UInt8))
      (utf8 : Bool)
  | moves (src dst : List UInt8)
  | getFrom (dir : List UInt8) (name : Component) (dataPos : UInt32)
  | getFolder (dir : List UInt8) (name : Component)
  | put (dir : List UInt8) (name : Component) (size : UInt32) (resume : Bool)
  | putFolder (dir : List UInt8) (name : Component) (totalBytes : UInt64) (nfiles : UInt32)
      (resume : Bool)

/-- The requests of a call. -/
def Call.requests (B : Build) (forWire : List UInt8 → Bool → Bool → List UInt8) :
    Call → List Request
  | .list dir => (Requests.list B dir).toList
  | .mkdir path => (Requests.mkdir B path).toList
  | .delete path => (Requests.delete B path).toList
  | .getInfo dir name => (Requests.getInfo B dir name).toList
  | .setInfo path rename comment utf8 =>
    (Requests.setInfo B forWire path rename comment utf8).toList
  | .moves src dst => Requests.moves B src dst
  | .getFrom dir name dataPos => (Requests.getFrom B dir name dataPos).toList
  | .getFolder dir name => (Requests.getFolder B dir name).toList
  | .put dir name size resume => (Requests.put B dir name size resume).toList
  | .putFolder dir name totalBytes nfiles resume =>
    (Requests.putFolder B dir name totalBytes nfiles resume).toList

/-- An item of the server's tree: the components of a directory, and a name in it, or none
where the directory itself is meant. -/
abbrev Target := List Component × Option Component

/-- The item that the last component of a path names. -/
def itemAt (path : List UInt8) : Target := (components (split path).1, some (split path).2)

/-- The item that a call names, for each of its requests. A rename that follows a move is
of the item where it has moved to. -/
def Call.target : Call → ClientHdr → Target
  | .list path, _ | .mkdir path, _ => (components path, none)
  | .delete path, _ | .setInfo path .., _ => itemAt path
  | .getInfo dir name, _ | .getFrom dir name _, _ | .getFolder dir name, _ | .put dir name .., _
  | .putFolder dir name .., _ => (components dir, some name)
  | .moves src dst, .fileSetInfo =>
    if changesDir src dst then (components (split dst).1, some (split src).2) else itemAt src
  | .moves src _, _ => itemAt src

/-- The directory that a DIR chunk names; the root where there is none. -/
def dirNamed : Option (List UInt8) → Option (List Component)
  | none => some []
  | some enc => decodeDir enc

/-- A request names this item. -/
def Request.Names (r : Request) (t : Target) : Prop :=
  dirNamed (r.chunk TAG_DIR) = some t.1 ∧ r.chunk TAG_FILE_NAME = t.2

/-- The item with as much of its directory as a DIR chunk carries. -/
def Target.carried (t : Target) : Target := (sent t.1, t.2)

theorem belowRoot_false {dir : List UInt8} (h : belowRoot dir = false) : components dir = [] := by
  by_cases hnil : dir = []
  · rw [hnil, components_nil]
  · by_cases hroot : dir = [SEP]
    · rw [hroot]
      rfl
    · simp [belowRoot, hnil, hroot] at h

/-- The DIR chunk of a directory names what it carries of it. -/
theorem dirNamed_dirBelowRoot (dir : List UInt8) :
    dirNamed (dirBelowRoot dir) = some (sent (components dir)) := by
  unfold dirBelowRoot
  cases h : belowRoot dir with
  | true => exact decodeDir_encodeDir dir false
  | false =>
    rw [belowRoot_false h]
    rfl

theorem dirNamed_encodeDir_item (path : List UInt8) :
    dirNamed (some (encodeDir path true)) = some (sent (components (split path).1)) := by
  rw [dirNamed, decodeDir_encodeDir, dirParts_file]

/-- The DIR chunk of an item names what it carries of the directory it is in. -/
theorem dirNamed_dirOfItem (path : List UInt8) :
    dirNamed (dirOfItem path) = some (sent (components (split path).1)) := by
  unfold dirOfItem
  split
  · exact dirNamed_encodeDir_item path
  · rename_i h
    rw [not_not.mp h]
    rfl

theorem fromBuilt_mem {opcode : ClientHdr} {chunks : List Chunk} {r : Request}
    (h : r ∈ (Request.fromBuilt opcode chunks).toList) : r = ⟨opcode, chunks⟩ ∧ chunks ≠ [] := by
  unfold Request.fromBuilt at h
  split at h
  · cases h
  · rename_i hne
    exact ⟨by simpa using h, hne⟩

/-- A request with the chunks of an item names the item. -/
theorem names_of_carries {opcode : ClientHdr} {chunks : List Chunk} {r : Request}
    {name : Option Component} {dir : Option (List UInt8)} {parts : List Component}
    (hcarries : Carries chunks name dir) (hdir : dirNamed dir = some (sent parts))
    (hr : r ∈ (Request.fromBuilt opcode chunks).toList) :
    r.Names (Target.carried (parts, name)) := by
  obtain ⟨rfl, hne⟩ := fromBuilt_mem hr
  obtain ⟨hname, hchunk⟩ := hcarries hne
  exact ⟨(congrArg dirNamed hchunk).trans hdir, hname⟩

section Laws

variable {B : Build} (hB : B.Lawful)

include hB

theorem moveRequest_names {src dst : List UInt8} {r : Request}
    (hr : r ∈ (moveRequest B src dst).toList) :
    r.opcode = .fileMove ∧ r.Names (itemAt src).carried := by
  unfold moveRequest at hr
  split at hr
  · exact ⟨(fromBuilt_mem hr).1 ▸ rfl,
      names_of_carries (hB.fileMove _) (dirNamed_encodeDir_item src) hr⟩
  · cases hr

theorem renameRequest_names {src dst : List UInt8} {r : Request}
    (hr : r ∈ (renameRequest B src dst).toList) :
    r.opcode = .fileSetInfo ∧
      r.Names (Target.carried ((Call.moves src dst).target .fileSetInfo)) := by
  unfold renameRequest at hr
  split at hr
  · refine ⟨(fromBuilt_mem hr).1 ▸ rfl, ?_⟩
    cases hmoved : changesDir src dst with
    | true =>
      rw [hmoved] at hr
      have hnames := names_of_carries (hB.fileSetInfo _) (dirNamed_encodeDir_item dst) hr
      simpa [Call.target, hmoved] using hnames
    | false =>
      rw [hmoved] at hr
      have hnames := names_of_carries (hB.fileSetInfo _) (dirNamed_encodeDir_item src) hr
      simpa [Call.target, hmoved, itemAt] using hnames
  · cases hr

/-- A move that changes the directory and the name does not rename before it moves. -/
theorem move_before_rename {src dst : List UInt8} (hmoved : changesDir src dst = true)
    (hrename : renameRequest B src dst ≠ none) : moveRequest B src dst ≠ none := by
  intro hnone
  unfold moveRequest Request.fromBuilt at hnone
  rw [hmoved, if_pos rfl] at hnone
  split at hnone
  · rename_i hrefused
    apply hrename
    have hname : MAX_CHUNK < (split src).2.length := by
      rcases hB.fileMove_refused _ hrefused with h | h | h
      · exact h
      · exact absurd h (Nat.not_lt.mpr (encodeDir_length src true))
      · exact absurd h (Nat.not_lt.mpr (encodeDir_length dst true))
    rw [renameRequest, Request.fromBuilt, if_pos (hB.fileSetInfo_refused _ hname), ite_self]
  · cases hnone

/-- Every request names the item its call names, with as much of the directory as the DIR
chunk carries. -/
theorem requests_name (forWire : List UInt8 → Bool → Bool → List UInt8) (call : Call)
    {r : Request} (hr : r ∈ call.requests B forWire) :
    r.Names (call.target r.opcode).carried := by
  cases call with
  | list dir => exact names_of_carries (hB.fileList _) (decodeDir_encodeDir dir false) hr
  | mkdir path => exact names_of_carries (hB.fileMkdir _) (decodeDir_encodeDir path false) hr
  | delete path => exact names_of_carries (hB.fileDelete _ _) (dirNamed_dirOfItem path) hr
  | getInfo dir name => exact names_of_carries (hB.fileGetInfo _ _) (dirNamed_dirBelowRoot dir) hr
  | setInfo path rename comment utf8 =>
    exact names_of_carries (hB.fileSetInfo _) (dirNamed_dirOfItem path) hr
  | moves src dst =>
    rcases List.mem_append.mp hr with hr | hr
    · obtain ⟨hopcode, hnames⟩ := moveRequest_names hB hr
      rw [hopcode]
      exact hnames
    · obtain ⟨hopcode, hnames⟩ := renameRequest_names hB hr
      rw [hopcode]
      exact hnames
  | getFrom dir name dataPos =>
    exact names_of_carries (hB.fileGet _) (dirNamed_dirBelowRoot dir) hr
  | getFolder dir name =>
    exact names_of_carries (hB.fileGetFolder _ _) (dirNamed_dirBelowRoot dir) hr
  | put dir name size resume =>
    exact names_of_carries (hB.filePut _) (dirNamed_dirBelowRoot dir) hr
  | putFolder dir name totalBytes nfiles resume =>
    exact names_of_carries (hB.filePutFolder _) (dirNamed_dirBelowRoot dir) hr

/-- Every request either names exactly the item its call names, or its directory does not
fit a DIR chunk: then it names that item's name in as much of the directory as fits. A
rename that is to follow a move is built only with the move. -/
theorem names_item_iff_fits (forWire : List UInt8 → Bool → Bool → List UInt8) (call : Call)
    {r : Request} (hr : r ∈ call.requests B forWire) :
    r.Names (call.target r.opcode).carried ∧
      (r.Names (call.target r.opcode) ↔ Fits (call.target r.opcode).1) ∧
      ∀ src dst, call = .moves src dst → changesDir src dst = true →
        ∃ move ∈ call.requests B forWire, move.opcode = .fileMove := by
  have hnames := requests_name hB forWire call hr
  refine ⟨hnames, ?_, ?_⟩
  · rw [← sent_eq_iff]
    constructor
    · intro h
      exact Option.some.inj (hnames.1.symm.trans h.1)
    · intro h
      rwa [Target.carried, h] at hnames
  · rintro src dst rfl hmoved
    rcases List.mem_append.mp hr with hr | hr
    · exact ⟨r, List.mem_append_left _ hr, (moveRequest_names hB hr).1⟩
    · have hsome : renameRequest B src dst ≠ none := by
        intro hnone
        rw [hnone] at hr
        cases hr
      obtain ⟨move, hmove⟩ := Option.ne_none_iff_exists'.mp (move_before_rename hB hmoved hsome)
      have hmem : move ∈ (moveRequest B src dst).toList := by simp [hmove]
      exact ⟨move, List.mem_append_left _ hmem, (moveRequest_names hB hmem).1⟩

end Laws

/-- The chunks, unless one is too long. -/
def wireChunks (chunks : List Chunk) : List Chunk :=
  if chunks.all (·.2.length ≤ MAX_CHUNK) then chunks else []

/-- A chunk that may be left out. -/
def optional (tag : UInt16) (data : Option (List UInt8)) : List Chunk := data.toList.map (tag, ·)

/-- Builders that fill each request's chunks in the order of the wire. -/
def wire : Build where
  fileList dir := wireChunks [(TAG_DIR, dir)]
  fileMkdir dir := wireChunks [(TAG_DIR, dir)]
  fileDelete name dir := wireChunks ((TAG_FILE_NAME, name) :: optional TAG_DIR dir)
  fileGetInfo name dir := wireChunks ((TAG_FILE_NAME, name) :: optional TAG_DIR dir)
  fileSetInfo req := wireChunks ((TAG_FILE_NAME, req.name) ::
    (optional TAG_FILE_RENAME req.rename ++ optional TAG_FILE_COMMENT req.comment ++
      optional TAG_DIR req.dir))
  fileMove req := wireChunks
    [(TAG_FILE_NAME, req.name), (TAG_DIR, req.dir), (TAG_DIR_RENAME, req.dirRename)]
  fileGet req := wireChunks ((TAG_FILE_NAME, req.name) ::
    (optional TAG_DIR req.dir ++ optional TAG_RFLT req.rflt))
  fileGetFolder name dir := wireChunks ((TAG_FILE_NAME, name) :: optional TAG_DIR dir)
  filePut req := wireChunks ((TAG_FILE_NAME, req.name) :: (optional TAG_DIR req.dir ++
    optional TAG_FILE_PREVIEW (if req.hasPreview then some [0, 1] else none) ++
    [(TAG_HTXF_SIZE, BigEndian.ofU32 req.size)]))
  filePutFolder req := wireChunks ((TAG_FILE_NAME, req.name) :: (optional TAG_DIR req.dir ++
    optional TAG_FILE_PREVIEW (if req.resume then some [0, 1] else none) ++
    [(TAG_HTXF_SIZE, BigEndian.ofU32 req.size), (TAG_FILE_NFILES, BigEndian.ofU32 req.nfiles)]))

private theorem wireChunks_carries {chunks : List Chunk} {name : Option Component}
    {dir : Option (List UInt8)} (hname : chunk chunks TAG_FILE_NAME = name)
    (hdir : chunk chunks TAG_DIR = dir) : Carries (wireChunks chunks) name dir := by
  intro hne
  unfold wireChunks at hne ⊢
  split
  · exact ⟨hname, hdir⟩
  · rename_i hlong
    rw [if_neg hlong] at hne
    exact absurd rfl hne

private theorem chunk_name_cons (name : Component) (chunks : List Chunk) :
    chunk ((TAG_FILE_NAME, name) :: chunks) TAG_FILE_NAME = some name := by
  simp [chunk]

/-- They are builders of chunks. -/
theorem wire_lawful : wire.Lawful where
  fileList dir := wireChunks_carries rfl rfl
  fileMkdir dir := wireChunks_carries rfl rfl
  fileDelete name dir := wireChunks_carries (chunk_name_cons _ _) (by cases dir <;> rfl)
  fileGetInfo name dir := wireChunks_carries (chunk_name_cons _ _) (by cases dir <;> rfl)
  fileSetInfo req := wireChunks_carries (chunk_name_cons _ _) (by
    obtain ⟨name, _ | rename, _ | comment, _ | dir⟩ := req <;> rfl)
  fileMove req := wireChunks_carries rfl rfl
  fileGet req := wireChunks_carries (chunk_name_cons _ _) (by
    obtain ⟨name, _ | dir, _ | rflt⟩ := req <;> rfl)
  fileGetFolder name dir := wireChunks_carries (chunk_name_cons _ _) (by cases dir <;> rfl)
  filePut req := wireChunks_carries (chunk_name_cons _ _) (by
    obtain ⟨name, _ | dir, _ | _, size, size64⟩ := req <;> rfl)
  filePutFolder req := wireChunks_carries (chunk_name_cons _ _) (by
    obtain ⟨name, _ | dir, _ | _, size, nfiles⟩ := req <;> rfl)
  fileMove_refused := by
    intro req h
    simp only [wire, wireChunks] at h
    split at h
    · cases h
    · rename_i hlong
      simp only [List.all_cons, List.all_nil, Bool.and_true, Bool.and_eq_true,
        decide_eq_true_eq] at hlong
      omega
  fileSetInfo_refused := by
    intro req h
    simp only [wire, wireChunks]
    rw [if_neg]
    simp [h]

/-- The file `f` in a folder `a`. -/
theorem delete_f_names :
    Request.Names ⟨.fileDelete, [(TAG_FILE_NAME, [102]), (TAG_DIR, [0, 1, 0, 0, 1, 97])]⟩
      ([[97]], some [102]) := by
  have hr : (⟨.fileDelete, [(TAG_FILE_NAME, [102]), (TAG_DIR, [0, 1, 0, 0, 1, 97])]⟩ : Request) ∈
      (Call.delete [47, 97, 47, 102]).requests wire fun c _ _ => c := by decide
  exact (names_item_iff_fits wire_lawful _ _ hr).2.1.mpr (by decide)

/-- A folder whose name has 256 bytes. -/
def longFolder : Component := List.replicate 256 120

/-- The request to delete `f` in that folder names `f` in a folder of 255 bytes. -/
theorem delete_in_long_folder :
    wire.Lawful ∧ ∃ r ∈ (Call.delete (longFolder ++ SEP :: [102])).requests wire fun c _ _ => c,
      (Call.delete (longFolder ++ SEP :: [102])).target r.opcode = ([longFolder], some [102]) ∧
      r.Names ([List.replicate 255 120], some [102]) ∧ ¬ r.Names ([longFolder], some [102]) := by
  have hsplit : split (longFolder ++ SEP :: [102]) = (longFolder, [102]) :=
    split_append (by decide)
  have hdir : components longFolder = [longFolder] := by
    rw [components_of_not_mem (by decide), if_neg (by decide)]
  obtain ⟨r, hr⟩ : ∃ r, delete wire (longFolder ++ SEP :: [102]) = some r :=
    Option.isSome_iff_exists.mp (by decide +kernel)
  have hmem : r ∈ (Call.delete (longFolder ++ SEP :: [102])).requests wire fun c _ _ => c := by
    simp [Call.requests, hr]
  have htarget : (Call.delete (longFolder ++ SEP :: [102])).target r.opcode =
      ([longFolder], some [102]) := by
    simp only [Call.target, itemAt, hsplit, hdir]
  have hnames := requests_name wire_lawful _ _ hmem
  rw [htarget, Target.carried, show sent [longFolder] = [List.replicate 255 120] by decide +kernel]
    at hnames
  refine ⟨wire_lawful, r, hmem, htarget, hnames, fun h => ?_⟩
  have hsame := Option.some.inj (hnames.1.symm.trans h.1)
  revert hsame
  decide +kernel

end Gtkhx.Requests
