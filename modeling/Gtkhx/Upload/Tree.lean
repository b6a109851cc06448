import Gtkhx.Htxf.Path
import Gtkhx.Upload.Send
import Mathlib.Data.Finset.Basic
import Mathlib.Data.List.Sort

/-!
# The tree of an uploaded folder

The local folder as an upload walks it, the entries that the walk plans, and what an upload's ledger
says of them: how many are left to offer, and whether a file that was sent from is as it was.
-/

namespace Gtkhx.Upload

open Htxf (Name joined curDir parentDir)

/-- A local file, and when it was last changed. -/
structure Dated where
  file : LocalFile
  modified : Option ℕ

/-- What a name of a local folder stands for. -/
inductive Node
  | folder (entries : List (Name × Node))
  | file (dated : Dated)
  /-- A link, a special file, or what cannot be looked at. -/
  | other

/-- A planned entry: a folder or a file, with its path's components from the upload's root. -/
structure PutEntry where
  isFolder : Bool
  components : List Name
  deriving DecidableEq

/-- `components.join(&b'/')`. -/
def PutEntry.rel (e : PutEntry) : List UInt8 := joined e.components

/-- The entries of what was walked under each name, by name, bytewise. -/
def byName (walked : List (Name × List PutEntry)) : List PutEntry :=
  (walked.mergeSort fun a b => a.1 ≤ b.1).flatMap Prod.snd

mutual

/-- What a name of a folder adds to the walk: the folder before its contents. -/
def Node.putEntries (path : List Name) : Node → List PutEntry
  | .folder entries => ⟨true, path⟩ :: byName (walked path entries)
  | .file _ => [⟨false, path⟩]
  | .other => []

/-- Each name of a folder, with what it adds to the walk. -/
def walked (path : List Name) : List (Name × Node) → List (Name × List PutEntry)
  | [] => []
  | (name, node) :: rest => (name, node.putEntries (path ++ [name])) :: walked path rest

end

/-- `collect_put_entries`, of a folder's entries as they are listed. -/
def collectPutEntries (path : List Name) (entries : List (Name × Node)) : List PutEntry :=
  byName (walked path entries)

/-- What is at a path below a folder. -/
def nodeAt : List Name → List (Name × Node) → Option Node
  | [], entries => some (.folder entries)
  | name :: rest, entries =>
    match entries.lookup name with
    | some (.folder inner) => nodeAt rest inner
    | some node => if rest = [] then some node else none
    | none => none

/-- The regular file at a path. -/
def fileAt (entries : List (Name × Node)) (path : List Name) : Option Dated :=
  match nodeAt path entries with
  | some (.file dated) => some dated
  | _ => none

/-- A file an upload began sending, as it was then. -/
structure Offered where
  len : ℕ
  modified : Option ℕ
  deriving DecidableEq

/-- `Offered::of`. -/
def Dated.offered (d : Dated) : Offered := ⟨d.file.data.length, d.modified⟩

/-- What a folder upload has sent: the files it began sending, the folders the server has made, and
those it may have. -/
structure UploadLedger where
  files : List (List UInt8 × Offered) := []
  folders : Finset (List UInt8) := ∅
  unsure : Finset (List UInt8) := ∅

namespace UploadLedger

variable (ledger : UploadLedger)

/-- `files.get`. -/
def sent? (rel : List UInt8) : Option Offered := ledger.files.lookup rel

/-- `files.insert`. -/
def began (rel : List UInt8) (was : Offered) : UploadLedger :=
  { ledger with files := (rel, was) :: ledger.files.filter (·.1 ≠ rel) }

/-- A folder is made. -/
def makes (rel : List UInt8) : UploadLedger :=
  { ledger with folders := insert rel ledger.folders, unsure := ledger.unsure.erase rel }

/-- A folder may be made. -/
def doubts (rel : List UInt8) : UploadLedger :=
  { ledger with unsure := insert rel ledger.unsure }

/-- Every folder is to be offered again. -/
def reoffers : UploadLedger :=
  { ledger with folders := ∅, unsure := ledger.unsure ∪ ledger.folders }

/-- The server has made this entry. -/
def made (e : PutEntry) : Bool := e.isFolder && decide (e.rel ∈ ledger.folders)

/-- `changed`, with what is at each path now: a file that was sent from is not as it was. One that
is gone is not offered again. -/
def changed (now : List UInt8 → Option Offered) : Bool :=
  ledger.files.any fun sent => (now sent.1).any fun offered => offered ≠ sent.2

end UploadLedger

/-- The entries that are left to offer. -/
def leftOf (sent : Option UploadLedger) (entries : List PutEntry) : List PutEntry :=
  entries.filter fun e => !(sent.any fun ledger => ledger.made e)

/-- `put_totals`: the bytes of the files, and how many entries are left to offer. -/
def putTotals (entries : List (Name × Node)) (sent : Option UploadLedger) : ℕ × ℕ :=
  let planned := collectPutEntries [] entries
  let lens := (planned.filter fun e => !e.isFolder).filterMap fun e =>
    (fileAt entries e.components).map fun dated => dated.file.data.length
  (lens.foldl Htxf.satAdd64 0, min (leftOf sent planned).length (2 ^ 32 - 1))

/-- A name that a folder may list. -/
def Proper (name : Name) : Prop :=
  name ≠ [] ∧ name ≠ curDir ∧ name ≠ parentDir ∧ 47 ∉ name

mutual

/-- What a folder lists, and the folders in it, have names that tell them apart. -/
def Node.Listed : Node → Prop
  | .folder entries => Listing entries
  | .file _ => True
  | .other => True

/-- The names of a folder are proper and distinct, and so in the folders in it. -/
def Listing : List (Name × Node) → Prop
  | [] => True
  | (name, node) :: rest =>
    Proper name ∧ name ∉ rest.map Prod.fst ∧ node.Listed ∧ Listing rest

end

theorem byName_perm (walked : List (Name × List PutEntry)) :
    (byName walked).Perm (walked.flatMap Prod.snd) :=
  (List.mergeSort_perm _ _).flatMap_right _

/-- Entries below a path, each with a path of its own. -/
structure Planned (path : List Name) (planned : List PutEntry) : Prop where
  nodup : (planned.map PutEntry.components).Nodup
  below : ∀ e ∈ planned, path <+: e.components
  proper : ∀ e ∈ planned, ∀ name ∈ e.components, name ∈ path ∨ Proper name

namespace Planned

variable {path : List Name} {planned planned' : List PutEntry}

theorem perm (h : Planned path planned) (hperm : planned'.Perm planned) :
    Planned path planned' where
  nodup := (hperm.map _).nodup_iff.mpr h.nodup
  below e he := h.below e (hperm.subset he)
  proper e he := h.proper e (hperm.subset he)

/-- The walk of a name is planned below its folder. -/
theorem up {name : Name} (hname : Proper name) (h : Planned (path ++ [name]) planned) :
    Planned path planned where
  nodup := h.nodup
  below e he := (List.prefix_append _ _).trans (h.below e he)
  proper e he part hpart := by
    rcases h.proper e he part hpart with hmem | hproper
    · rcases List.mem_append.mp hmem with hmem | hmem
      · exact Or.inl hmem
      · exact Or.inr (List.mem_singleton.mp hmem ▸ hname)
    · exact Or.inr hproper

/-- What is planned below two names has no path in common. -/
theorem append {name : Name} (hname : Proper name) (h : Planned (path ++ [name]) planned)
    (h' : Planned path planned') (hother : ∀ e ∈ planned', ¬path ++ [name] <+: e.components) :
    Planned path (planned ++ planned') where
  nodup := by
    rw [List.map_append]
    refine List.Nodup.append h.nodup h'.nodup fun components hleft hright => ?_
    obtain ⟨e, he, rfl⟩ := List.mem_map.mp hleft
    obtain ⟨e', he', heq⟩ := List.mem_map.mp hright
    exact hother e' he' (heq ▸ h.below e he)
  below e he := (List.mem_append.mp he).elim ((h.up hname).below e) (h'.below e)
  proper e he := (List.mem_append.mp he).elim ((h.up hname).proper e) (h'.proper e)

/-- A folder comes before what is planned below it. -/
theorem cons (h : Planned path planned) (hbelow : ∀ e ∈ planned, e.components ≠ path)
    (isFolder : Bool) : Planned path (⟨isFolder, path⟩ :: planned) where
  nodup := by
    rw [List.map_cons, List.nodup_cons]
    refine ⟨fun hmem => ?_, h.nodup⟩
    obtain ⟨e, he, heq⟩ := List.mem_map.mp hmem
    exact hbelow e he heq
  below e he := by
    rcases List.mem_cons.mp he with rfl | he
    · exact List.prefix_refl path
    · exact h.below e he
  proper e he name hname := by
    rcases List.mem_cons.mp he with rfl | he
    · exact Or.inl hname
    · exact h.proper e he name hname

end Planned

mutual

/-- What a name adds to the walk is planned below its path. -/
theorem Node.putEntries_planned (path : List Name) :
    ∀ {node : Node}, node.Listed → Planned path (node.putEntries path)
  | .folder entries, h => by
    obtain ⟨hplanned, hnames⟩ := walked_planned path h
    have hperm := byName_perm (walked path entries)
    rw [Node.putEntries]
    refine (hplanned.perm hperm).cons (fun e he heq => ?_) true
    obtain ⟨name, -, hbelow⟩ := hnames e (hperm.subset he)
    have hlen := hbelow.length_le
    rw [heq, List.length_append, List.length_singleton] at hlen
    omega
  | .file _, _ => by
    rw [Node.putEntries]
    exact ⟨List.nodup_singleton _, by simp, by simp_all⟩
  | .other, _ => by
    rw [Node.putEntries]
    exact ⟨List.nodup_nil, by simp, by simp⟩

/-- So is what the names of a folder add together, each below its own. -/
theorem walked_planned (path : List Name) :
    ∀ {entries : List (Name × Node)}, Listing entries →
      Planned path ((walked path entries).flatMap Prod.snd) ∧
        ∀ e ∈ (walked path entries).flatMap Prod.snd,
          ∃ name ∈ entries.map Prod.fst, path ++ [name] <+: e.components
  | [], _ => by
    rw [walked]
    exact ⟨⟨List.nodup_nil, by simp, by simp⟩, by simp⟩
  | (name, node) :: rest, h => by
    rw [Listing] at h
    obtain ⟨hname, hout, hnode, hrest⟩ := h
    have hfirst := Node.putEntries_planned (path ++ [name]) hnode
    obtain ⟨hplanned, hnames⟩ := walked_planned path hrest
    rw [walked, List.flatMap_cons]
    refine ⟨hfirst.append hname hplanned fun e he hbelow => ?_, fun e he => ?_⟩
    · obtain ⟨name', hmem, hbelow'⟩ := hnames e he
      have hsame : path ++ [name] = path ++ [name'] :=
        (List.prefix_of_prefix_length_le hbelow hbelow' (by simp)).eq_of_length (by simp)
      obtain rfl : name = name' := by simpa using hsame
      exact hout hmem
    · rcases List.mem_append.mp he with he | he
      · exact ⟨name, by simp, hfirst.below e he⟩
      · obtain ⟨name', hmem, hbelow⟩ := hnames e he
        exact ⟨name', List.mem_cons_of_mem _ hmem, hbelow⟩

end

/-- A folder as it is listed. -/
structure LocalFolder where
  entries : List (Name × Node)
  listed : Listing entries

namespace LocalFolder

variable (folder : LocalFolder)

/-- The entries an upload of it plans. -/
def planned : List PutEntry := collectPutEntries [] folder.entries

theorem planned_planned : Planned [] folder.planned :=
  (walked_planned [] folder.listed).1.perm (byName_perm _)

theorem components_ne_nil {e : PutEntry} (he : e ∈ folder.planned) : e.components ≠ [] := by
  obtain ⟨name, -, hbelow⟩ :=
    (walked_planned [] folder.listed).2 e ((byName_perm _).subset he)
  intro hnil
  have hlen := hbelow.length_le
  rw [hnil] at hlen
  simp at hlen

theorem proper {e : PutEntry} (he : e ∈ folder.planned) {name : Name}
    (hname : name ∈ e.components) : Proper name :=
  (folder.planned_planned.proper e he name hname).resolve_left List.not_mem_nil

/-- An entry's path, joined, says which entry it is. -/
theorem components_of_rel {e e' : PutEntry} (he : e ∈ folder.planned) (he' : e' ∈ folder.planned)
    (hrel : e.rel = e'.rel) : e.components = e'.components := by
  have hsplit {x : PutEntry} (hx : x ∈ folder.planned) : x.rel.splitOn 47 = x.components :=
    List.splitOn_intercalate _ (fun name hname => (folder.proper hx hname).2.2.2)
      (folder.components_ne_nil hx)
  rw [← hsplit he, hrel, hsplit he']

theorem nodup_rel : (folder.planned.map PutEntry.rel).Nodup := by
  rw [List.nodup_map_iff_inj_on folder.planned_planned.nodup.of_map]
  intro e he e' he' hrel
  exact List.inj_on_of_nodup_map folder.planned_planned.nodup he he'
    (folder.components_of_rel he he' hrel)

end LocalFolder

end Gtkhx.Upload
