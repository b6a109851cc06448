import Gtkhx.Icons.Resources
import Mathlib.Data.List.Induction
import Mathlib.Data.List.Nodup
import Mathlib.Data.List.ReduceOption

/-!
# The icon picker

The icons are resources of files that are found in an order. `icon_enum.c` lists their IDs for
the picker, and `load_icon`, which everything that draws an icon calls, finds the one of an ID:
the picker lists what is found, and nothing else.
-/

namespace Gtkhx.Icons

def TYPE_cicn : ℕ := 0x6369636e

def DEFAULT_ICON : ℕ := 135

/-- The icon files in the order in which they are looked at, those that are no forks as none. -/
abbrev IconFiles := List (Option ResourceFork)

/-- An ID is noted the first time it is met. -/
def noteId (seen : List ℕ) (r : Resource) : List ℕ :=
  if r.resid ∈ seen then seen else seen ++ [r.resid]

/-- The IDs of one file's icons. An icon that cannot be read is passed over. -/
def noteIds (seen : List ℕ) (fork : ResourceFork) : List ℕ :=
  (List.range (fork.numResOfType TYPE_cicn)).foldl
    (fun seen n => (fork.nthResOfType TYPE_cicn n).elim seen (noteId seen)) seen

/-- `hx_icon_ids_begin`: the snapshot that `hx_icon_ids_nth` reads. -/
def hxIconIds (files : IconFiles) : List ℕ :=
  (files.reduceOption.foldl noteIds []).mergeSort fun x y => decide (x ≤ y)

/-- The resource of the first file that has the ID. -/
def findIcon (files : IconFiles) (icon : ℕ) : Option Resource :=
  files.reduceOption.findSome? (·.resOfId TYPE_cicn icon)

/-- `cicn_to_pixbuf`. A panic of the decoder does not return. -/
def cicnToPixbuf (cicn : List UInt8) : Except Failure (Option Rgba) :=
  match decode cicn with
  | .ok image => .ok (some image)
  | .error .malformed => .ok none
  | .error .panic => .error .panic

/-- `load_icon` without a default. -/
def loadIconOnce (files : IconFiles) (icon : ℕ) : Except Failure (Option Rgba) :=
  match findIcon files icon with
  | some cicn => cicnToPixbuf cicn.data
  | none => .ok none

/-- `load_icon`. -/
def loadIcon (files : IconFiles) (icon : ℕ) (recurse : Bool) : Except Failure (Option Rgba) := do
  match ← loadIconOnce files icon with
  | some image => pure (some image)
  | none => if recurse then loadIconOnce files DEFAULT_ICON else pure none

/-- `hx_icon_pixbuf_for_id`. -/
def hxIconPixbufForId (files : IconFiles) (id : ℤ) (fallback : Bool) :
    Except Failure (Option Rgba) :=
  if id < 0 ∨ 65535 < id then .ok none else loadIcon files id.toNat fallback

/-- The IDs noted are those of the resources met, each once. -/
theorem foldl_noteId (rs : List Resource) {seen : List ℕ} (hseen : seen.Nodup) :
    (rs.foldl noteId seen).Nodup ∧
      ∀ id, id ∈ rs.foldl noteId seen ↔ id ∈ seen ∨ ∃ r ∈ rs, r.resid = id := by
  induction rs generalizing seen with
  | nil => exact ⟨hseen, by simp⟩
  | cons r rs ih =>
    have hnote : (noteId seen r).Nodup ∧
        ∀ id, id ∈ noteId seen r ↔ id ∈ seen ∨ r.resid = id := by
      unfold noteId
      split
      · rename_i hmem
        refine ⟨hseen, fun id => ⟨.inl, ?_⟩⟩
        rintro (hid | rfl)
        · exact hid
        · exact hmem
      · rename_i hmem
        have hapart : List.Disjoint seen [r.resid] := by simpa using hmem
        refine ⟨hseen.append (List.nodup_singleton _) hapart, fun id => ?_⟩
        simp [eq_comm]
    obtain ⟨hnodup, hmem⟩ := ih hnote.1
    refine ⟨hnodup, fun id => ?_⟩
    rw [List.foldl_cons, hmem, hnote.2]
    simp [or_assoc]

theorem noteIds_eq (seen : List ℕ) (fork : ResourceFork) :
    noteIds seen fork = (fork.readable TYPE_cicn).foldl noteId seen := by
  rw [noteIds, ResourceFork.readable, List.foldl_filterMap]
  congr 1
  funext seen n
  cases fork.nthResOfType TYPE_cicn n <;> rfl

/-- The icons of some files that can be read, in their order. -/
def readableIcons (files : IconFiles) : List Resource :=
  files.reduceOption.flatMap fun fork => fork.readable TYPE_cicn

/-- The picker lists the IDs of the icons that can be read, once each. -/
theorem hxIconIds_spec (files : IconFiles) :
    (hxIconIds files).Pairwise (· < ·) ∧
      ∀ id, id ∈ hxIconIds files ↔ ∃ r ∈ readableIcons files, r.resid = id := by
  obtain ⟨hnodup, hmem⟩ := foldl_noteId (readableIcons files) List.nodup_nil
  have hnotes : noteIds = fun seen fork => (fork.readable TYPE_cicn).foldl noteId seen := by
    funext seen fork
    exact noteIds_eq seen fork
  rw [hxIconIds, hnotes, ← List.foldl_flatMap]
  change (((readableIcons files).foldl noteId []).mergeSort _).Pairwise _ ∧ ∀ id, id ∈
    ((readableIcons files).foldl noteId []).mergeSort _ ↔ _
  generalize (readableIcons files).foldl noteId [] = ids at hnodup hmem ⊢
  constructor
  · have hsorted : (ids.mergeSort fun x y => decide (x ≤ y)).Pairwise
        fun x y => decide (x ≤ y) = true :=
      List.pairwise_mergeSort (by simp; omega) (by simp; omega) ids
    have hdistinct := (List.mergeSort_perm ids fun x y => decide (x ≤ y)).nodup_iff.mpr hnodup
    refine hsorted.imp₂ ?_ hdistinct
    simp only [decide_eq_true_eq]
    omega
  · intro id
    rw [List.mem_mergeSort, hmem]
    simp

/-- **Nothing is found that the picker does not list**, whatever is in the files: the ID of what
`load_icon` finds is listed, and what it finds lies in one of the files. -/
theorem found_is_listed (files : IconFiles) :
    (hxIconIds files).Pairwise (· < ·) ∧ ∀ icon r, findIcon files icon = some r →
      r.resid = icon ∧ icon ∈ hxIconIds files ∧
        ∃ fork, some fork ∈ files ∧ r.data <:+: fork.data := by
  obtain ⟨hsorted, hmem⟩ := hxIconIds_spec files
  refine ⟨hsorted, fun icon r hfound => ?_⟩
  obtain ⟨fork, hfork, hr⟩ := List.exists_of_findSome?_eq_some hfound
  obtain ⟨hid, hpart, hreadable⟩ := ResourceFork.resOfId_returns hr
  refine ⟨hid, (hmem icon).mpr ⟨r, List.mem_flatMap.mpr ⟨fork, hfork, hreadable⟩, hid⟩, fork, ?_,
    hpart⟩
  exact List.reduceOption_mem_iff.mp hfork

/-- A file, with what it gives out. -/
def Opens (bytes : List UInt8) (types : List (ℕ × List Resource)) : Prop :=
  Laid bytes types ∨ ResourceFork.parse bytes = none ∧ types = []

/-- The icons of some files, in their order. -/
def iconsOf (files : List (List UInt8 × List (ℕ × List Resource))) : List Resource :=
  files.flatMap fun f => ofType f.2 TYPE_cicn

/-- The files once they have been opened, and those that are no forks. -/
def opened (files : List (List UInt8 × List (ℕ × List Resource))) : IconFiles :=
  files.map fun f => ResourceFork.parse f.1

section Picking

variable {files : List (List UInt8 × List (ℕ × List Resource))}

/-- All the icons of files that are forks, or none, can be read. -/
theorem readableIcons_opened (h : ∀ f ∈ files, Opens f.1 f.2) :
    readableIcons (opened files) = iconsOf files := by
  induction files with
  | nil => rfl
  | cons f files ih =>
    obtain ⟨hf, hfiles⟩ := List.forall_mem_cons.mp h
    rw [iconsOf, List.flatMap_cons, ← iconsOf, ← ih hfiles, readableIcons, opened, List.map_cons]
    rcases hf with hlaid | ⟨hnone, htypes⟩
    · obtain ⟨fork, hparse, hgives⟩ := ResourceFork.parse_laid hlaid
      rw [hparse, List.reduceOption_cons_of_some, List.flatMap_cons, (hgives _).readable]
      rfl
    · rw [hnone, htypes]
      rfl

/-- An icon is found in the first file that has it, and there the first of its ID. -/
theorem findIcon_opened (h : ∀ f ∈ files, Opens f.1 f.2) (icon : ℕ) :
    findIcon (opened files) icon = (iconsOf files).find? (·.resid == icon) := by
  induction files with
  | nil => rfl
  | cons f files ih =>
    obtain ⟨hf, hfiles⟩ := List.forall_mem_cons.mp h
    rw [iconsOf, List.flatMap_cons, List.find?_append, ← iconsOf, ← ih hfiles, findIcon, opened,
      List.map_cons]
    rcases hf with hlaid | ⟨hnone, htypes⟩
    · obtain ⟨fork, hparse, hgives⟩ := ResourceFork.parse_laid hlaid
      rw [hparse, List.reduceOption_cons_of_some, List.findSome?_cons, (hgives _).ofId]
      cases (ofType f.2 TYPE_cicn).find? (·.resid == icon) <;> rfl
    · rw [hnone, htypes]
      rfl

theorem Laid.resid_lt {data : List UInt8} {types : List (ℕ × List Resource)} (h : Laid data types)
    {resType : ℕ} {r : Resource} (hr : r ∈ ofType types resType) : r.resid < 2 ^ 16 := by
  obtain ⟨-, -, dataOff, mapOff, dataLen, mapLen, listOff, -, -, -, -, -, -, -, -, -, -, htypes⟩ :=
    h
  rw [ofType] at hr
  cases hfind : types.find? (·.1 == resType) with
  | none =>
    rw [hfind] at hr
    cases hr
  | some t =>
    rw [hfind] at hr
    obtain ⟨n, ht⟩ := List.mem_iff_getElem?.mp (List.mem_of_find?_eq_some hfind)
    obtain ⟨-, -, -, -, -, refs, -, -, hall⟩ := htypes n t ht
    obtain ⟨i, hi⟩ := List.mem_iff_getElem?.mp hr
    exact (hall i r hi).1

theorem resid_lt_of_mem (h : ∀ f ∈ files, Opens f.1 f.2) {r : Resource} (hr : r ∈ iconsOf files) :
    r.resid < 2 ^ 16 := by
  obtain ⟨f, hf, hmem⟩ := List.mem_flatMap.mp hr
  rcases h f hf with hlaid | ⟨-, htypes⟩
  · exact hlaid.resid_lt hmem
  · rw [htypes] at hmem
    cases hmem

/-- **The picker lists the icons there are**: the ID of each, once and in ascending order; and
what is drawn for an ID, listed or not, is the first icon that has it, in the order of the
files, and in a file in that of its references. -/
theorem picker_lists_found (h : ∀ f ∈ files, Opens f.1 f.2) :
    (hxIconIds (opened files)).Pairwise (· < ·) ∧
      (∀ id, id ∈ hxIconIds (opened files) ↔ ∃ r ∈ iconsOf files, r.resid = id) ∧
      ∀ id : ℕ, hxIconPixbufForId (opened files) id false =
        ((iconsOf files).find? (·.resid == id)).elim (.ok none) fun r => cicnToPixbuf r.data := by
  obtain ⟨hsorted, hmem⟩ := hxIconIds_spec (opened files)
  rw [readableIcons_opened h] at hmem
  refine ⟨hsorted, hmem, fun id => ?_⟩
  rw [hxIconPixbufForId, loadIcon, Int.toNat_natCast, loadIconOnce, findIcon_opened h]
  cases hfind : (iconsOf files).find? (·.resid == id) with
  | none => exact ite_self _
  | some r =>
    have hlt := resid_lt_of_mem h (List.mem_of_find?_eq_some hfind)
    have hid : r.resid = id := by simpa using List.find?_some hfind
    rw [if_neg (by omega), Option.elim_some]
    dsimp only
    rcases cicnToPixbuf r.data with e | (_ | image) <;> rfl

end Picking

/-- A fork of two icons. -/
def twoIcons : List UInt8 :=
  long 16 ++ long 25 ++ long 9 ++ long 62 ++ (long 1 ++ [7]) ++ long 0 ++
    List.replicate 24 0 ++ word 28 ++ word 0 ++ word 0 ++
    long TYPE_cicn ++ word 1 ++ word 10 ++
    (word 200 ++ word 65535 ++ [0] ++ triple 0 ++ long 0) ++
    (word 128 ++ word 65535 ++ [0] ++ triple 5 ++ long 0)

theorem laid_twoIcons : Laid twoIcons [(TYPE_cicn, [⟨200, [7]⟩, ⟨128, []⟩])] := by
  refine ⟨by simp, by decide, 16, 25, 9, 62, 28, by decide, by decide, by decide, by decide,
    by decide, by decide, by decide, by decide, by decide, by decide, ?_⟩
  rintro (_ | n) t ht
  · obtain rfl := Option.some.inj ht
    refine ⟨by decide, by decide, by simp, by decide, by decide, 10, by decide, by decide, ?_⟩
    rintro (_ | _ | n) r hr
    · obtain rfl := Option.some.inj hr
      exact ⟨by decide, by decide, by decide, 0, by decide, by decide, by decide⟩
    · obtain rfl := Option.some.inj hr
      exact ⟨by decide, by decide, by decide, 5, by decide, by decide, by decide⟩
    · cases hr
  · cases ht

/-- The second of them is found, and so it is listed. -/
theorem twoIcons_found : 128 ∈ hxIconIds [ResourceFork.parse twoIcons] :=
  ((found_is_listed [ResourceFork.parse twoIcons]).2 128 ⟨128, []⟩ (by decide +kernel)).2.1

/-- They are listed in the order of their IDs, and found behind a file that is no fork. -/
theorem twoIcons_listed :
    let files := [([0, 0, 0, 0], []), (twoIcons, [(TYPE_cicn, [⟨200, [7]⟩, ⟨128, []⟩])])]
    (hxIconIds (opened files)).Pairwise (· < ·) ∧ 128 ∈ hxIconIds (opened files) ∧
      hxIconPixbufForId (opened files) 200 false = cicnToPixbuf [7] := by
  have hopens : ∀ f ∈ [([0, 0, 0, 0], []),
      (twoIcons, [(TYPE_cicn, [⟨200, [7]⟩, ⟨128, []⟩])])], Opens f.1 f.2 := by
    simp only [List.forall_mem_cons]
    exact ⟨.inr ⟨by decide, rfl⟩, .inl laid_twoIcons, by simp⟩
  obtain ⟨hsorted, hlisted, hdrawn⟩ := picker_lists_found hopens
  exact ⟨hsorted, (hlisted 128).mpr ⟨⟨128, []⟩, by decide, rfl⟩, hdrawn 200⟩

end Gtkhx.Icons
