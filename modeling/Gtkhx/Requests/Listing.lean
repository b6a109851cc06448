import Gtkhx.Requests.Files
import Mathlib.Data.List.Induction

/-!
# Browsing a server's files

The listing of a remote folder keeps its path as one string and joins the name of an entry
to it. The requests take the string apart again. As long as no name holds a separator the
two agree: what is asked about an entry is asked about that entry.
-/

namespace Gtkhx.Requests

/-- `RemoteListing`: where a browser of a server's files is. -/
structure RemoteListing where
  /-- The current path. -/
  current : List UInt8
  /-- The same as a C string. -/
  currentC : List UInt8
  /-- The last listing failed. -/
  listingError : Bool
  deriving DecidableEq, Repr

namespace RemoteListing

/-- `new`: at the root. -/
def new : RemoteListing := ⟨[SEP], [SEP], false⟩

/-- `sync_c`: a path with a NUL in it has no C string, and the root stands for it. -/
def syncC (l : RemoteListing) : RemoteListing :=
  { l with currentC := if 0 ∈ l.current then [SEP] else l.current }

/-- `is_root`. -/
def isRoot (l : RemoteListing) : Bool := l.current = [SEP]

/-- `set_path`. -/
def setPath (l : RemoteListing) (path : List UInt8) : RemoteListing :=
  { l with current := if path = [] then [SEP] else path }.syncC

/-- `reset_to_root`. -/
def resetToRoot (l : RemoteListing) : RemoteListing :=
  { l.setPath [SEP] with listingError := false }

/-- `parent`. -/
def parent (l : RemoteListing) : Option (List UInt8) :=
  if l.isRoot then none
  else match l.current.reverse.findIdx? (· == SEP) with
    | none => none
    | some back =>
      match l.current.length - 1 - back with
      | 0 => some [SEP]
      | i + 1 => some (l.current.take (i + 1))

/-- `child`. -/
def child (l : RemoteListing) (name : Component) : List UInt8 :=
  (if l.isRoot then [] else l.current) ++ SEP :: name

end RemoteListing

/-- A name that a server may list. -/
def Listed (name : Component) : Prop := 1 ≤ name.length ∧ name.length ≤ 255 ∧ 0 ∉ name

/-- A name that holds no separator. -/
def Plain (name : Component) : Prop := Listed name ∧ SEP ∉ name

/-- Where a browser comes to that enters folders with names of a kind and goes up again,
with the folders it has entered and not left. -/
inductive Browsed (P : Component → Prop) : List Component → RemoteListing → Prop where
  /-- At the root. -/
  | start : Browsed P [] .new
  /-- Into a folder. -/
  | enter {trail : List Component} {l : RemoteListing} (name : Component) :
      Browsed P trail l → P name → Browsed P (trail ++ [name]) (l.setPath (l.child name))
  /-- Out of one. -/
  | up {trail : List Component} {name : Component} {l : RemoteListing} {path : List UInt8} :
      Browsed P (trail ++ [name]) l → l.parent = some path → Browsed P trail (l.setPath path)

/-- The path of the folder that a trail leads to. -/
def pathOf (trail : List Component) : List UInt8 :=
  if trail = [] then [SEP] else trail.flatMap (SEP :: ·)

@[simp] theorem pathOf_ne_nil (trail : List Component) : pathOf trail ≠ [] := by
  unfold pathOf
  split
  · simp
  · rename_i h
    obtain ⟨name, trail, rfl⟩ := List.exists_cons_of_ne_nil h
    simp

theorem pathOf_concat (trail : List Component) (name : Component) :
    pathOf (trail ++ [name]) = trail.flatMap (SEP :: ·) ++ SEP :: name := by
  simp [pathOf]

/-- The components of a path are the names of its trail. -/
theorem components_pathOf {trail : List Component} (h : ∀ name ∈ trail, Plain name) :
    components (pathOf trail) = trail := by
  induction trail using List.reverseRecOn with
  | nil => rfl
  | append_singleton trail name ih =>
    have hname := h name (by simp)
    have hne : name ≠ [] := List.length_pos_iff.mp hname.1.1
    have htrail : components (trail.flatMap (SEP :: ·)) = trail := by
      have hpath := ih fun name hname => h name (List.mem_append_left _ hname)
      unfold pathOf at hpath
      split at hpath
      · rename_i hnil
        rw [hnil]
        rfl
      · exact hpath
    rw [pathOf_concat, components_append, htrail, components_of_not_mem hname.2, if_neg hne]

/-- Only the root has the root's path. -/
theorem pathOf_concat_ne_root (trail : List Component) {name : Component} (h : Plain name) :
    pathOf (trail ++ [name]) ≠ [SEP] := by
  intro heq
  have hlen := congrArg List.length heq
  rw [pathOf_concat, List.length_append, List.length_cons, List.length_singleton] at hlen
  have hpos := h.1.1
  omega

/-- The child of a folder is where its name leads. -/
theorem child_eq {l : RemoteListing} {trail : List Component} (h : ∀ name ∈ trail, Plain name)
    (hl : l.current = pathOf trail) (name : Component) :
    l.child name = pathOf (trail ++ [name]) := by
  rw [RemoteListing.child, RemoteListing.isRoot, pathOf_concat, hl]
  rcases List.eq_nil_or_concat trail with rfl | ⟨trail, last, rfl⟩
  · rfl
  · rw [List.concat_eq_append] at h ⊢
    rw [if_neg (by simpa using pathOf_concat_ne_root trail (h last (by simp))), pathOf,
      if_neg (by simp)]

/-- Going up leads back to the folder that an entry was in. -/
theorem parent_eq {l : RemoteListing} {trail : List Component} {name : Component}
    (hname : Plain name) (hl : l.current = pathOf (trail ++ [name])) :
    l.parent = some (pathOf trail) := by
  have hroot : l.isRoot = false := by
    simpa [RemoteListing.isRoot, hl] using pathOf_concat_ne_root trail hname
  rw [RemoteListing.parent, hroot, hl, pathOf_concat, findIdx?_reverse_append hname.2]
  have hlen : (trail.flatMap (SEP :: ·) ++ SEP :: name).length - 1 - name.length =
      (trail.flatMap (SEP :: ·)).length := by
    simp only [List.length_append, List.length_cons]
    omega
  simp only [Bool.false_eq_true, if_false, hlen]
  cases hfront : (trail.flatMap (SEP :: ·)).length with
  | zero =>
    have hnil : trail = [] := by
      cases trail with
      | nil => rfl
      | cons first trail => simp at hfront
    rw [hnil]
    rfl
  | succ n =>
    have hne : trail ≠ [] := by
      rintro rfl
      simp at hfront
    simp only [pathOf, if_neg hne, ← hfront, List.take_left]

theorem setPath_current {l : RemoteListing} {path : List UInt8} (h : path ≠ []) :
    (l.setPath path).current = path := by
  simp [RemoteListing.setPath, RemoteListing.syncC, h]

/-- A browser that enters only folders with plain names is where its trail leads. -/
theorem Browsed.current {trail : List Component} {l : RemoteListing} (h : Browsed Plain trail l) :
    (∀ name ∈ trail, Plain name) ∧ l.current = pathOf trail := by
  induction h with
  | start => exact ⟨by simp, rfl⟩
  | enter name _ hname ih =>
    obtain ⟨htrail, hl⟩ := ih
    have hchild := child_eq htrail hl name
    refine ⟨fun name' hname' => ?_, ?_⟩
    · rcases List.mem_append.mp hname' with hname' | hname'
      · exact htrail name' hname'
      · rwa [List.mem_singleton.mp hname']
    · rw [setPath_current (hchild ▸ pathOf_ne_nil _), hchild]
  | up _ hparent ih =>
    obtain ⟨htrail, hl⟩ := ih
    have hup := parent_eq (htrail _ (by simp)) hl
    obtain rfl := Option.some.inj (hparent.symm.trans hup)
    exact ⟨fun name hname => htrail name (List.mem_append_left _ hname),
      setPath_current (pathOf_ne_nil _)⟩

/-- The path it shows is the path it keeps. -/
theorem Browsed.currentC {trail : List Component} {l : RemoteListing} (h : Browsed Plain trail l) :
    l.currentC = l.current := by
  obtain ⟨htrail, hl⟩ := h.current
  have hnul : 0 ∉ l.current := by
    rw [hl, pathOf]
    split
    · decide
    · simp only [List.mem_flatMap, List.mem_cons, not_exists, not_and, not_or]
      exact fun name hname => ⟨by decide, (htrail name hname).1.2.2⟩
  cases h with
  | start => rfl
  | enter _ _ _ => exact if_neg hnul
  | up _ _ => exact if_neg hnul

/-- The path of an entry is the folder's and the name. -/
theorem split_child {trail : List Component} {name : Component} (hname : Plain name) :
    split (pathOf (trail ++ [name])) = (pathOf trail, name) := by
  rw [pathOf_concat, split_append hname.2]
  cases trail with
  | nil => rfl
  | cons first trail => simp [pathOf]

/-- What a request about an entry of a listing may name. -/
def NamesEntry (r : Request) (trail : List Component) (name : Component) : Prop :=
  r.Names (Target.carried (trail, some name))

end Gtkhx.Requests
