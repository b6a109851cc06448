import Mathlib.Data.List.Infix

/-!
# Trees of named items

A tree gives each path what is there, if anything is, and what is in a folder is only there while
the folder is. Moving what is at one path to another takes all that is below it along, and moving
it on from a free place is moving it there at once.
-/

/-- What is at a path: a folder or not, and whatever else is known of it. -/
structure NameTree.Item (α : Type*) where
  isFolder : Bool
  info : α
  deriving DecidableEq

/-- A tree of items, by the names on the way to them. -/
structure NameTree (κ α : Type*) where
  item : List κ → Option (NameTree.Item α)
  /-- The root is a folder. -/
  root : (item []).any NameTree.Item.isFolder = true
  /-- An item is in a folder. -/
  above : ∀ path name, (item (path ++ [name])).isSome = true →
    (item path).any NameTree.Item.isFolder = true

namespace NameTree

variable {κ α : Type*} {t : NameTree κ α} {src dst mid path parent : List κ} {name : κ}

/-- Nothing is below a path where nothing is. -/
theorem item_append_eq_none (h : t.item path = none) (rest : List κ) :
    t.item (path ++ rest) = none := by
  induction rest using List.reverseRecOn with
  | nil => rwa [List.append_nil]
  | append_singleton rest name ih =>
    by_contra hne
    have habove := t.above (path ++ rest) name
      (by rwa [List.append_assoc, Option.isSome_iff_ne_none])
    rw [ih] at habove
    cases habove

variable [DecidableEq κ]

/-- What is at each path once what was at `src` is at `dst`. -/
def relocated (item : List κ → Option (Item α)) (src dst : List κ) (path : List κ) :
    Option (Item α) :=
  if dst <+: path then item (src ++ path.drop dst.length)
  else if src <+: path then none
  else item path

/-- Moving an item to where it is moves nothing. -/
theorem relocated_self (item : List κ → Option (Item α)) (src : List κ) :
    relocated item src src = item := by
  funext path
  unfold relocated
  split_ifs with h
  · obtain ⟨rest, rfl⟩ := h
    rw [List.drop_left]
  · rfl

/-- Moving an item to a free place and on from there moves it. -/
theorem relocated_relocated (hfree : t.item mid = none) :
    relocated (relocated t.item src mid) mid dst = relocated t.item src dst := by
  funext path
  unfold relocated
  by_cases hpath : dst <+: path
  · rw [if_pos hpath, if_pos hpath, if_pos (List.prefix_append _ _), List.drop_left]
  · rw [if_neg hpath, if_neg hpath]
    by_cases hbelow : mid <+: path
    · obtain ⟨rest, rfl⟩ := hbelow
      rw [if_pos (List.prefix_append _ _), item_append_eq_none hfree]
      split_ifs <;> rfl
    · rw [if_neg hbelow, if_neg hbelow]

/-- An item is in a folder still, once one of them is in a folder that is not its own. -/
theorem relocated_above (hparent : (t.item parent).any Item.isFolder = true)
    (hsrc : ¬src <+: parent) (path : List κ) (k : κ)
    (h : (relocated t.item src (parent ++ [name]) (path ++ [k])).isSome = true) :
    (relocated t.item src (parent ++ [name]) path).any Item.isFolder = true := by
  unfold relocated at h ⊢
  by_cases hbelow : parent ++ [name] <+: path
  · obtain ⟨rest, rfl⟩ := hbelow
    rw [List.append_assoc (parent ++ [name]), if_pos (List.prefix_append _ _), List.drop_left,
      ← List.append_assoc] at h
    rw [if_pos (List.prefix_append _ _), List.drop_left]
    exact t.above _ _ h
  · rw [if_neg hbelow]
    by_cases hat : parent ++ [name] <+: path ++ [k]
    · rcases List.prefix_concat_iff.mp hat with heq | hprefix
      · obtain ⟨rfl, -⟩ := List.append_inj' heq rfl
        rw [if_neg hsrc]
        exact hparent
      · exact absurd hprefix hbelow
    · rw [if_neg hat] at h
      by_cases hpath : src <+: path
      · rw [if_pos (hpath.trans (List.prefix_append _ _))] at h
        cases h
      · rw [if_neg hpath]
        split_ifs at h with hsrc'
        · cases h
        · exact t.above _ _ h

theorem relocated_root (hsrc : src ≠ []) (hdst : dst ≠ []) :
    relocated t.item src dst [] = t.item [] := by
  unfold relocated
  rw [if_neg (by rwa [List.prefix_nil]), if_neg (by rwa [List.prefix_nil])]

/-- Move an item into a folder, under a name that is free there, but not into itself. -/
def move (t : NameTree κ α) (src parent : List κ) (name : κ) : Option (NameTree κ α) :=
  if h : (t.item src).isSome = true ∧ (t.item (parent ++ [name])).isNone = true ∧
      (t.item parent).any Item.isFolder = true ∧ ¬src <+: parent then
    some {
      item := relocated t.item src (parent ++ [name])
      root := by
        have hne : src ≠ [] := fun hnil => h.2.2.2 (hnil ▸ List.nil_prefix)
        rw [relocated_root hne (by simp)]
        exact t.root
      above := relocated_above h.2.2.1 h.2.2.2 }
  else none

/-- What a move does: the item goes to a place that was free. -/
theorem item_of_move {t' : NameTree κ α} (h : t.move src parent name = some t') :
    t'.item = relocated t.item src (parent ++ [name]) ∧ t.item (parent ++ [name]) = none := by
  unfold move at h
  split_ifs at h with hmove
  obtain rfl := Option.some.inj h
  exact ⟨rfl, Option.isNone_iff_eq_none.mp hmove.2.1⟩

end NameTree
