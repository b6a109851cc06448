import Gtkhx.Transfers.Offsets

/-!
# The new name of a download

A download whose path is taken gets a numbered one. As long as the parts of its path fit the buffers
they are copied through, the new path is in the same directory and has the same extension, and it is
free if any of the numbered ones is.
-/

namespace Gtkhx.Transfers

/-- The directory of a path, with its separator. -/
def directory (path : Path) : Path := path.take (Requests.basenameOffset path)

/-- As much of each part of a path as a numbered one holds. -/
def CLIP : ℕ := MAXPATHLEN / 2 - 16

/-- What is put before the extension. -/
def label (n : ℕ) : Path :=
  [32, 40] ++ (Text.decimal n).map (fun c : Char => UInt8.ofNat c.toNat) ++ [41]

/-- A directory: nothing, or a path with a separator at its end. -/
def IsDirectory (dir : Path) : Prop := dir = [] ∨ ∃ front, dir = front ++ [Requests.SEP]

section Parts

variable {dir name path : Path}

/-- A path is a directory and a name. -/
theorem exists_parts (path : Path) :
    ∃ dir name, path = dir ++ name ∧ IsDirectory dir ∧ Requests.SEP ∉ name := by
  rcases Requests.path_cases path with hfree | ⟨front, name, rfl, hname⟩
  · exact ⟨[], path, rfl, Or.inl rfl, hfree⟩
  · exact ⟨front ++ [Requests.SEP], name, by simp, Or.inr ⟨front, rfl⟩, hname⟩

theorem basenameOffset_parts (hdir : IsDirectory dir) (hname : Requests.SEP ∉ name) :
    Requests.basenameOffset (dir ++ name) = dir.length := by
  rcases hdir with rfl | ⟨front, rfl⟩
  · exact Requests.basenameOffset_of_not_mem hname
  · rw [List.append_assoc, List.singleton_append, Requests.basenameOffset_append hname]
    simp

theorem directory_parts (hdir : IsDirectory dir) (hname : Requests.SEP ∉ name) :
    directory (dir ++ name) = dir := by
  rw [directory, basenameOffset_parts hdir hname, List.take_left]

/-- The extension is the name's. -/
theorem extension_parts (hdir : IsDirectory dir) (hname : Requests.SEP ∉ name) :
    extension (dir ++ name) = extension name := by
  have hoffset := basenameOffset_parts (Or.inl rfl : IsDirectory []) hname
  rw [List.nil_append, List.length_nil] at hoffset
  unfold extension
  rw [basenameOffset_parts hdir hname, List.drop_left, hoffset]
  rfl

/-- The extension begins at the last dot, if that is not the first byte. -/
theorem extension_append {stem ext : Path} (hstem : stem ≠ []) (hext : (46 : UInt8) ∉ ext)
    (hname : Requests.SEP ∉ stem ++ 46 :: ext) : extension (stem ++ 46 :: ext) = 46 :: ext := by
  have hfind : (stem ++ 46 :: ext).reverse.findIdx? (· == (46 : UInt8)) = some ext.length := by
    rw [List.reverse_append, List.reverse_cons, List.append_assoc, List.findIdx?_append]
    have hnone : ext.reverse.findIdx? (· == (46 : UInt8)) = none := by
      rw [List.findIdx?_eq_none_iff]
      intro b hb
      simp only [beq_eq_false_iff_ne]
      rintro rfl
      exact hext (List.mem_reverse.mp hb)
    simp [hnone, List.findIdx?_cons]
  have hpos := List.length_pos_iff.mpr hstem
  unfold extension
  rw [Requests.basenameOffset_of_not_mem hname, List.drop_zero]
  dsimp only
  rw [hfind]
  dsimp only
  rw [if_neg (by simp; omega)]
  have hdrop : (stem ++ 46 :: ext).length - (ext.length + 1) = stem.length := by simp
  rw [hdrop, List.drop_left]

/-- A name has no extension if it has no dot but a first one. -/
theorem extension_of_not_mem (hdot : (46 : UInt8) ∉ name.tail) (hname : Requests.SEP ∉ name) :
    extension name = [] := by
  unfold extension
  rw [Requests.basenameOffset_of_not_mem hname, List.drop_zero]
  dsimp only
  cases hfind : name.reverse.findIdx? (· == (46 : UInt8)) with
  | none => rfl
  | some back =>
    refine if_pos ?_
    obtain ⟨hback, hat, -⟩ := List.findIdx?_eq_some_iff_getElem.mp hfind
    rw [List.length_reverse] at hback
    rw [List.getElem_reverse, beq_iff_eq] at hat
    by_contra hne
    refine hdot (List.mem_iff_getElem.mpr ⟨name.length - 1 - back - 1, ?_, ?_⟩)
    · rw [List.length_tail]
      omega
    · rw [List.getElem_tail, ← hat]
      congr 1
      omega

/-- A name is a stem and its extension. -/
theorem exists_stem (hname : Requests.SEP ∉ name) :
    (extension name = [] ∧ (46 : UInt8) ∉ name.tail) ∨
      ∃ stem ext, name = stem ++ 46 :: ext ∧ stem ≠ [] ∧ (46 : UInt8) ∉ ext ∧
        extension name = 46 :: ext := by
  by_cases hdot : (46 : UInt8) ∈ name.tail
  · right
    cases name with
    | nil => cases hdot
    | cons c tail =>
      obtain ⟨after, before, hsplit, hafter⟩ :=
        List.eq_append_cons_of_mem (List.mem_reverse.mpr hdot)
      have htail : tail = before.reverse ++ 46 :: after.reverse := by
        have h := congrArg List.reverse hsplit
        simpa using h
      have hdotless : (46 : UInt8) ∉ after.reverse := fun h => hafter (List.mem_reverse.mp h)
      subst htail
      refine ⟨c :: before.reverse, after.reverse, rfl, List.cons_ne_nil _ _, hdotless, ?_⟩
      exact extension_append (List.cons_ne_nil c before.reverse) hdotless hname
  · exact Or.inl ⟨extension_of_not_mem hdot hname, hdot⟩

end Parts

section Numbered

theorem clipped_eq (part : Path) : clipped part = part.take CLIP := rfl

theorem numbered_eq (path : Path) (n : ℕ) :
    numbered path n = (clipped (path.take (path.length - (extension path).length)) ++ label n ++
      clipped (extension path)).take (MAXPATHLEN - 1) := rfl

variable {path : Path} {n : ℕ}

/-- A number is of digits. -/
private theorem digit_of_mem {b : UInt8}
    (hb : b ∈ (Text.decimal n).map fun c : Char => UInt8.ofNat c.toNat) :
    48 ≤ b.toNat ∧ b.toNat ≤ 57 := by
  obtain ⟨c, hc, rfl⟩ := List.mem_map.mp hb
  obtain ⟨hlow, hhigh⟩ := (Text.isDigit_iff c).mp (Text.isDigit_of_mem_decimal hc)
  rw [UInt8.toNat_ofNat']
  omega

/-- The label has neither a separator nor a dot. -/
private theorem not_mem_label {b : UInt8} (hb : b = Requests.SEP ∨ b = 46) : b ∉ label n := by
  intro hmem
  simp only [label, List.cons_append, List.nil_append, List.mem_cons, List.mem_append,
    List.not_mem_nil, or_false] at hmem
  rcases hmem with rfl | rfl | hmem | rfl
  · rcases hb with h | h <;> exact absurd h (by decide)
  · rcases hb with h | h <;> exact absurd h (by decide)
  · have hdigit := digit_of_mem hmem
    rcases hb with rfl | rfl
    · exact absurd hdigit.1 (by decide)
    · exact absurd hdigit.1 (by decide)
  · rcases hb with h | h <;> exact absurd h (by decide)

private theorem length_label (hn : n ≤ NUMBERS) : (label n).length ≤ 7 := by
  have hdigits : (Text.decimal n).length ≤ 4 :=
    (Nat.length_toDigits_le_iff (by decide) (by decide)).mpr (Nat.lt_of_le_of_lt hn (by decide))
  simp only [label, List.length_append, List.length_cons, List.length_nil, List.length_map]
  omega

/-- A numbered path whose parts fit is its directory, what fits of its stem, the label, and its
extension. -/
theorem numbered_parts {dir stem ext : Path} (hn : n ≤ NUMBERS) (hdir : IsDirectory dir)
    (hname : Requests.SEP ∉ stem ++ ext) (hextension : extension (stem ++ ext) = ext)
    (hdirFits : dir.length ≤ CLIP) (hextFits : ext.length ≤ CLIP) :
    numbered (dir ++ (stem ++ ext)) n =
      dir ++ (stem.take (CLIP - dir.length) ++ label n ++ ext) := by
  have hext := (extension_parts hdir hname).trans hextension
  have hfront : (dir ++ (stem ++ ext)).take
      ((dir ++ (stem ++ ext)).length - ext.length) = dir ++ stem := by
    rw [← List.append_assoc, List.length_append, Nat.add_sub_cancel, List.take_left]
  have hclip : clipped (dir ++ stem) = dir ++ stem.take (CLIP - dir.length) := by
    rw [clipped_eq, List.take_append, List.take_of_length_le hdirFits]
  have hclipExt : clipped ext = ext := by
    rw [clipped_eq, List.take_of_length_le hextFits]
  have hlabel := length_label hn
  have hstem : (stem.take (CLIP - dir.length)).length ≤ CLIP - dir.length :=
    List.length_take_le _ _
  have hclipValue : CLIP = 2031 := rfl
  rw [numbered_eq, hext, hfront, hclip, hclipExt, List.take_of_length_le]
  · simp only [List.append_assoc]
  · simp only [List.length_append, MAXPATHLEN]
    omega

/-- A numbered path whose parts fit is in the directory of the path, with its extension. -/
theorem numbered_keeps (hn : n ≤ NUMBERS) (hdirFits : (directory path).length ≤ CLIP)
    (hextFits : (extension path).length ≤ CLIP) :
    directory (numbered path n) = directory path ∧
      extension (numbered path n) = extension path := by
  obtain ⟨dir, name, rfl, hdir, hname⟩ := exists_parts path
  rw [directory_parts hdir hname] at hdirFits ⊢
  rw [extension_parts hdir hname] at hextFits ⊢
  have hsep : Requests.SEP ∉ label n := not_mem_label (Or.inl rfl)
  have hdotless : (46 : UInt8) ∉ label n := not_mem_label (Or.inr rfl)
  have hnonempty : label n ≠ [] := List.cons_ne_nil _ _
  rcases exists_stem hname with ⟨hnone, hdot⟩ | ⟨stem, ext, rfl, -, hext, hextension⟩
  · rw [hnone] at hextFits ⊢
    have hparts : numbered (dir ++ (name ++ [])) n =
        dir ++ (name.take (CLIP - dir.length) ++ label n ++ []) :=
      numbered_parts hn hdir (by rwa [List.append_nil]) (by rwa [List.append_nil]) hdirFits hextFits
    rw [List.append_nil, List.append_nil] at hparts
    have hnew : Requests.SEP ∉ name.take (CLIP - dir.length) ++ label n := by
      rw [List.mem_append]
      exact not_or_intro (fun h => hname (List.mem_of_mem_take h)) hsep
    rw [hparts, directory_parts hdir hnew, extension_parts hdir hnew]
    refine ⟨rfl, extension_of_not_mem ?_ hnew⟩
    intro hmem
    by_cases hempty : name.take (CLIP - dir.length) = []
    · rw [hempty, List.nil_append] at hmem
      exact hdotless (List.mem_of_mem_tail hmem)
    · rw [List.tail_append_of_ne_nil hempty, List.mem_append] at hmem
      refine hmem.elim (fun h => hdot ?_) hdotless
      rw [← List.drop_one, List.drop_take, List.drop_one] at h
      exact List.mem_of_mem_take h
  · rw [hextension] at hextFits ⊢
    have hparts := numbered_parts hn hdir hname hextension hdirFits hextFits
    have hnew : Requests.SEP ∉ stem.take (CLIP - dir.length) ++ label n ++ 46 :: ext := by
      rw [List.mem_append] at hname ⊢
      rw [List.mem_append]
      exact not_or_intro (not_or_intro (fun h => hname (Or.inl (List.mem_of_mem_take h))) hsep)
        fun h => hname (Or.inr h)
    rw [hparts, directory_parts hdir hnew, extension_parts hdir hnew]
    refine ⟨rfl, extension_append ?_ hext hnew⟩
    exact fun h => hnonempty (List.append_eq_nil_iff.mp h).2

/-- A path whose directory does not fit is numbered in another directory. -/
theorem numbered_elsewhere (hdirLong : CLIP < (directory path).length) :
    directory (numbered path n) ≠ directory path := by
  obtain ⟨dir, name, rfl, hdir, hname⟩ := exists_parts path
  rw [directory_parts hdir hname] at hdirLong ⊢
  intro hsame
  have hext : extension (dir ++ name) <:+ name := by
    rw [extension_parts hdir hname]
    rcases exists_stem hname with ⟨hnone, -⟩ | ⟨stem, ext, rfl, -, -, hextension⟩
    · rw [hnone]
      exact List.nil_suffix
    · rw [hextension]
      exact List.suffix_append _ _
  have hprefix : dir <+: clipped (dir ++ name.take (name.length -
      (extension (dir ++ name)).length)) ++ (label n ++ clipped (extension (dir ++ name))) := by
    have hfront : (dir ++ name).take ((dir ++ name).length - (extension (dir ++ name)).length) =
        dir ++ name.take (name.length - (extension (dir ++ name)).length) := by
      have hle := hext.length_le
      rw [List.length_append, Nat.add_sub_assoc hle, List.take_length_add_append]
    have hnumbered : directory (numbered (dir ++ name) n) <+: numbered (dir ++ name) n :=
      List.take_prefix _ _
    rw [hsame, numbered_eq, hfront, List.append_assoc] at hnumbered
    exact hnumbered.trans (List.take_prefix _ _)
  have hclip : clipped (dir ++ name.take (name.length - (extension (dir ++ name)).length)) =
      dir.take CLIP := by
    rw [clipped_eq]
    exact List.take_append_of_le_length (Nat.le_of_lt hdirLong)
  rw [hclip] at hprefix
  nth_rewrite 1 [← List.take_append_drop CLIP dir] at hprefix
  have hdrop := (List.prefix_append_right_inj _).mp hprefix
  have hsep : Requests.SEP ∈ dir.drop CLIP := by
    rcases hdir with rfl | ⟨front, rfl⟩
    · cases hdirLong
    · rw [List.length_append, List.length_singleton] at hdirLong
      rw [List.drop_append_of_le_length (by omega)]
      exact List.mem_append_right _ (List.mem_singleton_self _)
  rcases List.mem_append.mp (hdrop.subset hsep) with hmem | hmem
  · exact not_mem_label (Or.inl rfl) hmem
  · exact hname (hext.subset (List.mem_of_mem_take hmem))

end Numbered

/-- The new name of a path is as it should be. -/
structure NewName (taken : Path → Bool) (path new : Path) : Prop where
  /-- A path is changed to a free one. -/
  free : new ≠ path → taken new = false
  /-- It is in the same directory. -/
  directory : new ≠ path → directory new = directory path
  /-- It has the same extension. -/
  extension : new ≠ path → extension new = extension path
  /-- A path that is taken is changed. -/
  changed : taken path = true → new ≠ path

section Renaming

variable {taken : Path → Bool} {path : Path}

/-- The loop ends at a free numbered name, or at the last one. -/
theorem uniquify_cases (taken : Path → Bool) (path : Path) :
    (∃ n, 1 ≤ n ∧ n ≤ NUMBERS ∧ taken (numbered path n) = false ∧
        uniquifyFrom taken path NUMBERS 1 path = numbered path n) ∨
      (∀ n, 1 ≤ n → n ≤ NUMBERS → taken (numbered path n) = true) ∧
        uniquifyFrom taken path NUMBERS 1 path = numbered path NUMBERS := by
  rcases uniquifyFrom_cases taken path NUMBERS 1 path with
    ⟨n, hone, hlast, hfree, heq⟩ | ⟨hall, heq⟩
  · exact Or.inl ⟨n, hone, by omega, hfree, heq⟩
  · rw [if_neg (by decide), Nat.add_sub_cancel_left] at heq
    exact Or.inr ⟨fun n hone hlast => hall n hone (by omega), heq⟩

/-- The new name of a path whose parts fit is as it should be if and only if the path or one of its
numbered names is free. -/
theorem newName_iff (hdirFits : (directory path).length ≤ CLIP)
    (hextFits : (extension path).length ≤ CLIP) :
    NewName taken path (uniquify taken path) ↔
      (taken path = true → ∃ n, 1 ≤ n ∧ n ≤ NUMBERS ∧ taken (numbered path n) = false) := by
  by_cases htaken : taken path = true
  · rw [uniquify, if_pos htaken]
    rcases uniquify_cases taken path with ⟨n, hone, hlast, hfree, heq⟩ | ⟨hall, heq⟩
    · rw [heq]
      obtain ⟨hdirectory, hextension⟩ := numbered_keeps hlast hdirFits hextFits
      refine iff_of_true ⟨fun _ => hfree, fun _ => hdirectory, fun _ => hextension, fun _ => ?_⟩
        fun _ => ⟨n, hone, hlast, hfree⟩
      intro hsame
      rw [hsame, htaken] at hfree
      cases hfree
    · rw [heq]
      have hlast := hall NUMBERS (by decide) (Nat.le_refl _)
      constructor
      · intro h
        have hfree := h.free (h.changed htaken)
        rw [hlast] at hfree
        cases hfree
      · intro h
        obtain ⟨n, hone, hle, hfree⟩ := h htaken
        rw [hall n hone hle] at hfree
        cases hfree
  · rw [uniquify, if_neg htaken]
    refine iff_of_true ⟨?_, ?_, ?_, fun h => absurd h htaken⟩ fun h => absurd h htaken
    · exact fun h => absurd rfl h
    · exact fun h => absurd rfl h
    · exact fun h => absurd rfl h

/-- The path `a.txt`. -/
def plainPath : Path := [97, 46, 116, 120, 116]

theorem plainPath_newName :
    NewName (fun path => path = plainPath) plainPath
        (uniquify (fun path => path = plainPath) plainPath) ∧
      uniquify (fun path => path = plainPath) plainPath =
        [97, 32, 40, 49, 41, 46, 116, 120, 116] := by
  refine ⟨(newName_iff (by decide) (by decide)).mpr fun _ => ⟨1, Nat.le_refl _, by decide, ?_⟩, ?_⟩
  · decide
  · decide

/-- A path in a directory with a name of 2040 bytes. -/
def deepPath : Path := ([47] ++ List.replicate 2040 97 ++ [47]) ++ [98]

/-- A path whose numbered names are all taken gets a name that is taken, and one in a long directory
gets a name in another one. -/
theorem uniquify_not_newName :
    ¬NewName (fun _ => true) [97] (uniquify (fun _ => true) [97]) ∧
      ¬NewName (fun path => path = deepPath) deepPath
        (uniquify (fun path => path = deepPath) deepPath) := by
  constructor
  · intro h
    obtain ⟨n, -, -, hfree⟩ := (newName_iff (by decide) (by decide)).mp h rfl
    cases hfree
  · intro h
    have hdirectory : directory deepPath = [47] ++ List.replicate 2040 97 ++ [47] :=
      directory_parts (Or.inr ⟨_, rfl⟩) (by decide)
    have hlong : CLIP < (directory deepPath).length := by
      rw [hdirectory, List.length_append, List.length_append, List.length_replicate]
      decide
    have hchanged := h.changed (decide_eq_true rfl)
    have hkept := h.directory hchanged
    rw [uniquify, if_pos (decide_eq_true rfl)] at hkept
    rcases uniquify_cases (fun path => path = deepPath) deepPath with
      ⟨n, -, -, -, heq⟩ | ⟨-, heq⟩
    · rw [heq] at hkept
      exact numbered_elsewhere hlong hkept
    · rw [heq] at hkept
      exact numbered_elsewhere hlong hkept

/-- When neither is free, the last numbered name is left. -/
theorem uniquify_gives_up (htaken : taken path = true)
    (hall : ∀ n, 1 ≤ n → n ≤ NUMBERS → taken (numbered path n) = true) :
    uniquify taken path = numbered path NUMBERS := by
  rw [uniquify, if_pos htaken]
  rcases uniquify_cases taken path with ⟨n, hone, hlast, hfree, -⟩ | ⟨-, heq⟩
  · rw [hall n hone hlast] at hfree
    cases hfree
  · exact heq

end Renaming

end Gtkhx.Transfers
