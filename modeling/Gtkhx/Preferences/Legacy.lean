import Gtkhx.Library.Text

/-!
# The old settings file

The `gtkhxrc` has two forms: a key file with one group, whose values were escaped when they were
written, and bare lines from before that. What the old writer escaped is read back unless it begins
with white space that the writer leaves alone and the reader trims.
-/

namespace Gtkhx.Preferences

/-- The group of a key file that has the settings. -/
def GROUP : List Char := "gtkhx".toList

/-- A file's keys with their values, in the order of the keys. -/
abbrev LegacyKeys := List (String × String)

/-- A key's value, in place of the one it had. -/
def LegacyKeys.insert (key value : String) : LegacyKeys → LegacyKeys
  | [] => [(key, value)]
  | (k, v) :: rest =>
    if k = key then (key, value) :: rest
    else if key < k then (key, value) :: (k, v) :: rest
    else (k, v) :: LegacyKeys.insert key value rest

/-- The two forms of a file. -/
inductive Form
  | keyFile
  | lines
  deriving DecidableEq

/-- What an escaped character stands for: both are kept where it is none of the writer's. -/
def unescapeChar (c : Char) : List Char :=
  if c = '\\' then ['\\']
  else if c = 'n' then [Text.newline]
  else if c = 'r' then [Text.carriageReturn]
  else if c = 't' then ['\t']
  else if c = 's' then [' ']
  else ['\\', c]

def unescape : List Char → List Char
  | [] => []
  | [c] => [c]
  | c :: d :: rest =>
    if c = '\\' then unescapeChar d ++ unescape rest else c :: unescape (d :: rest)

/-- A text without white space at its start. -/
def trimStart (s : List Char) : List Char := s.dropWhile Text.isWhitespace

/-- A text without these characters at its end. -/
def trimEnd (p : Char → Bool) (s : List Char) : List Char := (s.reverse.dropWhile p).reverse

/-- What is before and after the first of a character. -/
def splitOnce (c : Char) : List Char → Option (List Char × List Char)
  | [] => none
  | d :: rest =>
    if d = c then some ([], rest) else (splitOnce c rest).map fun parts => (d :: parts.1, parts.2)

/-- Where the reading of a key file is. -/
structure KeyFileState where
  keys : LegacyKeys
  inGroup : Bool
  sawGroup : Bool

/-- One line of a key file: a comment, the start of a group, or a key with its value. -/
def keyFileLine (s : KeyFileState) (raw : List Char) : KeyFileState :=
  let trimmed := trimStart (trimEnd (· == Text.carriageReturn) raw)
  match trimmed with
  | [] => s
  | first :: rest =>
    if first = '#' then s
    else if first = '[' then
      let header := trimEnd Text.isWhitespace rest
      if header.getLast? = some ']' then
        { s with
          inGroup := header.dropLast = GROUP
          sawGroup := s.sawGroup || header.dropLast = GROUP }
      else s
    else if s.inGroup = false then s
    else
      match splitOnce '=' trimmed with
      | none => s
      | some (key, value) =>
        let key := trimEnd Text.isWhitespace key
        if '[' ∈ key then s
        else
          { s with
            keys := s.keys.insert (String.ofList key) (String.ofList (unescape (trimStart value))) }

/-- `parse_keyfile`: none if the group is not there. -/
def parseKeyFile (text : List Char) : Option LegacyKeys :=
  let s := (Text.lines text).foldl keyFileLine ⟨[], false, false⟩
  if s.sawGroup then some s.keys else none

/-- One line of the form without a group: a hash sign starts a comment anywhere. -/
def bareLine (keys : LegacyKeys) (raw : List Char) : LegacyKeys :=
  let line := trimEnd (· == Text.carriageReturn) raw
  let line := ((splitOnce '#' line).map Prod.fst).getD line
  match splitOnce '=' line with
  | none => keys
  | some (key, value) => keys.insert (String.ofList key) (String.ofList value)

def parseLines (text : List Char) : LegacyKeys := (Text.lines text).foldl bareLine []

/-- `parse`, of a `gtkhxrc` in either form. -/
def parseLegacy (text : String) : LegacyKeys × Form :=
  match parseKeyFile text.toList with
  | some keys => (keys, .keyFile)
  | none => (parseLines text.toList, .lines)

/-- A value as `g_key_file_set_string` writes it: blanks are escaped up to the first character that
is no white space. -/
def escapeFrom : (leading : Bool) → List Char → List Char
  | _, [] => []
  | leading, c :: rest =>
    if c = '\\' then '\\' :: '\\' :: escapeFrom false rest
    else if c = Text.newline then '\\' :: 'n' :: escapeFrom leading rest
    else if c = Text.carriageReturn then '\\' :: 'r' :: escapeFrom leading rest
    else if leading ∧ c = ' ' then '\\' :: 's' :: escapeFrom true rest
    else if leading ∧ c = '\t' then '\\' :: 't' :: escapeFrom true rest
    else if c = ' ' ∨ c = '\t' then c :: escapeFrom leading rest
    else c :: escapeFrom false rest

/-- A value as it stands in the file. -/
def escape (value : String) : List Char := escapeFrom true value.toList

/-- The key file that the old writer makes of keys with values. -/
def keyFile (keys : List (String × String)) : String :=
  String.ofList (Text.unlines (('[' :: GROUP ++ [']']) ::
    keys.map fun kv => kv.1.toList ++ '=' :: escape kv.2))

/-- A name that a key file can have for a key. -/
structure KeyName (key : String) : Prop where
  ne_nil : key.toList ≠ []
  plain : ∀ c ∈ key.toList,
    c ≠ '=' ∧ c ≠ '[' ∧ c ≠ Text.newline ∧ c ≠ Text.carriageReturn
  trimmed : Text.trim key.toList = key.toList
  head : key.toList.head? ≠ some '#'

/-- A value begins with white space that is written as it is. -/
def LosesStart (value : String) : Prop :=
  ∃ c ∈ value.toList.head?, Text.isWhitespace c = true ∧
    c ≠ ' ' ∧ c ≠ '\t' ∧ c ≠ Text.newline ∧ c ≠ Text.carriageReturn

/-- What is read of a value. -/
def keptValue (value : String) : String := String.ofList (unescape (trimStart (escape value)))

section Escaped

theorem unescape_cons {c : Char} (h : c ≠ '\\') (rest : List Char) :
    unescape (c :: rest) = c :: unescape rest := by
  cases rest with
  | nil => rfl
  | cons d rest => rw [unescape, if_neg h]

theorem unescape_backslash (c : Char) (rest : List Char) :
    unescape ('\\' :: c :: rest) = unescapeChar c ++ unescape rest := by
  rw [unescape, if_pos rfl]

/-- What was escaped is read back. -/
theorem unescape_escapeFrom (leading : Bool) (s : List Char) :
    unescape (escapeFrom leading s) = s := by
  induction s generalizing leading with
  | nil => rfl
  | cons c rest ih =>
    rw [escapeFrom]
    by_cases hslash : c = '\\'
    · rw [if_pos hslash, unescape_backslash, ih, hslash]
      rfl
    rw [if_neg hslash]
    split
    next hc =>
      rw [unescape_backslash, ih, hc]
      rfl
    · split
      next hc =>
        rw [unescape_backslash, ih, hc]
        rfl
      · split
        next hc =>
          rw [unescape_backslash, ih, hc.2]
          rfl
        · split
          next hc =>
            rw [unescape_backslash, ih, hc.2]
            rfl
          · split
            · rw [unescape_cons hslash, ih]
            · rw [unescape_cons hslash, ih]

/-- The writer escapes every line break. -/
theorem not_mem_escapeFrom (leading : Bool) (s : List Char) :
    Text.newline ∉ escapeFrom leading s ∧ Text.carriageReturn ∉ escapeFrom leading s := by
  have hnewline : Text.newline ∉ ['\\', 'n', 'r', 's', 't'] := by decide
  have hreturn : Text.carriageReturn ∉ ['\\', 'n', 'r', 's', 't'] := by decide
  simp only [List.mem_cons, not_or] at hnewline hreturn
  induction s generalizing leading with
  | nil => simp [escapeFrom]
  | cons c rest ih =>
    rw [escapeFrom]
    split
    · simp [hnewline, hreturn, ih]
    · split
      · simp [hnewline, hreturn, ih]
      · rename_i hn
        split
        · simp [hnewline, hreturn, ih]
        · rename_i hr
          split
          · simp [hnewline, hreturn, ih]
          · split
            · simp [hnewline, hreturn, ih]
            · split <;> simp [Ne.symm hn, Ne.symm hr, ih]

private theorem trimStart_cons {c : Char} (h : Text.isWhitespace c = false) (rest : List Char) :
    trimStart (c :: rest) = c :: rest := by
  simp [trimStart, h]

private theorem trimStart_cons_space {c : Char} (h : Text.isWhitespace c = true)
    (rest : List Char) : trimStart (c :: rest) = trimStart rest := by
  simp [trimStart, h]

/-- What is trimmed of an escaped text is a part of the text. -/
theorem trimStart_escapeFrom (s : List Char) :
    ∃ n, trimStart (escapeFrom false s) = escapeFrom false (s.drop n) := by
  have hslash : Text.isWhitespace '\\' = false := by decide
  induction s with
  | nil => exact ⟨0, rfl⟩
  | cons c rest ih =>
    obtain ⟨n, hn⟩ := ih
    by_cases hspace : Text.isWhitespace c = true ∧ c ≠ Text.newline ∧ c ≠ Text.carriageReturn
    · refine ⟨n + 1, ?_⟩
      have hne : c ≠ '\\' := by
        rintro rfl
        simp [hslash] at hspace
      have hescape : escapeFrom false (c :: rest) = c :: escapeFrom false rest := by
        simp [escapeFrom, hne, hspace]
      rw [hescape, trimStart_cons_space hspace.1, hn, List.drop_succ_cons]
    · refine ⟨0, ?_⟩
      rw [List.drop_zero, escapeFrom]
      split
      · exact trimStart_cons hslash _
      · split
        · exact trimStart_cons hslash _
        · split
          · exact trimStart_cons hslash _
          · have hplain : Text.isWhitespace c = false := by simp_all
            have hblank : ¬(c = ' ' ∨ c = '\t') := by
              rintro (rfl | rfl) <;> exact absurd hplain (by decide)
            simp only [Bool.false_eq_true, false_and, if_false, hblank]
            exact trimStart_cons hplain _

/-- A value is read back unless it loses its start. -/
theorem keptValue_eq_iff (value : String) : keptValue value = value ↔ ¬LosesStart value := by
  have hslash : Text.isWhitespace '\\' = false := by decide
  unfold keptValue escape LosesStart
  rw [← String.toList_inj, String.toList_ofList]
  cases value.toList with
  | nil => simp [escapeFrom, trimStart, unescape]
  | cons c rest =>
    simp only [List.head?_cons, Option.mem_def, Option.some.injEq, exists_eq_left']
    constructor
    · intro hkept hlost
      obtain ⟨hspace, hblank, htab, hn, hr⟩ := hlost
      have hne : c ≠ '\\' := by
        rintro rfl
        simp [hslash] at hspace
      have hescape : escapeFrom true (c :: rest) = c :: escapeFrom false rest := by
        simp [escapeFrom, hne, hblank, htab, hn, hr]
      obtain ⟨n, hdrop⟩ := trimStart_escapeFrom rest
      rw [hescape, trimStart_cons_space hspace, hdrop, unescape_escapeFrom] at hkept
      have hlength := congrArg List.length hkept
      simp at hlength
      omega
    · intro hkeeps
      have htrim : trimStart (escapeFrom true (c :: rest)) = escapeFrom true (c :: rest) := by
        rw [escapeFrom]
        split
        · exact trimStart_cons hslash _
        · split
          · exact trimStart_cons hslash _
          · split
            · exact trimStart_cons hslash _
            · split
              · exact trimStart_cons hslash _
              · split
                · exact trimStart_cons hslash _
                · have hplain : Text.isWhitespace c = false := by simp_all
                  split
                  · exact trimStart_cons hplain _
                  · exact trimStart_cons hplain _
      rw [htrim, unescape_escapeFrom]

end Escaped

section Keys

variable {key : String} {keys : LegacyKeys}

theorem LegacyKeys.lookup_insert_self (key value : String) (keys : LegacyKeys) :
    (keys.insert key value).lookup key = some value := by
  induction keys with
  | nil => simp [LegacyKeys.insert]
  | cons kv keys ih =>
    obtain ⟨k, v⟩ := kv
    by_cases hk : k = key
    · simp [LegacyKeys.insert, hk]
    · rw [LegacyKeys.insert, if_neg hk]
      split
      · simp
      · rw [List.lookup_cons, beq_false_of_ne (Ne.symm hk)]
        exact ih

theorem LegacyKeys.lookup_insert_of_ne {key' : String} (h : key' ≠ key) (value : String)
    (keys : LegacyKeys) : (keys.insert key value).lookup key' = keys.lookup key' := by
  induction keys with
  | nil => simp [LegacyKeys.insert, List.lookup_cons, beq_false_of_ne h]
  | cons kv keys ih =>
    obtain ⟨k, v⟩ := kv
    by_cases hk : k = key
    · subst hk
      simp [LegacyKeys.insert, List.lookup_cons, beq_false_of_ne h]
    · rw [LegacyKeys.insert, if_neg hk]
      split
      · rw [List.lookup_cons, beq_false_of_ne h]
      · rw [List.lookup_cons, List.lookup_cons, ih]

/-- Keys that are different are all read, and no others. -/
theorem lookup_foldl_insert {kvs : List (String × String)} (hnodup : (kvs.map Prod.fst).Nodup)
    (f : String → String) (keys : LegacyKeys) (key : String) :
    (kvs.foldl (fun keys kv => keys.insert kv.1 (f kv.2)) keys).lookup key =
      ((kvs.lookup key).map f).or (keys.lookup key) := by
  induction kvs generalizing keys with
  | nil => rfl
  | cons kv kvs ih =>
    obtain ⟨hnotin, hnodup⟩ := List.nodup_cons.mp hnodup
    rw [List.foldl_cons, ih hnodup, List.lookup_cons]
    by_cases hkey : key = kv.1
    · subst hkey
      have hnone : kvs.lookup kv.1 = none := by
        rw [List.lookup_eq_none_iff]
        intro e he
        rw [bne_iff_ne]
        rintro heq
        exact hnotin (List.mem_map.mpr ⟨e, he, heq.symm⟩)
      simp [hnone, LegacyKeys.lookup_insert_self]
    · rw [beq_false_of_ne hkey, LegacyKeys.lookup_insert_of_ne hkey]

end Keys

section Written

private theorem trimEnd_eq_self {p : Char → Bool} {s : List Char}
    (h : ∀ c ∈ s.getLast?, p c = false) : trimEnd p s = s := by
  rw [← List.head?_reverse] at h
  rw [trimEnd]
  cases hs : s.reverse with
  | nil => rw [List.dropWhile_nil, List.reverse_nil, ← List.reverse_eq_nil_iff.mp hs]
  | cons c rest =>
    have hc := h c (by rw [hs]; rfl)
    rw [List.dropWhile_cons_of_neg (by simp [hc]), ← hs, List.reverse_reverse]

private theorem splitOnce_append {c : Char} {before : List Char} (h : c ∉ before)
    (rest : List Char) : splitOnce c (before ++ c :: rest) = some (before, rest) := by
  induction before with
  | nil => simp [splitOnce]
  | cons d before ih =>
    obtain ⟨hd, hbefore⟩ := not_or.mp (List.mem_cons.not.mp h)
    rw [List.cons_append, splitOnce, if_neg (Ne.symm hd), ih hbefore]
    rfl

variable {key : String}

/-- A key's line gives the key what is read of its value. -/
theorem keyFileLine_written (hkey : KeyName key) (value : String) {s : KeyFileState}
    (hgroup : s.inGroup = true) :
    keyFileLine s (key.toList ++ '=' :: escape value) =
      { s with keys := s.keys.insert key (keptValue value) } := by
  obtain ⟨first, rest, hfirst⟩ := List.exists_cons_of_ne_nil hkey.ne_nil
  have hhead : Text.isWhitespace first = false := by
    have hends := Text.head_trim key.toList
    rw [hkey.trimmed, hfirst] at hends
    exact hends first rfl
  have hlast : ∀ c ∈ key.toList.getLast?, Text.isWhitespace c = false := by
    have hends := Text.getLast_trim key.toList
    rwa [hkey.trimmed] at hends
  have hreturn : Text.carriageReturn ∉ key.toList ++ '=' :: escape value := by
    have hequals : Text.carriageReturn ≠ '=' := by decide
    rw [List.mem_append, List.mem_cons]
    rintro (hmem | heq | hmem)
    · exact (hkey.plain _ hmem).2.2.2 rfl
    · exact hequals heq
    · exact (not_mem_escapeFrom true _).2 hmem
  have hline : trimStart (trimEnd (· == Text.carriageReturn) (key.toList ++ '=' :: escape value)) =
      key.toList ++ '=' :: escape value := by
    rw [trimEnd_eq_self, hfirst]
    · exact trimStart_cons hhead _
    · intro c hc
      rw [beq_eq_false_iff_ne]
      rintro rfl
      exact hreturn (List.mem_of_getLast? hc)
  have hsplit : splitOnce '=' (key.toList ++ '=' :: escape value) =
      some (key.toList, escape value) :=
    splitOnce_append (fun hmem => (hkey.plain _ hmem).1 rfl) _
  have hhash : first ≠ '#' := by
    rintro rfl
    exact hkey.head (by rw [hfirst]; rfl)
  have hbracket : first ≠ '[' := (hkey.plain first (by rw [hfirst]; exact List.mem_cons_self)).2.1
  have hlocale : '[' ∉ key.toList := fun hmem => (hkey.plain _ hmem).2.1 rfl
  unfold keyFileLine
  simp only [hline]
  split
  next heq => simp [hfirst] at heq
  next first' rest' heq =>
    rw [hfirst] at heq
    obtain rfl : first = first' := (List.cons.inj heq).1
    simp only [if_neg hhash, if_neg hbracket, hgroup, Bool.true_eq_false, if_false, hsplit,
      trimEnd_eq_self hlast, if_neg hlocale, String.ofList_toList, keptValue]

theorem keyFileLine_group (s : KeyFileState) :
    keyFileLine s ('[' :: GROUP ++ [']']) = { s with inGroup := true, sawGroup := true } := by
  have hline : trimStart (trimEnd (· == Text.carriageReturn) ('[' :: (GROUP ++ [']']))) =
      '[' :: (GROUP ++ [']']) := by
    decide
  have hheader : trimEnd Text.isWhitespace (GROUP ++ [']']) = GROUP ++ [']'] := by
    decide
  have hhash : '[' ≠ '#' := by decide
  simp [keyFileLine, hline, hheader, hhash]

/-- The lines of the keys, one after the other. -/
theorem foldl_keyFileLine {kvs : List (String × String)} (hkeys : ∀ kv ∈ kvs, KeyName kv.1)
    {s : KeyFileState} (hgroup : s.inGroup = true) :
    (kvs.map fun kv => kv.1.toList ++ '=' :: escape kv.2).foldl keyFileLine s =
      { s with keys :=
        kvs.foldl (fun keys kv => LegacyKeys.insert kv.1 (keptValue kv.2) keys) s.keys } := by
  induction kvs generalizing s with
  | nil => rfl
  | cons kv kvs ih =>
    rw [List.map_cons, List.foldl_cons, List.foldl_cons,
      keyFileLine_written (hkeys kv List.mem_cons_self) kv.2 hgroup]
    exact ih (fun e he => hkeys e (List.mem_cons_of_mem _ he)) hgroup

/-- A key file of the old writer is read as a key file, with what is read of each value. -/
theorem parseLegacy_keyFile {kvs : List (String × String)}
    (hkeys : ∀ kv ∈ kvs, KeyName kv.1) :
    parseLegacy (keyFile kvs) =
      (kvs.foldl (fun keys kv => LegacyKeys.insert kv.1 (keptValue kv.2) keys) [], .keyFile) := by
  have hlines : ∀ line ∈ ('[' :: GROUP ++ [']']) ::
      kvs.map (fun kv => kv.1.toList ++ '=' :: escape kv.2),
      Text.newline ∉ line ∧ Text.carriageReturn ∉ line := by
    intro line hline
    rcases List.mem_cons.mp hline with rfl | hline
    · decide
    · obtain ⟨kv, hkv, rfl⟩ := List.mem_map.mp hline
      have hplain := (hkeys kv hkv).plain
      have hescape := not_mem_escapeFrom true kv.2.toList
      have hequals : Text.newline ≠ '=' ∧ Text.carriageReturn ≠ '=' := by decide
      constructor
      · rw [List.mem_append, List.mem_cons]
        rintro (hmem | heq | hmem)
        · exact (hplain _ hmem).2.2.1 rfl
        · exact hequals.1 heq
        · exact hescape.1 hmem
      · rw [List.mem_append, List.mem_cons]
        rintro (hmem | heq | hmem)
        · exact (hplain _ hmem).2.2.2 rfl
        · exact hequals.2 heq
        · exact hescape.2 hmem
  have hstrip : ∀ line ∈ ('[' :: GROUP ++ [']']) ::
      kvs.map (fun kv => kv.1.toList ++ '=' :: escape kv.2), Text.stripCr line = line := by
    intro line hline
    rw [Text.stripCr, if_neg]
    exact fun hlast => (hlines line hline).2 (List.mem_of_getLast? hlast)
  have hparse : parseKeyFile (keyFile kvs).toList =
      some (kvs.foldl (fun keys kv => LegacyKeys.insert kv.1 (keptValue kv.2) keys) []) := by
    rw [parseKeyFile, keyFile, String.toList_ofList,
      Text.lines_unlines fun line hline => (hlines line hline).1,
      List.map_congr_left hstrip, List.map_id', List.foldl_cons, keyFileLine_group,
      foldl_keyFileLine hkeys rfl]
    rfl
  rw [parseLegacy, hparse]

/-- Every key of the file is read with what is read of its value. -/
theorem lookup_parseLegacy {kvs : List (String × String)} (hkeys : ∀ kv ∈ kvs, KeyName kv.1)
    (hnodup : (kvs.map Prod.fst).Nodup) (key : String) :
    (parseLegacy (keyFile kvs)).1.lookup key = (kvs.lookup key).map keptValue := by
  rw [parseLegacy_keyFile hkeys]
  dsimp only
  rw [lookup_foldl_insert hnodup keptValue, List.lookup_nil, Option.or_none]

end Written

end Gtkhx.Preferences
