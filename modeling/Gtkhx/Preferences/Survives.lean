import Gtkhx.Preferences.Config
import Gtkhx.Preferences.Written

/-!
# Settings survive a save and a reload

The setters, the writer and the reader do not agree on what a setting can be: a setter clamps to
the machine type, while the reader takes a window's extent from 1 on and a colour of 24 bits. What
is written of a setting that the reader can have made is read back as it was. Besides, a value can
be put where the document does not print it, and is then read back as its default.
-/

namespace Gtkhx.Preferences

open Toml

/-- The values of a kind that the reader can have made. -/
def Kind.readable : (k : Kind) → k.Carrier → Prop
  | .extent, (v : UInt32) => 1 ≤ v.toNat
  | .color, (v : Int32) => v = NICK_COLOR_NONE ∨ v.toUInt32.toNat < 2 ^ 24
  | _, _ => True

section Colors

theorem toNat_colorBits (v : UInt32) : (v &&& 0x00ffffff).toNat = v.toNat % 2 ^ 24 := by
  rw [UInt32.toNat_and]
  exact Nat.and_two_pow_sub_one_eq_mod v.toNat 24

/-- A colour's bits are those it is parsed as after it was formatted. -/
theorem parseNickColor_formatNickColor {v : Int32} (h : v ≠ NICK_COLOR_NONE) :
    parseNickColor (formatNickColor v) = some (colorBits v).toInt32 := by
  have hbound : (colorBits v).toNat < 16 ^ 6 := by
    rw [colorBits, toNat_colorBits]
    omega
  have hhex : ∀ c ∈ Text.paddedHex 6 (colorBits v).toNat, Text.isHexDigit c = true :=
    fun c hc => Text.isHexDigit_of_mem_paddedHex hc
  have hlength := Text.length_paddedHex (by decide) hbound
  have htrim : Text.trim ('#' :: Text.paddedHex 6 (colorBits v).toNat) =
      '#' :: Text.paddedHex 6 (colorBits v).toNat := by
    refine Text.trim_eq_self fun c hc => ?_
    rcases List.mem_cons.mp hc with rfl | hc
    · decide
    · exact Text.isWhitespace_of_isHexDigit (hhex c hc)
  have hword : ¬('#' :: Text.paddedHex 6 (colorBits v).toNat = [] ∨
      Text.eqIgnoreAsciiCase ('#' :: Text.paddedHex 6 (colorBits v).toNat)
        ['n', 'o', 'n', 'e'] = true) := by
    rintro (hnil | heq)
    · cases hnil
    · have hsame := Text.length_of_eqIgnoreAsciiCase heq
      simp [hlength] at hsame
  have hall : ¬(Text.paddedHex 6 (colorBits v).toNat).all Text.isHexDigit = false := by
    rw [List.all_eq_true.mpr hhex]
    simp
  have hexpand : expandDigits (Text.paddedHex 6 (colorBits v).toNat) =
      some (Text.paddedHex 6 (colorBits v).toNat) := by
    rw [expandDigits, hlength]
    rfl
  have hmask : UInt32.ofNat (colorBits v).toNat &&& 0x00ffffff = colorBits v := by
    rw [UInt32.ofNat_toNat, colorBits, UInt32.and_assoc, UInt32.and_self]
  rw [formatNickColor, if_neg h, parseNickColor]
  simp only [String.toList_ofList, htrim]
  rw [if_neg hword, stripHash, if_pos rfl, if_neg hall, hexpand, Option.map_some,
    Text.ofHex_paddedHex, hmask]

/-- A colour is parsed back if it is none or has 24 bits. -/
theorem parseNickColor_of_readable {v : Int32} (h : Kind.color.readable v) :
    parseNickColor (formatNickColor v) = some v := by
  by_cases hnone : v = NICK_COLOR_NONE
  · rw [formatNickColor, if_pos hnone, hnone]
    decide
  · have hbits : colorBits v = v.toUInt32 := by
      rw [← UInt32.toNat_inj, colorBits, toNat_colorBits]
      exact Nat.mod_eq_of_lt (h.resolve_left hnone)
    rw [parseNickColor_formatNickColor hnone, hbits, Int32.toInt32_toUInt32]

/-- What is parsed is a colour of 24 bits, or none. -/
theorem readable_of_parseNickColor {text : String} {v : Int32} (h : parseNickColor text = some v) :
    Kind.color.readable v := by
  unfold parseNickColor at h
  simp only at h
  split_ifs at h
  · exact Or.inl (Option.some.inj h).symm
  · obtain ⟨expanded, -, rfl⟩ := Option.map_eq_some_iff.mp h
    refine Or.inr ?_
    rw [UInt32.toUInt32_toInt32, toNat_colorBits]
    omega

end Colors

section Reading

variable {doc : Entries} {path : List String} {found : Item}

theorem integer_bounds {min max v : ℤ} (h : (Reader.integer doc path min max).1 = some v) :
    min ≤ v ∧ v ≤ max := by
  unfold Reader.integer at h
  split at h
  · cases h
  · split at h
    · cases h
    · split_ifs at h with hrange
      obtain rfl := Option.some.inj h
      omega

/-- What is read is what the reader can have made, if it was before. -/
theorem readable_read (k : Kind) {out : k.Carrier} (h : k.readable out) :
    k.readable (k.read doc path out).1 := by
  cases k with
  | extent =>
    have hbounds : ∀ v, (Reader.integer doc path 1 U32_MAX).1 = some v → 1 ≤ v ∧ v ≤ U32_MAX :=
      fun v => integer_bounds
    simp only [Kind.read, Reader.extent]
    split
    · rename_i v ws hread
      obtain ⟨hmin, hmax⟩ := hbounds v (by rw [hread])
      simp only [U32_MAX] at hmax
      simp only [Kind.readable, UInt32.toNat_ofNat']
      omega
    · exact h
  | color =>
    have hbounds : ∀ v, (Reader.integer doc path NICK_COLOR_NONE.toInt 0x00ffffff).1 = some v →
        NICK_COLOR_NONE.toInt ≤ v ∧ v ≤ 0x00ffffff :=
      fun v => integer_bounds
    simp only [Kind.read, Reader.color]
    split
    · exact h
    · split_ifs
      · split
        · rename_i v ws hread
          obtain ⟨hmin, hmax⟩ := hbounds v (by rw [hread])
          rw [show NICK_COLOR_NONE.toInt = -1 from rfl] at hmin
          by_cases hnone : v = -1
          · subst hnone
            exact Or.inl rfl
          · obtain ⟨n, rfl⟩ := Int.eq_ofNat_of_zero_le (by omega : 0 ≤ v)
            refine Or.inr ?_
            rw [Int32.ofInt_eq_ofNat, Int32.toUInt32_ofNat', UInt32.toNat_ofNat']
            omega
        · exact h
      · split
        · exact h
        · split
          · rename_i v hparse
            exact readable_of_parseNickColor hparse
          · exact h
  | _ => trivial

theorem read_of_none (h : doc.find path = none) (k : Kind) (out : k.Carrier) :
    k.read doc path out = (out, []) := by
  have hinteger : ∀ min max, Reader.integer doc path min max = (none, []) := by
    intro min max
    simp only [Reader.integer, h]
  cases k <;> simp only [Kind.read, Reader.flag, Reader.unsigned, Reader.extent, Reader.id16,
    Reader.color, Reader.text, Reader.list, Reader.scheme, hinteger, h] <;> rfl

theorem asBool_of_same {v : Bool} (h : sameValue found (ofBool v) = true) :
    asBool found = some v := by
  cases found with
  | scalar value format =>
    cases value with
    | boolean b => simpa [sameValue, sameScalar, ofBool, asBool] using h
    | _ => cases h
  | _ => cases h

theorem asInteger_of_same {v : ℤ} (h : sameValue found (ofInteger v) = true) :
    asInteger found = some v := by
  cases found with
  | scalar value format =>
    cases value with
    | integer b => simpa [sameValue, sameScalar, ofInteger, asInteger] using h
    | _ => cases h
  | _ => cases h

theorem asStr_of_same {v : String} (h : sameValue found (ofStr v) = true) :
    asStr found = some v := by
  cases found with
  | scalar value format =>
    cases value with
    | string b => simpa [sameValue, sameScalar, ofStr, asStr] using h
    | _ => cases h
  | _ => cases h

theorem asInteger_of_asStr {v : String} (h : asStr found = some v) : asInteger found = none := by
  cases found with
  | scalar value format =>
    cases value with
    | string => rfl
    | _ => cases h
  | _ => cases h

/-- A number that is there and in its range is read. -/
theorem integer_of_same {v min max : ℤ} (hfind : doc.find path = some found)
    (hsame : sameValue found (ofInteger v) = true) (hmin : min ≤ v) (hmax : v ≤ max) :
    Reader.integer doc path min max = (some v, []) := by
  have hrange : ¬(v < min ∨ max < v) := by omega
  simp only [Reader.integer, hfind, asInteger_of_same hsame, if_neg hrange]

/-- An array of the texts that were written is read without a warning. -/
theorem collect_of_same {elements : List Item} {texts : List String}
    (h : sameValues elements (texts.map ofStr) = true) :
    Reader.collect path elements = (texts, []) := by
  have hread : elements.filterMap asStr = texts ∧ ∀ e ∈ elements, (asStr e).isSome = true := by
    induction elements generalizing texts with
    | nil =>
      cases texts with
      | nil => exact ⟨rfl, fun e he => absurd he List.not_mem_nil⟩
      | cons => cases h
    | cons e elements ih =>
      cases texts with
      | nil => cases h
      | cons t texts =>
        obtain ⟨hhead, htail⟩ := (Bool.and_eq_true _ _).mp h
        obtain ⟨htexts, hall⟩ := ih htail
        have hstr := asStr_of_same hhead
        constructor
        · rw [List.filterMap_cons_some hstr, htexts]
        · intro e' he'
          rcases List.mem_cons.mp he' with rfl | he'
          · rw [hstr, Option.isSome_some]
          · exact hall e' he'
  obtain ⟨htexts, hall⟩ := hread
  rw [Reader.collect, htexts]
  congr 1
  rw [List.filterMap_eq_nil_iff]
  rintro ⟨e, i⟩ he
  exact if_pos (hall e (List.mem_of_getElem? (List.mk_mem_zipIdx_iff_getElem?.mp he)))

theorem ColorScheme.parse_asStr (s : ColorScheme) : ColorScheme.parse s.asStr = some s := by
  cases s <;> decide

/-- A scheme's name is the one it was parsed from. -/
theorem ColorScheme.asStr_of_parse {s : String} {v : ColorScheme}
    (h : ColorScheme.parse s = some v) : v.asStr = s := by
  unfold ColorScheme.parse at h
  split_ifs at h with hsystem hlight hdark
  · rw [← Option.some.inj h, hsystem]
    rfl
  · rw [← Option.some.inj h, hlight]
    rfl
  · rw [← Option.some.inj h, hdark]
    rfl

/-- A 32-bit number keeps its value in the machine type. -/
theorem toNat_unsigned {n : ℤ} (hlow : 0 ≤ n) (hhigh : n ≤ U32_MAX) :
    ((UInt32.ofNat n.toNat).toNat : ℤ) = n := by
  rw [UInt32.toNat_ofNat']
  simp only [U32_MAX] at hhigh
  omega

theorem unsigned_of_same {v : UInt32} (hfind : doc.find path = some found)
    (hsame : sameValue found (ofInteger v.toNat) = true) (out : UInt32) :
    Reader.unsigned doc path out = (v, []) := by
  have hmax : (v.toNat : ℤ) ≤ U32_MAX := by
    have hlt := v.toNat_lt
    simp only [U32_MAX]
    omega
  simp only [Reader.unsigned, integer_of_same hfind hsame (Int.natCast_nonneg _) hmax,
    Int.toNat_natCast,
    UInt32.ofNat_toNat]

theorem extent_of_same {v : UInt32} (hfind : doc.find path = some found)
    (hsame : sameValue found (ofInteger v.toNat) = true) (hmin : 1 ≤ v.toNat) (out : UInt32) :
    Reader.extent doc path out = (v, []) := by
  have hmax : (v.toNat : ℤ) ≤ U32_MAX := by
    have hlt := v.toNat_lt
    simp only [U32_MAX]
    omega
  have hmin' : (1 : ℤ) ≤ v.toNat := by omega
  simp only [Reader.extent, integer_of_same hfind hsame hmin' hmax, Int.toNat_natCast,
    UInt32.ofNat_toNat]

theorem id16_of_same {v : UInt16} (hfind : doc.find path = some found)
    (hsame : sameValue found (ofInteger v.toNat) = true) (out : UInt16) :
    Reader.id16 doc path out = (v, []) := by
  have hmax : (v.toNat : ℤ) ≤ 65535 := by
    have hlt := v.toNat_lt
    omega
  simp only [Reader.id16, integer_of_same hfind hsame (Int.natCast_nonneg _) hmax,
    Int.toNat_natCast,
    UInt16.ofNat_toNat]

theorem color_of_same {v : Int32} (hfind : doc.find path = some found)
    (hsame : sameValue found (ofStr (formatNickColor v)) = true) (h : Kind.color.readable v)
    (out : Int32) : Reader.color doc path out = (v, []) := by
  have hstr := asStr_of_same hsame
  simp only [Reader.color, hfind, asInteger_of_asStr hstr, Option.isSome_none, hstr,
    parseNickColor_of_readable h]
  rfl

theorem scheme_of_same {v : ColorScheme} (hfind : doc.find path = some found)
    (hsame : sameValue found (ofStr v.asStr) = true) (out : ColorScheme) :
    Reader.scheme doc path out = (v, []) := by
  simp only [Reader.scheme, hfind, asStr_of_same hsame, ColorScheme.parse_asStr]

/-- A value that is there and can be read is read without a warning. -/
theorem read_of_same (k : Kind) {v : k.Carrier} (hfind : doc.find path = some found)
    (hsame : sameValue found (k.write v) = true) (hreadable : k.readable v) (out : k.Carrier) :
    k.read doc path out = (v, []) := by
  cases k with
  | flag =>
    simp only [Kind.read, Reader.flag, hfind, asBool_of_same hsame]
    rfl
  | unsigned => exact unsigned_of_same hfind hsame out
  | extent => exact extent_of_same hfind hsame hreadable out
  | id16 => exact id16_of_same hfind hsame out
  | color => exact color_of_same hfind hsame hreadable out
  | text =>
    simp only [Kind.read, Reader.text, hfind, asStr_of_same hsame]
    rfl
  | list =>
    cases found with
    | array elements format =>
      simp only [Kind.read, Reader.list, hfind, asArray]
      exact collect_of_same hsame
    | _ => cases hsame
  | scheme => exact scheme_of_same hfind hsame out

end Reading

section Reloading

variable {doc : Entries} {s : Settings} {f : Field}

theorem readAll_of_not_mem {fields : List Field} (h : f ∉ fields) (doc : Entries) (s : Settings)
    (ws : List Warning) : (readAll doc fields s ws).1 f = s f := by
  induction fields generalizing s ws with
  | nil => rfl
  | cons g fields ih =>
    obtain ⟨hne, hnotin⟩ := not_or.mp (List.mem_cons.not.mp h)
    rw [readAll, ih hnotin, Settings.set_of_ne _ (Ne.symm hne)]

/-- Each setting is read at its own path. -/
theorem readAll_of_mem {fields : List Field} (hnodup : fields.Nodup) (h : f ∈ fields)
    (doc : Entries) (s : Settings) (ws : List Warning) :
    (readAll doc fields s ws).1 f = (f.kind.read doc f.segments (s f)).1 := by
  induction fields generalizing s ws with
  | nil => cases h
  | cons g fields ih =>
    obtain ⟨hnotin, hnodup⟩ := List.nodup_cons.mp hnodup
    rw [readAll]
    rcases List.mem_cons.mp h with rfl | h
    · rw [readAll_of_not_mem hnotin, Settings.set_self]
    · have hne : g ≠ f := fun heq => hnotin (heq ▸ h)
      rw [ih hnodup h, Settings.set_of_ne _ hne]

/-- The warnings of all settings come one after the other. -/
theorem warnings_readAll {fields : List Field} (hnodup : fields.Nodup) (doc : Entries)
    (s : Settings) (ws : List Warning) :
    (readAll doc fields s ws).2 =
      ws ++ fields.flatMap fun f => (f.kind.read doc f.segments (s f)).2 := by
  induction fields generalizing s ws with
  | nil => exact (List.append_nil ws).symm
  | cons g fields ih =>
    obtain ⟨hnotin, hnodup⟩ := List.nodup_cons.mp hnodup
    have hsame : ∀ f ∈ fields, (f.kind.read doc f.segments
        (s.set g (g.kind.read doc g.segments (s g)).1 f)).2 =
        (f.kind.read doc f.segments (s f)).2 := by
      intro f hf
      have hne : g ≠ f := fun heq => hnotin (heq ▸ hf)
      rw [Settings.set_of_ne _ hne]
    rw [readAll, ih hnodup, List.flatMap_cons, List.append_assoc, List.flatMap_congr hsame]

/-- Settings that are read without a warning leave none. -/
theorem readAll_warnings {fields : List Field} (hnodup : fields.Nodup) (ws : List Warning)
    (h : ∀ f ∈ fields, (f.kind.read doc f.segments (s f)).2 = []) :
    (readAll doc fields s ws).2 = ws := by
  rw [warnings_readAll hnodup, List.flatMap_eq_nil_iff.mpr h, List.append_nil]

theorem settings_fromDocument (doc : Entries) (ws : List Warning) (f : Field) :
    (Config.fromDocument doc ws).settings f = (f.kind.read doc f.segments f.default).1 :=
  readAll_of_mem nodup_FIELDS (mem_FIELDS f) doc Settings.default
    (ws ++ Reader.checkTablePrefixes doc)

/-- Every default can be read. -/
theorem readable_default (f : Field) : f.kind.readable f.default := by
  cases f with
  | identityNickColor => exact Or.inl rfl
  | windowToolbarWidth | windowToolbarHeight => simp [Kind.readable, Field.kind, Field.default]
  | _ => trivial

/-- What is read from a document can be read. -/
theorem readable_fromDocument (doc : Entries) (ws : List Warning) (f : Field) :
    f.kind.readable ((Config.fromDocument doc ws).settings f) := by
  rw [settings_fromDocument]
  exact readable_read f.kind (readable_default f)

theorem isPlain_write (k : Kind) (v : k.Carrier) : isPlain (k.write v) = true := by
  cases k with
  | list =>
    refine List.all_eq_true.mpr fun i hi => ?_
    obtain ⟨t, -, rfl⟩ := List.mem_map.mp hi
    rfl
  | _ => rfl

/-- What a save puts, and where. -/
def puts (s : Settings) : List (List String × Item) :=
  FIELDS.map fun f => (f.segments, f.kind.write (s f))

theorem writeAll_eq (doc : Entries) (s : Settings) : writeAll doc s = putAll (puts s) doc := by
  rw [writeAll, putAll, puts, List.foldl_map]

theorem mem_puts (s : Settings) (f : Field) : (f.segments, f.kind.write (s f)) ∈ puts s :=
  List.mem_map.mpr ⟨f, mem_FIELDS f, rfl⟩

theorem independent_puts (s : Settings) : Independent (puts s) where
  plain := by
    intro p hp
    obtain ⟨f, -, rfl⟩ := List.mem_map.mp hp
    exact isPlain_write f.kind (s f)
  apart := List.pairwise_map.mpr pairwise_segments

/-- No setting is in the way of the version. -/
theorem apart_version (f : Field) : Apart f.segments ["version"] := by
  cases f <;> exact ⟨by decide, by decide⟩

theorem hides_segments_setVersion (doc : Entries) (version : ℤ) (f : Field) :
    hides false (setVersion doc version) f.segments = hides false doc f.segments := by
  cases f <;> exact hides_setVersion doc version (by decide)

namespace Config

variable {c : Config}

theorem distinct_written (h : c.doc.distinct = true) : c.written.distinct = true := by
  rw [written, writeAll_eq]
  exact distinct_putAll (independent_puts c.settings).plain (distinct_setVersion h _)

/-- Every setting is found in what is saved. -/
theorem find_written (c : Config) (f : Field) : ∃ found, c.written.find f.segments = some found ∧
    sameValue found (f.kind.write (c.settings f)) = true := by
  rw [written, writeAll_eq]
  exact find_putAll (independent_puts c.settings) (mem_puts c.settings f) (segments_ne_nil f)

/-- A save hides no setting that the loaded document did not hide. -/
theorem hides_written (c : Config) (f : Field) :
    hides false c.written f.segments = hides false c.doc f.segments := by
  rw [written, writeAll_eq, ← hides_segments_setVersion c.doc CURRENT_VERSION f]
  have hbeyond : ∀ p ∈ puts c.settings, ∀ key rest, f.segments ≠ p.1 ++ key :: rest :=
    fun p hp => (independent_puts c.settings).not_beyond hp (mem_puts c.settings f)
  exact hides_putAll hbeyond

theorem version_written (c : Config) :
    ∃ format, c.written.lookup "version" = some (.scalar (.integer CURRENT_VERSION) format) := by
  obtain ⟨format, hversion⟩ := lookup_setVersion c.doc CURRENT_VERSION
  have hapart : ∀ p ∈ puts c.settings, Apart p.1 ["version"] := by
    intro p hp
    obtain ⟨f, -, rfl⟩ := List.mem_map.mp hp
    exact apart_version f
  have hfind : (setVersion c.doc CURRENT_VERSION).find ["version"] =
      some (.scalar (.integer CURRENT_VERSION) format) := hversion
  have hwritten := find_putAll_other hapart hfind
  rw [Entries.find] at hwritten
  exact ⟨format, by rw [written, writeAll_eq, hwritten]⟩

/-- What is saved, as it is printed and read again. -/
def printed (c : Config) : Entries := printedEntries c.written

theorem printedIn_written (c : Config) : printedIn false c.written = c.printed := by
  rw [printedIn, if_neg Bool.false_ne_true, printed]

theorem toToml_eq {τ : Type} (T : TomlEdit τ) (h : c.doc.distinct = true) :
    c.toToml T = T.render c.printed := by
  rw [toToml, T.render_printed _ (distinct_written h), printed]

theorem parse_toToml {τ : Type} (T : TomlEdit τ) (h : c.doc.distinct = true) :
    T.parse (c.toToml T) = some c.printed := by
  rw [toToml_eq T h]
  exact T.parse_render _ (Entries.distinct_printed (distinct_written h))
    (entriesValuesOnly_printed _)

/-- A setting is found where it was saved unless the document hides it. -/
theorem find_printed (h : c.doc.distinct = true) (f : Field) :
    ∃ found, sameValue found (f.kind.write (c.settings f)) = true ∧
      c.printed.find f.segments =
        if hides false c.doc f.segments then none else some found := by
  obtain ⟨found, hfound, hsame⟩ := find_written c f
  refine ⟨found, hsame, ?_⟩
  rw [← printedIn_written, find_printedIn (distinct_written h) hfound (isValue_of_sameValue hsame),
    hides_written, printed_of_sameValue (isPlain_write _ _) hsame]

/-- The saved configuration, loaded again. -/
def reloaded (c : Config) : Config := fromDocument c.printed []

theorem doc_reloaded (c : Config) : c.reloaded.doc = c.printed := by
  rw [reloaded, fromDocument]

theorem distinct_reloaded (h : c.doc.distinct = true) : c.reloaded.doc.distinct = true := by
  rw [doc_reloaded, printed, Entries.distinct_printed (distinct_written h)]

theorem reloaded_of_hidden (h : c.doc.distinct = true) {f : Field}
    (hhides : hides false c.doc f.segments = true) :
    f.kind.read c.printed f.segments f.default = (f.default, []) := by
  obtain ⟨found, -, hfind⟩ := find_printed h f
  rw [if_pos hhides] at hfind
  exact read_of_none hfind f.kind f.default

theorem reloaded_of_shown (h : c.doc.distinct = true) {f : Field}
    (hshown : hides false c.doc f.segments = false) (hreadable : f.kind.readable (c.settings f)) :
    f.kind.read c.printed f.segments f.default = (c.settings f, []) := by
  obtain ⟨found, hsame, hfind⟩ := find_printed h f
  rw [if_neg (by rw [hshown]; exact Bool.false_ne_true)] at hfind
  exact read_of_same f.kind hfind hsame hreadable f.default

/-- Above the settings a printed document has tables only. -/
theorem checkTablePrefixes_printed (h : c.doc.distinct = true) :
    Reader.checkTablePrefixes c.printed = [] := by
  rw [Reader.checkTablePrefixes, List.flatMap_eq_nil_iff]
  intro above habove
  obtain ⟨f, key, rest, hsegments⟩ := exists_field_of_mem_tablePrefixes habove
  obtain ⟨found, hfound, -⟩ := find_written c f
  rw [hsegments] at hfound
  split
  · rename_i item hitem
    rw [← printedIn_written] at hitem
    have hsome := isSome_asTableLike_printedIn (distinct_written h) hfound hitem
    rw [if_neg (by simp [Option.isSome_iff_ne_none.mp hsome])]
  · rfl

/-- What is saved survives where it can be read: nothing is warned about. -/
theorem warnings_reloaded (h : c.doc.distinct = true)
    (hread : ∀ f : Field, (f.kind.read c.printed f.segments f.default).2 = []) :
    c.reloaded.warnings = [] := by
  rw [reloaded, fromDocument]
  simp only [checkTablePrefixes_printed h, List.append_nil]
  exact readAll_warnings nodup_FIELDS [] fun f _ => hread f

/-- A second save prints what the first one did, if the settings are the same. -/
theorem printed_reloaded (h : c.doc.distinct = true)
    (hsettings : c.reloaded.settings = c.settings) :
    c.reloaded.printed = c.printed := by
  obtain ⟨format, hversion⟩ := version_written c
  have hstamped : c.printed.lookup "version" =
      some (.scalar (.integer CURRENT_VERSION) format) := by
    rw [printed, lookup_printedEntries, hversion]
    rfl
  have hwritten : c.reloaded.written = putAll (puts c.settings) c.printed := by
    rw [written, writeAll_eq, hsettings, reloaded, fromDocument, setVersion_eq_self hstamped]
  have hsettled : ∀ p ∈ puts c.settings,
      (∃ found, c.printed.find p.1 = some found ∧ sameValue found p.2 = true) ∨
        gone false c.printed p.1 = true := by
    intro p hp
    obtain ⟨f, -, rfl⟩ := List.mem_map.mp hp
    cases hhides : hides false c.doc f.segments with
    | false =>
      obtain ⟨found, hsame, hfind⟩ := find_printed h f
      rw [hhides, if_neg Bool.false_ne_true] at hfind
      exact Or.inl ⟨found, hfind, hsame⟩
    | true =>
      obtain ⟨found, hfound, -⟩ := find_written c f
      rw [← hides_written] at hhides
      have hgone := gone_printedIn (distinct_written h) hfound hhides
      rw [printedIn_written] at hgone
      exact Or.inr hgone
  rw [printed, hwritten, printedEntries_putAll (independent_puts c.settings) hsettled, printed,
    printedEntries_printedEntries]

end Config

end Reloading

/-- A warning about a setting, or about an element of its list. -/
def Warning.concerns (w : Warning) (f : Field) : Prop :=
  w.path = f.path ∨ ∃ i : ℕ, w.path = f.path ++ "[" ++ toString i ++ "]"

namespace Config

/-- What is saved is read back: the same settings, no warning about one of them, and the same text
when it is saved once more. -/
def Survives {τ : Type} (T : TomlEdit τ) (c : Config) : Prop :=
  ∃ doc, T.parse (c.toToml T) = some doc ∧
    (fromDocument doc []).settings = c.settings ∧
    (∀ w ∈ (fromDocument doc []).warnings, ∀ f, ¬w.concerns f) ∧
    (fromDocument doc []).toToml T = c.toToml T

/-- The settings can be read, and those that the document does not print have their defaults. -/
structure Kept (c : Config) : Prop where
  readable : ∀ f : Field, f.kind.readable (c.settings f)
  shown : ∀ f : Field, hides false c.doc f.segments = true → c.settings f = f.default

variable {τ : Type} (T : TomlEdit τ) {c : Config}

theorem Kept.of_survives (hdistinct : c.doc.distinct = true) (h : c.Survives T) : c.Kept := by
  obtain ⟨doc, hparse, hsettings, -, -⟩ := h
  rw [parse_toToml T hdistinct] at hparse
  obtain rfl := Option.some.inj hparse
  constructor
  · intro f
    rw [← hsettings]
    exact readable_fromDocument _ _ f
  · intro f hhides
    rw [← hsettings, settings_fromDocument, reloaded_of_hidden hdistinct hhides]

theorem Kept.survives (hdistinct : c.doc.distinct = true) (h : c.Kept) : c.Survives T := by
  have hread : ∀ f : Field,
      f.kind.read c.printed f.segments f.default = (c.settings f, []) := by
    intro f
    cases hhides : hides false c.doc f.segments with
    | false => exact reloaded_of_shown hdistinct hhides (h.readable f)
    | true => rw [reloaded_of_hidden hdistinct hhides, h.shown f hhides]
  have hsettings : c.reloaded.settings = c.settings := by
    funext f
    rw [reloaded, settings_fromDocument, hread f]
  have hwarnings : c.reloaded.warnings = [] :=
    warnings_reloaded hdistinct fun f => by rw [hread f]
  have htext : c.reloaded.toToml T = c.toToml T := by
    rw [toToml_eq T (distinct_reloaded hdistinct), toToml_eq T hdistinct,
      printed_reloaded hdistinct hsettings]
  refine ⟨c.printed, parse_toToml T hdistinct, hsettings, ?_, htext⟩
  intro w hw
  rw [← reloaded, hwarnings] at hw
  cases hw

/-- Settings loaded from any document that is parsed, and changed by any calls of the setters,
survive a save and a reload exactly if the reader can have made each of them and those that the
document does not print have their defaults. -/
theorem survives_iff_kept {text : τ} {doc : Entries} (hparse : T.parse text = some doc)
    (warnings : List Warning) (calls : List Call) :
    ((fromDocument doc warnings).after calls).Survives T ↔
      ((fromDocument doc warnings).after calls).Kept := by
  have hdistinct : ((fromDocument doc warnings).after calls).doc.distinct = true :=
    T.parse_distinct text doc hparse
  exact ⟨Kept.of_survives T hdistinct, Kept.survives T hdistinct⟩

/-- A library that keeps the documents it renders as they are. -/
def inMemory : TomlEdit Entries where
  render := printedEntries
  parse doc := if doc.distinct ∧ entriesValuesOnly doc then some doc else none
  parse_render := by
    intro doc hdistinct hvalues
    rw [printedEntries_eq doc hvalues, if_pos ⟨hdistinct, hvalues⟩]
  render_printed := by
    intro doc _
    rw [printedEntries_printedEntries]
  parse_distinct := by
    intro text doc h
    split_ifs at h with hboth
    obtain rfl := Option.some.inj h
    exact hboth.1

/-- A document with the chat settings on one line, and with or without those of copying in it. -/
def oneLine (copying : Bool) : Entries :=
  [("chat", .inlineTable
    (("font", ofStr "Monospace 12") ::
      if copying then [("autocopy", .inlineTable [("text", ofBool true)] {})] else []) {})]

theorem readable_set {s : Settings} (h : ∀ f : Field, f.kind.readable (s f)) {g : Field}
    {v : g.kind.Carrier} (hv : g.kind.readable v) (f : Field) : f.kind.readable (s.set g v f) := by
  by_cases heq : g = f
  · subst heq
    rw [Settings.set_self]
    exact hv
  · rw [Settings.set_of_ne s heq]
    exact h f

theorem apply_setInt (s : Settings) (f : Field) (v : Int32) :
    Call.apply s (.setInt f.path v) = s.set f (f.kind.setFrom (s f) (.int v.toInt)).1 := by
  rw [Call.apply, Preferences.setInt, setVal_path]

theorem apply_setBool (s : Settings) (f : Field) (v : Bool) :
    Call.apply s (.setBool f.path v) = s.set f (f.kind.setFrom (s f) (.flag v)).1 := by
  rw [Call.apply, Preferences.setBool, setVal_path]

private theorem width_path : "window.toolbar_width" = Field.path .windowToolbarWidth := by
  decide +kernel

private theorem color_path : "identity.nick_color" = Field.path .identityNickColor := by
  decide +kernel

private theorem copying_path : "chat.autocopy.text" = Field.path .chatAutocopyText := by
  decide +kernel

private theorem hidden_in_oneLine {f : Field} (h : hides false (oneLine true) f.segments = true) :
    f = .chatEmojiShortcodes ∨ f = .chatEmojiTypeahead := by
  cases f with
  | chatEmojiShortcodes => exact Or.inl rfl
  | chatEmojiTypeahead => exact Or.inr rfl
  | _ => exact absurd h (by decide)

/-- A window as wide as it is set to, and copying that is switched off where the document has
it, survive. -/
theorem oneLine_survives :
    ((fromDocument (oneLine true) []).after
      [.setInt "window.toolbar_width" 800, .setBool "chat.autocopy.text" false]).Survives
        inMemory := by
  have hparse : inMemory.parse (oneLine true) = some (oneLine true) := rfl
  refine (survives_iff_kept inMemory hparse [] _).mpr ⟨?_, ?_⟩
  · rw [width_path, copying_path]
    simp only [after, List.foldl_cons, List.foldl_nil, apply_setInt, apply_setBool]
    refine readable_set (readable_set (readable_fromDocument _ _) ?_) trivial
    have hwidth : ∀ slot : UInt32, (replaceIfChanged slot (800 : UInt32)).1 = 800 :=
      fun slot => replaceIfChanged_fst slot 800
    exact (hwidth _).symm ▸ (by decide : 1 ≤ (800 : UInt32).toNat)
  · intro f hhides
    have hhidden := hidden_in_oneLine hhides
    rw [width_path, copying_path]
    simp only [after, List.foldl_cons, List.foldl_nil, apply_setInt, apply_setBool]
    have hwidth : Field.windowToolbarWidth ≠ f := by rcases hhidden with rfl | rfl <;> decide
    have hcopying : Field.chatAutocopyText ≠ f := by rcases hhidden with rfl | rfl <;> decide
    rw [Settings.set_of_ne _ hcopying, Settings.set_of_ne _ hwidth, settings_fromDocument]
    rcases hhidden with rfl | rfl <;> rw [read_of_none rfl]

/-- A width of zero, a colour of more than 24 bits, and copying that is switched off where the
document has the chat settings on one line without it, do not survive. -/
theorem zeroWidth_not_survives :
    ¬((fromDocument [] []).after [.setInt "window.toolbar_width" 0]).Survives inMemory ∧
    ¬((fromDocument [] []).after [.setInt "identity.nick_color" 16777216]).Survives inMemory ∧
    inMemory.parse (oneLine false) = some (oneLine false) ∧
    ¬((fromDocument (oneLine false) []).after [.setBool "chat.autocopy.text" false]).Survives
      inMemory := by
  refine ⟨?_, ?_, rfl, ?_⟩
  · intro h
    have hkept := (Kept.of_survives inMemory rfl h).readable .windowToolbarWidth
    rw [width_path] at hkept
    simp only [after, List.foldl_cons, List.foldl_nil, apply_setInt, Settings.set_self] at hkept
    have hvalue : ∀ slot : UInt32, (replaceIfChanged slot (0 : UInt32)).1 = 0 :=
      fun slot => replaceIfChanged_fst slot 0
    exact absurd ((hvalue _) ▸ hkept) (by decide : ¬1 ≤ (0 : UInt32).toNat)
  · intro h
    have hkept := (Kept.of_survives inMemory rfl h).readable .identityNickColor
    rw [color_path] at hkept
    simp only [after, List.foldl_cons, List.foldl_nil, apply_setInt, Settings.set_self] at hkept
    have hvalue : ∀ slot : Int32, (replaceIfChanged slot (16777216 : Int32)).1 = 16777216 :=
      fun slot => replaceIfChanged_fst slot 16777216
    exact absurd ((hvalue _) ▸ hkept)
      (by decide : ¬((16777216 : Int32) = NICK_COLOR_NONE ∨
        (16777216 : Int32).toUInt32.toNat < 2 ^ 24))
  · intro h
    have hshown := (Kept.of_survives inMemory rfl h).shown .chatAutocopyText rfl
    rw [copying_path] at hshown
    simp only [after, List.foldl_cons, List.foldl_nil, apply_setBool, Settings.set_self] at hshown
    have hvalue : ∀ slot : Bool, (replaceIfChanged slot false).1 = false :=
      fun slot => replaceIfChanged_fst slot false
    exact absurd ((hvalue _).symm.trans hshown) Bool.false_ne_true

end Config

end Gtkhx.Preferences
