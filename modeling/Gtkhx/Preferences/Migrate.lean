import Gtkhx.Preferences.Legacy
import Gtkhx.Preferences.Survives
import Mathlib.Data.List.Pairwise

/-!
# Importing the old settings file

An old file becomes a document, which is then read as any other. The table says where each old key
goes, and each kind of setting has its own conversion from the old text. What cannot be converted,
or read after that, leaves the default and a warning.
-/

namespace Gtkhx.Preferences

open Toml

/-- Where an old key goes. -/
inductive Target
  | path (f : Field)
  /-- It is not carried across. -/
  | drop
  deriving DecidableEq

/-- Every key that was ever written, and where it goes. -/
def MAP : List (String × Target) :=
  [("ANIMATEAVATARS", .path .usersAnimateAvatars), ("AUTOCOPYCOLOR", .drop),
   ("AUTOCOPYSTAMP", .path .chatAutocopyTimestamp), ("AUTOCOPYTEXT", .path .chatAutocopyText),
   ("CHATAVATARS", .path .chatAvatars), ("CHATHISTORYINITIAL", .path .chatHistoryInitial),
   ("CHATXSIZE", .drop), ("CHATYSIZE", .drop), ("DOWNLOAD", .path .transfersDownloadDir),
   ("EMOJISHORTCODES", .path .chatEmojiShortcodes), ("EMOJITYPEAHEAD", .path .chatEmojiTypeahead),
   ("FONT", .path .chatFont), ("HIGHLIGHTWORDS", .path .chatHighlightWords),
   ("ICON", .path .identityIcon), ("MARKDOWN", .path .chatMarkdown), ("NEWSXSIZE", .drop),
   ("NEWSYSIZE", .drop), ("NICK", .path .identityNick), ("NICKCOLOR", .path .identityNickColor),
   ("NOTIFYBROADCAST", .path .notifyBroadcast), ("NOTIFYCHAT", .path .notifyChat),
   ("NOTIFYCHATHIGHLIGHT", .path .notifyChatHighlight), ("NOTIFYMSG", .path .notifyPrivateMessage),
   ("NOTIFYNEWS", .path .notifyNews), ("NOTIFYOMITFOCUSED", .path .notifyOmitFocused),
   ("NOTIFYPCHAT", .path .notifyPrivateChat),
   ("NOTIFYPCHATHIGHLIGHT", .path .notifyPrivateChatHighlight),
   ("NOTIFYPCHATINVITE", .path .notifyPrivateChatInvite), ("NOTIFYXFER", .path .notifyTransfer),
   ("OLD_NICKCOMPLETION", .path .chatLegacyNickCompletion), ("OPENCHAT", .drop),
   ("OPENNEWS", .drop), ("OPENTASKS", .drop), ("OPENUSERS", .drop),
   ("QUEUEDL", .path .transfersQueue), ("REQUESTSSET", .path .messagingRequestsSet),
   ("SHOWJOIN", .path .chatShowJoins), ("SINGLECLICKLINKS", .path .chatSingleClickLinks),
   ("SOUNDCHAT", .path .soundChat), ("SOUNDERROR", .path .soundError),
   ("SOUNDFILE", .path .soundTransfer), ("SOUNDINVITE", .path .soundInvite),
   ("SOUNDJOIN", .path .soundJoin), ("SOUNDLOGIN", .path .soundLogin),
   ("SOUNDMSG", .path .soundPrivateMessage), ("SOUNDNEWS", .path .soundNews),
   ("SOUNDPART", .path .soundLeave), ("SOUNDSON", .path .soundEnabled),
   ("SOUNDVOICEJOIN", .path .soundVoiceJoin), ("SOUNDVOICELEAVE", .path .soundVoiceLeave),
   ("TASKXSIZE", .drop), ("TASKYSIZE", .drop), ("THEME", .path .appearanceColorScheme),
   ("THEMENAME", .path .appearanceTheme), ("TIME", .drop), ("TIMESTAMP", .path .chatTimestamp),
   ("TIMESTAMPFORMAT", .path .chatTimestampFormat), ("TINTWINDOW", .path .appearanceTintWindow),
   ("TOOLXSIZE", .path .windowToolbarWidth), ("TOOLYSIZE", .path .windowToolbarHeight),
   ("TRACKER", .path .trackersAddresses), ("TRACKER_CASE", .path .trackersCaseSensitive),
   ("TRAY", .path .appearanceTray), ("UPDATECHECK", .path .updatesCheck),
   ("UPDATESKIPVERSION", .path .updatesSkipVersion), ("USERXSIZE", .drop), ("USERYSIZE", .drop),
   ("VOICEINPUTDEVICE", .path .voiceInputDevice), ("VOICEOUTPUTDEVICE", .path .voiceOutputDevice),
   ("VOICECAMERADEVICE", .path .voiceCameraDevice), ("VOICEPTTENABLED", .path .voicePttEnabled),
   ("VOICEPTTKEY", .path .voicePttKey), ("VOICEMETEREDONEVIDEO", .path .voiceMeteredOneVideo),
   ("WORDWRAP", .path .chatWordWrap), ("XBUF_MAX", .path .chatScrollbackLines),
   ("FILE_SAMEWINDOW", .drop), ("NEWS_SAMEWINDOW", .drop)]

/-- Where an old key goes, if the table has it. -/
def targetOf (key : String) : Option Target := (MAP.find? (·.1 = key)).map Prod.snd

/-- The old key of an entry with its value, if it goes to a setting and the file has it. -/
def feeds (f : Field) (legacy : LegacyKeys) (e : String × Target) : Option (String × String) :=
  match e.2 with
  | .path g => if g = f then (legacy.lookup e.1).map fun raw => (e.1, raw) else none
  | .drop => none

/-- The old key of a setting with its value, if the file has it. -/
def sourceFor (f : Field) (legacy : LegacyKeys) : Option (String × String) :=
  MAP.findSome? (feeds f legacy)

/-- What is wrong with an old key. -/
inductive MigrationKind
  | unknownLegacyKey
  | unmigratableValue (key value : String)
  | overEscaped (key : String)
  deriving DecidableEq

/-- A diagnostic of the import: the path of the setting, or the old key if that is not known. -/
structure MigrationWarning where
  path : String
  kind : MigrationKind
  deriving DecidableEq

/-- The old boolean: only the first letter counts. -/
def parseBoolean (s : String) : Option Bool :=
  match s.toList.head? with
  | none => none
  | some c =>
    if c ∈ ['0', 'f', 'F', 'n', 'N'] then some false
    else if c ∈ ['1', 't', 'T', 'y', 'Y'] then some true
    else none

/-- A text that went through the old writer and reader more than once. -/
def looksOverEscaped (unescaped : String) : Bool := ['\\', '\\'] <:+: unescaped.toList

/-- The number that decimal digits are. -/
def natural (digits : List Char) : Option ℤ :=
  if digits = [] ∨ digits.all Char.isDigit = false then none
  else some (Nat.ofDigitChars 10 digits 0)

/-- A number in decimal digits, which a sign may precede. -/
def number : List Char → Option ℤ
  | [] => none
  | c :: rest =>
    if c = '-' then (natural rest).map fun n => -n
    else if c = '+' then natural rest
    else natural (c :: rest)

/-- A number between two others. -/
def parseInt (low high : ℤ) (s : List Char) : Option ℤ :=
  (number s).filter fun n => low ≤ n ∧ n ≤ high

def parseI32 (s : List Char) : Option ℤ := parseInt (-2147483648) 2147483647 s

def parseI64 (s : List Char) : Option ℤ :=
  parseInt (-9223372036854775808) 9223372036854775807 s

/-- How many bytes a text has. -/
def byteLength (s : List Char) : ℕ := s.foldr (fun c n => c.utf8Size + n) 0

/-- Whether so many bytes end with a character. -/
def isCharBoundary (s : List Char) (n : ℕ) : Bool := s.inits.any fun start => byteLength start = n

/-- The last boundary up to so many bytes. -/
def boundaryFrom (s : List Char) : ℕ → ℕ
  | 0 => 0
  | n + 1 => if isCharBoundary s (n + 1) then n + 1 else boundaryFrom s n

/-- The characters of so many bytes. -/
def takeBytes : ℕ → List Char → List Char
  | _, [] => []
  | n, c :: rest => if c.utf8Size ≤ n then c :: takeBytes (n - c.utf8Size) rest else []

/-- How many bytes the wire's name field holds. -/
def LIMIT : ℕ := 31

def clampWireName (s : List Char) : List Char :=
  if byteLength s ≤ LIMIT then s else takeBytes (boundaryFrom s LIMIT) s

/-- The window size that an old zero stands for. -/
def fallback (f : Field) : UInt32 :=
  if f = .windowToolbarHeight then Field.default .windowToolbarHeight
  else Field.default .windowToolbarWidth

/-- An old value as the value of a kind of setting. -/
def Kind.convert (f : Field) (raw : String) : Kind → Option Item
  | .flag => (parseBoolean raw).map ofBool
  | .extent =>
    if Text.trim raw.toList = ['0'] then some (ofInteger (fallback f).toNat)
    else (parseI64 (Text.trim raw.toList)).map ofInteger
  | .unsigned | .id16 => (parseI64 (Text.trim raw.toList)).map ofInteger
  | .color => (parseI32 (Text.trim raw.toList)).map fun n => ofStr (formatNickColor (Int32.ofInt n))
  | .text =>
    if f = .identityNick then some (ofStr (String.ofList (clampWireName raw.toList)))
    else some (ofStr raw)
  | .scheme => some (ofStr raw)
  | .list => some (.array ((splitList raw).map ofStr) {})

/-- `convert`: an empty theme is the default one. -/
def convert (f : Field) (raw : String) : Option Item :=
  if f = .appearanceTheme ∧ raw = "" then some (ofStr (Field.default .appearanceTheme))
  else f.kind.convert f raw

/-- `table_for`: the tables above a path. -/
def tableFor : List String → Entries → Entries
  | key :: next :: path, es => es.alter key fun
    | some (.inlineTable sub format) => .inlineTable (tableFor (next :: path) sub) format
    | some (.table sub dotted implicit) => .table (tableFor (next :: path) sub) dotted implicit
    | some i => i
    | none => .table (tableFor (next :: path) []) false true
  | _, es => es

/-- One setting's place in the document, with its value if there is one: no path has a value
before. -/
def placeField (legacy : LegacyKeys) (doc : Entries) (f : Field) : Entries :=
  match sourceFor f legacy with
  | none => tableFor f.segments doc
  | some (_, raw) =>
    match convert f raw with
    | none => doc
    | some value => put f.segments value doc

/-- The warnings about one setting. -/
def fieldWarnings (legacy : LegacyKeys) (form : Form) (f : Field) : List MigrationWarning :=
  match sourceFor f legacy with
  | none => []
  | some (key, raw) =>
    (if form = .keyFile ∧ (f.kind = .text ∨ f.kind = .list) ∧ looksOverEscaped raw then
      [⟨f.path, .overEscaped key⟩] else []) ++
    if convert f raw = none then [⟨f.path, .unmigratableValue key raw⟩] else []

/-- `to_document`: the document of an old file, and the warnings about it. -/
def toDocument (legacy : LegacyKeys) (form : Form) : Entries × List MigrationWarning :=
  (FIELDS.foldl (placeField legacy) [("version", ofInteger CURRENT_VERSION)],
    FIELDS.flatMap (fieldWarnings legacy form) ++
      ((legacy.map Prod.fst).filter fun key => targetOf key = none).map fun key =>
        ⟨key, .unknownLegacyKey⟩)

/-- An old file as it was read. -/
structure Imported where
  config : Config
  warnings : List MigrationWarning

/-- The import of an old file's text. -/
def importLegacy (text : String) : Imported where
  config := Config.fromDocument (toDocument (parseLegacy text).1 (parseLegacy text).2).1 []
  warnings := (toDocument (parseLegacy text).1 (parseLegacy text).2).2

/-- The longest start of a text that the wire's name field holds. -/
structure Clamped (raw v : List Char) : Prop where
  isPrefix : v <+: raw
  fits : byteLength v ≤ LIMIT
  longest : ∀ start, start <+: raw → byteLength start ≤ LIMIT → start <+: v

/-- A setting of a kind is what its old text says, with the default that it has. -/
def Kind.Means (f : Field) (raw : String) : (k : Kind) → (standard v : k.Carrier) → Prop
  | .flag, _, (v : Bool) => parseBoolean raw = some v
  | .unsigned, _, (v : UInt32) => number (Text.trim raw.toList) = some (v.toNat : ℤ)
  | .extent, (standard : UInt32), (v : UInt32) =>
    number (Text.trim raw.toList) = some (v.toNat : ℤ) ∨
      number (Text.trim raw.toList) = some 0 ∧ v = standard
  | .id16, _, (v : UInt16) => number (Text.trim raw.toList) = some (v.toNat : ℤ)
  | .color, _, (v : Int32) => number (Text.trim raw.toList) = some v.toInt
  | .text, (standard : String), (v : String) =>
    if f = .identityNick then Clamped raw.toList v.toList
    else if f = .appearanceTheme ∧ raw = "" then v = standard
    else v = raw
  | .list, _, (v : List String) => v = splitList raw
  | .scheme, _, (v : ColorScheme) => v.asStr = raw

/-- A setting is what its old text says. -/
def Field.Means (f : Field) (raw : String) (v : f.kind.Carrier) : Prop :=
  f.kind.Means f raw f.default v

/-- Some warning names a setting. -/
def Imported.Names (i : Imported) (f : Field) : Prop :=
  (∃ w ∈ i.warnings, w.path = f.path ∧ w.kind ≠ .unknownLegacyKey) ∨
    ∃ w ∈ i.config.warnings, w.path = f.path

section Clamping

theorem byteLength_append (s t : List Char) :
    byteLength (s ++ t) = byteLength s + byteLength t := by
  induction s with
  | nil => simp [byteLength]
  | cons c s ih =>
    simp only [byteLength, List.cons_append, List.foldr_cons] at ih ⊢
    omega

theorem isCharBoundary_iff {s : List Char} {n : ℕ} :
    isCharBoundary s n = true ↔ ∃ start, start <+: s ∧ byteLength start = n := by
  simp [isCharBoundary, List.any_eq_true]

/-- The bytes of a start are taken. -/
theorem takeBytes_byteLength (start rest : List Char) :
    takeBytes (byteLength start) (start ++ rest) = start := by
  induction start with
  | nil =>
    cases rest with
    | nil => rfl
    | cons c rest =>
      have hpos := c.utf8Size_pos
      have hzero : ¬c.utf8Size ≤ byteLength [] := by
        simp only [byteLength, List.foldr_nil]
        omega
      rw [List.nil_append, takeBytes, if_neg hzero]
  | cons c start ih =>
    have hlength : byteLength (c :: start) = c.utf8Size + byteLength start := rfl
    rw [List.cons_append, takeBytes, hlength, if_pos (Nat.le_add_right _ _),
      Nat.add_sub_cancel_left, ih]

theorem boundaryFrom_spec (s : List Char) (n : ℕ) :
    isCharBoundary s (boundaryFrom s n) = true ∧ boundaryFrom s n ≤ n ∧
      ∀ m ≤ n, isCharBoundary s m = true → m ≤ boundaryFrom s n := by
  induction n with
  | zero =>
    refine ⟨isCharBoundary_iff.mpr ⟨[], List.nil_prefix, rfl⟩, Nat.le_refl 0, ?_⟩
    intro m hm _
    exact hm
  | succ n ih =>
    obtain ⟨hboundary, hle, hgreatest⟩ := ih
    rw [boundaryFrom]
    split
    next hhere => exact ⟨hhere, Nat.le_refl _, fun m hm _ => hm⟩
    next hnot =>
      refine ⟨hboundary, by omega, fun m hm hm' => ?_⟩
      rcases Nat.eq_or_lt_of_le hm with rfl | hlt
      · exact absurd hm' hnot
      · exact hgreatest m (by omega) hm'

/-- A name is cut at the last character that fits. -/
theorem clamped_clampWireName (s : List Char) : Clamped s (clampWireName s) := by
  unfold clampWireName
  split
  next hfits => exact ⟨List.prefix_refl s, hfits, fun start hstart _ => hstart⟩
  next =>
    obtain ⟨hboundary, hle, hgreatest⟩ := boundaryFrom_spec s LIMIT
    obtain ⟨cut, ⟨rest, hrest⟩, hlength⟩ := isCharBoundary_iff.mp hboundary
    have htake : takeBytes (boundaryFrom s LIMIT) s = cut := by
      rw [← hlength, ← hrest, takeBytes_byteLength]
    rw [htake]
    refine ⟨⟨rest, hrest⟩, hlength ▸ hle, fun start hstart hbytes => ?_⟩
    have hmax := hgreatest _ hbytes (isCharBoundary_iff.mpr ⟨start, hstart, rfl⟩)
    rcases List.prefix_or_prefix_of_prefix hstart ⟨rest, hrest⟩ with hprefix | ⟨more, rfl⟩
    · exact hprefix
    · cases more with
      | nil => simp
      | cons c more =>
        have hpos := c.utf8Size_pos
        have hmore : byteLength (c :: more) = c.utf8Size + byteLength more := rfl
        rw [byteLength_append] at hmax
        omega

end Clamping

section Numbers

theorem number_of_parseInt {low high n : ℤ} {s : List Char} (h : parseInt low high s = some n) :
    number s = some n ∧ low ≤ n ∧ n ≤ high := by
  simpa [parseInt, Option.filter_eq_some_iff] using h

end Numbers

/-- An old zero stands for the default of a setting. -/
def Kind.FallsBack (f : Field) : (k : Kind) → k.Carrier → Prop
  | .extent, (standard : UInt32) => fallback f = standard
  | _, _ => True

theorem fallsBack_default (f : Field) : f.kind.FallsBack f f.default := by
  cases f <;> trivial

/-- An old colour that fits in 24 bits, if it is a number at all. -/
def ColorFits (raw : String) : Prop :=
  ∀ n, parseI32 (Text.trim raw.toList) = some n → -1 ≤ n ∧ n ≤ 0x00ffffff

section Read

variable {doc : Entries} {path : List String} {found i : Item} {f : Field} {raw : String}

/-- A number that is there is read, or warned of. -/
theorem integer_or_warned {n : ℤ} (hfind : doc.find path = some found)
    (hsame : sameValue found (ofInteger n) = true) (low high : ℤ) :
    (Reader.integer doc path low high = (some n, []) ∧ low ≤ n ∧ n ≤ high) ∨
      Reader.integer doc path low high = (none, [⟨dotted path, .outOfRange n low high⟩]) := by
  by_cases hrange : n < low ∨ high < n
  · right
    simp only [Reader.integer, hfind, asInteger_of_same hsame, if_pos hrange]
  · left
    refine ⟨integer_of_same hfind hsame ?_ ?_, ?_, ?_⟩ <;> omega

private theorem exists_warning {w : Warning} {ws : List Warning} (h : ws = [w])
    (hpath : w.path = dotted path) : ∃ w ∈ ws, w.path = dotted path :=
  ⟨w, by rw [h]; exact List.mem_singleton_self w, hpath⟩

/-- A colour of 24 bits is read as it was. -/
theorem readable_ofInt {n : ℤ} (hlow : -1 ≤ n) (hhigh : n ≤ 0x00ffffff) :
    Kind.color.readable (Int32.ofInt n) ∧ (Int32.ofInt n).toInt = n := by
  have htoInt : (Int32.ofInt n).toInt = n := Int32.toInt_ofInt_of_le (by omega) (by omega)
  refine ⟨?_, htoInt⟩
  by_cases hnone : n = -1
  · subst hnone
    exact Or.inl rfl
  · obtain ⟨m, rfl⟩ := Int.eq_ofNat_of_zero_le (by omega : 0 ≤ n)
    refine Or.inr ?_
    rw [Int32.ofInt_eq_ofNat, Int32.toUInt32_ofNat', UInt32.toNat_ofNat']
    omega

/-- An old value that was converted is read as what it says, or warned of. -/
theorem means_or_warned (k : Kind) {standard : k.Carrier} (hconvert : k.convert f raw = some i)
    (hfind : doc.find path = some found) (hsame : sameValue found i = true)
    (hback : k.FallsBack f standard) (htheme : ¬(f = .appearanceTheme ∧ raw = ""))
    (hcolor : k = .color → ColorFits raw) :
    k.Means f raw standard (k.read doc path standard).1 ∨
      ∃ w ∈ (k.read doc path standard).2, w.path = dotted path := by
  cases k with
  | flag =>
    obtain ⟨b, hb, rfl⟩ := Option.map_eq_some_iff.mp hconvert
    left
    rw [read_of_same .flag (v := b) hfind hsame trivial]
    exact hb
  | unsigned =>
    obtain ⟨n, hn, rfl⟩ := Option.map_eq_some_iff.mp hconvert
    obtain ⟨hnumber, -⟩ := number_of_parseInt hn
    simp only [Kind.read, Reader.unsigned]
    rcases integer_or_warned hfind hsame 0 U32_MAX with ⟨hread, hlow, hhigh⟩ | hread
    · left
      rw [hread]
      simp only [Kind.Means, hnumber, toNat_unsigned hlow hhigh]
    · right
      exact exists_warning (by rw [hread]) rfl
  | id16 =>
    obtain ⟨n, hn, rfl⟩ := Option.map_eq_some_iff.mp hconvert
    obtain ⟨hnumber, -⟩ := number_of_parseInt hn
    simp only [Kind.read, Reader.id16]
    rcases integer_or_warned hfind hsame 0 65535 with ⟨hread, hlow, hhigh⟩ | hread
    · left
      rw [hread]
      have hnat : ((UInt16.ofNat n.toNat).toNat : ℤ) = n := by
        rw [UInt16.toNat_ofNat']
        omega
      simp only [Kind.Means, hnumber, hnat]
    · right
      exact exists_warning (by rw [hread]) rfl
  | extent =>
    simp only [Kind.read, Reader.extent]
    simp only [Kind.convert] at hconvert
    split at hconvert
    next hzero =>
      obtain rfl := Option.some.inj hconvert
      have hone : (1 : ℤ) ≤ (fallback f).toNat := by
        cases f <;> decide
      have hmax : ((fallback f).toNat : ℤ) ≤ U32_MAX := by
        have hlt := (fallback f).toNat_lt
        simp only [U32_MAX]
        omega
      left
      rw [integer_of_same hfind hsame hone hmax]
      refine Or.inr ⟨by rw [hzero]; decide, ?_⟩
      dsimp only
      rw [Int.toNat_natCast, UInt32.ofNat_toNat]
      exact hback
    next =>
      obtain ⟨n, hn, rfl⟩ := Option.map_eq_some_iff.mp hconvert
      obtain ⟨hnumber, -⟩ := number_of_parseInt hn
      rcases integer_or_warned hfind hsame 1 U32_MAX with ⟨hread, hlow, hhigh⟩ | hread
      · left
        rw [hread]
        exact Or.inl (by rw [hnumber, toNat_unsigned (by omega) hhigh])
      · right
        exact exists_warning (by rw [hread]) rfl
  | color =>
    obtain ⟨n, hn, rfl⟩ := Option.map_eq_some_iff.mp hconvert
    obtain ⟨hnumber, -⟩ := number_of_parseInt hn
    obtain ⟨hlow, hhigh⟩ := hcolor rfl n hn
    obtain ⟨hreadable, htoInt⟩ := readable_ofInt hlow hhigh
    left
    rw [read_of_same .color (v := Int32.ofInt n) hfind hsame hreadable]
    simp only [Kind.Means, hnumber, htoInt]
  | text =>
    left
    simp only [Kind.convert] at hconvert
    split at hconvert
    next hnick =>
      obtain rfl := Option.some.inj hconvert
      rw [read_of_same .text (v := String.ofList (clampWireName raw.toList)) hfind hsame trivial]
      simp only [Kind.Means, if_pos hnick, String.toList_ofList]
      exact clamped_clampWireName _
    next hnick =>
      obtain rfl := Option.some.inj hconvert
      rw [read_of_same .text (v := raw) hfind hsame trivial]
      simp only [Kind.Means, if_neg hnick, if_neg htheme]
  | list =>
    obtain rfl := Option.some.inj hconvert
    left
    rw [read_of_same .list (v := splitList raw) hfind hsame trivial]
    exact rfl
  | scheme =>
    obtain rfl := Option.some.inj hconvert
    simp only [Kind.read, Reader.scheme, hfind, asStr_of_same hsame]
    cases hparse : ColorScheme.parse raw with
    | some v =>
      left
      exact ColorScheme.asStr_of_parse hparse
    | none =>
      right
      exact exists_warning rfl rfl

end Read

section Placed

variable {legacy : LegacyKeys} {f : Field} {key raw : String}

/-- Tables that are made for a path touch nothing that another path finds. -/
theorem find_tableFor {path other : List String} {es : Entries} {i : Item}
    (hapart : ¬other <+: path) (h : es.find other = some i) :
    (tableFor path es).find other = some i := by
  induction path generalizing es other with
  | nil => exact h
  | cons key path ih =>
    cases path with
    | nil => exact h
    | cons next path =>
      cases other with
      | nil => cases h
      | cons key' other =>
        by_cases hkey : key' = key
        · subst hkey
          cases other with
          | nil => exact absurd (List.cons_prefix_cons.mpr ⟨rfl, List.nil_prefix⟩) hapart
          | cons next' other =>
            have hapart' : ¬next' :: other <+: next :: path :=
              fun hpre => hapart (List.cons_prefix_cons.mpr ⟨rfl, hpre⟩)
            rw [find_cons_cons] at h ⊢
            rw [tableFor, Entries.lookup_alter_self]
            cases hslot : es.lookup key' with
            | none => simp [hslot] at h
            | some slot =>
              rw [hslot] at h
              cases slot with
              | inlineTable | table => exact ih hapart' h
              | _ => cases h
        · have hlookup : ∀ f, (es.alter key f).lookup key' = es.lookup key' :=
            fun f => Entries.lookup_alter_of_ne hkey f es
          cases other with
          | nil => exact (hlookup _).trans h
          | cons next' other => rwa [tableFor, find_cons_cons, hlookup, ← find_cons_cons]

theorem isPlain_convert {i : Item} (h : convert f raw = some i) : isPlain i = true := by
  unfold convert at h
  split at h
  · obtain rfl := Option.some.inj h
    rfl
  · cases hk : f.kind with
    | flag | unsigned | id16 | color =>
      rw [hk] at h
      obtain ⟨_, -, rfl⟩ := Option.map_eq_some_iff.mp h
      rfl
    | extent =>
      rw [hk, Kind.convert] at h
      split at h
      · obtain rfl := Option.some.inj h
        rfl
      · obtain ⟨_, -, rfl⟩ := Option.map_eq_some_iff.mp h
        rfl
    | text =>
      rw [hk, Kind.convert] at h
      split at h <;>
      · obtain rfl := Option.some.inj h
        rfl
    | scheme =>
      rw [hk] at h
      obtain rfl := Option.some.inj h
      rfl
    | list =>
      rw [hk] at h
      obtain rfl := Option.some.inj h
      exact isPlain_write .list (splitList raw)

/-- The paths of two settings do not run into each other. -/
theorem apart_segments {f g : Field} (h : f ≠ g) : Apart f.segments g.segments := by
  have hsymm : Std.Symm fun f g : Field => Apart f.segments g.segments := ⟨fun _ _ => Apart.symm⟩
  have hpairwise : FIELDS.Pairwise fun f g => Apart f.segments g.segments := pairwise_segments
  exact hpairwise.forall (mem_FIELDS f) (mem_FIELDS g) h

/-- Placing a setting leaves what another one's path finds. -/
theorem find_placeField_other {f g : Field} (h : g ≠ f) {doc : Entries} {i : Item}
    (hfind : doc.find f.segments = some i) :
    (placeField legacy doc g).find f.segments = some i := by
  have hapart := apart_segments h
  unfold placeField
  split
  · exact find_tableFor hapart.2 hfind
  · split
    · exact hfind
    · exact find_put_other hapart.1 hapart.2 hfind

/-- In the whole document each old value is found as it was converted. -/
theorem find_toDocument {i : Item} (form : Form) (hsource : sourceFor f legacy = some (key, raw))
    (hconvert : convert f raw = some i) :
    ∃ found, (toDocument legacy form).1.find f.segments = some found ∧
      sameValue found i = true := by
  have hplaced : ∀ (fields : List Field) (doc : Entries), fields.Nodup → f ∈ fields →
      ∃ found, (fields.foldl (placeField legacy) doc).find f.segments = some found ∧
        sameValue found i = true := by
    intro fields
    have hothers : ∀ (fields : List Field) (doc : Entries) (j : Item), f ∉ fields →
        doc.find f.segments = some j →
        (fields.foldl (placeField legacy) doc).find f.segments = some j := by
      intro fields
      induction fields with
      | nil => exact fun doc j _ hj => hj
      | cons g fields ih =>
        intro doc j hnotin hj
        obtain ⟨hne, hnotin⟩ := not_or.mp (List.mem_cons.not.mp hnotin)
        exact ih _ j hnotin (find_placeField_other (Ne.symm hne) hj)
    induction fields with
    | nil => exact fun doc _ hmem => absurd hmem List.not_mem_nil
    | cons g fields ih =>
      intro doc hnodup hmem
      obtain ⟨hnotin, hnodup⟩ := List.nodup_cons.mp hnodup
      rcases List.mem_cons.mp hmem with rfl | hmem
      · obtain ⟨found, hfound, hsame⟩ := find_put_self (isPlain_convert hconvert)
          (segments_ne_nil f) doc
        have hplace : placeField legacy doc f = put f.segments i doc := by
          simp only [placeField, hsource, hconvert]
        exact ⟨found, hothers fields _ found hnotin (hplace ▸ hfound), hsame⟩
      · exact ih _ hnodup hmem
  exact hplaced FIELDS _ nodup_FIELDS (mem_FIELDS f)

end Placed

section Sources

variable {legacy : LegacyKeys} {f : Field} {key : String}

set_option maxRecDepth 10000 in
private theorem pairwise_MAP : MAP.Pairwise fun a b => a.2 = b.2 → a.2 = .drop := by
  decide +kernel

theorem mem_MAP {t : Target} (h : targetOf key = some t) : (key, t) ∈ MAP := by
  obtain ⟨e, hfind, rfl⟩ := Option.map_eq_some_iff.mp h
  have hkey : e.1 = key := by simpa using List.find?_some hfind
  exact hkey ▸ List.mem_of_find?_eq_some hfind

theorem feeds_of_ne {e : String × Target} (h : e.2 ≠ .path f) : feeds f legacy e = none := by
  unfold feeds
  split
  next g hg =>
    have hne : g ≠ f := by
      rintro rfl
      exact h hg
    exact if_neg hne
  next => rfl

/-- A setting is fed by the one key that goes to it. -/
theorem sourceFor_eq (h : targetOf key = some (.path f)) (legacy : LegacyKeys) :
    sourceFor f legacy = (legacy.lookup key).map fun raw => (key, raw) := by
  have hmem := mem_MAP h
  have hpairwise := pairwise_MAP
  unfold sourceFor
  generalize MAP = entries at hmem hpairwise
  induction entries with
  | nil => exact absurd hmem List.not_mem_nil
  | cons e entries ih =>
    obtain ⟨hhead, htail⟩ := List.pairwise_cons.mp hpairwise
    rw [List.findSome?_cons]
    rcases List.mem_cons.mp hmem with rfl | hmem
    · have hrest : entries.findSome? (feeds f legacy) = none := by
        rw [List.findSome?_eq_none_iff]
        exact fun e he => feeds_of_ne fun heq => Target.noConfusion (hhead e he heq.symm)
      have hhere : feeds f legacy (key, .path f) = (legacy.lookup key).map fun raw => (key, raw) :=
        if_pos rfl
      rw [hrest, hhere]
      cases legacy.lookup key <;> rfl
    · have hne : e.2 ≠ .path f := by
        intro heq
        have hdrop := hhead _ hmem heq
        rw [heq] at hdrop
        exact Target.noConfusion hdrop
      rw [feeds_of_ne hne]
      exact ih hmem htail

set_option maxRecDepth 10000 in
private theorem nickColor_source :
    ∀ e ∈ MAP, e.2 = .path .identityNickColor → e.1 = "NICKCOLOR" := by
  decide +kernel

end Sources

section Warned

variable {legacy : LegacyKeys} {f : Field} {key raw : String} {doc : Entries}

theorem eq_of_path {g : Field} (h : g.path = f.path) : g = f := by
  have hfind := find_path g
  rw [h, find_path f] at hfind
  exact (Option.some.inj hfind).symm

/-- What the reader warns of is the value at a path, or an element of it. -/
theorem path_of_read (k : Kind) {path : List String} {out : k.Carrier} {w : Warning}
    (h : w ∈ (k.read doc path out).2) :
    w.path = dotted path ∨ ∃ i, w.path = dotted path ++ "[" ++ i ++ "]" := by
  have hinteger : ∀ low high, w ∈ (Reader.integer doc path low high).2 → w.path = dotted path := by
    intro low high hw
    unfold Reader.integer at hw
    split at hw
    · cases hw
    · split at hw
      · rw [List.mem_singleton.mp hw]
        rfl
      · split at hw
        · rw [List.mem_singleton.mp hw]
        · cases hw
  cases k with
  | flag | text =>
    left
    simp only [Kind.read, Reader.flag, Reader.text] at h
    split at h
    · cases h
    · split at h
      · cases h
      · rw [List.mem_singleton.mp h]
        rfl
  | unsigned | id16 | extent =>
    left
    simp only [Kind.read, Reader.unsigned, Reader.id16, Reader.extent] at h
    split at h
    next hread => exact hinteger _ _ (by rw [hread]; exact h)
    next hread => exact hinteger _ _ (by rw [hread]; exact h)
  | color =>
    left
    simp only [Kind.read, Reader.color] at h
    split at h
    · cases h
    · split at h
      · split at h
        next hread => exact hinteger _ _ (by rw [hread]; exact h)
        next hread => exact hinteger _ _ (by rw [hread]; exact h)
      · split at h
        · rw [List.mem_singleton.mp h]
          rfl
        · split at h
          · cases h
          · rw [List.mem_singleton.mp h]
  | list =>
    simp only [Kind.read, Reader.list] at h
    split at h
    · cases h
    · split at h
      · left
        rw [List.mem_singleton.mp h]
        rfl
      · right
        obtain ⟨⟨element, i⟩, -, hw⟩ := List.mem_filterMap.mp h
        dsimp only at hw
        split_ifs at hw
        exact ⟨toString i, by rw [← Option.some.inj hw]⟩
  | scheme =>
    left
    simp only [Kind.read, Reader.scheme] at h
    split at h
    · cases h
    · split at h
      · rw [List.mem_singleton.mp h]
        rfl
      · split at h
        · cases h
        · rw [List.mem_singleton.mp h]

set_option maxRecDepth 10000 in
private theorem nickColor_no_table :
    ∀ above ∈ tablePrefixes, dotted above ≠ Field.path .identityNickColor := by
  decide +kernel

/-- The colour is warned of only where it is read. -/
theorem warnings_nickColor {w : Warning} (hw : w ∈ (Config.fromDocument doc []).warnings)
    (hpath : w.path = Field.path .identityNickColor) :
    w ∈ (Kind.color.read doc (Field.segments .identityNickColor)
      (Field.default .identityNickColor)).2 := by
  have hwarnings : (Config.fromDocument doc []).warnings = _ :=
    warnings_readAll nodup_FIELDS doc Settings.default ([] ++ Reader.checkTablePrefixes doc)
  rw [hwarnings, List.nil_append] at hw
  rcases List.mem_append.mp hw with hw | hw
  · obtain ⟨above, habove, hw⟩ := List.mem_flatMap.mp hw
    split at hw
    · split at hw
      · rw [List.mem_singleton.mp hw] at hpath
        exact absurd hpath (nickColor_no_table above habove)
      · cases hw
    · cases hw
  · obtain ⟨g, -, hw⟩ := List.mem_flatMap.mp hw
    rcases path_of_read g.kind hw with hg | ⟨i, hg⟩
    · obtain rfl := eq_of_path (hg.symm.trans hpath)
      exact hw
    · have hlast := congrArg (fun s : String => s.toList.getLast?) (hg.symm.trans hpath)
      have hbracket : "]".toList.getLast? = some ']' := by decide
      have hcolor : (Field.path .identityNickColor).toList.getLast? = some 'r' := by decide
      simp only [String.toList_append, List.getLast?_append, hbracket, Option.some_or,
        hcolor] at hlast
      exact absurd hlast (by decide)

theorem toInt_colorBits (v : Int32) :
    0 ≤ (colorBits v).toInt32.toInt ∧ (colorBits v).toInt32.toInt ≤ 0x00ffffff := by
  have hbits : (colorBits v).toNat < 2 ^ 24 := by
    rw [colorBits, toNat_colorBits]
    omega
  have hofInt : (colorBits v).toInt32 = Int32.ofInt (colorBits v).toNat := by
    rw [Int32.ofInt_eq_ofNat, ← UInt32.toInt32_ofNat', UInt32.ofNat_toNat]
  rw [hofInt, (readable_ofInt (by omega) (by omega)).2]
  omega

theorem path_of_fieldWarnings {form : Form} {w : MigrationWarning}
    (h : w ∈ fieldWarnings legacy form f) : w.path = f.path := by
  unfold fieldWarnings at h
  split at h
  · cases h
  · rcases List.mem_append.mp h with h | h
    · split at h
      · rw [List.mem_singleton.mp h]
      · cases h
    · split at h
      · rw [List.mem_singleton.mp h]
      · cases h

/-- A colour that was converted is read as its last 24 bits, and nobody is warned. -/
theorem read_nickColor {n : ℤ} (hparse : parseI32 (Text.trim raw.toList) = some n) (hne : n ≠ -1)
    (hsource : sourceFor .identityNickColor legacy = some (key, raw)) (form : Form) :
    (Kind.color.read (toDocument legacy form).1 (Field.segments .identityNickColor)
      (Field.default .identityNickColor)) = ((colorBits (Int32.ofInt n)).toInt32, []) := by
  obtain ⟨-, hlow, hhigh⟩ := number_of_parseInt hparse
  have hconvert : convert .identityNickColor raw =
      some (ofStr (formatNickColor (Int32.ofInt n))) := by
    have hcolor : Kind.color.convert .identityNickColor raw = _ :=
      congrArg (Option.map fun n => ofStr (formatNickColor (Int32.ofInt n))) hparse
    exact hcolor
  obtain ⟨found, hfind, hsame⟩ := find_toDocument form hsource hconvert
  have htoInt : (Int32.ofInt n).toInt = n := Int32.toInt_ofInt_of_le (by omega) (by omega)
  have hsome : Int32.ofInt n ≠ NICK_COLOR_NONE := by
    intro heq
    rw [heq] at htoInt
    exact hne htoInt.symm
  have hstr := asStr_of_same hsame
  simp only [Kind.read, Reader.color, hfind, asInteger_of_asStr hstr, Option.isSome_none, hstr,
    parseNickColor_formatNickColor hsome]
  rfl

end Warned

/-- The import of a key file of the old writer loses nothing silently. -/
structure ImportsAll (kvs : List (String × String)) : Prop where
  /-- Each value is read back exactly. -/
  readBack : ∀ kv ∈ kvs, (parseLegacy (keyFile kvs)).1.lookup kv.1 = some kv.2
  /-- Each key's setting is what the old value says, or is named in a warning. -/
  carried : ∀ kv ∈ kvs, ∀ f, targetOf kv.1 = some (.path f) →
    f.Means kv.2 ((importLegacy (keyFile kvs)).config.settings f) ∨
      (importLegacy (keyFile kvs)).Names f
  /-- Each key that the table lacks is named in a warning. -/
  unknown : ∀ kv ∈ kvs, targetOf kv.1 = none →
    ⟨kv.1, .unknownLegacyKey⟩ ∈ (importLegacy (keyFile kvs)).warnings

section Import

variable {text key raw : String} {f : Field}

/-- An old value is carried across, or warned of, unless it is a colour of more than 24 bits. -/
theorem carried_of_lookup (htarget : targetOf key = some (.path f))
    (hlookup : (parseLegacy text).1.lookup key = some raw)
    (hcolor : key = "NICKCOLOR" → ColorFits raw) :
    f.Means raw ((importLegacy text).config.settings f) ∨ (importLegacy text).Names f := by
  have hsource : sourceFor f (parseLegacy text).1 = some (key, raw) := by
    rw [sourceFor_eq htarget, hlookup]
    rfl
  cases hconvert : convert f raw with
  | none =>
    right
    left
    refine ⟨⟨f.path, .unmigratableValue key raw⟩, ?_, rfl, MigrationKind.noConfusion⟩
    refine List.mem_append_left _ (List.mem_flatMap.mpr ⟨f, mem_FIELDS f, ?_⟩)
    simp [fieldWarnings, hsource, hconvert]
  | some i =>
    obtain ⟨found, hfind, hsame⟩ := find_toDocument (parseLegacy text).2 hsource hconvert
    have hsettings : (importLegacy text).config.settings f =
        (f.kind.read (toDocument (parseLegacy text).1 (parseLegacy text).2).1 f.segments
          f.default).1 := settings_fromDocument _ _ f
    rw [hsettings]
    by_cases htheme : f = .appearanceTheme ∧ raw = ""
    · left
      obtain ⟨rfl, rfl⟩ := htheme
      obtain rfl : ofStr (Field.default .appearanceTheme) = i := Option.some.inj hconvert
      have hread := read_of_same .text (v := Field.default .appearanceTheme) hfind hsame trivial
        (Field.default .appearanceTheme)
      exact congrArg Prod.fst hread
    · rw [convert, if_neg htheme] at hconvert
      have hcolorKind : f.kind = .color → ColorFits raw := by
        intro hkind
        have hf : f = .identityNickColor := by
          revert hkind
          cases f <;> decide
        exact hcolor (nickColor_source _ (mem_MAP htarget) (by rw [hf]))
      rcases means_or_warned f.kind hconvert hfind hsame (fallsBack_default f) htheme
        hcolorKind with hmeans | ⟨w, hw, hpath⟩
      · exact Or.inl hmeans
      · right
        right
        refine ⟨w, ?_, hpath⟩
        have hwarnings : (importLegacy text).config.warnings = _ :=
          warnings_readAll nodup_FIELDS _ Settings.default _
        rw [hwarnings]
        exact List.mem_append_right _ (List.mem_flatMap.mpr ⟨f, mem_FIELDS f, hw⟩)

/-- A colour that was carried across, or warned of, is one of 24 bits. -/
theorem colorFits_of_carried
    (hlookup : (parseLegacy text).1.lookup "NICKCOLOR" = some raw)
    (hcarried : Field.Means .identityNickColor raw
        ((importLegacy text).config.settings .identityNickColor) ∨
      (importLegacy text).Names .identityNickColor) : ColorFits raw := by
  intro n hparse
  by_cases hne : n = -1
  · subst hne
    decide
  have htarget : targetOf "NICKCOLOR" = some (.path .identityNickColor) := by decide
  have hsource : sourceFor .identityNickColor (parseLegacy text).1 = some ("NICKCOLOR", raw) := by
    rw [sourceFor_eq htarget, hlookup]
    rfl
  have hread := read_nickColor hparse hne hsource (parseLegacy text).2
  rcases hcarried with hmeans | ⟨w, hw, hpath, hkind⟩ | ⟨w, hw, hpath⟩
  · have hsettings : (importLegacy text).config.settings .identityNickColor = _ :=
      settings_fromDocument _ _ .identityNickColor
    rw [hsettings] at hmeans
    have hnumber : number (Text.trim raw.toList) = some (Int32.toInt (Kind.color.read
        (toDocument (parseLegacy text).1 (parseLegacy text).2).1
        (Field.segments .identityNickColor) (Field.default .identityNickColor)).1) := hmeans
    rw [hread, (number_of_parseInt hparse).1, Option.some.injEq] at hnumber
    have hbits := toInt_colorBits (Int32.ofInt n)
    rw [← show n = _ from hnumber] at hbits
    omega
  · refine absurd hw fun hw => ?_
    rcases List.mem_append.mp hw with hw | hw
    · obtain ⟨g, -, hw⟩ := List.mem_flatMap.mp hw
      have hg : w.path = g.path := path_of_fieldWarnings hw
      obtain rfl := eq_of_path (hg.symm.trans hpath)
      have hconvert : convert .identityNickColor raw ≠ none := by
        have hcolor : Kind.color.convert .identityNickColor raw = _ :=
          congrArg (Option.map fun n => ofStr (formatNickColor (Int32.ofInt n))) hparse
        intro hnone
        rw [show convert .identityNickColor raw = _ from hcolor] at hnone
        cases hnone
      simp [fieldWarnings, hsource, hconvert, Field.kind] at hw
    · obtain ⟨k, -, rfl⟩ := List.mem_map.mp hw
      exact hkind rfl
  · have hwarned := warnings_nickColor hw hpath
    rw [hread] at hwarned
    cases hwarned

end Import

section Whole

variable {kvs : List (String × String)}

private theorem lookup_of_mem (hnodup : (kvs.map Prod.fst).Nodup) {kv : String × String}
    (h : kv ∈ kvs) : kvs.lookup kv.1 = some kv.2 := by
  induction kvs with
  | nil => exact absurd h List.not_mem_nil
  | cons e kvs ih =>
    obtain ⟨hnotin, hnodup⟩ := List.nodup_cons.mp hnodup
    rcases List.mem_cons.mp h with rfl | h
    · exact List.lookup_cons_self
    · have hne : kv.1 ≠ e.1 := fun heq => hnotin (heq ▸ List.mem_map_of_mem h)
      rw [List.lookup_cons, beq_false_of_ne hne]
      exact ih hnodup h

/-- The value of a key is read back unless it loses its start. -/
theorem lookup_eq_iff (hkeys : ∀ kv ∈ kvs, KeyName kv.1) (hnodup : (kvs.map Prod.fst).Nodup)
    {kv : String × String} (h : kv ∈ kvs) :
    (parseLegacy (keyFile kvs)).1.lookup kv.1 = some kv.2 ↔ ¬LosesStart kv.2 := by
  rw [lookup_parseLegacy hkeys hnodup, lookup_of_mem hnodup h, Option.map_some,
    Option.some.injEq, keptValue_eq_iff]

/-- The import loses nothing silently exactly if no value begins with white space that the writer
leaves alone, and a nickname colour that is a number has 24 bits. -/
theorem importsAll_iff (kvs : List (String × String)) (hkeys : ∀ kv ∈ kvs, KeyName kv.1)
    (hnodup : (kvs.map Prod.fst).Nodup) :
    ImportsAll kvs ↔
      ∀ kv ∈ kvs, ¬LosesStart kv.2 ∧ (kv.1 = "NICKCOLOR" → ColorFits kv.2) := by
  constructor
  · intro h kv hkv
    refine ⟨(lookup_eq_iff hkeys hnodup hkv).mp (h.readBack kv hkv), fun hcolor => ?_⟩
    refine colorFits_of_carried (hcolor ▸ h.readBack kv hkv) (h.carried kv hkv _ ?_)
    rw [hcolor]
    decide
  · intro h
    have hread : ∀ kv ∈ kvs, (parseLegacy (keyFile kvs)).1.lookup kv.1 = some kv.2 :=
      fun kv hkv => (lookup_eq_iff hkeys hnodup hkv).mpr (h kv hkv).1
    refine ⟨hread, fun kv hkv f htarget => ?_, fun kv hkv hnone => ?_⟩
    · exact carried_of_lookup htarget (hread kv hkv) (h kv hkv).2
    · have hmem : kv.1 ∈ (parseLegacy (keyFile kvs)).1.map Prod.fst := by
        obtain ⟨l, l', hl, -⟩ := List.lookup_eq_some_iff.mp (hread kv hkv)
        rw [hl]
        simp
      refine List.mem_append_right _ (List.mem_map.mpr ⟨kv.1, ?_, rfl⟩)
      exact List.mem_filter.mpr ⟨hmem, by simp [hnone]⟩

private theorem keyNames : KeyName "NICK" ∧ KeyName "NICKCOLOR" ∧ KeyName "OWN" := by
  refine ⟨?_, ?_, ?_⟩ <;>
    exact ⟨by decide, by simp [Text.newline, Text.carriageReturn], by decide, by decide⟩

theorem nick_imports : ImportsAll [("NICK", " bob"), ("NICKCOLOR", "12607947"), ("OWN", "")] := by
  obtain ⟨hnick, hcolor, hown⟩ := keyNames
  have hparse : parseI32 (Text.trim "12607947".toList) = some 12607947 := by decide
  refine (importsAll_iff _ (by simp [hnick, hcolor, hown]) (by decide)).mpr ?_
  intro kv hkv
  simp only [List.mem_cons, List.not_mem_nil, or_false] at hkv
  rcases hkv with rfl | rfl | rfl
  · exact ⟨by simp [LosesStart], by simp⟩
  · refine ⟨by simp [LosesStart, Text.isWhitespace], fun _ n hn => ?_⟩
    obtain rfl := Option.some.inj (hparse.symm.trans hn)
    decide
  · exact ⟨by simp [LosesStart], by simp⟩

/-- A colour of 25 bits is cut, and a wide space at the start of a name is lost. -/
theorem color_not_imports :
    ¬ImportsAll [("NICKCOLOR", "16777216")] ∧ ¬ImportsAll [("NICK", "\u3000bob")] := by
  obtain ⟨hnick, hcolor, -⟩ := keyNames
  constructor
  · intro h
    have hparse : parseI32 (Text.trim "16777216".toList) = some 16777216 := by decide
    have hfits := colorFits_of_carried (h.readBack _ List.mem_cons_self)
      (h.carried _ List.mem_cons_self .identityNickColor (by decide)) _ hparse
    omega
  · intro h
    have hkeeps := (lookup_eq_iff (by simp [hnick]) (by decide) List.mem_cons_self).mp
      (h.readBack _ List.mem_cons_self)
    exact hkeeps ⟨'\u3000', by simp, by decide, by decide, by decide, by decide, by decide⟩

end Whole

end Gtkhx.Preferences
