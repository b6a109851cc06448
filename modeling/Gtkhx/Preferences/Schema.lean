import Gtkhx.Library.Text
import Gtkhx.Library.Toml
import Mathlib.Data.List.Infix

/-!
# The settings and their table

Every setting has a path in the file, a kind of value and a default. The table lists them in the
order a new file has them in. The setters take a path and a value of any kind and clamp numbers to
what the setting's machine type holds.
-/

namespace Gtkhx.Preferences

open Toml

/-- What sort of value a path holds. -/
inductive Kind
  | flag
  | unsigned
  /-- A window's width or height: an unsigned number from 1 on. -/
  | extent
  | id16
  /-- A colour, written `#rrggbb`. -/
  | color
  | text
  | list
  | scheme
  deriving DecidableEq

/-- The colour schemes. -/
inductive ColorScheme
  | system
  | light
  | dark
  deriving DecidableEq

/-- The name of a scheme in the file. -/
def ColorScheme.asStr : ColorScheme → String
  | .system => "system"
  | .light => "light"
  | .dark => "dark"

def ColorScheme.parse (s : String) : Option ColorScheme :=
  if s = "system" then some .system
  else if s = "light" then some .light
  else if s = "dark" then some .dark
  else none

/-- The names a scheme can have. -/
def ColorScheme.ALL : List String := ["system", "light", "dark"]

/-- The number for no nickname colour. -/
def NICK_COLOR_NONE : Int32 := -1

/-- The bits of a number that a colour has. -/
def colorBits (value : Int32) : UInt32 := value.toUInt32 &&& 0x00ffffff

/-- A nickname colour as a person writes one. -/
def formatNickColor (value : Int32) : String :=
  if value = NICK_COLOR_NONE then ""
  else String.ofList ('#' :: Text.paddedHex 6 (colorBits value).toNat)

/-- The six digits of a colour that has three or six. -/
def expandDigits (digits : List Char) : Option (List Char) :=
  if digits.length = 3 then some (digits.flatMap fun c => [c, c])
  else if digits.length = 6 then some digits
  else none

/-- A text without a hash sign in front. -/
def stripHash : List Char → List Char
  | [] => []
  | c :: rest => if c = '#' then rest else c :: rest

/-- A nickname colour as a person might have written one. -/
def parseNickColor (text : String) : Option Int32 :=
  let text := Text.trim text.toList
  if text = [] ∨ Text.eqIgnoreAsciiCase text ['n', 'o', 'n', 'e'] = true then some NICK_COLOR_NONE
  else if (stripHash text).all Text.isHexDigit = false then none
  else (expandDigits (stripHash text)).map fun expanded =>
    (UInt32.ofNat (Text.ofHex expanded) &&& 0x00ffffff).toInt32

/-- The parts of a text between commas, trimmed, without the empty ones. -/
def splitList (s : String) : List String :=
  (((s.toList.splitOn ',').map Text.trim).filter (· ≠ [])).map String.ofList

/-- What a setting of each kind is in memory. -/
def Kind.Carrier : Kind → Type
  | .flag => Bool
  | .unsigned => UInt32
  | .extent => UInt32
  | .id16 => UInt16
  | .color => Int32
  | .text => String
  | .list => List String
  | .scheme => ColorScheme

instance Kind.decidableEqCarrier : (k : Kind) → DecidableEq k.Carrier
  | .flag => inferInstanceAs (DecidableEq Bool)
  | .unsigned | .extent => inferInstanceAs (DecidableEq UInt32)
  | .id16 => inferInstanceAs (DecidableEq UInt16)
  | .color => inferInstanceAs (DecidableEq Int32)
  | .text => inferInstanceAs (DecidableEq String)
  | .list => inferInstanceAs (DecidableEq (List String))
  | .scheme => inferInstanceAs (DecidableEq ColorScheme)

/-- The settings. -/
inductive Field
  | identityNick | identityIcon | identityNickColor
  | appearanceColorScheme | appearanceTheme | appearanceTray | appearanceTintWindow
  | chatFont | chatWordWrap | chatScrollbackLines | chatTimestamp | chatTimestampFormat
    | chatAvatars | chatMarkdown | chatSingleClickLinks | chatShowJoins | chatHistoryInitial
    | chatHighlightWords | chatLegacyNickCompletion
  | chatAutocopyText | chatAutocopyTimestamp
  | chatEmojiShortcodes | chatEmojiTypeahead
  | usersAnimateAvatars
  | notifyChat | notifyChatHighlight | notifyPrivateMessage | notifyPrivateChat
    | notifyPrivateChatHighlight | notifyPrivateChatInvite | notifyNews | notifyTransfer
    | notifyBroadcast | notifyOmitFocused
  | soundEnabled | soundChat | soundError | soundTransfer | soundInvite | soundJoin | soundLeave
    | soundLogin | soundPrivateMessage | soundNews | soundVoiceJoin | soundVoiceLeave
  | transfersDownloadDir | transfersQueue
  | trackersAddresses | trackersCaseSensitive
  | updatesCheck | updatesSkipVersion
  | voiceInputDevice | voiceOutputDevice | voiceCameraDevice | voicePttEnabled | voicePttKey
    | voiceMeteredOneVideo
  | messagingRequestsSet
  | windowToolbarWidth | windowToolbarHeight
  deriving DecidableEq

/-- Where a setting is in the file. -/
def Field.segments : Field → List String
  | .identityNick => ["identity", "nick"]
  | .identityIcon => ["identity", "icon"]
  | .identityNickColor => ["identity", "nick_color"]
  | .appearanceColorScheme => ["appearance", "color_scheme"]
  | .appearanceTheme => ["appearance", "theme"]
  | .appearanceTray => ["appearance", "tray"]
  | .appearanceTintWindow => ["appearance", "tint_window"]
  | .chatFont => ["chat", "font"]
  | .chatWordWrap => ["chat", "word_wrap"]
  | .chatScrollbackLines => ["chat", "scrollback_lines"]
  | .chatTimestamp => ["chat", "timestamp"]
  | .chatTimestampFormat => ["chat", "timestamp_format"]
  | .chatAvatars => ["chat", "avatars"]
  | .chatMarkdown => ["chat", "markdown"]
  | .chatSingleClickLinks => ["chat", "single_click_links"]
  | .chatShowJoins => ["chat", "show_joins"]
  | .chatHistoryInitial => ["chat", "history_initial"]
  | .chatHighlightWords => ["chat", "highlight_words"]
  | .chatLegacyNickCompletion => ["chat", "legacy_nick_completion"]
  | .chatAutocopyText => ["chat", "autocopy", "text"]
  | .chatAutocopyTimestamp => ["chat", "autocopy", "timestamp"]
  | .chatEmojiShortcodes => ["chat", "emoji", "shortcodes"]
  | .chatEmojiTypeahead => ["chat", "emoji", "typeahead"]
  | .usersAnimateAvatars => ["users", "animate_avatars"]
  | .notifyChat => ["notify", "chat"]
  | .notifyChatHighlight => ["notify", "chat_highlight"]
  | .notifyPrivateMessage => ["notify", "private_message"]
  | .notifyPrivateChat => ["notify", "private_chat"]
  | .notifyPrivateChatHighlight => ["notify", "private_chat_highlight"]
  | .notifyPrivateChatInvite => ["notify", "private_chat_invite"]
  | .notifyNews => ["notify", "news"]
  | .notifyTransfer => ["notify", "transfer"]
  | .notifyBroadcast => ["notify", "broadcast"]
  | .notifyOmitFocused => ["notify", "omit_focused"]
  | .soundEnabled => ["sound", "enabled"]
  | .soundChat => ["sound", "chat"]
  | .soundError => ["sound", "error"]
  | .soundTransfer => ["sound", "transfer"]
  | .soundInvite => ["sound", "invite"]
  | .soundJoin => ["sound", "join"]
  | .soundLeave => ["sound", "leave"]
  | .soundLogin => ["sound", "login"]
  | .soundPrivateMessage => ["sound", "private_message"]
  | .soundNews => ["sound", "news"]
  | .soundVoiceJoin => ["sound", "voice_join"]
  | .soundVoiceLeave => ["sound", "voice_leave"]
  | .transfersDownloadDir => ["transfers", "download_dir"]
  | .transfersQueue => ["transfers", "queue"]
  | .trackersAddresses => ["trackers", "addresses"]
  | .trackersCaseSensitive => ["trackers", "case_sensitive"]
  | .updatesCheck => ["updates", "check"]
  | .updatesSkipVersion => ["updates", "skip_version"]
  | .voiceInputDevice => ["voice", "input_device"]
  | .voiceOutputDevice => ["voice", "output_device"]
  | .voiceCameraDevice => ["voice", "camera_device"]
  | .voicePttEnabled => ["voice", "ptt_enabled"]
  | .voicePttKey => ["voice", "ptt_key"]
  | .voiceMeteredOneVideo => ["voice", "metered_one_video"]
  | .messagingRequestsSet => ["messaging", "requests_set"]
  | .windowToolbarWidth => ["window", "toolbar_width"]
  | .windowToolbarHeight => ["window", "toolbar_height"]

def Field.kind : Field → Kind
  | .chatScrollbackLines | .chatHistoryInitial => .unsigned
  | .windowToolbarWidth | .windowToolbarHeight => .extent
  | .identityIcon => .id16
  | .identityNickColor => .color
  | .identityNick | .appearanceTheme | .chatFont | .chatTimestampFormat | .transfersDownloadDir
    | .updatesSkipVersion | .voiceInputDevice | .voiceOutputDevice | .voiceCameraDevice
    | .voicePttKey => .text
  | .chatHighlightWords | .trackersAddresses | .messagingRequestsSet => .list
  | .appearanceColorScheme => .scheme
  | _ => .flag

/-- The value compiled in. -/
def Field.default : (f : Field) → f.kind.Carrier
  | .identityNick => ""
  | .identityIcon => (500 : UInt16)
  | .identityNickColor => NICK_COLOR_NONE
  | .appearanceColorScheme => ColorScheme.system
  | .appearanceTheme => "default"
  | .appearanceTray => true
  | .appearanceTintWindow => true
  | .chatFont => "Monospace 10"
  | .chatWordWrap => false
  | .chatScrollbackLines => (500 : UInt32)
  | .chatTimestamp => false
  | .chatTimestampFormat => "[%H:%M:%S] "
  | .chatAvatars => true
  | .chatMarkdown => true
  | .chatSingleClickLinks => true
  | .chatShowJoins => true
  | .chatHistoryInitial => (50 : UInt32)
  | .chatHighlightWords => ([] : List String)
  | .chatLegacyNickCompletion => false
  | .chatAutocopyText => true
  | .chatAutocopyTimestamp => false
  | .chatEmojiShortcodes => true
  | .chatEmojiTypeahead => true
  | .usersAnimateAvatars => true
  | .notifyChat => false
  | .notifyChatHighlight => true
  | .notifyPrivateMessage => true
  | .notifyPrivateChat => true
  | .notifyPrivateChatHighlight => true
  | .notifyPrivateChatInvite => true
  | .notifyNews => false
  | .notifyTransfer => true
  | .notifyBroadcast => true
  | .notifyOmitFocused => true
  | .soundEnabled => false
  | .soundChat => true
  | .soundError => true
  | .soundTransfer => true
  | .soundInvite => true
  | .soundJoin => true
  | .soundLeave => true
  | .soundLogin => true
  | .soundPrivateMessage => true
  | .soundNews => true
  | .soundVoiceJoin => true
  | .soundVoiceLeave => true
  | .transfersDownloadDir => "."
  | .transfersQueue => true
  | .trackersAddresses => ["hltracker.com", "tracker.vespernet.net", "tracker.preterhuman.net"]
  | .trackersCaseSensitive => true
  | .updatesCheck => true
  | .updatesSkipVersion => ""
  | .voiceInputDevice => ""
  | .voiceOutputDevice => ""
  | .voiceCameraDevice => ""
  | .voicePttEnabled => false
  | .voicePttKey => ""
  | .voiceMeteredOneVideo => true
  | .messagingRequestsSet => ([] : List String)
  | .windowToolbarWidth => (1100 : UInt32)
  | .windowToolbarHeight => (700 : UInt32)

/-- The settings in the order of the file. -/
def FIELDS : List Field :=
  [.identityNick, .identityIcon, .identityNickColor, .appearanceColorScheme, .appearanceTheme,
   .appearanceTray, .appearanceTintWindow, .chatFont, .chatWordWrap, .chatScrollbackLines,
   .chatTimestamp, .chatTimestampFormat, .chatAvatars, .chatMarkdown, .chatSingleClickLinks,
   .chatShowJoins, .chatHistoryInitial, .chatHighlightWords, .chatLegacyNickCompletion,
   .chatAutocopyText, .chatAutocopyTimestamp, .chatEmojiShortcodes, .chatEmojiTypeahead,
   .usersAnimateAvatars, .notifyChat, .notifyChatHighlight, .notifyPrivateMessage,
   .notifyPrivateChat, .notifyPrivateChatHighlight, .notifyPrivateChatInvite, .notifyNews,
   .notifyTransfer, .notifyBroadcast, .notifyOmitFocused, .soundEnabled, .soundChat, .soundError,
   .soundTransfer, .soundInvite, .soundJoin, .soundLeave, .soundLogin, .soundPrivateMessage,
   .soundNews, .soundVoiceJoin, .soundVoiceLeave, .transfersDownloadDir, .transfersQueue,
   .trackersAddresses, .trackersCaseSensitive, .updatesCheck, .updatesSkipVersion,
   .voiceInputDevice, .voiceOutputDevice, .voiceCameraDevice, .voicePttEnabled, .voicePttKey,
   .voiceMeteredOneVideo, .messagingRequestsSet, .windowToolbarWidth, .windowToolbarHeight]

/-- A path as a text. -/
def dotted (path : List String) : String := String.intercalate "." path

/-- A setting's path as a text. -/
def Field.path (f : Field) : String := dotted f.segments

/-- The values of all settings. -/
def Settings := (f : Field) → f.kind.Carrier

/-- The settings compiled in. -/
def Settings.default : Settings := Field.default

/-- A value of some kind, as it comes to a setter. -/
inductive Val
  | flag (b : Bool)
  | int (i : ℤ)
  | text (t : String)
  | list (l : List String)

/-- Assign, and say whether anything moved. -/
def replaceIfChanged {α : Type} [DecidableEq α] (slot new : α) : α × Bool :=
  if slot = new then (slot, false) else (new, true)

/-- The number nearest to this one between two others. -/
def clamp (i low high : ℤ) : ℤ := if i < low then low else if high < i then high else i

/-- Take a value for a setting of a kind, and say whether it differed from what was there. -/
def Kind.setFrom : (k : Kind) → k.Carrier → Val → k.Carrier × Bool
  | .flag, (slot : Bool), .flag b => replaceIfChanged slot b
  | .flag, (slot : Bool), .int i => replaceIfChanged slot (decide (i ≠ 0))
  | .unsigned, (slot : UInt32), .int i =>
    replaceIfChanged slot (UInt32.ofNat (clamp i 0 4294967295).toNat)
  | .extent, (slot : UInt32), .int i =>
    replaceIfChanged slot (UInt32.ofNat (clamp i 0 4294967295).toNat)
  | .id16, (slot : UInt16), .int i => replaceIfChanged slot (UInt16.ofNat (clamp i 0 65535).toNat)
  | .color, (slot : Int32), .int i =>
    replaceIfChanged slot (Int32.ofInt (clamp i (-2147483648) 2147483647))
  | .text, (slot : String), .text t => replaceIfChanged slot t
  | .list, (slot : List String), .list l => replaceIfChanged slot l
  | .list, (slot : List String), .text t => replaceIfChanged slot (splitList t)
  | .scheme, (slot : ColorScheme), .text t =>
    match ColorScheme.parse t with
    | some new => replaceIfChanged slot new
    | none => (slot, false)
  | _, slot, _ => (slot, false)

/-- The settings with one of them changed. -/
def Settings.set (s : Settings) (f : Field) (v : f.kind.Carrier) : Settings :=
  fun g => if h : f = g then h ▸ v else s g

/-- Set the value at a path, and say whether it changed. A path the table lacks is ignored. -/
def setVal (s : Settings) (path : String) (v : Val) : Settings × Bool :=
  match FIELDS.find? fun f => f.path = path with
  | some f => (s.set f (f.kind.setFrom (s f) v).1, (f.kind.setFrom (s f) v).2)
  | none => (s, false)

def setBool (s : Settings) (path : String) (v : Bool) : Settings × Bool := setVal s path (.flag v)

def setInt (s : Settings) (path : String) (v : Int32) : Settings × Bool :=
  setVal s path (.int v.toInt)

def setString (s : Settings) (path : String) (v : String) : Settings × Bool :=
  setVal s path (.text v)

/-- The tables above a path, from the outermost on. -/
def tablesAbove (path : List String) : List (List String) := path.dropLast.inits.tail

/-- The tables that the settings' paths go through, each once. -/
def tablePrefixes : List (List String) := (FIELDS.flatMap fun f => tablesAbove f.segments).eraseDups

@[simp] theorem Settings.set_self (s : Settings) (f : Field) (v : f.kind.Carrier) :
    s.set f v f = v := by
  simp [Settings.set]

theorem Settings.set_of_ne (s : Settings) {f g : Field} (h : f ≠ g) (v : f.kind.Carrier) :
    s.set f v g = s g := by
  simp [Settings.set, h]

/-- The table lists every setting. -/
theorem mem_FIELDS (f : Field) : f ∈ FIELDS := by
  cases f <;> decide

set_option maxRecDepth 10000 in
theorem nodup_FIELDS : FIELDS.Nodup := by
  decide +kernel

set_option maxRecDepth 10000 in
/-- No setting's path runs into another's. -/
theorem pairwise_segments :
    FIELDS.Pairwise fun f g => ¬f.segments <+: g.segments ∧ ¬g.segments <+: f.segments := by
  decide +kernel

theorem segments_ne_nil (f : Field) : f.segments ≠ [] := by
  cases f <;> exact List.cons_ne_nil _ _

set_option maxRecDepth 10000 in
private theorem find_path_of_mem :
    ∀ f ∈ FIELDS, (FIELDS.find? fun g => g.path = f.path) = some f := by
  decide +kernel

/-- A setting is found by its path. -/
theorem find_path (f : Field) : (FIELDS.find? fun g => g.path = f.path) = some f :=
  find_path_of_mem f (mem_FIELDS f)

@[simp] theorem replaceIfChanged_fst {α : Type} [DecidableEq α] (slot new : α) :
    (replaceIfChanged slot new).1 = new := by
  unfold replaceIfChanged
  split_ifs with heq
  · exact heq
  · rfl

theorem replaceIfChanged_eq_iff {α : Type} [DecidableEq α] {slot new : α} :
    replaceIfChanged slot new = (slot, false) ↔ new = slot := by
  unfold replaceIfChanged
  split_ifs with heq
  · exact iff_of_true rfl heq.symm
  · exact iff_of_false (fun h => Bool.noConfusion (congrArg Prod.snd h)) (Ne.symm heq)

/-- Setting a setting to what it is changes nothing. -/
theorem Settings.set_get (s : Settings) (f : Field) : s.set f (s f) = s := by
  funext g
  by_cases h : f = g
  · subst h
    exact s.set_self f (s f)
  · exact s.set_of_ne h (s f)

/-- Every setting is set by its path, and no other is. -/
theorem setVal_path (s : Settings) (f : Field) (v : Val) :
    setVal s f.path v = (s.set f (f.kind.setFrom (s f) v).1, (f.kind.setFrom (s f) v).2) := by
  rw [setVal, find_path]

/-- The tables of the prefix check are above some setting. -/
theorem exists_field_of_mem_tablePrefixes {above : List String} (h : above ∈ tablePrefixes) :
    ∃ (f : Field) (key : String) (rest : List String), f.segments = above ++ key :: rest := by
  obtain ⟨f, -, hf⟩ := List.mem_flatMap.mp (List.mem_eraseDups.mp h)
  have hprefix := (List.mem_inits _ _).mp (List.mem_of_mem_tail hf)
  obtain ⟨rest, hrest⟩ := hprefix
  refine ⟨f, ?_⟩
  have hlast := List.dropLast_append_getLast (segments_ne_nil f)
  rw [← hrest, List.append_assoc] at hlast
  cases rest with
  | nil => exact ⟨_, [], hlast.symm⟩
  | cons key rest => exact ⟨key, _, hlast.symm⟩

end Gtkhx.Preferences
