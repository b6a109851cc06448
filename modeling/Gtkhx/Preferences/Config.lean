import Gtkhx.Preferences.Put
import Gtkhx.Preferences.Schema

/-!
# A loaded configuration

The settings with the document they came from. Reading never fails: what cannot be used leaves the
default and a warning. Saving edits the loaded document in place, so it works in whatever tables
the file has.
-/

namespace Gtkhx.Preferences

open Toml

/-- What is wrong with the value at a path. -/
inductive WarningKind
  | wrongType (expected found : String)
  | outOfRange (value min max : ℤ)
  | unknownValue (value : String) (allowed : List String)
  deriving DecidableEq

/-- A diagnostic of loading. -/
structure Warning where
  path : String
  kind : WarningKind
  deriving DecidableEq

/-- The name of what an item is. -/
def typeName : Item → String
  | .table _ _ _ => "table"
  | .arrayOfTables _ => "array of tables"
  | .scalar (.string _) _ => "string"
  | .scalar (.integer _) _ => "integer"
  | .scalar (.float _) _ => "float"
  | .scalar (.boolean _) _ => "boolean"
  | .scalar (.datetime _) _ => "datetime"
  | .array _ _ => "array"
  | .inlineTable _ _ => "table"

def asBool : Item → Option Bool
  | .scalar (.boolean b) _ => some b
  | _ => none

def asInteger : Item → Option ℤ
  | .scalar (.integer i) _ => some i
  | _ => none

def asStr : Item → Option String
  | .scalar (.string s) _ => some s
  | _ => none

def asArray : Item → Option (List Item)
  | .array elements _ => some elements
  | _ => none

/-- The spellings of a colour that the diagnostic names. -/
def COLOR_FORMS : List String := ["#rrggbb", "#rgb", "none", "\"\" for no colour"]

/-- The greatest 32-bit number. -/
def U32_MAX : ℤ := 4294967295

def wrongType (path : List String) (expected : String) (item : Item) : Warning :=
  ⟨dotted path, .wrongType expected (typeName item)⟩

namespace Reader

variable (doc : Entries) (path : List String)

/-- Report the tables of the schema that the file has as something else. -/
def checkTablePrefixes : List Warning :=
  tablePrefixes.flatMap fun above =>
    match doc.find above with
    | some item => if item.asTableLike.isNone then [wrongType above "table" item] else []
    | none => []

def flag (out : Bool) : Bool × List Warning :=
  match doc.find path with
  | none => (out, [])
  | some item =>
    match asBool item with
    | some v => (v, [])
    | none => (out, [wrongType path "boolean" item])

def text (out : String) : String × List Warning :=
  match doc.find path with
  | none => (out, [])
  | some item =>
    match asStr item with
    | some v => (v, [])
    | none => (out, [wrongType path "string" item])

/-- A number between two others. -/
def integer (min max : ℤ) : Option ℤ × List Warning :=
  match doc.find path with
  | none => (none, [])
  | some item =>
    match asInteger item with
    | none => (none, [wrongType path "integer" item])
    | some v =>
      if v < min ∨ max < v then (none, [⟨dotted path, .outOfRange v min max⟩]) else (some v, [])

def unsigned (out : UInt32) : UInt32 × List Warning :=
  match integer doc path 0 U32_MAX with
  | (some v, ws) => (UInt32.ofNat v.toNat, ws)
  | (none, ws) => (out, ws)

def id16 (out : UInt16) : UInt16 × List Warning :=
  match integer doc path 0 65535 with
  | (some v, ws) => (UInt16.ofNat v.toNat, ws)
  | (none, ws) => (out, ws)

/-- A nickname colour. A number is accepted as well, between the one for no colour and the
greatest of 24 bits. -/
def color (out : Int32) : Int32 × List Warning :=
  match doc.find path with
  | none => (out, [])
  | some item =>
    if (asInteger item).isSome then
      match integer doc path NICK_COLOR_NONE.toInt 0x00ffffff with
      | (some v, ws) => (Int32.ofInt v, ws)
      | (none, ws) => (out, ws)
    else
      match asStr item with
      | none => (out, [wrongType path "colour like \"#rrggbb\"" item])
      | some text =>
        match parseNickColor text with
        | some v => (v, [])
        | none => (out, [⟨dotted path, .unknownValue text COLOR_FORMS⟩])

/-- A window's width or height: a number from 1 on. -/
def extent (out : UInt32) : UInt32 × List Warning :=
  match integer doc path 1 U32_MAX with
  | (some v, ws) => (UInt32.ofNat v.toNat, ws)
  | (none, ws) => (out, ws)

/-- The texts of an array, and a warning with the place of every element that is none. -/
def collect (elements : List Item) : List String × List Warning :=
  (elements.filterMap asStr,
    elements.zipIdx.filterMap fun (element, i) =>
      if (asStr element).isSome then none
      else some ⟨dotted path ++ "[" ++ toString i ++ "]", .wrongType "string" (typeName element)⟩)

def list (out : List String) : List String × List Warning :=
  match doc.find path with
  | none => (out, [])
  | some item =>
    match asArray item with
    | none => (out, [wrongType path "array of strings" item])
    | some elements => collect path elements

def scheme (out : ColorScheme) : ColorScheme × List Warning :=
  match doc.find path with
  | none => (out, [])
  | some item =>
    match asStr item with
    | none => (out, [wrongType path "string" item])
    | some s =>
      match ColorScheme.parse s with
      | some v => (v, [])
      | none => (out, [⟨dotted path, .unknownValue s ColorScheme.ALL⟩])

end Reader

/-- Read the value at a path, with the warnings about it. -/
def Kind.read (doc : Entries) (path : List String) :
    (k : Kind) → k.Carrier → k.Carrier × List Warning
  | .flag => Reader.flag doc path
  | .unsigned => Reader.unsigned doc path
  | .extent => Reader.extent doc path
  | .id16 => Reader.id16 doc path
  | .color => Reader.color doc path
  | .text => Reader.text doc path
  | .list => Reader.list doc path
  | .scheme => Reader.scheme doc path

/-- Overlay what the document supplies, one setting after the other. -/
def readAll (doc : Entries) (fields : List Field) (s : Settings) (ws : List Warning) :
    Settings × List Warning :=
  match fields with
  | [] => (s, ws)
  | f :: fields =>
    readAll doc fields (s.set f (f.kind.read doc f.segments (s f)).1)
      (ws ++ (f.kind.read doc f.segments (s f)).2)

def ofBool (v : Bool) : Item := .scalar (.boolean v) {}

def ofInteger (v : ℤ) : Item := .scalar (.integer v) {}

def ofStr (v : String) : Item := .scalar (.string v) {}

/-- The value that a setting is written as. -/
def Kind.write : (k : Kind) → k.Carrier → Item
  | .flag, (v : Bool) => ofBool v
  | .unsigned, (v : UInt32) => ofInteger v.toNat
  | .extent, (v : UInt32) => ofInteger v.toNat
  | .id16, (v : UInt16) => ofInteger v.toNat
  | .color, (v : Int32) => ofStr (formatNickColor v)
  | .text, (v : String) => ofStr v
  | .list, (v : List String) => .array (v.map ofStr) {}
  | .scheme, (v : ColorScheme) => ofStr v.asStr

/-- Write every setting into the document. -/
def writeAll (doc : Entries) (s : Settings) : Entries :=
  FIELDS.foldl (fun doc f => put f.segments (f.kind.write (s f)) doc) doc

/-- A loaded settings file. -/
structure Config where
  settings : Settings
  doc : Entries
  warnings : List Warning

/-- The schema version that is written. -/
def CURRENT_VERSION : ℤ := 1

/-- Read a document into settings. -/
def Config.fromDocument (doc : Entries) (warnings : List Warning) : Config where
  settings := (readAll doc FIELDS Settings.default (warnings ++ Reader.checkTablePrefixes doc)).1
  doc := doc
  warnings := (readAll doc FIELDS Settings.default (warnings ++ Reader.checkTablePrefixes doc)).2

/-- The document as a save renders it. -/
def Config.written (c : Config) : Entries := writeAll (setVersion c.doc CURRENT_VERSION) c.settings

/-- A TOML library, as far as it is relied on: a document that has only values in its inline
tables is read back as it was rendered, whatever else an inline table holds is left out, and no
table is read with a key twice. -/
structure TomlEdit (τ : Type) where
  render : Entries → τ
  parse : τ → Option Entries
  parse_render : ∀ doc : Entries, doc.distinct = true → entriesValuesOnly doc = true →
    parse (render doc) = some doc
  render_printed : ∀ doc : Entries, doc.distinct = true → render doc = render (printedEntries doc)
  parse_distinct : ∀ text doc, parse text = some doc → doc.distinct = true

/-- The settings as the file's contents would be. -/
def Config.toToml {τ : Type} (T : TomlEdit τ) (c : Config) : τ := T.render c.written

/-- A call of a setter. -/
inductive Call
  | setBool (path : String) (v : Bool)
  | setInt (path : String) (v : Int32)
  | setString (path : String) (v : String)

def Call.apply (s : Settings) : Call → Settings
  | .setBool path v => (Preferences.setBool s path v).1
  | .setInt path v => (Preferences.setInt s path v).1
  | .setString path v => (Preferences.setString s path v).1

/-- A configuration after calls of the setters. -/
def Config.after (c : Config) (calls : List Call) : Config :=
  { c with settings := calls.foldl Call.apply c.settings }

end Gtkhx.Preferences
