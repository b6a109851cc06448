import Gtkhx.Preferences.Survives

/-!
# The accessors of the settings

The settings pages read a setting by its path and store by it. Numbers pass through 32 signed bits
and lists through one text with commas, so what is read can be stored without a change unless a
number does not fit or an element of a list does not survive the commas.
-/

namespace Gtkhx.Preferences

/-- A setting's value without its type. -/
def Kind.toVal : (k : Kind) → k.Carrier → Val
  | .flag, (v : Bool) => .flag v
  | .unsigned, (v : UInt32) => .int v.toNat
  | .extent, (v : UInt32) => .int v.toNat
  | .id16, (v : UInt16) => .int v.toNat
  | .color, (v : Int32) => .int v.toInt
  | .text, (v : String) => .text v
  | .list, (v : List String) => .list v
  | .scheme, (v : ColorScheme) => .text v.asStr

/-- The value at a path, if the table has it. -/
def getVal (s : Settings) (path : String) : Option Val :=
  (FIELDS.find? fun f => f.path = path).map fun f => f.kind.toVal (s f)

def getBool (s : Settings) (path : String) : Bool :=
  match getVal s path with
  | some (.flag b) => b
  | _ => false

def getInt (s : Settings) (path : String) : Int32 :=
  match getVal s path with
  | some (.int i) => Int32.ofInt (clamp i (-2147483648) 2147483647)
  | _ => 0

/-- Texts with commas between them. -/
def joinCommas (l : List String) : String := String.intercalate "," l

def getString (s : Settings) (path : String) : String :=
  match getVal s path with
  | some (.text t) => t
  | some (.list l) => joinCommas l
  | _ => ""

/-- Set the value at a path to what is read there, with the accessors of a kind. -/
def Kind.storeRead : Kind → Settings → String → Settings × Bool
  | .flag, s, path => setBool s path (getBool s path)
  | .unsigned, s, path | .extent, s, path | .id16, s, path | .color, s, path =>
    setInt s path (getInt s path)
  | .text, s, path | .list, s, path | .scheme, s, path => setString s path (getString s path)

/-- An element of a list that comes back from between commas. -/
def Separable (element : String) : Prop :=
  element ≠ "" ∧ ',' ∉ element.toList ∧ Text.trim element.toList = element.toList

/-- What the accessors of a kind carry. -/
def Kind.Carried : (k : Kind) → k.Carrier → Prop
  | .unsigned, (v : UInt32) => v.toNat ≤ 2147483647
  | .extent, (v : UInt32) => v.toNat ≤ 2147483647
  | .list, (v : List String) => ∀ element ∈ v, Separable element
  | _, _ => True

section Lists

/-- What a text is split into comes back from between commas. -/
theorem separable_of_mem_splitList {s e : String} (h : e ∈ splitList s) : Separable e := by
  obtain ⟨part, hpart, rfl⟩ := List.mem_map.mp h
  obtain ⟨hmem, hne⟩ := List.mem_filter.mp hpart
  obtain ⟨whole, hwhole, rfl⟩ := List.mem_map.mp hmem
  rw [Separable, String.toList_ofList]
  refine ⟨?_, ?_, Text.trim_trim whole⟩
  · intro hempty
    rw [← String.toList_inj, String.toList_ofList] at hempty
    simp [hempty] at hne
  · exact fun hcomma =>
      Text.not_mem_of_mem_splitOn hwhole (Text.trim_subset whole hcomma)

private theorem splitList_of_separable {l : List String} (h : ∀ e ∈ l, Separable e) (hne : l ≠ []) :
    splitList (joinCommas l) = l := by
  have hcommas : ∀ part ∈ l.map String.toList, ',' ∉ part := by
    intro part hpart
    obtain ⟨e, he, rfl⟩ := List.mem_map.mp hpart
    exact (h e he).2.1
  have htrim : (l.map String.toList).map Text.trim = l.map String.toList := by
    rw [List.map_map]
    exact List.map_congr_left fun e he => (h e he).2.2
  have hfilter : (l.map String.toList).filter (· ≠ []) = l.map String.toList := by
    refine List.filter_eq_self.mpr fun part hpart => ?_
    obtain ⟨e, he, rfl⟩ := List.mem_map.mp hpart
    have hempty := (h e he).1
    rw [ne_eq, ← String.toList_inj] at hempty
    simpa using hempty
  have hsplit : (joinCommas l).toList.splitOn ',' = l.map String.toList := by
    rw [joinCommas, String.toList_intercalate]
    exact List.splitOn_intercalate ',' hcommas (by simpa using hne)
  rw [splitList, hsplit, htrim, hfilter, List.map_map]
  exact (List.map_congr_left fun e _ => String.ofList_toList).trans (List.map_id l)

/-- A list comes back from between commas if and only if each of its elements does. -/
theorem splitList_joinCommas {l : List String} :
    splitList (joinCommas l) = l ↔ ∀ e ∈ l, Separable e := by
  constructor
  · intro h e he
    rw [← h] at he
    exact separable_of_mem_splitList he
  · intro h
    by_cases hne : l = []
    · subst hne
      rfl
    · exact splitList_of_separable h hne

end Lists

section Passed

/-- What the accessors of a kind pass on of a value. -/
def Kind.passed : (k : Kind) → k.Carrier → Val
  | .flag, (v : Bool) => .flag v
  | .unsigned, (v : UInt32) => .int (clamp v.toNat (-2147483648) 2147483647)
  | .extent, (v : UInt32) => .int (clamp v.toNat (-2147483648) 2147483647)
  | .id16, (v : UInt16) => .int (clamp v.toNat (-2147483648) 2147483647)
  | .color, (v : Int32) => .int (clamp v.toInt (-2147483648) 2147483647)
  | .text, (v : String) => .text v
  | .list, (v : List String) => .text (joinCommas v)
  | .scheme, (v : ColorScheme) => .text v.asStr

theorem le_clamp {i low high : ℤ} (h : low ≤ high) : low ≤ clamp i low high := by
  unfold clamp
  split_ifs <;> omega

theorem clamp_le {i low high : ℤ} (h : low ≤ high) : clamp i low high ≤ high := by
  unfold clamp
  split_ifs <;> omega

theorem clamp_eq {i low high : ℤ} (hlow : low ≤ i) (hhigh : i ≤ high) : clamp i low high = i := by
  rw [clamp, if_neg (by omega), if_neg (by omega)]

private theorem toInt_clamp (i : ℤ) :
    (Int32.ofInt (clamp i (-2147483648) 2147483647)).toInt = clamp i (-2147483648) 2147483647 :=
  Int32.toInt_ofInt_of_le (le_clamp (by decide))
    (Int.lt_of_le_of_lt (clamp_le (by decide)) (by decide))

private theorem ofNat_clamp (v : UInt32) :
    UInt32.ofNat (clamp (clamp v.toNat (-2147483648) 2147483647) 0 4294967295).toNat = v ↔
      v.toNat ≤ 2147483647 := by
  have hvalue : (clamp (clamp v.toNat (-2147483648) 2147483647) 0 4294967295).toNat =
      min v.toNat 2147483647 := by
    unfold clamp
    split_ifs <;> omega
  rw [hvalue, ← UInt32.toNat_inj, UInt32.toNat_ofNat']
  omega

theorem getVal_path (s : Settings) (f : Field) : getVal s f.path = some (f.kind.toVal (s f)) := by
  rw [getVal, find_path]
  rfl

/-- Storing what is read is setting what was passed on. -/
theorem Kind.storeRead_eq (k : Kind) {s : Settings} {path : String} (v : k.Carrier)
    (hread : getVal s path = some (k.toVal v)) :
    k.storeRead s path = setVal s path (k.passed v) := by
  cases k <;> simp only [storeRead, setBool, setInt, setString, getBool, getInt, getString, hread,
    toVal, passed, toInt_clamp]

/-- Setting what was passed on changes nothing if and only if the kind carries the value. -/
theorem Kind.setFrom_passed (k : Kind) (v : k.Carrier) :
    k.setFrom v (k.passed v) = (v, false) ↔ k.Carried v := by
  cases k with
  | flag => exact iff_of_true (replaceIfChanged_eq_iff.mpr rfl) trivial
  | unsigned => exact replaceIfChanged_eq_iff.trans (ofNat_clamp v)
  | extent => exact replaceIfChanged_eq_iff.trans (ofNat_clamp v)
  | id16 =>
    refine iff_of_true (replaceIfChanged_eq_iff.mpr ?_) trivial
    have hlt := UInt16.toNat_lt v
    have hsame : clamp v.toNat (-2147483648) 2147483647 = v.toNat := clamp_eq (by omega) (by omega)
    rw [hsame, clamp_eq (by omega) (by omega), Int.toNat_natCast]
    exact UInt16.ofNat_toNat
  | color =>
    refine iff_of_true (replaceIfChanged_eq_iff.mpr ?_) trivial
    have hlow := Int32.le_toInt v
    have hhigh := Int32.toInt_lt v
    have hsame : clamp v.toInt (-2147483648) 2147483647 = v.toInt := clamp_eq (by omega) (by omega)
    rw [hsame, hsame]
    exact Int32.ofInt_toInt v
  | text => exact iff_of_true (replaceIfChanged_eq_iff.mpr rfl) trivial
  | list => exact replaceIfChanged_eq_iff.trans splitList_joinCommas
  | scheme =>
    refine iff_of_true ?_ trivial
    cases v <;> rfl

end Passed

private theorem storeRead_eq_iff (s : Settings) (f : Field) :
    f.kind.storeRead s f.path = (s, false) ↔ f.kind.Carried (s f) := by
  rw [f.kind.storeRead_eq (s f) (getVal_path s f), setVal_path, ← Kind.setFrom_passed]
  constructor
  · intro h
    have hset : s.set f (f.kind.setFrom (s f) (f.kind.passed (s f))).1 f = s f :=
      congrFun (congrArg Prod.fst h) f
    have hchanged : (f.kind.setFrom (s f) (f.kind.passed (s f))).2 = false := congrArg Prod.snd h
    rw [Settings.set_self] at hset
    exact Prod.ext hset hchanged
  · intro h
    rw [h, Settings.set_get]

/-- Storing what is read of a setting says that nothing changed, and changes nothing, if and only
if the accessors of its kind carry its value. -/
theorem storeRead_iff (doc : Toml.Entries) (warnings : List Warning) (f : Field) :
    f.kind.storeRead (Config.fromDocument doc warnings).settings f.path =
        ((Config.fromDocument doc warnings).settings, false) ↔
      f.kind.Carried ((Config.fromDocument doc warnings).settings f) :=
  storeRead_eq_iff _ f

/-- A file with a number of 32 bits and with a comma in an element. -/
def uncarried : Toml.Entries :=
  [("chat", .table [("scrollback_lines", ofInteger 3000000000),
    ("highlight_words", .array [ofStr "a,b"] {})] false false)]

/-- Neither is stored as it is read. -/
theorem uncarried_not_stored :
    Field.chatScrollbackLines.kind.storeRead (Config.fromDocument uncarried []).settings
        Field.chatScrollbackLines.path ≠ ((Config.fromDocument uncarried []).settings, false) ∧
      Field.chatHighlightWords.kind.storeRead (Config.fromDocument uncarried []).settings
        Field.chatHighlightWords.path ≠ ((Config.fromDocument uncarried []).settings, false) := by
  constructor
  · intro h
    have hcarried := (storeRead_eq_iff _ _).mp h
    rw [settings_fromDocument] at hcarried
    have hle : (3000000000 : UInt32).toNat ≤ 2147483647 := hcarried
    exact absurd hle (by decide)
  · intro h
    have hcarried := (storeRead_eq_iff _ _).mp h
    rw [settings_fromDocument] at hcarried
    exact absurd (hcarried "a,b" List.mem_cons_self).2.1 (by decide)

end Gtkhx.Preferences
