import Gtkhx.Preferences.Survives
import Mathlib.Data.List.Pairwise

/-!
# What a save touches

A save stamps the version and assigns one value at each setting's path. All else of the document is
left as it was: the other keys, the order of the keys, and what stands around them. What is lost
are the comments between the brackets of a list that is rewritten, those after a version that is
stamped anew, and what the document has below a setting's path.
-/

namespace Gtkhx.Preferences

open Toml

/-- A piece of formatting, if it holds a comment. -/
def commentIn (text : String) : List String := if '#' ∈ text.toList then [text] else []

/-- The comments before a value. -/
def commentsBefore (format : Format) : List String :=
  (format.decor.map fun decor => commentIn decor.1).getD []

/-- The comments after a value. -/
def commentsAfter (format : Format) : List String :=
  (format.decor.map fun decor => commentIn decor.2).getD []

/-- The comments in an array's own text, which is what follows its last element. -/
def commentsInside (format : Format) : List String := (format.repr.map commentIn).getD []

mutual

/-- The comments at the values of an item, in their order. A key and a table's header keep what
stands around them as long as they are there. -/
def commentsOf : Item → List String
  | .scalar _ format => commentsBefore format ++ commentsAfter format
  | .array elements format =>
    commentsBefore format ++ (commentsOfItems elements ++ commentsInside format) ++
      commentsAfter format
  | .inlineTable entries format =>
    commentsBefore format ++ commentsOfEntries entries ++ commentsAfter format
  | .table entries _ _ => commentsOfEntries entries
  | .arrayOfTables tables => commentsOfItems tables

def commentsOfItems : List Item → List String
  | [] => []
  | i :: is => commentsOf i ++ commentsOfItems is

def commentsOfEntries : List (String × Item) → List String
  | [] => []
  | (_, i) :: es => commentsOf i ++ commentsOfEntries es

end

/-- The comments between a value's brackets. -/
def innerComments : Item → List String
  | .array elements format => commentsOfItems elements ++ commentsInside format
  | .inlineTable entries _ => commentsOfEntries entries
  | _ => []

/-- Whether what is above a path's last key is tables, as far as it is there. An inline table is
none. -/
def tablesOnWay : Entries → List String → Bool
  | es, key :: next :: path =>
    match es.lookup key with
    | some (.table sub _ _) => tablesOnWay sub (next :: path)
    | some _ => false
    | none => true
  | _, _ => true

/-- A document with standard tables: each table has its header, and what is above a setting is such
a table. -/
structure Standard (doc : Entries) : Prop where
  headed : entriesHeaded doc = true
  onWay : ∀ f : Field, tablesOnWay doc f.segments = true

/-- A path that is neither the version's nor a setting's, nor a table's above one. -/
def Outside (path : List String) : Prop :=
  path ≠ ["version"] ∧ ∀ f : Field, ¬path <+: f.segments

/-- A value that has no keys. -/
def keyless (i : Item) : Bool := i.isValue && (i.asTableLike.getD []).isEmpty

/-- A colour of six digits after a hash, or none. -/
def HexColor (text : String) : Prop :=
  text = "" ∨ ∃ digits : List Char, text.toList = '#' :: digits ∧ digits.length = 6 ∧
    ∀ c ∈ digits, Text.isHexDigit c = true

/-- A colour whose digits are in lower case. -/
def LowerColor (text : String) : Prop := ∀ c ∈ text.toList, c = '#' ∨ Text.isLowerHex c = true

/-- Every setting is in the document and can be read, and the colour has its six digits. -/
structure AllPresent (doc : Entries) : Prop where
  present : ∀ f : Field, ∃ i, doc.find f.segments = some i
  valid : ∀ f : Field, (f.kind.read doc f.segments f.default).2 = []
  color : ∀ i, doc.find (Field.segments .identityNickColor) = some i →
    ∃ text, asStr i = some text ∧ HexColor text

/-- A save touches only what changed. -/
structure TouchesOnly (doc : Entries) (s : Settings) (out : Entries) : Prop where
  /-- What is outside the schema is unchanged. -/
  outside : ∀ path i, Outside path → doc.find path = some i → out.find path = some i
  /-- A table with a header stays one, with its keys in their order. -/
  tables : ∀ path entries dotted implicit, doc.find path = some (.table entries dotted implicit) →
    ∃ entries', out.find path = some (.table entries' dotted implicit) ∧
      entries.map Prod.fst <+: entries'.map Prod.fst
  arrays : ∀ path tables, doc.find path = some (.arrayOfTables tables) →
    out.find path = some (.arrayOfTables tables)
  /-- The keys at the top are in their order, after the version if that is new. -/
  top : doc.map Prod.fst <+: out.map Prod.fst ∨
    "version" ∉ doc.map Prod.fst ∧ "version" :: doc.map Prod.fst <+: out.map Prod.fst
  /-- The comments at a setting stay. -/
  comments : ∀ (f : Field) i, doc.find f.segments = some i →
    ∃ j, out.find f.segments = some j ∧ commentsOf j = commentsOf i
  /-- And those at the version. -/
  versionComments : ∀ i, doc.lookup "version" = some i →
    ∃ j, out.lookup "version" = some j ∧ commentsOf j = commentsOf i
  /-- A value that means what its setting is keeps its spelling. -/
  kept : ∀ (f : Field) i, doc.find f.segments = some i →
    sameValue i (f.kind.write (s f)) = true → out.find f.segments = some i
  /-- Every other setting is written, with what stood around its value. -/
  rewritten : ∀ f : Field,
    (∀ i, doc.find f.segments = some i → sameValue i (f.kind.write (s f)) = false) →
    out.find f.segments =
      some (withDecor ((doc.find f.segments).bind decorOf) (f.kind.write (s f)))
  /-- Nothing else is added. -/
  nothingElse : ∀ path j, out.find path = some j →
    (doc.find path).isSome = true ∨ path = ["version"] ∨ ∃ f : Field, path <+: f.segments
  /-- A file that has every setting is left as it is but for the version. -/
  whole : AllPresent doc → s = (Config.fromDocument doc []).settings →
    out = setVersion doc CURRENT_VERSION

/-- Nothing stands where a save would lose it. -/
structure NothingToLose (doc : Entries) (s : Settings) : Prop where
  /-- A setting's path holds a value, and nothing is below it. -/
  values : ∀ (f : Field) i, doc.find f.segments = some i → keyless i = true
  /-- A value that is rewritten has no comments between its brackets. -/
  bare : ∀ (f : Field) i, doc.find f.segments = some i →
    sameValue i (f.kind.write (s f)) = true ∨ innerComments i = []
  /-- The version is stamped, or new, or the first key with a value without comments. -/
  version : (∃ format, doc.lookup "version" =
      some (.scalar (.integer CURRENT_VERSION) format)) ∨
    doc.lookup "version" = none ∨
    ∃ i rest, doc = ("version", i) :: rest ∧ keyless i = true ∧ commentsOf i = []
  /-- If every setting is there and saved as it is loaded, the colour is in lower case. -/
  color : AllPresent doc → s = (Config.fromDocument doc []).settings →
    ∀ i text, doc.find (Field.segments .identityNickColor) = some i → asStr i = some text →
      LowerColor text

section Comments

theorem commentsOfItems_texts (texts : List String) :
    commentsOfItems (texts.map ofStr) = [] := by
  induction texts with
  | nil => rfl
  | cons t texts ih => exact ih

/-- A rewritten value has the comments that stood around the old one. -/
theorem commentsOf_write (k : Kind) (v : k.Carrier) (decor : Option (String × String)) :
    commentsOf (withDecor decor (k.write v)) =
      commentsBefore ⟨none, decor⟩ ++ commentsAfter ⟨none, decor⟩ := by
  cases k with
  | list =>
    simp only [Kind.write, withDecor, commentsOf]
    simp [commentsInside, commentsBefore, commentsAfter]
    exact commentsOfItems_texts v
  | _ => rfl

/-- A value's comments are those around it, with those between its brackets. -/
theorem commentsOf_value {i : Item} (h : i.isValue = true) :
    commentsOf i = commentsBefore ⟨none, decorOf i⟩ ++ innerComments i ++
      commentsAfter ⟨none, decorOf i⟩ := by
  cases i with
  | scalar => simp [commentsOf, innerComments, decorOf, commentsBefore, commentsAfter]
  | array | inlineTable => simp [commentsOf, innerComments, decorOf, commentsBefore, commentsAfter]
  | _ => cases h

/-- The comments at a rewritten value stay exactly if there are none between the brackets. -/
theorem commentsOf_rewritten {i : Item} (h : i.isValue = true) (k : Kind) (v : k.Carrier) :
    commentsOf (withDecor (decorOf i) (k.write v)) = commentsOf i ↔ innerComments i = [] := by
  rw [commentsOf_write, commentsOf_value h]
  constructor
  · intro heq
    have hlength := congrArg List.length heq
    simp only [List.length_append] at hlength
    apply List.eq_nil_of_length_eq_zero
    omega
  · intro hnil
    rw [hnil, List.append_nil]

end Comments

section Stamping

variable {doc : Entries} {version : ℤ}

theorem sorted_of_headed {i : Item} (h : i.headed = true) (name : String) :
    Item.sorted name i = i := by
  cases i with
  | table entries dotted implicit =>
    cases dotted with
    | false => rfl
    | true => cases h
  | _ => rfl

theorem entriesSorted_of_headed (h : entriesHeaded doc = true) (name : String) :
    entriesSorted name doc = doc := by
  induction doc with
  | nil => rfl
  | cons e doc ih =>
    obtain ⟨hi, hes⟩ := (Bool.and_eq_true _ _).mp h
    rw [entriesSorted, sorted_of_headed hi, ih hes]

theorem filter_alter_ne (name : String) (f : Option Item → Item) (es : Entries) :
    (es.alter name f).filter (·.1 ≠ name) = es.filter (·.1 ≠ name) := by
  induction es with
  | nil => simp [Entries.alter]
  | cons e es ih =>
    obtain ⟨k, i⟩ := e
    by_cases hk : k = name
    · simp [Entries.alter, hk]
    · simpa [Entries.alter, hk] using ih

theorem filter_alter_eq {name : String} {es : Entries} (h : (es.map Prod.fst).Nodup)
    (f : Option Item → Item) :
    (es.alter name f).filter (·.1 = name) = [(name, f (es.lookup name))] := by
  induction es with
  | nil => simp [Entries.alter]
  | cons e es ih =>
    obtain ⟨k, i⟩ := e
    obtain ⟨hnotin, hnodup⟩ := List.nodup_cons.mp h
    by_cases hk : k = name
    · subst hk
      have hrest : es.filter (·.1 = k) = [] := by
        apply List.filter_eq_nil_iff.mpr
        intro e he
        have hne : e.1 ≠ k := fun heq => hnotin (List.mem_map.mpr ⟨e, he, heq⟩)
        simpa using hne
      simp [Entries.alter, hrest]
    · rw [Entries.alter, if_neg hk, List.filter_cons, if_neg (by simpa using hk), ih hnodup,
        List.lookup_cons, beq_false_of_ne (Ne.symm hk)]

/-- A document with standard tables is stamped at its top. -/
theorem setVersion_headed (hdistinct : doc.distinct = true) (h : entriesHeaded doc = true)
    (version : ℤ) :
    (setVersion doc version = doc ∧
        ∃ format, doc.lookup "version" = some (.scalar (.integer version) format)) ∨
      setVersion doc version =
        ("version", .scalar (.integer version) {}) :: doc.filter (·.1 ≠ "version") := by
  rcases setVersion_cases doc version with hself | hset
  · exact Or.inl hself
  · right
    have hkeys := of_decide_eq_true ((Bool.and_eq_true _ _).mp hdistinct).1
    have halter : entriesHeaded
        (doc.alter "version" fun _ => .scalar (.integer version) {}) = true :=
      Entries.headed_alter h rfl
    rw [hset, sortValues, entriesSorted_of_headed halter, filter_alter_ne, filter_alter_eq hkeys]
    rfl

theorem lookup_filter_ne {key name : String} (h : key ≠ name) (es : Entries) :
    (es.filter (·.1 ≠ name)).lookup key = es.lookup key := by
  induction es with
  | nil => rfl
  | cons e es ih =>
    obtain ⟨k, i⟩ := e
    by_cases hk : k = name
    · subst hk
      simpa [List.lookup_cons, beq_false_of_ne h] using ih
    · by_cases hkey : key = k
      · subst hkey
        simp [hk]
      · simpa [hk, List.lookup_cons, beq_false_of_ne hkey] using ih

/-- A stamp touches nothing under another key. -/
theorem find_setVersion (hdistinct : doc.distinct = true) (h : entriesHeaded doc = true)
    (version : ℤ) {path : List String} (hpath : path.head? ≠ some "version") :
    (setVersion doc version).find path = doc.find path := by
  rcases setVersion_headed hdistinct h version with ⟨hself, -⟩ | hset
  · rw [hself]
  · cases path with
    | nil => rfl
    | cons key path =>
      have hkey : key ≠ "version" := fun heq => hpath (by rw [heq]; rfl)
      have hlookup : (setVersion doc version).lookup key = doc.lookup key := by
        rw [hset, List.lookup_cons, beq_false_of_ne hkey]
        exact lookup_filter_ne hkey doc
      cases path with
      | nil => exact hlookup
      | cons next path => rw [find_cons_cons, hlookup, ← find_cons_cons]

theorem tablesOnWay_setVersion (hdistinct : doc.distinct = true) (h : entriesHeaded doc = true)
    (version : ℤ) {path : List String} (hpath : path.head? ≠ some "version") :
    tablesOnWay (setVersion doc version) path = tablesOnWay doc path := by
  cases path with
  | nil => rfl
  | cons key path =>
    have hlookup : (setVersion doc version).lookup key = doc.lookup key :=
      @find_setVersion doc hdistinct h version [key] hpath
    cases path with
    | nil => rfl
    | cons next path => rw [tablesOnWay, hlookup, tablesOnWay]

/-- Under the version there is nothing once it is stamped. -/
theorem find_version_beyond (doc : Entries) (version : ℤ) (next : String) (path : List String) :
    (setVersion doc version).find ("version" :: next :: path) = none := by
  obtain ⟨format, hversion⟩ := lookup_setVersion doc version
  rw [find_cons_cons, hversion]
  rfl

theorem headed_setVersion (hdistinct : doc.distinct = true) (h : entriesHeaded doc = true)
    (version : ℤ) : entriesHeaded (setVersion doc version) = true := by
  rcases setVersion_headed hdistinct h version with ⟨hself, -⟩ | hset
  · rw [hself]
    exact h
  · rw [hset]
    refine entriesHeaded_iff.mpr fun e he => ?_
    rcases List.mem_cons.mp he with rfl | he
    · rfl
    · exact entriesHeaded_iff.mp h e (List.mem_of_mem_filter he)

end Stamping

section Putting

/-- An assigned value has no entries. -/
theorem asTableLike_assign {new : Item} (h : isPlain new = true) (slot : Option Item) :
    (assign new slot).asTableLike = none := by
  have hsame := sameValue_assign h slot
  cases hassign : assign new slot with
  | inlineTable | table =>
    rw [hassign] at hsame
    cases hsame
  | _ => rfl

variable {puts : List (List String × Item)} {p : List String × Item} {doc es : Entries}
  {path : List String} {new : Item}

/-- After all are put, each path has what was assigned to what it had before. -/
theorem find_putAll_eq (hputs : Independent puts) (hp : p ∈ puts) (hpath : p.1 ≠ []) :
    (putAll puts doc).find p.1 = some (assign p.2 (doc.find p.1)) := by
  induction puts generalizing doc with
  | nil => exact absurd hp List.not_mem_nil
  | cons first puts ih =>
    have hapart := (List.pairwise_cons.mp hputs.apart).1
    rcases List.mem_cons.mp hp with rfl | hmem
    · have hhere : (put p.1 p.2 doc).find p.1 = some (assign p.2 (doc.find p.1)) :=
        find_put hpath doc
      have hrest := find_putAll_other (fun q hq => (hapart q hq).symm) hhere
      exact hrest
    · have hrest := @ih (put first.1 first.2 doc) hputs.of_cons hmem
      rwa [find_put_apart (hapart p hmem).1 (hapart p hmem).2] at hrest

/-- A table that no put path leads to or above stays a table, with its keys in their order. -/
theorem find_putAll_table {entries : Entries} {dotted implicit : Bool} (hpath : path ≠ [])
    (hbelow : ∀ q ∈ puts, ¬q.1 <+: path)
    (h : doc.find path = some (.table entries dotted implicit)) :
    ∃ entries', (putAll puts doc).find path = some (.table entries' dotted implicit) ∧
      entries.map Prod.fst <+: entries'.map Prod.fst := by
  induction puts generalizing doc entries with
  | nil => exact ⟨entries, h, List.prefix_refl _⟩
  | cons q puts ih =>
    have hq := hbelow q List.mem_cons_self
    have hrest : ∀ r ∈ puts, ¬r.1 <+: path := fun r hr => hbelow r (List.mem_cons_of_mem _ hr)
    by_cases habove : path <+: q.1
    · obtain ⟨rest, hsplit⟩ := habove
      cases rest with
      | nil => exact absurd ⟨[], by rw [← hsplit]; simp⟩ hq
      | cons key rest =>
        have hput : (put (path ++ key :: rest) q.2 doc).find path =
            some (.table (put (key :: rest) q.2 entries) dotted implicit) := find_put_above hpath h
        rw [hsplit] at hput
        obtain ⟨entries', hfind, hkeys⟩ := ih hrest hput
        exact ⟨entries', hfind, (map_fst_put _ _ _).trans hkeys⟩
    · exact ih hrest ((find_put_apart hq habove doc).trans h)

/-- The keys at the top come first, in their order. -/
theorem map_fst_putAll (puts : List (List String × Item)) (doc : Entries) :
    doc.map Prod.fst <+: (putAll puts doc).map Prod.fst := by
  induction puts generalizing doc with
  | nil => exact List.prefix_refl _
  | cons q puts ih => exact (map_fst_put q.1 q.2 doc).trans (ih _)

/-- Below a value that was assigned there is nothing. -/
theorem find_put_beyond (hnew : isPlain new = true) (key : String) (rest : List String) :
    (put path new es).find (path ++ key :: rest) = none ∨ path = [] := by
  induction path generalizing es with
  | nil => exact Or.inr rfl
  | cons first path ih =>
    left
    cases path with
    | nil =>
      have hplain := asTableLike_assign hnew (es.lookup first)
      rw [List.cons_append, List.nil_append, find_cons_cons, put, Entries.lookup_alter_self,
        Option.bind_some, hplain, Option.bind_none]
    | cons next path =>
      have hsub : ∀ sub : Entries,
          (put (next :: path) new sub).find (next :: path ++ key :: rest) = none :=
        fun sub => (@ih sub).resolve_right (by simp)
      rw [List.cons_append, List.cons_append, find_cons_cons, put, Entries.lookup_alter_self]
      split
      · exact hsub _
      · exact hsub _
      · exact hsub _

/-- What is found after all are put was there, or is on the way to one of them. -/
theorem of_find_putAll (hplain : ∀ q ∈ puts, isPlain q.2 = true) (hne : ∀ q ∈ puts, q.1 ≠ [])
    {j : Item} (h : (putAll puts doc).find path = some j) :
    (doc.find path).isSome = true ∨ ∃ q ∈ puts, path <+: q.1 := by
  induction puts generalizing doc with
  | nil =>
    left
    have hdoc : doc.find path = some j := h
    rw [hdoc, Option.isSome_some]
  | cons q puts ih =>
    rcases ih (fun r hr => hplain r (List.mem_cons_of_mem _ hr))
      (fun r hr => hne r (List.mem_cons_of_mem _ hr)) h with hput | ⟨r, hr, hway⟩
    · by_cases hway : path <+: q.1
      · exact Or.inr ⟨q, List.mem_cons_self, hway⟩
      · left
        by_cases hbelow : q.1 <+: path
        · obtain ⟨rest, rfl⟩ := hbelow
          cases rest with
          | nil => exact absurd (by simp) hway
          | cons key rest =>
            have hbeyond : (put q.1 q.2 doc).find (q.1 ++ key :: rest) = none :=
              (find_put_beyond (hplain q List.mem_cons_self) key rest).resolve_right
                (hne q List.mem_cons_self)
            rw [hbeyond] at hput
            cases hput
        · rwa [find_put_apart hbelow hway] at hput
    · exact Or.inr ⟨r, List.mem_cons_of_mem _ hr, hway⟩

/-- Values that are there already change nothing. -/
theorem putAll_eq_self
    (h : ∀ q ∈ puts, ∃ found, doc.find q.1 = some found ∧ sameValue found q.2 = true) :
    putAll puts doc = doc := by
  induction puts with
  | nil => rfl
  | cons q puts ih =>
    obtain ⟨found, hfound, hsame⟩ := h q List.mem_cons_self
    have hput : put q.1 q.2 doc = doc := put_eq_self hfound hsame
    have hrest := ih fun r hr => h r (List.mem_cons_of_mem _ hr)
    rw [putAll, List.foldl_cons, hput]
    exact hrest

theorem headed_of_sameValue {old : Item} (hnew : isPlain new = true)
    (hsame : sameValue old new = true) : old.headed = true := by
  have hprinted := printed_of_sameValue hnew hsame
  cases old with
  | scalar => rfl
  | array elements format =>
    have hvalues := Item.valuesOnly_printed (.array elements format)
    rwa [hprinted] at hvalues
  | _ => cases new <;> cases hsame

/-- The tables above another path are as they were, or new. -/
theorem tablesOnWay_put {other : List String} (hbeyond : ∀ key rest, other ≠ path ++ key :: rest)
    (h : tablesOnWay es other = true) : tablesOnWay (put path new es) other = true := by
  induction path generalizing es other with
  | nil => exact h
  | cons key path ih =>
    cases other with
    | nil => rfl
    | cons key' other =>
      cases other with
      | nil => rfl
      | cons next' other =>
        by_cases hkey : key' = key
        · subst hkey
          cases path with
          | nil => exact absurd rfl (hbeyond next' other)
          | cons next path =>
            have hbeyond' : ∀ k rest, next' :: other ≠ (next :: path) ++ k :: rest :=
              fun k rest heq => hbeyond k rest (by rw [heq]; rfl)
            have hnil : tablesOnWay [] (next' :: other) = true := by
              cases other <;> rfl
            rw [tablesOnWay] at h
            rw [put, tablesOnWay, Entries.lookup_alter_self]
            cases hslot : es.lookup key' with
            | none => exact ih hbeyond' hnil
            | some slot =>
              rw [hslot] at h
              cases slot with
              | table sub dotted implicit => exact ih hbeyond' h
              | _ => cases h
        · rw [tablesOnWay] at h
          cases path with
          | nil => rw [put, tablesOnWay, Entries.lookup_alter_of_ne hkey]; exact h
          | cons next path => rw [put, tablesOnWay, Entries.lookup_alter_of_ne hkey]; exact h

theorem headed_put (hnew : isPlain new = true) (hway : tablesOnWay es path = true)
    (h : entriesHeaded es = true) : entriesHeaded (put path new es) = true := by
  induction path generalizing es with
  | nil => exact h
  | cons key path ih =>
    cases path with
    | nil =>
      exact Entries.headed_alter h (headed_of_sameValue hnew (sameValue_assign hnew _))
    | cons next path =>
      refine Entries.headed_alter h ?_
      have hnil : tablesOnWay [] (next :: path) = true := by
        cases path <;> rfl
      rw [tablesOnWay] at hway
      cases hslot : es.lookup key with
      | none => exact @ih [] hnil rfl
      | some slot =>
        rw [hslot] at hway
        cases slot with
        | table sub dotted implicit =>
          obtain ⟨hdotted, hsub⟩ := (Bool.and_eq_true _ _).mp (Entries.headed_of_lookup h hslot)
          exact (Bool.and_eq_true _ _).mpr ⟨hdotted, ih hway hsub⟩
        | _ => cases hway

/-- Putting leaves the tables standard. -/
theorem headed_putAll (hputs : Independent puts)
    (hway : ∀ q ∈ puts, tablesOnWay doc q.1 = true) (h : entriesHeaded doc = true) :
    entriesHeaded (putAll puts doc) = true := by
  induction puts generalizing doc with
  | nil => exact h
  | cons q puts ih =>
    have hapart := (List.pairwise_cons.mp hputs.apart).1
    refine ih hputs.of_cons (fun r hr => ?_)
      (headed_put (hputs.plain q List.mem_cons_self) (hway q List.mem_cons_self) h)
    exact tablesOnWay_put (hapart r hr).not_beyond (hway r (List.mem_cons_of_mem _ hr))

/-- What is found on the way is a table. -/
theorem exists_of_tablesOnWay {key : String} {rest : List String} {i : Item}
    (hway : tablesOnWay es (path ++ key :: rest) = true) (hi : es.find path = some i) :
    ∃ sub dotted implicit, i = .table sub dotted implicit := by
  induction path generalizing es with
  | nil => cases hi
  | cons first path ih =>
    have hstep : ∃ next tail, path ++ key :: rest = next :: tail := by
      cases path with
      | nil => exact ⟨key, rest, rfl⟩
      | cons next path => exact ⟨next, path ++ key :: rest, rfl⟩
    obtain ⟨next, tail, htail⟩ := hstep
    rw [List.cons_append, htail, tablesOnWay] at hway
    cases hslot : es.lookup first with
    | none =>
      cases path with
      | nil => exact absurd (hslot.symm.trans hi) (by simp)
      | cons second path =>
        rw [find_cons_cons, hslot] at hi
        cases hi
    | some slot =>
      rw [hslot] at hway
      cases slot with
      | table sub dotted implicit =>
        cases path with
        | nil => exact ⟨sub, dotted, implicit, Option.some.inj (hi.symm.trans hslot)⟩
        | cons second path =>
          rw [find_cons_cons, hslot] at hi
          exact ih (htail ▸ hway) hi
      | _ => cases hway

end Putting

section Reread

variable {doc : Entries} {path : List String} {i : Item}

/-- A colour is written in lower case. -/
theorem lowerColor_formatNickColor (v : Int32) : LowerColor (formatNickColor v) := by
  intro c hc
  rw [formatNickColor] at hc
  split_ifs at hc
  · cases hc
  · rw [String.toList_ofList] at hc
    rcases List.mem_cons.mp hc with rfl | hc
    · exact Or.inl rfl
    · exact Or.inr (Text.isLowerHex_of_mem_paddedHex hc)

/-- A colour of six digits in lower case is written as it was. -/
theorem formatNickColor_of_lower {text : String} (h : HexColor text) (hcase : LowerColor text)
    {v : Int32} (hparse : parseNickColor text = some v) : formatNickColor v = text := by
  rcases h with rfl | ⟨digits, htext, hlength, hhex⟩
  · have hnone : parseNickColor "" = some NICK_COLOR_NONE := by decide
    rw [← Option.some.inj (hnone.symm.trans hparse)]
    decide
  · have hlower : ∀ c ∈ digits, Text.isLowerHex c = true := by
      intro c hc
      refine (hcase c (by rw [htext]; exact List.mem_cons_of_mem _ hc)).resolve_left ?_
      rintro rfl
      exact absurd (hhex '#' hc) (by decide)
    have htrim : Text.trim ('#' :: digits) = '#' :: digits := by
      refine Text.trim_eq_self fun c hc => ?_
      rcases List.mem_cons.mp hc with rfl | hc
      · decide
      · exact Text.isWhitespace_of_isHexDigit (hhex c hc)
    have hword : ¬('#' :: digits = [] ∨
        Text.eqIgnoreAsciiCase ('#' :: digits) ['n', 'o', 'n', 'e'] = true) := by
      rintro (hnil | heq)
      · cases hnil
      · have hsame := Text.length_of_eqIgnoreAsciiCase heq
        simp [hlength] at hsame
    have hall : ¬digits.all Text.isHexDigit = false := by
      rw [List.all_eq_true.mpr hhex]
      simp
    have hexpand : expandDigits digits = some digits := by
      rw [expandDigits, hlength]
      rfl
    have hvalue : (UInt32.ofNat (Text.ofHex digits) &&& 0x00ffffff).toInt32 = v := by
      have hparsed := hparse
      rw [parseNickColor] at hparsed
      simp only [htext, htrim] at hparsed
      rw [if_neg hword, stripHash, if_pos rfl, if_neg hall, hexpand, Option.map_some] at hparsed
      exact Option.some.inj hparsed
    have hbound := Text.ofHex_lt hlower
    rw [hlength] at hbound
    have hbits : colorBits v = UInt32.ofNat (Text.ofHex digits) := by
      rw [← UInt32.toNat_inj, colorBits, ← hvalue, UInt32.toUInt32_toInt32, toNat_colorBits,
        toNat_colorBits, UInt32.toNat_ofNat']
      omega
    have hsome : v ≠ NICK_COLOR_NONE := by
      rintro rfl
      have hnat := congrArg (fun v : Int32 => v.toUInt32.toNat) hvalue
      have hnone : NICK_COLOR_NONE.toUInt32.toNat = 4294967295 := by decide
      simp only [UInt32.toUInt32_toInt32, toNat_colorBits, hnone] at hnat
      omega
    rw [formatNickColor, if_neg hsome, hbits, UInt32.toNat_ofNat', Nat.mod_eq_of_lt (by omega),
      ← hlength, Text.paddedHex_ofHex (by omega) hlower, ← htext, String.ofList_toList]

private theorem exists_of_asStr {text : String} (h : asStr i = some text) :
    ∃ format, i = .scalar (.string text) format := by
  cases i with
  | scalar value format =>
    cases value with
    | string t =>
      obtain rfl := Option.some.inj h
      exact ⟨format, rfl⟩
    | _ => cases h
  | _ => cases h

theorem sameValue_of_asStr {text : String} (h : asStr i = some text) :
    sameValue i (ofStr text) = true := by
  obtain ⟨format, rfl⟩ := exists_of_asStr h
  simp [sameValue, sameScalar, ofStr]

/-- A number that is read without a warning is in its range. -/
theorem integer_of_valid {low high : ℤ} (hfind : doc.find path = some i)
    (hvalid : (Reader.integer doc path low high).2 = []) :
    ∃ n, Reader.integer doc path low high = (some n, []) ∧ low ≤ n ∧ n ≤ high ∧
      sameValue i (ofInteger n) = true := by
  simp only [Reader.integer, hfind] at hvalid ⊢
  cases hint : asInteger i with
  | none => simp [hint] at hvalid
  | some n =>
    simp only [hint] at hvalid ⊢
    split_ifs at hvalid ⊢ with hrange
    refine ⟨n, rfl, by omega, by omega, ?_⟩
    cases i with
    | scalar value format =>
      cases value with
      | integer m =>
        obtain rfl := Option.some.inj hint
        simp [sameValue, sameScalar, ofInteger]
      | _ => cases hint
    | _ => cases hint

/-- A list that is read without a warning has texts only. -/
theorem sameValues_of_valid {elements : List Item}
    (hvalid : (Reader.collect path elements).2 = []) :
    sameValues elements ((Reader.collect path elements).1.map ofStr) = true := by
  have htexts : ∀ e ∈ elements, (asStr e).isSome = true := by
    intro e he
    obtain ⟨n, hn⟩ := List.mem_iff_getElem?.mp he
    have hnone := List.filterMap_eq_nil_iff.mp hvalid (e, n)
      (List.mk_mem_zipIdx_iff_getElem?.mpr hn)
    by_contra hnot
    simp [hnot] at hnone
  clear hvalid
  simp only [Reader.collect]
  induction elements with
  | nil => rfl
  | cons e elements ih =>
    obtain ⟨text, htext⟩ := Option.isSome_iff_exists.mp (htexts e List.mem_cons_self)
    rw [List.filterMap_cons_some htext, List.map_cons, sameValues, sameValue_of_asStr htext,
      ih fun e' he' => htexts e' (List.mem_cons_of_mem _ he')]
    rfl

/-- A value that is read without a warning is written as what it means. -/
theorem sameValue_of_valid (k : Kind) {out : k.Carrier} (hfind : doc.find path = some i)
    (hvalid : (k.read doc path out).2 = [])
    (hcolor : k = .color → ∃ text, asStr i = some text ∧ HexColor text ∧ LowerColor text) :
    sameValue i (k.write (k.read doc path out).1) = true := by
  cases k with
  | flag =>
    simp only [Kind.read, Reader.flag, hfind] at hvalid ⊢
    cases i with
    | scalar value format =>
      cases value with
      | boolean b => simp [asBool, Kind.write, ofBool, sameValue, sameScalar]
      | _ => simp [asBool] at hvalid
    | _ => simp [asBool] at hvalid
  | unsigned =>
    simp only [Kind.read, Reader.unsigned] at hvalid ⊢
    have hread : (Reader.integer doc path 0 U32_MAX).2 = [] := by
      split at hvalid
      next hint => rw [hint]; exact hvalid
      next hint => rw [hint]; exact hvalid
    obtain ⟨n, hint, hlow, hhigh, hsame⟩ := integer_of_valid hfind hread
    rw [hint]
    simp only [Kind.write, toNat_unsigned hlow hhigh]
    exact hsame
  | extent =>
    simp only [Kind.read, Reader.extent] at hvalid ⊢
    have hread : (Reader.integer doc path 1 U32_MAX).2 = [] := by
      split at hvalid
      next hint => rw [hint]; exact hvalid
      next hint => rw [hint]; exact hvalid
    obtain ⟨n, hint, hlow, hhigh, hsame⟩ := integer_of_valid hfind hread
    rw [hint]
    simp only [Kind.write, toNat_unsigned (by omega) hhigh]
    exact hsame
  | id16 =>
    simp only [Kind.read, Reader.id16] at hvalid ⊢
    have hread : (Reader.integer doc path 0 65535).2 = [] := by
      split at hvalid
      next hint => rw [hint]; exact hvalid
      next hint => rw [hint]; exact hvalid
    obtain ⟨n, hint, hlow, hhigh, hsame⟩ := integer_of_valid hfind hread
    have hnat : ((UInt16.ofNat n.toNat).toNat : ℤ) = n := by
      rw [UInt16.toNat_ofNat']
      omega
    rw [hint]
    simp only [Kind.write, hnat]
    exact hsame
  | color =>
    obtain ⟨text, htext, hhex, hlower⟩ := hcolor rfl
    simp only [Kind.read, Reader.color, hfind, asInteger_of_asStr htext, Option.isSome_none, htext]
      at hvalid ⊢
    cases hparse : parseNickColor text with
    | none => simp [hparse] at hvalid
    | some v =>
      simp only [Kind.write, Bool.false_eq_true, if_false]
      rw [formatNickColor_of_lower hhex hlower hparse]
      exact sameValue_of_asStr htext
  | text =>
    simp only [Kind.read, Reader.text, hfind] at hvalid ⊢
    cases htext : asStr i with
    | none => simp [htext] at hvalid
    | some text => exact sameValue_of_asStr htext
  | list =>
    simp only [Kind.read, Reader.list, hfind] at hvalid ⊢
    cases i with
    | array elements format => exact sameValues_of_valid hvalid
    | _ => simp [asArray] at hvalid
  | scheme =>
    simp only [Kind.read, Reader.scheme, hfind] at hvalid ⊢
    cases htext : asStr i with
    | none => simp [htext] at hvalid
    | some text =>
      simp only [htext] at hvalid ⊢
      cases hparse : ColorScheme.parse text with
      | none => simp [hparse] at hvalid
      | some v =>
        simp only [Kind.write]
        rw [ColorScheme.asStr_of_parse hparse]
        exact sameValue_of_asStr htext

end Reread

section Saving

variable {doc out : Entries} {s : Settings} {f : Field} {path : List String}

/-- No setting is under the version. -/
theorem head_segments (f : Field) : f.segments.head? ≠ some "version" := by
  cases f <;> decide

/-- Below a value that has no keys there is nothing. -/
theorem find_below_keyless {i : Item} (hi : doc.find path = some i) (h : keyless i = true)
    (key : String) (rest : List String) : doc.find (path ++ key :: rest) = none := by
  have hne : path ≠ [] := by
    rintro rfl
    cases hi
  obtain ⟨-, hempty⟩ := (Bool.and_eq_true _ _).mp h
  rw [find_append hne, hi, Option.bind_some]
  cases hentries : i.asTableLike with
  | none => rfl
  | some entries =>
    rw [hentries, Option.getD_some, List.isEmpty_iff] at hempty
    rw [hempty]
    cases rest <;> rfl

theorem isValue_of_keyless {i : Item} (h : keyless i = true) : i.isValue = true :=
  ((Bool.and_eq_true _ _).mp h).1

/-- What is a strict start of a setting's path has a table with a header, if anything. -/
theorem Standard.exists_of_prefix (h : Standard doc) {i : Item} (hpath : path <+: f.segments)
    (hneq : path ≠ f.segments) (hi : doc.find path = some i) :
    ∃ sub dotted implicit, i = .table sub dotted implicit := by
  obtain ⟨rest, hrest⟩ := hpath
  cases rest with
  | nil => exact absurd (by simpa using hrest) hneq
  | cons key rest =>
    have hway := h.onWay f
    rw [← hrest] at hway
    exact exists_of_tablesOnWay hway hi

namespace Config

variable {c : Config}

/-- Each setting's value is assigned to what the document had. -/
theorem find_written_eq (hdistinct : c.doc.distinct = true) (hheaded : entriesHeaded c.doc = true)
    (f : Field) : c.written.find f.segments =
      some (assign (f.kind.write (c.settings f)) (c.doc.find f.segments)) := by
  rw [written, writeAll_eq,
    ← find_setVersion hdistinct hheaded CURRENT_VERSION (head_segments f)]
  exact find_putAll_eq (independent_puts c.settings) (mem_puts c.settings f) (segments_ne_nil f)

theorem find_written_other (hdistinct : c.doc.distinct = true)
    (hheaded : entriesHeaded c.doc = true) {i : Item} (hpath : path.head? ≠ some "version")
    (hapart : ∀ f : Field, Apart f.segments path) (h : c.doc.find path = some i) :
    c.written.find path = some i := by
  rw [← find_setVersion hdistinct hheaded CURRENT_VERSION hpath] at h
  rw [written, writeAll_eq]
  refine find_putAll_other ?_ h
  intro p hp
  obtain ⟨f, -, rfl⟩ := List.mem_map.mp hp
  exact hapart f

theorem lookup_version_written (c : Config) :
    c.written.lookup "version" = (setVersion c.doc CURRENT_VERSION).lookup "version" := by
  obtain ⟨format, hversion⟩ := lookup_setVersion c.doc CURRENT_VERSION
  have hfind : (setVersion c.doc CURRENT_VERSION).find ["version"] =
      some (.scalar (.integer CURRENT_VERSION) format) := hversion
  have hapart : ∀ p ∈ puts c.settings, Apart p.1 ["version"] := by
    intro p hp
    obtain ⟨f, -, rfl⟩ := List.mem_map.mp hp
    exact apart_version f
  have hwritten := find_putAll_other hapart hfind
  rw [hversion, written, writeAll_eq]
  exact hwritten

/-- No setting's path leads to something else that is there. -/
theorem not_prefix_of_find (h : NothingToLose c.doc c.settings) {i : Item}
    (hi : c.doc.find path = some i) (hother : ∀ f : Field, path ≠ f.segments) (f : Field) :
    ¬f.segments <+: path := by
  rintro ⟨rest, rfl⟩
  cases rest with
  | nil => exact hother f (List.append_nil _)
  | cons key rest =>
    obtain ⟨j, hj⟩ : ∃ j, c.doc.find f.segments = some j := by
      rw [find_append (segments_ne_nil f)] at hi
      obtain ⟨sub, hsub, -⟩ := Option.bind_eq_some_iff.mp hi
      obtain ⟨j, hj, -⟩ := Option.bind_eq_some_iff.mp hsub
      exact ⟨j, hj⟩
    rw [find_below_keyless hj (h.values f j hj)] at hi
    cases hi

/-- Under the version's key there is only the version, a value. -/
theorem eq_version_of_find (h : NothingToLose c.doc c.settings) {i : Item}
    (hi : c.doc.find path = some i) (hhead : path.head? = some "version") :
    path = ["version"] ∧ i.isValue = true := by
  have hkeyless : ∀ j, c.doc.find ["version"] = some j → keyless j = true := by
    intro j hj
    have hlookup : c.doc.lookup "version" = some j := hj
    rcases h.version with ⟨format, hstamped⟩ | hnone | ⟨k, rest, hdoc, hk, -⟩
    · rw [hstamped] at hlookup
      rw [← Option.some.inj hlookup]
      rfl
    · rw [hnone] at hlookup
      cases hlookup
    · rw [hdoc, List.lookup_cons_self] at hlookup
      rw [← Option.some.inj hlookup]
      exact hk
  cases path with
  | nil => cases hhead
  | cons key path =>
    obtain rfl : key = "version" := Option.some.inj hhead
    cases path with
    | nil => exact ⟨rfl, isValue_of_keyless (hkeyless i hi)⟩
    | cons next path =>
      obtain ⟨j, hj⟩ : ∃ j, c.doc.find ["version"] = some j := by
        rw [find_cons_cons] at hi
        obtain ⟨sub, hsub, -⟩ := Option.bind_eq_some_iff.mp hi
        obtain ⟨j, hj, -⟩ := Option.bind_eq_some_iff.mp hsub
        exact ⟨j, hj⟩
      have hbelow := find_below_keyless hj (hkeyless j hj) next path
      rw [List.cons_append, List.nil_append] at hbelow
      rw [hbelow] at hi
      cases hi

/-- What is spelled otherwise is written with what stood around it. -/
theorem assign_of_not_same {slot : Option Item} {k : Kind} {v : k.Carrier}
    (h : ∀ i, slot = some i → sameValue i (k.write v) = false) :
    assign (k.write v) slot = withDecor (slot.bind decorOf) (k.write v) := by
  have hplain : withDecor none (k.write v) = k.write v := by
    cases k <;> rfl
  cases slot with
  | none => exact hplain.symm
  | some i =>
    have hsame : ¬sameValue i (k.write v) = true := by simp [h i rfl]
    rw [assign, Option.bind_some]
    split_ifs with hvalue
    · rfl
    · rw [show decorOf i = none by cases i <;> first | rfl | exact absurd rfl hvalue, hplain]

private theorem filter_version {es : Entries} (h : "version" ∉ es.map Prod.fst) :
    es.filter (·.1 ≠ "version") = es := by
  apply List.filter_eq_self.mpr
  intro e he
  have hne : e.1 ≠ "version" := fun heq => h (List.mem_map.mpr ⟨e, he, heq⟩)
  simpa using hne

/-- A stamp comes before the keys, or stays where it is. -/
theorem map_fst_setVersion (hdistinct : c.doc.distinct = true)
    (hheaded : entriesHeaded c.doc = true) (h : NothingToLose c.doc c.settings) :
    (setVersion c.doc CURRENT_VERSION).map Prod.fst = c.doc.map Prod.fst ∨
      "version" ∉ c.doc.map Prod.fst ∧
        (setVersion c.doc CURRENT_VERSION).map Prod.fst = "version" :: c.doc.map Prod.fst := by
  rcases setVersion_headed hdistinct hheaded CURRENT_VERSION with ⟨hself, -⟩ | hset
  · left
    rw [hself]
  · rcases h.version with ⟨format, hstamped⟩ | hnone | ⟨i, rest, hdoc, -, -⟩
    · left
      rw [setVersion_eq_self hstamped]
    · right
      have hnotin : "version" ∉ c.doc.map Prod.fst := by
        intro hin
        obtain ⟨e, he, hkey⟩ := List.mem_map.mp hin
        have hne := List.lookup_eq_none_iff.mp hnone e he
        rw [hkey] at hne
        simp at hne
      rw [hset, List.map_cons, filter_version hnotin]
      exact ⟨hnotin, rfl⟩
    · left
      have hkeys := of_decide_eq_true ((Bool.and_eq_true _ _).mp hdistinct).1
      rw [hdoc] at hkeys
      obtain ⟨hnotin, -⟩ := List.nodup_cons.mp hkeys
      rw [hset, hdoc, List.map_cons, List.filter_cons, if_neg (by simp), filter_version hnotin,
        List.map_cons]

theorem top_written (hdistinct : c.doc.distinct = true) (hheaded : entriesHeaded c.doc = true)
    (h : NothingToLose c.doc c.settings) :
    c.doc.map Prod.fst <+: c.written.map Prod.fst ∨
      "version" ∉ c.doc.map Prod.fst ∧ "version" :: c.doc.map Prod.fst <+:
        c.written.map Prod.fst := by
  have hputs : (setVersion c.doc CURRENT_VERSION).map Prod.fst <+: c.written.map Prod.fst := by
    rw [written, writeAll_eq]
    exact map_fst_putAll _ _
  rcases map_fst_setVersion hdistinct hheaded h with hsame | ⟨hnotin, hnew⟩
  · left
    rw [hsame] at hputs
    exact hputs
  · right
    rw [hnew] at hputs
    exact ⟨hnotin, hputs⟩

/-- What no path leads to or goes through is as it was. -/
theorem find_written_outside (hdistinct : c.doc.distinct = true)
    (hheaded : entriesHeaded c.doc = true) (h : NothingToLose c.doc c.settings) {i : Item}
    (houtside : Outside path) (hi : c.doc.find path = some i) : c.written.find path = some i := by
  have hother : ∀ f : Field, path ≠ f.segments := by
    intro f heq
    exact houtside.2 f (heq ▸ List.prefix_refl _)
  have hhead : path.head? ≠ some "version" :=
    fun hversion => houtside.1 (eq_version_of_find h hi hversion).1
  exact find_written_other hdistinct hheaded hhead
    (fun f => ⟨not_prefix_of_find h hi hother f, houtside.2 f⟩) hi

theorem find_written_table (hdistinct : c.doc.distinct = true)
    (hheaded : entriesHeaded c.doc = true) (h : NothingToLose c.doc c.settings)
    {entries : Entries} {dotted implicit : Bool}
    (hi : c.doc.find path = some (.table entries dotted implicit)) :
    ∃ entries', c.written.find path = some (.table entries' dotted implicit) ∧
      entries.map Prod.fst <+: entries'.map Prod.fst := by
  have hpath : path ≠ [] := by
    rintro rfl
    cases hi
  have hhead : path.head? ≠ some "version" :=
    fun hversion => Bool.noConfusion (eq_version_of_find h hi hversion).2
  have hother : ∀ f : Field, path ≠ f.segments := by
    rintro f rfl
    exact Bool.noConfusion (isValue_of_keyless (h.values f _ hi))
  rw [← find_setVersion hdistinct hheaded CURRENT_VERSION hhead] at hi
  rw [written, writeAll_eq]
  refine find_putAll_table hpath (fun q hq => ?_) hi
  obtain ⟨f, -, rfl⟩ := List.mem_map.mp hq
  rw [find_setVersion hdistinct hheaded CURRENT_VERSION hhead] at hi
  exact not_prefix_of_find h hi hother f

theorem find_written_array (hdistinct : c.doc.distinct = true) (hstandard : Standard c.doc)
    (h : NothingToLose c.doc c.settings) {tables : List Item}
    (hi : c.doc.find path = some (.arrayOfTables tables)) :
    c.written.find path = some (.arrayOfTables tables) := by
  have hhead : path.head? ≠ some "version" :=
    fun hversion => Bool.noConfusion (eq_version_of_find h hi hversion).2
  have hother : ∀ f : Field, path ≠ f.segments := by
    rintro f rfl
    exact Bool.noConfusion (isValue_of_keyless (h.values f _ hi))
  refine find_written_other hdistinct hstandard.headed hhead (fun f => ⟨?_, ?_⟩) hi
  · exact not_prefix_of_find h hi hother f
  · intro hstart
    obtain ⟨sub, dotted, implicit, htable⟩ := hstandard.exists_of_prefix hstart (hother f) hi
    cases htable

/-- A setting's value has the comments it had. -/
theorem comments_written (hdistinct : c.doc.distinct = true)
    (hheaded : entriesHeaded c.doc = true) (h : NothingToLose c.doc c.settings) {i : Item}
    (hi : c.doc.find f.segments = some i) :
    ∃ j, c.written.find f.segments = some j ∧ commentsOf j = commentsOf i := by
  have hvalue := isValue_of_keyless (h.values f i hi)
  refine ⟨_, find_written_eq hdistinct hheaded f, ?_⟩
  rw [hi]
  cases hsame : sameValue i (f.kind.write (c.settings f)) with
  | true => rw [assign_eq_self hsame]
  | false =>
    have hbare := (h.bare f i hi).resolve_left (by simp [hsame])
    rw [assign, if_pos hvalue, if_neg (by simp [hsame])]
    exact (commentsOf_rewritten hvalue _ _).mpr hbare

theorem versionComments_written (hdistinct : c.doc.distinct = true)
    (hheaded : entriesHeaded c.doc = true) (h : NothingToLose c.doc c.settings) {i : Item}
    (hi : c.doc.lookup "version" = some i) :
    ∃ j, c.written.lookup "version" = some j ∧ commentsOf j = commentsOf i := by
  rw [lookup_version_written]
  rcases setVersion_headed hdistinct hheaded CURRENT_VERSION with ⟨hself, -⟩ | hset
  · exact ⟨i, by rw [hself, hi], rfl⟩
  · rcases h.version with ⟨format, hstamped⟩ | hnone | ⟨k, rest, hdoc, -, hcomments⟩
    · exact ⟨i, by rw [setVersion_eq_self hstamped, hi], rfl⟩
    · rw [hnone] at hi
      cases hi
    · rw [hdoc, List.lookup_cons_self] at hi
      rw [← Option.some.inj hi, hcomments, hset, List.lookup_cons_self]
      exact ⟨_, rfl, rfl⟩

/-- What is in the saved document was in the loaded one, or is the version, a setting or a table
above one. -/
theorem of_find_written (hdistinct : c.doc.distinct = true) (hheaded : entriesHeaded c.doc = true)
    {j : Item} (hj : c.written.find path = some j) :
    (c.doc.find path).isSome = true ∨ path = ["version"] ∨ ∃ f : Field, path <+: f.segments := by
  rw [written, writeAll_eq] at hj
  have hplain := (independent_puts c.settings).plain
  have hne : ∀ q ∈ puts c.settings, q.1 ≠ [] := by
    intro q hq
    obtain ⟨f, -, rfl⟩ := List.mem_map.mp hq
    exact segments_ne_nil f
  rcases of_find_putAll hplain hne hj with hstamped | ⟨q, hq, hway⟩
  · by_cases hhead : path.head? = some "version"
    · right; left
      cases path with
      | nil => cases hhead
      | cons key path =>
        obtain rfl : key = "version" := Option.some.inj hhead
        cases path with
        | nil => rfl
        | cons next path =>
          rw [find_version_beyond] at hstamped
          cases hstamped
    · left
      rw [find_setVersion hdistinct hheaded CURRENT_VERSION hhead] at hstamped
      exact hstamped
  · right; right
    obtain ⟨f, -, rfl⟩ := List.mem_map.mp hq
    exact ⟨f, hway⟩

/-- A file that has every setting and is loaded and saved changes in the version only. -/
theorem written_eq_setVersion (hdistinct : c.doc.distinct = true)
    (hheaded : entriesHeaded c.doc = true) (h : NothingToLose c.doc c.settings)
    (hpresent : AllPresent c.doc) (hloaded : c.settings = (fromDocument c.doc []).settings) :
    c.written = setVersion c.doc CURRENT_VERSION := by
  rw [written, writeAll_eq]
  refine putAll_eq_self fun q hq => ?_
  obtain ⟨f, -, rfl⟩ := List.mem_map.mp hq
  obtain ⟨i, hi⟩ := hpresent.present f
  refine ⟨i, (find_setVersion hdistinct hheaded CURRENT_VERSION (head_segments f)).trans hi, ?_⟩
  rw [hloaded, settings_fromDocument]
  refine sameValue_of_valid f.kind hi (hpresent.valid f) fun hkind => ?_
  have hfield : f = .identityNickColor := by
    cases f <;> first | rfl | cases hkind
  subst hfield
  obtain ⟨text, htext, hhex⟩ := hpresent.color i hi
  exact ⟨text, htext, hhex, h.color hpresent hloaded i text hi htext⟩

/-- Where nothing is to be lost, a save touches only what changed. -/
theorem touchesOnly_of_nothingToLose (hdistinct : c.doc.distinct = true)
    (hstandard : Standard c.doc) (h : NothingToLose c.doc c.settings) :
    TouchesOnly c.doc c.settings c.written where
  outside _ _ houtside hi := find_written_outside hdistinct hstandard.headed h houtside hi
  tables _ _ _ _ hi := find_written_table hdistinct hstandard.headed h hi
  arrays _ _ hi := find_written_array hdistinct hstandard h hi
  top := top_written hdistinct hstandard.headed h
  comments _ _ hi := comments_written hdistinct hstandard.headed h hi
  versionComments _ hi := versionComments_written hdistinct hstandard.headed h hi
  kept f i hi hsame := by
    rw [find_written_eq hdistinct hstandard.headed f, hi, assign_eq_self hsame]
  rewritten f hother := by
    rw [find_written_eq hdistinct hstandard.headed f, assign_of_not_same hother]
  nothingElse _ _ hj := of_find_written hdistinct hstandard.headed hj
  whole hpresent hloaded := written_eq_setVersion hdistinct hstandard.headed h hpresent hloaded

/-- A path below a setting's is no setting's and leads to none. -/
theorem outside_below (f : Field) (key : String) : Outside (f.segments ++ [key]) := by
  constructor
  · intro heq
    have hhead := head_segments f
    have hne := segments_ne_nil f
    cases hsegments : f.segments with
    | nil => exact hne hsegments
    | cons first rest =>
      rw [hsegments] at heq hhead
      exact hhead (congrArg List.head? heq)
  · rintro g ⟨rest, hrest⟩
    have hputs := independent_puts Settings.default
    refine hputs.not_beyond (mem_puts _ f) (mem_puts _ g) key rest ?_
    rw [← hrest, List.append_assoc]
    rfl

theorem outside_version (key : String) : Outside ["version", key] := by
  constructor
  · intro heq
    cases heq
  · intro f hway
    exact head_segments f (by obtain ⟨rest, hrest⟩ := hway; rw [← hrest]; rfl)

/-- A save that touches only what changed finds a value without keys at each setting. -/
theorem keyless_of_touchesOnly (hdistinct : c.doc.distinct = true)
    (hheaded : entriesHeaded c.doc = true) (h : TouchesOnly c.doc c.settings c.written) {i : Item}
    (hi : c.doc.find f.segments = some i) : keyless i = true := by
  have hnew := find_written_eq hdistinct hheaded f
  have hplain := isPlain_write f.kind (c.settings f)
  have hvalue : (assign (f.kind.write (c.settings f)) (c.doc.find f.segments)).isValue = true :=
    isValue_of_sameValue (sameValue_assign hplain _)
  cases i with
  | scalar | array => rfl
  | inlineTable entries format =>
    cases entries with
    | nil => rfl
    | cons e entries =>
      have hbelow : c.doc.find (f.segments ++ [e.1]) = some e.2 := by
        rw [find_append (segments_ne_nil f), hi]
        exact List.lookup_cons_self
      have hkept := h.outside _ _ (outside_below f e.1) hbelow
      rw [find_append (segments_ne_nil f), hnew, Option.bind_some, asTableLike_assign hplain]
        at hkept
      cases hkept
  | table entries dotted implicit =>
    obtain ⟨entries', hkept, -⟩ := h.tables _ _ _ _ hi
    rw [← Option.some.inj (hkept.symm.trans hnew)] at hvalue
    cases hvalue
  | arrayOfTables tables =>
    have hkept := h.arrays _ _ hi
    rw [← Option.some.inj (hkept.symm.trans hnew)] at hvalue
    cases hvalue

theorem bare_of_touchesOnly (hdistinct : c.doc.distinct = true)
    (hheaded : entriesHeaded c.doc = true) (h : TouchesOnly c.doc c.settings c.written) {i : Item}
    (hi : c.doc.find f.segments = some i) :
    sameValue i (f.kind.write (c.settings f)) = true ∨ innerComments i = [] := by
  have hvalue := isValue_of_keyless (keyless_of_touchesOnly hdistinct hheaded h hi)
  cases hsame : sameValue i (f.kind.write (c.settings f)) with
  | true => exact Or.inl rfl
  | false =>
    right
    obtain ⟨j, hj, hcomments⟩ := h.comments f i hi
    have hnew := find_written_eq hdistinct hheaded f
    rw [hi, assign, if_pos hvalue, if_neg (by simp [hsame])] at hnew
    rw [← Option.some.inj (hnew.symm.trans hj)] at hcomments
    exact (commentsOf_rewritten hvalue _ _).mp hcomments

/-- And the version stamped, or new, or the first key with a value without comments. -/
theorem version_of_touchesOnly (hdistinct : c.doc.distinct = true)
    (hheaded : entriesHeaded c.doc = true) (h : TouchesOnly c.doc c.settings c.written) :
    (∃ format, c.doc.lookup "version" = some (.scalar (.integer CURRENT_VERSION) format)) ∨
      c.doc.lookup "version" = none ∨
      ∃ i rest, c.doc = ("version", i) :: rest ∧ keyless i = true ∧ commentsOf i = [] := by
  rcases setVersion_headed hdistinct hheaded CURRENT_VERSION with ⟨-, hstamped⟩ | hset
  · exact Or.inl hstamped
  · right
    cases hi : c.doc.lookup "version" with
    | none => exact Or.inl rfl
    | some i =>
      right
      have hnew : c.written.lookup "version" = some (.scalar (.integer CURRENT_VERSION) {}) := by
        rw [lookup_version_written, hset, List.lookup_cons_self]
      have hfirst : ∃ keys, c.written.map Prod.fst = "version" :: keys := by
        obtain ⟨keys, hkeys⟩ := map_fst_putAll (puts c.settings) (setVersion c.doc CURRENT_VERSION)
        rw [hset, List.map_cons, List.cons_append] at hkeys
        rw [written, writeAll_eq, hset]
        exact ⟨_, hkeys.symm⟩
      have hmem : "version" ∈ c.doc.map Prod.fst := by
        obtain ⟨before, after, hdoc, -⟩ := List.lookup_eq_some_iff.mp hi
        rw [hdoc]
        simp
      obtain ⟨keys, hkeys⟩ := hfirst
      have htop := h.top.resolve_right fun hnotin => hnotin.1 hmem
      obtain ⟨rest, hdoc⟩ : ∃ rest, c.doc = ("version", i) :: rest := by
        cases hcases : c.doc with
        | nil =>
          rw [hcases] at hmem
          cases hmem
        | cons e rest =>
          rw [hcases, hkeys, List.map_cons] at htop
          obtain ⟨hkey, -⟩ := List.cons_prefix_cons.mp htop
          obtain ⟨key, item⟩ := e
          obtain rfl : key = "version" := hkey
          rw [hcases, List.lookup_cons_self] at hi
          rw [Option.some.inj hi]
          exact ⟨rest, rfl⟩
      have hfind : c.doc.find ["version"] = some i := hi
      have hnewFind : c.written.find ["version"] = some (.scalar (.integer CURRENT_VERSION) {}) :=
        hnew
      refine ⟨i, rest, hdoc, ?_, ?_⟩
      · cases i with
        | scalar | array => rfl
        | inlineTable entries format =>
          cases entries with
          | nil => rfl
          | cons e entries =>
            have hbelow : c.doc.find ["version", e.1] = some e.2 := by
              rw [find_cons_cons, hi]
              exact List.lookup_cons_self
            have hkept := h.outside _ _ (outside_version e.1) hbelow
            rw [find_cons_cons, hnew] at hkept
            cases hkept
        | table entries dotted implicit =>
          obtain ⟨entries', hkept, -⟩ := h.tables _ _ _ _ hfind
          rw [hnewFind] at hkept
          cases hkept
        | arrayOfTables tables =>
          have hkept := h.arrays _ _ hfind
          rw [hnewFind] at hkept
          cases hkept
      · obtain ⟨j, hj, hcomments⟩ := h.versionComments i hi
        rw [← hcomments, ← Option.some.inj (hnew.symm.trans hj)]
        rfl

/-- A colour that a save leaves as it was is in lower case. -/
theorem lower_of_touchesOnly (hdistinct : c.doc.distinct = true)
    (hheaded : entriesHeaded c.doc = true) (h : TouchesOnly c.doc c.settings c.written)
    (hpresent : AllPresent c.doc) (hloaded : c.settings = (fromDocument c.doc []).settings)
    {i : Item} {text : String} (hi : c.doc.find (Field.segments .identityNickColor) = some i)
    (htext : asStr i = some text) : LowerColor text := by
  have hkept : c.written.find (Field.segments .identityNickColor) = some i := by
    rw [h.whole hpresent hloaded,
      find_setVersion hdistinct hheaded CURRENT_VERSION (head_segments _), hi]
  have hnew := find_written_eq hdistinct hheaded .identityNickColor
  have hsame := sameValue_assign (isPlain_write (Field.kind .identityNickColor)
    (c.settings .identityNickColor)) (c.doc.find (Field.segments .identityNickColor))
  rw [← Option.some.inj (hkept.symm.trans hnew)] at hsame
  obtain ⟨format, rfl⟩ := exists_of_asStr htext
  rw [of_decide_eq_true hsame]
  exact lowerColor_formatNickColor _

/-- A save touches only what changed exactly where nothing is to be lost. -/
theorem touchesOnly_iff (hdistinct : c.doc.distinct = true) (hstandard : Standard c.doc) :
    TouchesOnly c.doc c.settings c.written ↔ NothingToLose c.doc c.settings := by
  constructor
  · intro h
    exact ⟨fun f i hi => keyless_of_touchesOnly hdistinct hstandard.headed h hi,
      fun f i hi => bare_of_touchesOnly hdistinct hstandard.headed h hi,
      version_of_touchesOnly hdistinct hstandard.headed h,
      fun hpresent hloaded i text hi htext =>
        lower_of_touchesOnly hdistinct hstandard.headed h hpresent hloaded hi htext⟩
  · exact touchesOnly_of_nothingToLose hdistinct hstandard

/-- The saved document is what its text is read as. -/
theorem printed_eq_written (hdistinct : c.doc.distinct = true) (hstandard : Standard c.doc) :
    c.printed = c.written := by
  have hway : ∀ q ∈ puts c.settings,
      tablesOnWay (setVersion c.doc CURRENT_VERSION) q.1 = true := by
    intro q hq
    obtain ⟨f, -, rfl⟩ := List.mem_map.mp hq
    rw [tablesOnWay_setVersion hdistinct hstandard.headed CURRENT_VERSION (head_segments f)]
    exact hstandard.onWay f
  have hheaded : entriesHeaded c.written = true := by
    rw [written, writeAll_eq]
    exact headed_putAll (independent_puts c.settings) hway
      (headed_setVersion hdistinct hstandard.headed CURRENT_VERSION)
  exact printedEntries_eq _ (entriesValuesOnly_of_headed _ hheaded)

/-- For a document with standard tables, what a save writes is read back whole, and touches only
what changed exactly where nothing is to be lost. -/
theorem savesOnly_iff {τ : Type} (T : TomlEdit τ) {text : τ} {doc : Entries}
    (hparse : T.parse text = some doc) (hstandard : Standard doc) (c : Config)
    (hdoc : c.doc = doc) :
    T.parse (c.toToml T) = some c.written ∧
      (TouchesOnly doc c.settings c.written ↔ NothingToLose doc c.settings) := by
  have hdistinct := T.parse_distinct text doc hparse
  subst hdoc
  constructor
  · rw [parse_toToml T hdistinct, printed_eq_written hdistinct hstandard]
  · exact touchesOnly_iff hdistinct hstandard

/-- A document with one word to highlight, and something between the brackets after it. -/
def wordList (inner : String) : Entries :=
  [("version", ofInteger 1),
    ("chat", .table
      [("highlight_words", .array [ofStr "gtkhx"] ⟨some inner, some (" ", " # my nicks")⟩)]
      false false),
    ("plugin", .table [("colours", .inlineTable [("bold", ofBool true)] {})] false false)]

/-- The document with the settings as they are at first, without the word. -/
def emptied (inner : String) : Config := ⟨Settings.default, wordList inner, []⟩

private theorem find_wordList {inner : String} {f : Field} {i : Item}
    (h : (wordList inner).find f.segments = some i) : f = .chatHighlightWords ∧
      i = .array [ofStr "gtkhx"] ⟨some inner, some (" ", " # my nicks")⟩ := by
  by_cases hf : f = .chatHighlightWords
  · subst hf
    exact ⟨rfl, (Option.some.inj h).symm⟩
  · have hnone : (wordList inner).find f.segments = none := by
      cases f <;> first | rfl | exact absurd rfl hf
    rw [hnone] at h
    cases h

private theorem standard_wordList (inner : String) : Standard (wordList inner) := by
  refine ⟨rfl, fun f => ?_⟩
  cases f <;> rfl

/-- The word is taken out, and the comment after the list stays. -/
theorem emptied_saved : inMemory.parse ((emptied "").toToml inMemory) = some (emptied "").written ∧
    TouchesOnly (wordList "") Settings.default (emptied "").written := by
  have hparse : inMemory.parse (wordList "") = some (wordList "") := rfl
  have hsaves := savesOnly_iff inMemory hparse (standard_wordList "") (emptied "") rfl
  refine ⟨hsaves.1, hsaves.2.mpr ⟨?_, ?_, Or.inl ⟨{}, rfl⟩, ?_⟩⟩
  · intro f i hi
    obtain ⟨-, rfl⟩ := find_wordList hi
    rfl
  · intro f i hi
    obtain ⟨-, rfl⟩ := find_wordList hi
    right
    rfl
  · intro _ _ i text hi
    obtain ⟨hfield, -⟩ := find_wordList hi
    cases hfield

/-- A comment between the brackets goes with the word. -/
theorem comment_not_saved :
    inMemory.parse (wordList " # and gtk\n") = some (wordList " # and gtk\n") ∧
    Standard (wordList " # and gtk\n") ∧
    ¬TouchesOnly (wordList " # and gtk\n") Settings.default (emptied " # and gtk\n").written := by
  refine ⟨rfl, standard_wordList _, fun h => ?_⟩
  have hword : (emptied " # and gtk\n").doc.find (Field.segments .chatHighlightWords) =
      some (.array [ofStr "gtkhx"] ⟨some " # and gtk\n", some (" ", " # my nicks")⟩) := rfl
  rcases bare_of_touchesOnly rfl (standard_wordList _).headed h hword with hsame | hbare
  · cases hsame
  · exact absurd hbare (by decide)

end Config

end Saving

end Gtkhx.Preferences
