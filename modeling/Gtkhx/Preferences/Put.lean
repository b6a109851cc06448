import Gtkhx.Library.Toml

/-!
# Writing into a document

The part of the settings' writer that edits the document: one value put at a path, the version
stamped at the top. What a path finds afterwards is followed through any number of values put, and
through printing the document and reading it again.
-/

namespace Gtkhx.Preferences

open Toml

/-- Whether two values without parts mean the same. -/
def sameScalar : Scalar → Scalar → Bool
  | .boolean a, .boolean b => a = b
  | .integer a, .integer b => a = b
  | .string a, .string b => a = b
  | _, _ => false

mutual

/-- Whether two values mean the same, whatever they look like. -/
def sameValue : Item → Item → Bool
  | .scalar a _, .scalar b _ => sameScalar a b
  | .array as _, .array bs _ => sameValues as bs
  | _, _ => false

def sameValues : List Item → List Item → Bool
  | [], [] => true
  | a :: as, b :: bs => sameValue a b && sameValues as bs
  | _, _ => false

end

/-- What stands before and after a value. -/
def decorOf : Item → Option (String × String)
  | .scalar _ format | .array _ format | .inlineTable _ format => format.decor
  | _ => none

/-- A value with something else before and after it. -/
def withDecor (decor : Option (String × String)) : Item → Item
  | .scalar value format => .scalar value { format with decor := decor }
  | .array elements format => .array elements { format with decor := decor }
  | .inlineTable entries format => .inlineTable entries { format with decor := decor }
  | i => i

/-- A value put where there is something, or nothing: what means the same is left as it is, and a
rewritten value keeps what stood around the old one. -/
def assign (new : Item) : Option Item → Item
  | some old =>
    if old.isValue then if sameValue old new then old else withDecor (decorOf old) new else new
  | none => new

/-- Set a dotted path, creating the tables on the way. What is on the way and is no table is
replaced by one. -/
def put : List String → Item → Entries → Entries
  | [], _, es => es
  | [key], new, es => es.alter key (assign new)
  | key :: next :: path, new, es => es.alter key fun
    | some (.inlineTable sub format) => .inlineTable (put (next :: path) new sub) format
    | some (.table sub dotted implicit) => .table (put (next :: path) new sub) dotted implicit
    | _ => .table (put (next :: path) new []) false true

mutual

/-- The entries of this name first, here and in the tables that dotted keys make. -/
def Item.sorted (name : String) : Item → Item
  | .table entries true implicit =>
    .table ((entriesSorted name entries).filter (·.1 = name) ++
      (entriesSorted name entries).filter (·.1 ≠ name)) true implicit
  | i => i

def entriesSorted (name : String) : List (String × Item) → List (String × Item)
  | [] => []
  | (k, i) :: es => (k, Item.sorted name i) :: entriesSorted name es

end

/-- A document with the entries of this name first. -/
def sortValues (name : String) (doc : Entries) : Entries :=
  (entriesSorted name doc).filter (·.1 = name) ++ (entriesSorted name doc).filter (·.1 ≠ name)

/-- Stamp the version, at the top if it was not there. -/
def setVersion (doc : Entries) (version : ℤ) : Entries :=
  match doc.lookup "version" with
  | some (.scalar (.integer v) _) =>
    if v = version then doc
    else sortValues "version" (doc.alter "version" fun _ => .scalar (.integer version) {})
  | _ => sortValues "version" (doc.alter "version" fun _ => .scalar (.integer version) {})

/-- A path whose value is not printed: it goes from an inline table on to a key that has no inline
table there. The flag says whether the entries are an inline table's. -/
def hides : Bool → Entries → List String → Bool
  | inline, es, key :: next :: path =>
    match es.lookup key with
    | some (.inlineTable sub _) => hides true sub (next :: path)
    | some (.table sub _ _) => inline || hides false sub (next :: path)
    | _ => inline
  | _, _, _ => false

/-- The same, with nothing that is printed in the way. -/
def gone : Bool → Entries → List String → Bool
  | inline, es, key :: next :: path =>
    match es.lookup key with
    | some (.inlineTable sub _) => gone true sub (next :: path)
    | some (.table sub _ _) => inline || gone false sub (next :: path)
    | some _ => false
    | none => inline
  | _, _, _ => false

/-- Entries as they are printed, an inline table's or another's. -/
def printedIn (inline : Bool) (es : Entries) : Entries :=
  if inline then printedInline es else printedEntries es

/-- A text. -/
def isText : Item → Bool
  | .scalar (.string _) _ => true
  | _ => false

/-- The values the writer makes: a text, a number, a truth value, or a list of texts. -/
def isPlain : Item → Bool
  | .scalar (.string _) _ | .scalar (.integer _) _ | .scalar (.boolean _) _ => true
  | .array elements _ => elements.all isText
  | _ => false

section Plain

variable {new old : Item}

theorem sameScalar_self_of_plain {value : Scalar} {format : Format}
    (h : isPlain (.scalar value format) = true) : sameScalar value value = true := by
  cases value with
  | float | datetime => cases h
  | _ => simp [sameScalar]

private theorem exists_text_of_cons {e : Item} {elements : List Item}
    (h : (e :: elements).all isText = true) :
    (∃ text format, e = .scalar (.string text) format) ∧ elements.all isText = true := by
  rw [List.all_cons, Bool.and_eq_true] at h
  obtain ⟨he, helements⟩ := h
  refine ⟨?_, helements⟩
  cases e with
  | scalar value format =>
    cases value with
    | string text => exact ⟨text, format, rfl⟩
    | _ => cases he
  | _ => cases he

private theorem sameValues_self {elements : List Item} (h : elements.all isText = true) :
    sameValues elements elements = true := by
  induction elements with
  | nil => rfl
  | cons e elements ih =>
    obtain ⟨⟨text, format, rfl⟩, helements⟩ := exists_text_of_cons h
    rw [sameValues, ih helements]
    simp [sameValue, sameScalar]

/-- A value means the same whatever stands around it. -/
theorem sameValue_withDecor (h : isPlain new = true) (decor : Option (String × String)) :
    sameValue (withDecor decor new) new = true := by
  cases new with
  | scalar value format => exact sameScalar_self_of_plain h
  | array elements format => exact sameValues_self h
  | _ => cases h

theorem sameValue_self (h : isPlain new = true) : sameValue new new = true := by
  cases new with
  | scalar value format => exact sameScalar_self_of_plain h
  | array elements format => exact sameValues_self h
  | _ => cases h

private theorem printedItems_of_sameValues {olds news : List Item}
    (h : news.all isText = true) (hsame : sameValues olds news = true) :
    printedItems olds = olds := by
  induction olds generalizing news with
  | nil => rfl
  | cons o olds ih =>
    cases news with
    | nil => cases hsame
    | cons e news =>
      obtain ⟨⟨text, format, rfl⟩, hnews⟩ := exists_text_of_cons h
      obtain ⟨hhead, htail⟩ := (Bool.and_eq_true _ _).mp hsame
      rw [printedItems, ih hnews htail]
      cases o with
      | scalar => rfl
      | _ => simp [sameValue] at hhead

/-- What means the same as a value of the writer's is printed as it is. -/
theorem printed_of_sameValue (h : isPlain new = true) (hsame : sameValue old new = true) :
    old.printed = old := by
  cases new with
  | scalar value format =>
    cases old <;> first | rfl | cases hsame
  | array elements format =>
    cases old with
    | array olds format' => rw [Item.printed, printedItems_of_sameValues h hsame]
    | _ => cases hsame
  | _ => cases h

theorem isValue_of_sameValue (hsame : sameValue old new = true) : old.isValue = true := by
  cases old <;> first | rfl | cases hsame

private theorem itemsDistinct_of_sameValues {olds news : List Item}
    (h : news.all isText = true) (hsame : sameValues olds news = true) :
    itemsDistinct olds = true := by
  induction olds generalizing news with
  | nil => rfl
  | cons o olds ih =>
    cases news with
    | nil => cases hsame
    | cons e news =>
      obtain ⟨⟨text, format, rfl⟩, hnews⟩ := exists_text_of_cons h
      obtain ⟨hhead, htail⟩ := (Bool.and_eq_true _ _).mp hsame
      rw [itemsDistinct, ih hnews htail]
      cases o with
      | scalar => rfl
      | _ => simp [sameValue] at hhead

theorem distinct_of_sameValue (h : isPlain new = true) (hsame : sameValue old new = true) :
    old.distinct = true := by
  cases new with
  | scalar value format =>
    cases old <;> first | rfl | cases hsame
  | array elements format =>
    cases old with
    | array olds format' => exact itemsDistinct_of_sameValues h hsame
    | _ => cases hsame
  | _ => cases h

/-- What is found after an assignment means what was assigned. -/
theorem sameValue_assign (h : isPlain new = true) (slot : Option Item) :
    sameValue (assign new slot) new = true := by
  unfold assign
  split
  · split_ifs with hvalue hsame
    · exact hsame
    · exact sameValue_withDecor h _
    · exact sameValue_self h
  · exact sameValue_self h

/-- A value that means what is assigned stays. -/
theorem assign_eq_self (hsame : sameValue old new = true) : assign new (some old) = old := by
  rw [assign, if_pos (isValue_of_sameValue hsame), if_pos hsame]

end Plain

section Paths

variable {new : Item} {es : Entries} {path other : List String} {inline : Bool}

/-- The entries a path goes on in from a key: those of the table there, or none yet. -/
theorem find_cons_cons (es : Entries) (key next : String) (path : List String) :
    es.find (key :: next :: path) =
      ((es.lookup key).bind Item.asTableLike).bind fun sub => sub.find (next :: path) := rfl

/-- What is found further on is found in what is found before. -/
theorem find_append (hpath : path ≠ []) (es : Entries) (key : String) (rest : List String) :
    es.find (path ++ key :: rest) =
      ((es.find path).bind Item.asTableLike).bind fun sub => sub.find (key :: rest) := by
  induction path generalizing es with
  | nil => exact absurd rfl hpath
  | cons first path ih =>
    cases path with
    | nil => exact find_cons_cons es first key rest
    | cons next path =>
      rw [List.cons_append, List.cons_append, find_cons_cons, find_cons_cons]
      cases (es.lookup first).bind Item.asTableLike with
      | none => rfl
      | some sub => exact ih (List.cons_ne_nil next path) sub

/-- What is put at a path is assigned to what was found there. -/
theorem find_put (hpath : path ≠ []) (es : Entries) :
    (put path new es).find path = some (assign new (es.find path)) := by
  induction path generalizing es with
  | nil => exact absurd rfl hpath
  | cons key path ih =>
    cases path with
    | nil => exact Entries.lookup_alter_self _ _ _
    | cons next path =>
      rw [put, find_cons_cons, Entries.lookup_alter_self, find_cons_cons]
      have hempty : (put (next :: path) new []).find (next :: path) = some (assign new none) := by
        rw [ih (by simp)]
        cases path <;> rfl
      cases hslot : es.lookup key with
      | none => exact hempty
      | some slot =>
        cases slot with
        | inlineTable | table => exact ih (by simp) _
        | _ => exact hempty

/-- What is put at a path is found there. -/
theorem find_put_self (hnew : isPlain new = true) (hpath : path ≠ []) (es : Entries) :
    ∃ found, (put path new es).find path = some found ∧ sameValue found new = true :=
  ⟨_, find_put hpath es, sameValue_assign hnew _⟩

/-- What another path finds is not touched, be it something or nothing. -/
theorem find_put_apart (hpath : ¬path <+: other) (hother : ¬other <+: path) (es : Entries) :
    (put path new es).find other = es.find other := by
  induction path generalizing es other with
  | nil => exact absurd List.nil_prefix hpath
  | cons key path ih =>
    cases other with
    | nil => exact absurd List.nil_prefix hother
    | cons key' other =>
      by_cases hkey : key' = key
      · subst hkey
        cases path with
        | nil => exact absurd (List.cons_prefix_cons.mpr ⟨rfl, List.nil_prefix⟩) hpath
        | cons next path =>
          cases other with
          | nil => exact absurd (List.cons_prefix_cons.mpr ⟨rfl, List.nil_prefix⟩) hother
          | cons next' other =>
            have hpath' : ¬next :: path <+: next' :: other :=
              fun hpre => hpath (List.cons_prefix_cons.mpr ⟨rfl, hpre⟩)
            have hother' : ¬next' :: other <+: next :: path :=
              fun hpre => hother (List.cons_prefix_cons.mpr ⟨rfl, hpre⟩)
            have hempty : (put (next :: path) new []).find (next' :: other) = none := by
              rw [ih hpath' hother']
              cases other <;> rfl
            rw [put, find_cons_cons, Entries.lookup_alter_self, find_cons_cons]
            cases hslot : es.lookup key' with
            | none => exact hempty
            | some slot =>
              cases slot with
              | inlineTable | table => exact ih hpath' hother' _
              | _ => exact hempty
      · have hlookup : ∀ f, (es.alter key f).lookup key' = es.lookup key' :=
          fun f => Entries.lookup_alter_of_ne hkey f es
        cases path with
        | nil =>
          cases other with
          | nil => exact hlookup _
          | cons next' other => rw [put, find_cons_cons, hlookup, ← find_cons_cons]
        | cons next path =>
          cases other with
          | nil => exact hlookup _
          | cons next' other => rw [put, find_cons_cons, hlookup, ← find_cons_cons]

/-- What another path finds is not touched. -/
theorem find_put_other {i : Item} (hpath : ¬path <+: other) (hother : ¬other <+: path)
    (h : es.find other = some i) : (put path new es).find other = some i :=
  (find_put_apart hpath hother es).trans h

/-- A table above the path is the table it was, with what was put in it. -/
theorem find_put_above {above : List String} {key : String} {rest : List String}
    {sub : Entries} {dotted implicit : Bool} (habove : above ≠ [])
    (h : es.find above = some (.table sub dotted implicit)) :
    (put (above ++ key :: rest) new es).find above =
      some (.table (put (key :: rest) new sub) dotted implicit) := by
  induction above generalizing es with
  | nil => exact absurd rfl habove
  | cons first above ih =>
    cases above with
    | nil =>
      have hlookup : es.lookup first = some (.table sub dotted implicit) := h
      rw [List.cons_append, List.nil_append, put, Entries.find, Entries.lookup_alter_self, hlookup]
    | cons next above =>
      rw [find_cons_cons] at h
      rw [List.cons_append, List.cons_append, put, find_cons_cons, Entries.lookup_alter_self]
      cases hslot : es.lookup first with
      | none => simp [hslot] at h
      | some slot =>
        rw [hslot] at h
        cases slot with
        | inlineTable | table => exact ih (by simp) h
        | _ => cases h

/-- The keys that a table had come first, in their order. -/
theorem map_fst_put (path : List String) (new : Item) (es : Entries) :
    es.map Prod.fst <+: (put path new es).map Prod.fst := by
  have halter : ∀ key f, es.map Prod.fst <+: (es.alter key f).map Prod.fst := by
    intro key f
    rw [Entries.map_fst_alter]
    split_ifs
    · exact List.prefix_refl _
    · exact List.prefix_append _ _
  cases path with
  | nil => exact List.prefix_refl _
  | cons key path =>
    cases path with
    | nil => exact halter key _
    | cons next path => exact halter key _

/-- Putting what is there already changes nothing. -/
theorem put_eq_self {found : Item} (h : es.find path = some found)
    (hsame : sameValue found new = true) : put path new es = es := by
  induction path generalizing es with
  | nil => rfl
  | cons key path ih =>
    cases path with
    | nil => exact Entries.alter_eq_self h (assign_eq_self hsame)
    | cons next path =>
      rw [find_cons_cons] at h
      cases hslot : es.lookup key with
      | none => simp [hslot] at h
      | some slot =>
        rw [hslot] at h
        cases slot with
        | inlineTable sub format =>
          exact Entries.alter_eq_self hslot (by simp only [ih h])
        | table sub dotted implicit =>
          exact Entries.alter_eq_self hslot (by simp only [ih h])
        | _ => cases h

/-- Putting makes no key double. -/
theorem distinct_put (hnew : isPlain new = true) (h : es.distinct = true) :
    Entries.distinct (put path new es) = true := by
  induction path generalizing es with
  | nil => exact h
  | cons key path ih =>
    cases path with
    | nil => exact Entries.distinct_alter h (distinct_of_sameValue hnew (sameValue_assign hnew _))
    | cons next path =>
      refine Entries.distinct_alter h ?_
      split
      · rename_i sub format hslot
        exact ih (Item.distinct_asTableLike (Entries.distinct_of_lookup h hslot) rfl)
      · rename_i sub dotted implicit hslot
        exact ih (Item.distinct_asTableLike (Entries.distinct_of_lookup h hslot) rfl)
      · exact ih rfl

/-- No path is hidden in a table without entries. -/
theorem hides_nil (path : List String) : hides false [] path = false := by
  cases path with
  | nil => rfl
  | cons key path => cases path <;> rfl

/-- Putting hides no path that does not go on from its own, and shows none. -/
theorem hides_put (hbeyond : ∀ key rest, other ≠ path ++ key :: rest) :
    hides inline (put path new es) other = hides inline es other := by
  induction path generalizing es other inline with
  | nil => rfl
  | cons key path ih =>
    cases other with
    | nil => cases path <;> rfl
    | cons key' other =>
      cases other with
      | nil => cases path <;> rfl
      | cons next' other =>
        by_cases hkey : key' = key
        · subst hkey
          cases path with
          | nil => exact absurd rfl (hbeyond next' other)
          | cons next path =>
            have hbeyond' : ∀ k rest, next' :: other ≠ (next :: path) ++ k :: rest :=
              fun k rest heq => hbeyond k rest (by rw [heq]; rfl)
            rw [put, hides, Entries.lookup_alter_self, hides]
            cases hslot : es.lookup key' with
            | none => simp only [ih hbeyond', hides_nil, Bool.or_false]
            | some slot =>
              cases slot with
              | inlineTable sub format => exact ih hbeyond'
              | table sub dotted implicit => simp only [ih hbeyond']
              | _ => simp only [ih hbeyond', hides_nil, Bool.or_false]
        · cases path with
          | nil => rw [put, hides, Entries.lookup_alter_of_ne hkey, hides]
          | cons next path => rw [put, hides, Entries.lookup_alter_of_ne hkey, hides]

/-- A path that is gone stays gone when a value is put that does not reach beyond it. -/
theorem gone_put (hbeyond : ∀ key rest, other ≠ path ++ key :: rest)
    (h : gone inline es other = true) : gone inline (put path new es) other = true := by
  induction path generalizing es other inline with
  | nil => exact h
  | cons key path ih =>
    cases other with
    | nil => cases h
    | cons key' other =>
      cases other with
      | nil => cases h
      | cons next' other =>
        by_cases hkey : key' = key
        · subst hkey
          cases path with
          | nil => exact absurd rfl (hbeyond next' other)
          | cons next path =>
            have hbeyond' : ∀ k rest, next' :: other ≠ (next :: path) ++ k :: rest :=
              fun k rest heq => hbeyond k rest (by rw [heq]; rfl)
            rw [gone] at h
            rw [put, gone, Entries.lookup_alter_self]
            cases hslot : es.lookup key' with
            | none =>
              rw [hslot] at h
              simp only at h
              simp [h]
            | some slot =>
              rw [hslot] at h
              cases slot with
              | inlineTable sub format => exact ih hbeyond' h
              | table sub dotted implicit =>
                simp only [Bool.or_eq_true] at h ⊢
                exact h.imp_right (ih hbeyond')
              | _ => cases h
        · cases path with
          | nil => rwa [put, gone, Entries.lookup_alter_of_ne hkey, ← gone]
          | cons next path => rwa [put, gone, Entries.lookup_alter_of_ne hkey, ← gone]

end Paths

end Gtkhx.Preferences
