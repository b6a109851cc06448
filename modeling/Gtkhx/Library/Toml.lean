import Mathlib.Data.Int.Notation
import Mathlib.Data.List.Nodup

/-!
# TOML documents

Documents as trees: a table's entries in the order they are kept in, with the formatting of each
value beside it. The two spellings of a table differ in what they may hold when they are printed:
an inline table is printed on one line, and a table of its own stored inside it is left out.
-/

namespace Toml

/-- How a value is spelled, as far as it is kept: its text, if it was read, and what stands before
and after it. -/
structure Format where
  repr : Option String := none
  decor : Option (String × String) := none
  deriving DecidableEq

/-- A value without parts. -/
inductive Scalar
  | string (text : String)
  | integer (value : ℤ)
  | float (text : String)
  | boolean (value : Bool)
  | datetime (text : String)
  deriving DecidableEq

/-- What a key can have. The first three are values. -/
inductive Item
  | scalar (value : Scalar) (format : Format)
  | array (elements : List Item) (format : Format)
  | inlineTable (entries : List (String × Item)) (format : Format)
  | table (entries : List (String × Item)) (dotted implicit : Bool)
  | arrayOfTables (tables : List Item)

/-- The entries of a table. A document is the entries of its root. -/
abbrev Entries := List (String × Item)

/-- The two sorts of table. -/
def Item.asTableLike : Item → Option Entries
  | .inlineTable entries _ => some entries
  | .table entries _ _ => some entries
  | _ => none

/-- Whether an item is a value. -/
def Item.isValue : Item → Bool
  | .scalar _ _ | .array _ _ | .inlineTable _ _ => true
  | _ => false

/-- Put something at a key, seeing what is there; a new key goes to the end. -/
def Entries.alter (key : String) (f : Option Item → Item) : Entries → Entries
  | [] => [(key, f none)]
  | (k, i) :: es => if k = key then (k, f (some i)) :: es else (k, i) :: Entries.alter key f es

/-- The item a path names, if every segment above the last is a table. -/
def Entries.find : Entries → List String → Option Item
  | _, [] => none
  | es, [key] => es.lookup key
  | es, key :: next :: path =>
    ((es.lookup key).bind Item.asTableLike).bind fun sub => Entries.find sub (next :: path)

mutual

/-- An item as it is printed: inline tables keep their values only. -/
def Item.printed : Item → Item
  | .scalar value format => .scalar value format
  | .array elements format => .array (printedItems elements) format
  | .inlineTable entries format => .inlineTable (printedInline entries) format
  | .table entries dotted implicit => .table (printedEntries entries) dotted implicit
  | .arrayOfTables tables => .arrayOfTables (printedItems tables)

def printedItems : List Item → List Item
  | [] => []
  | i :: is => i.printed :: printedItems is

def printedInline : List (String × Item) → List (String × Item)
  | [] => []
  | (k, i) :: es => if i.isValue then (k, i.printed) :: printedInline es else printedInline es

def printedEntries : List (String × Item) → List (String × Item)
  | [] => []
  | (k, i) :: es => (k, i.printed) :: printedEntries es

end

mutual

/-- Every inline table has only values. -/
def Item.valuesOnly : Item → Bool
  | .scalar _ _ => true
  | .array elements _ => itemsValuesOnly elements
  | .inlineTable entries _ => inlineValuesOnly entries
  | .table entries _ _ => entriesValuesOnly entries
  | .arrayOfTables tables => itemsValuesOnly tables

def itemsValuesOnly : List Item → Bool
  | [] => true
  | i :: is => i.valuesOnly && itemsValuesOnly is

def inlineValuesOnly : List (String × Item) → Bool
  | [] => true
  | (_, i) :: es => i.isValue && (i.valuesOnly && inlineValuesOnly es)

def entriesValuesOnly : List (String × Item) → Bool
  | [] => true
  | (_, i) :: es => i.valuesOnly && entriesValuesOnly es

end

mutual

/-- Every table below has a header of its own, none is made by dotted keys, and an inline table is a
value: it has only values. -/
def Item.headed : Item → Bool
  | .scalar _ _ => true
  | .array elements _ => itemsValuesOnly elements
  | .inlineTable entries _ => inlineValuesOnly entries
  | .table entries dotted _ => !dotted && entriesHeaded entries
  | .arrayOfTables tables => itemsHeaded tables

def itemsHeaded : List Item → Bool
  | [] => true
  | i :: is => i.headed && itemsHeaded is

def entriesHeaded : List (String × Item) → Bool
  | [] => true
  | (_, i) :: es => i.headed && entriesHeaded es

end

mutual

/-- No table has a key twice. -/
def Item.distinct : Item → Bool
  | .scalar _ _ => true
  | .array elements _ => itemsDistinct elements
  | .inlineTable entries _ => decide (entries.map Prod.fst).Nodup && eachDistinct entries
  | .table entries _ _ => decide (entries.map Prod.fst).Nodup && eachDistinct entries
  | .arrayOfTables tables => itemsDistinct tables

def itemsDistinct : List Item → Bool
  | [] => true
  | i :: is => i.distinct && itemsDistinct is

def eachDistinct : List (String × Item) → Bool
  | [] => true
  | (_, i) :: es => i.distinct && eachDistinct es

end

/-- Entries without a key twice, at any depth. -/
def Entries.distinct (es : Entries) : Bool :=
  decide (es.map Prod.fst).Nodup && eachDistinct es

mutual

theorem Item.printed_eq : ∀ i : Item, i.valuesOnly = true → i.printed = i
  | .scalar _ _, _ => rfl
  | .array elements _, h => by rw [Item.printed, printedItems_eq elements h]
  | .inlineTable entries _, h => by rw [Item.printed, printedInline_eq entries h]
  | .table entries _ _, h => by rw [Item.printed, printedEntries_eq entries h]
  | .arrayOfTables tables, h => by rw [Item.printed, printedItems_eq tables h]

theorem printedItems_eq : ∀ is : List Item, itemsValuesOnly is = true → printedItems is = is
  | [], _ => rfl
  | i :: is, h => by
    obtain ⟨hi, his⟩ := (Bool.and_eq_true _ _).mp h
    rw [printedItems, i.printed_eq hi, printedItems_eq is his]

theorem printedInline_eq :
    ∀ es : List (String × Item), inlineValuesOnly es = true → printedInline es = es
  | [], _ => rfl
  | (k, i) :: es, h => by
    obtain ⟨hvalue, h⟩ := (Bool.and_eq_true _ _).mp h
    obtain ⟨hi, hes⟩ := (Bool.and_eq_true _ _).mp h
    rw [printedInline, if_pos hvalue, i.printed_eq hi, printedInline_eq es hes]

/-- What has only values in its inline tables is printed whole. -/
theorem printedEntries_eq :
    ∀ es : List (String × Item), entriesValuesOnly es = true → printedEntries es = es
  | [], _ => rfl
  | (k, i) :: es, h => by
    obtain ⟨hi, hes⟩ := (Bool.and_eq_true _ _).mp h
    rw [printedEntries, i.printed_eq hi, printedEntries_eq es hes]

end

@[simp] theorem Item.isValue_printed (i : Item) : i.printed.isValue = i.isValue := by
  cases i <;> rfl

mutual

theorem Item.valuesOnly_printed : ∀ i : Item, i.printed.valuesOnly = true
  | .scalar _ _ => rfl
  | .array elements _ => itemsValuesOnly_printed elements
  | .inlineTable entries _ => inlineValuesOnly_printed entries
  | .table entries _ _ => entriesValuesOnly_printed entries
  | .arrayOfTables tables => itemsValuesOnly_printed tables

theorem itemsValuesOnly_printed : ∀ is : List Item, itemsValuesOnly (printedItems is) = true
  | [] => rfl
  | i :: is => by
    rw [printedItems, itemsValuesOnly, i.valuesOnly_printed, itemsValuesOnly_printed is]
    rfl

theorem inlineValuesOnly_printed :
    ∀ es : List (String × Item), inlineValuesOnly (printedInline es) = true
  | [] => rfl
  | (k, i) :: es => by
    rw [printedInline]
    split_ifs with hvalue
    · rw [inlineValuesOnly, i.isValue_printed, hvalue, i.valuesOnly_printed,
        inlineValuesOnly_printed es]
      rfl
    · exact inlineValuesOnly_printed es

/-- What is printed has only values in its inline tables. -/
theorem entriesValuesOnly_printed :
    ∀ es : List (String × Item), entriesValuesOnly (printedEntries es) = true
  | [] => rfl
  | (k, i) :: es => by
    rw [printedEntries, entriesValuesOnly, i.valuesOnly_printed, entriesValuesOnly_printed es]
    rfl

end

mutual

theorem Item.valuesOnly_of_headed : ∀ i : Item, i.headed = true → i.valuesOnly = true
  | .scalar _ _, _ => rfl
  | .array _ _, h => h
  | .inlineTable _ _, h => h
  | .table entries _ _, h =>
    entriesValuesOnly_of_headed entries ((Bool.and_eq_true _ _).mp h).2
  | .arrayOfTables tables, h => itemsValuesOnly_of_headed tables h

theorem itemsValuesOnly_of_headed :
    ∀ is : List Item, itemsHeaded is = true → itemsValuesOnly is = true
  | [], _ => rfl
  | i :: is, h => by
    obtain ⟨hi, his⟩ := (Bool.and_eq_true _ _).mp h
    rw [itemsValuesOnly, i.valuesOnly_of_headed hi, itemsValuesOnly_of_headed is his]
    rfl

/-- Tables with headers have no inline table among their entries that is not printed whole. -/
theorem entriesValuesOnly_of_headed :
    ∀ es : List (String × Item), entriesHeaded es = true → entriesValuesOnly es = true
  | [], _ => rfl
  | (_, i) :: es, h => by
    obtain ⟨hi, hes⟩ := (Bool.and_eq_true _ _).mp h
    rw [entriesValuesOnly, i.valuesOnly_of_headed hi, entriesValuesOnly_of_headed es hes]
    rfl

end

theorem entriesHeaded_iff {es : Entries} :
    entriesHeaded es = true ↔ ∀ e ∈ es, e.2.headed = true := by
  induction es with
  | nil => simp [entriesHeaded]
  | cons e es ih => simp [entriesHeaded, ih]

/-- Printing twice is printing once. -/
theorem printedEntries_printedEntries (es : Entries) :
    printedEntries (printedEntries es) = printedEntries es :=
  printedEntries_eq _ (entriesValuesOnly_printed es)

theorem map_fst_printedEntries (es : Entries) :
    (printedEntries es).map Prod.fst = es.map Prod.fst := by
  induction es with
  | nil => rfl
  | cons e es ih => rw [printedEntries, List.map_cons, ih, List.map_cons]

theorem map_fst_printedInline (es : Entries) :
    ((printedInline es).map Prod.fst).Sublist (es.map Prod.fst) := by
  induction es with
  | nil => exact List.Sublist.refl _
  | cons e es ih =>
    rw [printedInline, List.map_cons]
    split_ifs
    · exact ih.cons_cons _
    · exact ih.cons _

mutual

theorem Item.distinct_printed : ∀ i : Item, i.distinct = true → i.printed.distinct = true
  | .scalar _ _, _ => rfl
  | .array elements _, h => itemsDistinct_printed elements h
  | .inlineTable entries _, h => by
    obtain ⟨hkeys, heach⟩ := (Bool.and_eq_true _ _).mp h
    have hnodup := (map_fst_printedInline entries).nodup (of_decide_eq_true hkeys)
    rw [Item.printed, Item.distinct, decide_eq_true hnodup,
      eachDistinct_printedInline entries heach]
    rfl
  | .table entries _ _, h => by
    obtain ⟨hkeys, heach⟩ := (Bool.and_eq_true _ _).mp h
    rw [Item.printed, Item.distinct, map_fst_printedEntries, hkeys,
      eachDistinct_printedEntries entries heach]
    rfl
  | .arrayOfTables tables, h => itemsDistinct_printed tables h

theorem itemsDistinct_printed :
    ∀ is : List Item, itemsDistinct is = true → itemsDistinct (printedItems is) = true
  | [], _ => rfl
  | i :: is, h => by
    obtain ⟨hi, his⟩ := (Bool.and_eq_true _ _).mp h
    rw [printedItems, itemsDistinct, i.distinct_printed hi, itemsDistinct_printed is his]
    rfl

theorem eachDistinct_printedInline :
    ∀ es : List (String × Item), eachDistinct es = true → eachDistinct (printedInline es) = true
  | [], _ => rfl
  | (k, i) :: es, h => by
    obtain ⟨hi, hes⟩ := (Bool.and_eq_true _ _).mp h
    rw [printedInline]
    split_ifs
    · rw [eachDistinct, i.distinct_printed hi, eachDistinct_printedInline es hes]
      rfl
    · exact eachDistinct_printedInline es hes

theorem eachDistinct_printedEntries :
    ∀ es : List (String × Item), eachDistinct es = true → eachDistinct (printedEntries es) = true
  | [], _ => rfl
  | (k, i) :: es, h => by
    obtain ⟨hi, hes⟩ := (Bool.and_eq_true _ _).mp h
    rw [printedEntries, eachDistinct, i.distinct_printed hi, eachDistinct_printedEntries es hes]
    rfl

end

/-- Printing makes no key double. -/
theorem Entries.distinct_printed {es : Entries} (h : es.distinct = true) :
    Entries.distinct (printedEntries es) = true :=
  Item.distinct_printed (.table es false false) h

@[simp] theorem Entries.lookup_alter_self (key : String) (f : Option Item → Item) (es : Entries) :
    (es.alter key f).lookup key = some (f (es.lookup key)) := by
  induction es with
  | nil => simp [Entries.alter]
  | cons e es ih =>
    obtain ⟨k, i⟩ := e
    by_cases hk : k = key
    · simp [Entries.alter, hk]
    · simp [Entries.alter, hk, List.lookup_cons, beq_false_of_ne (Ne.symm hk), ih]

theorem Entries.lookup_alter_of_ne {key key' : String} (h : key' ≠ key) (f : Option Item → Item)
    (es : Entries) : (es.alter key f).lookup key' = es.lookup key' := by
  induction es with
  | nil => simp [Entries.alter, List.lookup_cons, beq_false_of_ne h]
  | cons e es ih =>
    obtain ⟨k, i⟩ := e
    by_cases hk : k = key
    · subst hk
      simp [Entries.alter, List.lookup_cons, beq_false_of_ne h]
    · simp [Entries.alter, hk, List.lookup_cons, ih]

/-- Putting back what is there changes nothing. -/
theorem Entries.alter_eq_self {key : String} {f : Option Item → Item} {es : Entries} {i : Item}
    (h : es.lookup key = some i) (hf : f (some i) = i) : es.alter key f = es := by
  induction es with
  | nil => cases h
  | cons e es ih =>
    obtain ⟨k, j⟩ := e
    by_cases hk : k = key
    · subst hk
      obtain rfl : j = i := by simpa using h
      simp [Entries.alter, hf]
    · rw [List.lookup_cons, beq_false_of_ne (Ne.symm hk)] at h
      simp [Entries.alter, hk, ih h]

theorem Entries.map_fst_alter (key : String) (f : Option Item → Item) (es : Entries) :
    (es.alter key f).map Prod.fst =
      if key ∈ es.map Prod.fst then es.map Prod.fst else es.map Prod.fst ++ [key] := by
  induction es with
  | nil => rfl
  | cons e es ih =>
    obtain ⟨k, i⟩ := e
    by_cases hk : k = key
    · simp [Entries.alter, hk]
    · simp only [Entries.alter, if_neg hk, List.map_cons, ih, List.mem_cons, Ne.symm hk, false_or]
      split_ifs <;> rfl

theorem Entries.headed_of_lookup {es : Entries} (h : entriesHeaded es = true) {key : String}
    {i : Item} (hi : es.lookup key = some i) : i.headed = true := by
  obtain ⟨l, l', rfl, -⟩ := List.lookup_eq_some_iff.mp hi
  exact entriesHeaded_iff.mp h (key, i) (by simp)

/-- Putting something at a key whose tables have headers leaves it so. -/
theorem Entries.headed_alter {es : Entries} (h : entriesHeaded es = true) {key : String}
    {f : Option Item → Item} (hf : (f (es.lookup key)).headed = true) :
    entriesHeaded (es.alter key f) = true := by
  induction es with
  | nil =>
    rw [List.lookup_nil] at hf
    rw [Entries.alter, entriesHeaded, hf]
    rfl
  | cons e es ih =>
    obtain ⟨k, i⟩ := e
    obtain ⟨hhead, htail⟩ := (Bool.and_eq_true _ _).mp h
    by_cases hk : k = key
    · subst hk
      rw [List.lookup_cons_self] at hf
      rw [Entries.alter, if_pos rfl, entriesHeaded, hf, htail]
      rfl
    · rw [List.lookup_cons, beq_false_of_ne (Ne.symm hk)] at hf
      rw [Entries.alter, if_neg hk, entriesHeaded, hhead, ih htail hf]
      rfl

theorem eachDistinct_of_lookup {es : Entries} (h : eachDistinct es = true) {key : String}
    {i : Item} (hi : es.lookup key = some i) : i.distinct = true := by
  induction es with
  | nil => cases hi
  | cons e es ih =>
    obtain ⟨hhead, htail⟩ := (Bool.and_eq_true _ _).mp h
    rw [List.lookup_cons] at hi
    split at hi
    · obtain rfl := Option.some.inj hi
      exact hhead
    · exact ih htail hi

theorem eachDistinct_alter {es : Entries} (h : eachDistinct es = true) {key : String}
    {f : Option Item → Item} (hf : (f (es.lookup key)).distinct = true) :
    eachDistinct (es.alter key f) = true := by
  induction es with
  | nil =>
    rw [List.lookup_nil] at hf
    rw [Entries.alter, eachDistinct, hf]
    rfl
  | cons e es ih =>
    obtain ⟨k, i⟩ := e
    obtain ⟨hhead, htail⟩ := (Bool.and_eq_true _ _).mp h
    by_cases hk : k = key
    · subst hk
      rw [List.lookup_cons_self] at hf
      rw [Entries.alter, if_pos rfl, eachDistinct, hf, htail]
      rfl
    · rw [List.lookup_cons, beq_false_of_ne (Ne.symm hk)] at hf
      rw [Entries.alter, if_neg hk, eachDistinct, hhead, ih htail hf]
      rfl

/-- Putting something without double keys at a key makes no key double. -/
theorem Entries.distinct_alter {es : Entries} (h : es.distinct = true) {key : String}
    {f : Option Item → Item} (hf : (f (es.lookup key)).distinct = true) :
    Entries.distinct (es.alter key f) = true := by
  obtain ⟨hkeys, heach⟩ := (Bool.and_eq_true _ _).mp h
  have hnodup : ((es.alter key f).map Prod.fst).Nodup := by
    rw [Entries.map_fst_alter]
    split_ifs with hmem
    · exact of_decide_eq_true hkeys
    · rw [← List.concat_eq_append]
      exact (of_decide_eq_true hkeys).concat hmem
  rw [Entries.distinct, decide_eq_true hnodup, eachDistinct_alter heach hf]
  rfl

theorem Entries.distinct_of_lookup {es : Entries} (h : es.distinct = true) {key : String}
    {i : Item} (hi : es.lookup key = some i) : i.distinct = true :=
  eachDistinct_of_lookup ((Bool.and_eq_true _ _).mp h).2 hi

/-- A table's entries have no double keys where the table has none. -/
theorem Item.distinct_asTableLike {i : Item} (h : i.distinct = true) {es : Entries}
    (hi : i.asTableLike = some es) : es.distinct = true := by
  cases i with
  | inlineTable entries format =>
    obtain rfl := Option.some.inj hi
    exact h
  | table entries dotted implicit =>
    obtain rfl := Option.some.inj hi
    exact h
  | _ => cases hi

theorem lookup_printedEntries (key : String) (es : Entries) :
    (printedEntries es).lookup key = (es.lookup key).map Item.printed := by
  induction es with
  | nil => rfl
  | cons e es ih =>
    obtain ⟨k, i⟩ := e
    rw [printedEntries, List.lookup_cons, List.lookup_cons, ih]
    split <;> rfl

theorem lookup_printedInline {es : Entries} (h : (es.map Prod.fst).Nodup) (key : String) :
    (printedInline es).lookup key =
      (es.lookup key).bind fun i => if i.isValue then some i.printed else none := by
  induction es with
  | nil => rfl
  | cons e es ih =>
    obtain ⟨k, i⟩ := e
    obtain ⟨hnotin, hnodup⟩ := List.nodup_cons.mp h
    by_cases hk : key = k
    · subst hk
      rw [printedInline, List.lookup_cons_self, Option.bind_some]
      split_ifs with hvalue
      · rw [List.lookup_cons_self]
      · rw [ih hnodup]
        have hnone : es.lookup key = none := by
          rw [List.lookup_eq_none_iff]
          intro e he
          rw [bne_iff_ne]
          rintro rfl
          exact hnotin (List.mem_map.mpr ⟨e, he, rfl⟩)
        rw [hnone, Option.bind_none]
    · have hne : (key == k) = false := beq_false_of_ne hk
      rw [printedInline, List.lookup_cons, hne]
      split_ifs
      · rw [List.lookup_cons, hne]
        exact ih hnodup
      · exact ih hnodup

end Toml
