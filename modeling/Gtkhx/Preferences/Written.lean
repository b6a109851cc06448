import Gtkhx.Preferences.Put

/-!
# What a save leaves in the document

A save stamps the version and puts one value at each of a list of paths. Where the paths do not run
into each other, each of them then finds its value. Printing the document loses the values that an
inline table hides and no others, and putting the same values into what was printed prints the same
again.
-/

namespace Gtkhx.Preferences

open Toml

section Printed

variable {es : Entries} {path : List String} {inline : Bool}

/-- What a key has in printed entries. -/
theorem lookup_printedIn (h : es.distinct = true) (inline : Bool) (key : String) :
    (printedIn inline es).lookup key =
      (es.lookup key).bind fun i => if inline && !i.isValue then none else some i.printed := by
  cases inline with
  | false =>
    rw [printedIn, if_neg (by simp), lookup_printedEntries]
    cases es.lookup key <;> rfl
  | true =>
    have hkeys := of_decide_eq_true ((Bool.and_eq_true _ _).mp h).1
    rw [printedIn, if_pos rfl, lookup_printedInline hkeys]
    cases es.lookup key with
    | none => rfl
    | some i => cases hvalue : i.isValue <;> simp [hvalue]

/-- A value is found where it was when the entries are printed, unless it is hidden. -/
theorem find_printedIn {i : Item} (h : es.distinct = true) (hi : es.find path = some i)
    (hvalue : i.isValue = true) :
    (printedIn inline es).find path = if hides inline es path then none else some i.printed := by
  induction path generalizing es inline with
  | nil => cases hi
  | cons key path ih =>
    cases path with
    | nil =>
      have hlookup : es.lookup key = some i := hi
      rw [Entries.find, lookup_printedIn h, hlookup, Option.bind_some]
      simp [hvalue, hides]
    | cons next path =>
      rw [find_cons_cons] at hi ⊢
      rw [lookup_printedIn h, hides]
      cases hslot : es.lookup key with
      | none => simp [hslot] at hi
      | some slot =>
        rw [hslot] at hi
        have hslotDistinct := Entries.distinct_of_lookup h hslot
        cases slot with
        | inlineTable sub format =>
          have hfind : (printedIn true sub).find (next :: path) = _ :=
            ih (Item.distinct_asTableLike hslotDistinct rfl) hi
          simpa [Item.isValue, Item.printed, Item.asTableLike, printedIn] using hfind
        | table sub dotted implicit =>
          have hfind : (printedIn false sub).find (next :: path) = _ :=
            ih (Item.distinct_asTableLike hslotDistinct rfl) hi
          cases inline with
          | true => simp [Item.isValue]
          | false => simpa [Item.isValue, Item.printed, Item.asTableLike, printedIn] using hfind
        | _ => cases hi

/-- A hidden value leaves nothing where it was when the entries are printed. -/
theorem gone_printedIn {i : Item} (h : es.distinct = true) (hi : es.find path = some i)
    (hhides : hides inline es path = true) : gone inline (printedIn inline es) path = true := by
  induction path generalizing es inline with
  | nil => cases hi
  | cons key path ih =>
    cases path with
    | nil => cases hhides
    | cons next path =>
      rw [find_cons_cons] at hi
      rw [gone, lookup_printedIn h]
      rw [hides] at hhides
      cases hslot : es.lookup key with
      | none => simp [hslot] at hi
      | some slot =>
        rw [hslot] at hi hhides
        have hslotDistinct := Entries.distinct_of_lookup h hslot
        cases slot with
        | inlineTable sub format =>
          have hgone := ih (Item.distinct_asTableLike hslotDistinct rfl) hi hhides
          simpa [Item.isValue, Item.printed, printedIn] using hgone
        | table sub dotted implicit =>
          cases inline with
          | true => simp [Item.isValue]
          | false =>
            have hgone := ih (Item.distinct_asTableLike hslotDistinct rfl) hi hhides
            simpa [Item.isValue, Item.printed, printedIn] using hgone
        | _ => cases hi

/-- What is found above a value is a table, also when the entries are printed. -/
theorem isSome_asTableLike_printedIn {i j : Item} {above rest : List String} {key : String}
    (h : es.distinct = true) (hi : es.find (above ++ key :: rest) = some i)
    (hj : (printedIn inline es).find above = some j) : j.asTableLike.isSome = true := by
  induction above generalizing es inline with
  | nil => cases hj
  | cons first above ih =>
    have hsplit : ∃ slot sub, es.lookup first = some slot ∧ slot.asTableLike = some sub ∧
        sub.find (above ++ key :: rest) = some i := by
      cases above <;>
      · simp only [List.cons_append, List.nil_append, find_cons_cons, Option.bind_eq_some_iff] at hi
        obtain ⟨sub, ⟨slot, hslot, hsub⟩, hfind⟩ := hi
        exact ⟨slot, sub, hslot, hsub, hfind⟩
    obtain ⟨slot, sub, hslot, hsub, hfind⟩ := hsplit
    have hdistinct := Item.distinct_asTableLike (Entries.distinct_of_lookup h hslot) hsub
    have hprinted : ∃ inner, slot.printed.asTableLike = some (printedIn inner sub) := by
      cases slot with
      | inlineTable entries format =>
        obtain rfl := Option.some.inj hsub
        exact ⟨true, rfl⟩
      | table entries dotted implicit =>
        obtain rfl := Option.some.inj hsub
        exact ⟨false, rfl⟩
      | _ => cases hsub
    obtain ⟨inner, hinner⟩ := hprinted
    have hlookup := lookup_printedIn h inline first
    rw [hslot, Option.bind_some] at hlookup
    cases above with
    | nil =>
      rw [Entries.find, hlookup] at hj
      split_ifs at hj
      obtain rfl := Option.some.inj hj
      rw [hinner, Option.isSome_some]
    | cons next above =>
      rw [find_cons_cons, hlookup] at hj
      split_ifs at hj with hhidden
      · cases hj
      · rw [Option.bind_some, hinner, Option.bind_some] at hj
        exact ih hdistinct hfind hj

/-- Changing what a key has changes nothing that is printed if what it has is printed the same. -/
theorem printedEntries_alter {key : String} {f : Option Item → Item} {i : Item}
    (hi : es.lookup key = some i) (hf : (f (some i)).printed = i.printed) :
    printedEntries (es.alter key f) = printedEntries es := by
  induction es with
  | nil => cases hi
  | cons e es ih =>
    obtain ⟨k, j⟩ := e
    by_cases hk : k = key
    · subst hk
      obtain rfl : j = i := by simpa using hi
      simp [Entries.alter, printedEntries, hf]
    · rw [List.lookup_cons, beq_false_of_ne (Ne.symm hk)] at hi
      simp [Entries.alter, hk, printedEntries, ih hi]

/-- In an inline table a value that is printed the same, and all that is no value, changes
nothing. -/
theorem printedInline_alter {key : String} {f : Option Item → Item}
    (hvalue : (f (es.lookup key)).isValue = (es.lookup key).any Item.isValue)
    (hprinted : ∀ i, es.lookup key = some i → i.isValue = true → (f (some i)).printed = i.printed) :
    printedInline (es.alter key f) = printedInline es := by
  induction es with
  | nil =>
    have hnone : (f none).isValue = false := hvalue
    simp [Entries.alter, printedInline, hnone]
  | cons e es ih =>
    obtain ⟨k, j⟩ := e
    by_cases hk : k = key
    · subst hk
      rw [List.lookup_cons_self] at hvalue hprinted
      have hsame : (f (some j)).isValue = j.isValue := hvalue
      rw [Entries.alter, if_pos rfl, printedInline, printedInline, hsame]
      split_ifs with hj
      · rw [hprinted j rfl hj]
      · rfl
    · rw [List.lookup_cons, beq_false_of_ne (Ne.symm hk)] at hvalue hprinted
      rw [Entries.alter, if_neg hk, printedInline, printedInline, ih hvalue hprinted]

/-- A value put where it is hidden and nothing is printed is not printed. -/
theorem printedIn_put_of_gone {new : Item} (h : gone inline es path = true) :
    printedIn inline (put path new es) = printedIn inline es := by
  induction path generalizing es inline with
  | nil => rfl
  | cons key path ih =>
    cases path with
    | nil => cases h
    | cons next path =>
      rw [gone] at h
      cases hslot : es.lookup key with
      | none =>
        rw [hslot] at h
        obtain rfl : inline = true := h
        refine printedInline_alter ?_ ?_
        · rw [hslot]
          rfl
        · intro i hi
          rw [hslot] at hi
          cases hi
      | some slot =>
        rw [hslot] at h
        cases slot with
        | inlineTable sub format =>
          have hsub : printedInline (put (next :: path) new sub) = printedInline sub :=
            @ih sub true h
          cases inline with
          | false => exact printedEntries_alter hslot (by rw [Item.printed, hsub, Item.printed])
          | true =>
            refine printedInline_alter ?_ ?_
            · rw [hslot]
              rfl
            · intro i hi hvalue
              rw [hslot] at hi
              obtain rfl := Option.some.inj hi
              rw [Item.printed, hsub, Item.printed]
        | table sub dotted implicit =>
          cases inline with
          | false =>
            have hsub : printedEntries (put (next :: path) new sub) = printedEntries sub :=
              @ih sub false h
            exact printedEntries_alter hslot (by rw [Item.printed, hsub, Item.printed])
          | true =>
            refine printedInline_alter ?_ ?_
            · rw [hslot]
              rfl
            · intro i hi hvalue
              rw [hslot] at hi
              obtain rfl := Option.some.inj hi
              cases hvalue
        | _ => cases h

end Printed

section Stamped

variable {es doc : Entries} {path : List String} {inline : Bool} {name : String}

/-- An order of the entries changes no key's item. -/
theorem lookup_filter_append (name key : String) (es : Entries) :
    (es.filter (·.1 = name) ++ es.filter (·.1 ≠ name)).lookup key = es.lookup key := by
  induction es with
  | nil => rfl
  | cons e es ih =>
    obtain ⟨k, i⟩ := e
    rw [List.lookup_append] at ih ⊢
    by_cases hname : k = name
    · subst hname
      by_cases hkey : key = k
      · simp [hkey]
      · simpa [List.lookup_cons, beq_false_of_ne hkey] using ih
    · by_cases hkey : key = k
      · subst hkey
        have hnone : (es.filter (·.1 = name)).lookup key = none := by
          rw [List.lookup_eq_none_iff]
          intro e he
          obtain ⟨-, he⟩ := List.mem_filter.mp he
          simp only [decide_eq_true_eq] at he
          simpa [he] using hname
        simp [hname, hnone]
      · simpa [hname, List.lookup_cons, beq_false_of_ne hkey] using ih

theorem lookup_entriesSorted (name key : String) (es : Entries) :
    (entriesSorted name es).lookup key = (es.lookup key).map (Item.sorted name) := by
  induction es with
  | nil => rfl
  | cons e es ih =>
    obtain ⟨k, i⟩ := e
    rw [entriesSorted, List.lookup_cons, List.lookup_cons, ih]
    split <;> rfl

/-- Sorting changes a key's item in the order of its entries only. -/
theorem lookup_sortValues (name key : String) (es : Entries) :
    (sortValues name es).lookup key = (es.lookup key).map (Item.sorted name) := by
  rw [sortValues, lookup_filter_append, lookup_entriesSorted]

theorem hides_sortValues (name : String) (es : Entries) (path : List String) (inline : Bool) :
    hides inline (sortValues name es) path = hides inline es path := by
  induction path generalizing es inline with
  | nil => rfl
  | cons key path ih =>
    cases path with
    | nil => rfl
    | cons next path =>
      rw [hides, lookup_sortValues, hides]
      cases es.lookup key with
      | none => rfl
      | some slot =>
        cases slot with
        | table sub dotted implicit =>
          cases dotted with
          | false => rfl
          | true => exact congrArg (inline || ·) (ih sub false)
        | _ => rfl

theorem eachDistinct_iff {es : Entries} :
    eachDistinct es = true ↔ ∀ e ∈ es, e.2.distinct = true := by
  induction es with
  | nil => simp [eachDistinct]
  | cons e es ih => simp [eachDistinct, ih]

theorem map_fst_entriesSorted (name : String) (es : Entries) :
    (entriesSorted name es).map Prod.fst = es.map Prod.fst := by
  induction es with
  | nil => rfl
  | cons e es ih => rw [entriesSorted, List.map_cons, ih, List.map_cons]

private theorem distinct_filter_append (h : es.distinct = true) :
    Entries.distinct (es.filter (·.1 = name) ++ es.filter (·.1 ≠ name)) = true := by
  obtain ⟨hkeys, heach⟩ := (Bool.and_eq_true _ _).mp h
  have hperm : (es.filter (·.1 = name) ++ es.filter (·.1 ≠ name)).Perm es := by
    simpa using List.filter_append_perm (fun e : String × Item => decide (e.1 = name)) es
  have hnodup := ((hperm.map Prod.fst).nodup_iff).mpr (of_decide_eq_true hkeys)
  have heach' : eachDistinct (es.filter (·.1 = name) ++ es.filter (·.1 ≠ name)) = true :=
    eachDistinct_iff.mpr fun e he => eachDistinct_iff.mp heach e (hperm.mem_iff.mp he)
  rw [Entries.distinct, decide_eq_true hnodup, heach']
  rfl

mutual

theorem Item.distinct_sorted (name : String) :
    ∀ i : Item, i.distinct = true → (Item.sorted name i).distinct = true
  | .scalar _ _, h | .array _ _, h | .inlineTable _ _, h | .arrayOfTables _, h => h
  | .table _ false _, h => h
  | .table entries true _, h => by
    obtain ⟨hkeys, heach⟩ := (Bool.and_eq_true _ _).mp h
    refine distinct_filter_append ?_
    rw [Entries.distinct, map_fst_entriesSorted, hkeys,
      eachDistinct_entriesSorted name entries heach]
    rfl

theorem eachDistinct_entriesSorted (name : String) :
    ∀ es : List (String × Item), eachDistinct es = true →
      eachDistinct (entriesSorted name es) = true
  | [], _ => rfl
  | (_, i) :: es, h => by
    obtain ⟨hi, hes⟩ := (Bool.and_eq_true _ _).mp h
    rw [entriesSorted, eachDistinct, Item.distinct_sorted name i hi,
      eachDistinct_entriesSorted name es hes]
    rfl

end

/-- Sorting makes no key double. -/
theorem distinct_sortValues (name : String) (h : es.distinct = true) :
    Entries.distinct (sortValues name es) = true :=
  Item.distinct_sorted name (.table es true false) h

/-- A stamp that is there already stays. -/
theorem setVersion_eq_self {version : ℤ} {format : Format}
    (h : doc.lookup "version" = some (.scalar (.integer version) format)) :
    setVersion doc version = doc := by
  rw [setVersion, h]
  exact if_pos rfl

/-- A document is stamped already, or gets its version and is sorted. -/
theorem setVersion_cases (doc : Entries) (version : ℤ) :
    (setVersion doc version = doc ∧
        ∃ format, doc.lookup "version" = some (.scalar (.integer version) format)) ∨
      setVersion doc version =
        sortValues "version" (doc.alter "version" fun _ => .scalar (.integer version) {}) := by
  unfold setVersion
  split
  · rename_i v format hv
    split_ifs with heq
    · exact Or.inl ⟨rfl, format, heq ▸ hv⟩
    · exact Or.inr rfl
  · exact Or.inr rfl

/-- A stamped document has its version. -/
theorem lookup_setVersion (doc : Entries) (version : ℤ) :
    ∃ format, (setVersion doc version).lookup "version" =
      some (.scalar (.integer version) format) := by
  rcases setVersion_cases doc version with ⟨hself, format, hv⟩ | hset
  · exact ⟨format, by rw [hself, hv]⟩
  · exact ⟨{}, by rw [hset, lookup_sortValues, Entries.lookup_alter_self]; rfl⟩

theorem distinct_setVersion (h : doc.distinct = true) (version : ℤ) :
    Entries.distinct (setVersion doc version) = true := by
  rcases setVersion_cases doc version with ⟨hself, -⟩ | hset
  · rw [hself]
    exact h
  · rw [hset]
    exact distinct_sortValues _ (Entries.distinct_alter h rfl)

/-- A stamp hides no other key's values, and shows none. -/
theorem hides_setVersion (doc : Entries) (version : ℤ) {key : String} (hkey : key ≠ "version") :
    hides inline (setVersion doc version) (key :: path) = hides inline doc (key :: path) := by
  rcases setVersion_cases doc version with ⟨hself, -⟩ | hset
  · rw [hself]
  · rw [hset, hides_sortValues]
    cases path with
    | nil => rfl
    | cons next path => rw [hides, Entries.lookup_alter_of_ne hkey, hides]

end Stamped

/-- Put a list of values, each at its path. -/
def putAll (puts : List (List String × Item)) (doc : Entries) : Entries :=
  puts.foldl (fun doc p => put p.1 p.2 doc) doc

/-- Neither path runs into the other. -/
def Apart (path other : List String) : Prop := ¬path <+: other ∧ ¬other <+: path

/-- The values are the writer's, and no path runs into another. -/
structure Independent (puts : List (List String × Item)) : Prop where
  plain : ∀ p ∈ puts, isPlain p.2 = true
  apart : puts.Pairwise fun p q => Apart p.1 q.1

section PutAll

variable {p : List String × Item} {puts : List (List String × Item)} {doc : Entries}
  {other : List String} {inline : Bool}

theorem Apart.symm {path other : List String} (h : Apart path other) : Apart other path :=
  ⟨h.2, h.1⟩

theorem Apart.not_beyond {path other : List String} (h : Apart path other) (key : String)
    (rest : List String) : other ≠ path ++ key :: rest :=
  fun heq => h.1 ⟨key :: rest, heq.symm⟩

theorem not_beyond_self (path : List String) (key : String) (rest : List String) :
    path ≠ path ++ key :: rest := by
  intro heq
  have hlength := congrArg List.length heq
  simp at hlength

theorem Independent.of_cons (h : Independent (p :: puts)) : Independent puts :=
  ⟨fun q hq => h.plain q (List.mem_cons_of_mem _ hq), (List.pairwise_cons.mp h.apart).2⟩

/-- In an independent list no path goes on from another. -/
theorem Independent.not_beyond (h : Independent puts) {q : List String × Item} (hp : p ∈ puts)
    (hq : q ∈ puts) (key : String) (rest : List String) : q.1 ≠ p.1 ++ key :: rest := by
  induction puts with
  | nil => cases hp
  | cons first puts ih =>
    have hfirst := (List.pairwise_cons.mp h.apart).1
    rcases List.mem_cons.mp hp with hpfirst | hp'
    · rcases List.mem_cons.mp hq with hqfirst | hq'
      · rw [hpfirst, hqfirst]
        exact not_beyond_self _ _ _
      · rw [hpfirst]
        exact (hfirst q hq').not_beyond _ _
    · rcases List.mem_cons.mp hq with hqfirst | hq'
      · rw [hqfirst]
        exact (hfirst p hp').symm.not_beyond _ _
      · exact ih h.of_cons hp' hq'

theorem distinct_putAll (hplain : ∀ p ∈ puts, isPlain p.2 = true) (h : doc.distinct = true) :
    Entries.distinct (putAll puts doc) = true := by
  induction puts generalizing doc with
  | nil => exact h
  | cons p puts ih =>
    exact ih (fun q hq => hplain q (List.mem_cons_of_mem _ hq))
      (distinct_put (hplain p List.mem_cons_self) h)

theorem hides_putAll (hbeyond : ∀ p ∈ puts, ∀ key rest, other ≠ p.1 ++ key :: rest) :
    hides inline (putAll puts doc) other = hides inline doc other := by
  induction puts generalizing doc with
  | nil => rfl
  | cons p puts ih =>
    exact (ih fun q hq => hbeyond q (List.mem_cons_of_mem _ hq)).trans
      (hides_put (hbeyond p List.mem_cons_self))

theorem find_putAll_other {i : Item} (hapart : ∀ p ∈ puts, Apart p.1 other)
    (h : doc.find other = some i) : (putAll puts doc).find other = some i := by
  induction puts generalizing doc with
  | nil => exact h
  | cons p puts ih =>
    have hp := hapart p List.mem_cons_self
    exact ih (fun q hq => hapart q (List.mem_cons_of_mem _ hq)) (find_put_other hp.1 hp.2 h)

/-- After all are put, each path finds its value. -/
theorem find_putAll (hputs : Independent puts) (hp : p ∈ puts) (hpath : p.1 ≠ []) :
    ∃ found, (putAll puts doc).find p.1 = some found ∧ sameValue found p.2 = true := by
  induction puts generalizing doc with
  | nil => cases hp
  | cons first puts ih =>
    rcases List.mem_cons.mp hp with rfl | hmem
    · obtain ⟨found, hfound, hsame⟩ := find_put_self (hputs.plain p List.mem_cons_self) hpath doc
      have hapart := (List.pairwise_cons.mp hputs.apart).1
      have hrest := find_putAll_other (fun q hq => (hapart q hq).symm) hfound
      exact ⟨found, hrest, hsame⟩
    · exact ih hputs.of_cons hmem

/-- Values that are there already, or hidden with nothing printed in their place, print as
before. -/
theorem printedEntries_putAll (hputs : Independent puts)
    (h : ∀ p ∈ puts, (∃ found, doc.find p.1 = some found ∧ sameValue found p.2 = true) ∨
      gone false doc p.1 = true) :
    printedEntries (putAll puts doc) = printedEntries doc := by
  induction puts generalizing doc with
  | nil => rfl
  | cons p puts ih =>
    have hapart := (List.pairwise_cons.mp hputs.apart).1
    have hprinted : printedEntries (put p.1 p.2 doc) = printedEntries doc := by
      rcases h p List.mem_cons_self with ⟨found, hfound, hsame⟩ | hgone
      · rw [put_eq_self hfound hsame]
      · exact printedIn_put_of_gone hgone
    refine (ih hputs.of_cons fun q hq => ?_).trans hprinted
    rcases h q (List.mem_cons_of_mem _ hq) with ⟨found, hfound, hsame⟩ | hgone
    · exact Or.inl ⟨found, find_put_other (hapart q hq).1 (hapart q hq).2 hfound, hsame⟩
    · exact Or.inr (gone_put (hapart q hq).not_beyond hgone)

end PutAll

end Gtkhx.Preferences
