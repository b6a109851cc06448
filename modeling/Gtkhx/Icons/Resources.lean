import Gtkhx.Icons.Cicn
import Gtkhx.Library.BigEndian

/-!
# Resource forks

A resource fork has a map of what is in it: a list of the types, and for each type a list of
references, which give a resource's ID and where its data is. It is read as the format has it.
-/

namespace Gtkhx.Icons

def be24 (b : List UInt8) (off : ℕ) : Option ℕ :=
  match b[off]?, be16 b (off + 1) with
  | some high, some low => some (high.toNat * 65536 + low)
  | _, _ => none

def be32 (b : List UInt8) (off : ℕ) : Option ℕ :=
  match be16 b off, be16 b (off + 2) with
  | some high, some low => some (high * 65536 + low)
  | _, _ => none

/-- `u16::checked_add(1)`. -/
def oneMore (n : ℕ) : Option ℕ := if n + 1 < 65536 then some (n + 1) else none

structure TypeEntry where
  resType : ℕ
  /-- How many resources of the type there are. -/
  count : ℕ
  /-- Where its reference list is, from where the type list starts. -/
  refListOff : ℕ
  deriving DecidableEq, Repr

/-- A fork that was read. -/
structure ResourceFork where
  data : List UInt8
  firstResOff : ℕ
  resMapOff : ℕ
  resTypeListOff : ℕ
  types : List TypeEntry
  deriving DecidableEq, Repr

/-- A resource. The sixteen bits of its ID are those of a signed integer. -/
structure Resource where
  resid : ℕ
  data : List UInt8
  deriving DecidableEq, Repr

/-- So many entries of the type list, the first of which is here. -/
def typeEntries (data : List UInt8) : (n o : ℕ) → Option (List TypeEntry)
  | 0, _ => some []
  | n + 1, o => do
    let resType ← be32 data o
    let count ← oneMore (← be16 data (o + 4))
    let refListOff ← be16 data (o + 6)
    let types ← typeEntries data n (o + 8)
    some (⟨resType, count, refListOff⟩ :: types)

namespace ResourceFork

/-- A fork, if its header and its map can be walked. No offset is near where a `usize` ends. -/
def parse (data : List UInt8) : Option ResourceFork := do
  let firstResOff ← be32 data 0
  let resMapOff ← be32 data 4
  let resDataLen ← be32 data 8
  let resMapLen ← be32 data 12
  if data.length < firstResOff + resDataLen ∨ data.length < resMapOff + resMapLen then none
  else
    let resTypeListOff ← be16 data (resMapOff + 24)
    let numResTypes ← oneMore (← be16 data (resMapOff + 28))
    let types ← typeEntries data numResTypes (resMapOff + resTypeListOff + 2)
    some ⟨data, firstResOff, resMapOff, resTypeListOff, types⟩

variable (fork : ResourceFork)

def typeEntry (resType : ℕ) : Option TypeEntry := fork.types.find? (·.resType == resType)

def numResOfType (resType : ℕ) : ℕ := (fork.typeEntry resType).elim 0 TypeEntry.count

/-- A reference: the ID, and where the data is. -/
def refEntry (t : TypeEntry) (n : ℕ) : Option (ℕ × ℕ) := do
  let o := fork.resMapOff + fork.resTypeListOff + t.refListOff + n * 12
  let resid ← be16 fork.data o
  let dataOff ← be24 fork.data (o + 5)
  some (resid, dataOff)

/-- What is at a place: its length, and so many bytes. -/
def resourceAt (resid dataOff : ℕ) : Option Resource := do
  let len ← be32 fork.data (fork.firstResOff + dataOff)
  let start := fork.firstResOff + dataOff + 4
  if fork.data.length < start + len then none
  else some ⟨resid, (fork.data.drop start).take len⟩

def nthResOfType (resType n : ℕ) : Option Resource := do
  let t ← fork.typeEntry resType
  if t.count ≤ n then none
  else
    let (resid, dataOff) ← fork.refEntry t n
    fork.resourceAt resid dataOff

/-- The first resource with an ID among so many, from the `n`-th on. A reference that cannot be
read ends the search. -/
def resFrom (t : TypeEntry) (resid : ℕ) : (left n : ℕ) → Option Resource
  | 0, _ => none
  | left + 1, n =>
    match fork.refEntry t n with
    | none => none
    | some (rid, dataOff) =>
      if rid = resid then fork.resourceAt resid dataOff else resFrom t resid left (n + 1)

def resOfId (resType resid : ℕ) : Option Resource := do
  let t ← fork.typeEntry resType
  fork.resFrom t resid t.count 0

end ResourceFork

namespace ResourceFork

variable {fork : ResourceFork}

/-- The resources of a type that can be read. -/
def readable (fork : ResourceFork) (resType : ℕ) : List Resource :=
  (List.range (fork.numResOfType resType)).filterMap (fork.nthResOfType resType)

/-- What is handed out of a fork is a part of it. -/
theorem resourceAt_returns {resid dataOff : ℕ} {r : Resource}
    (h : fork.resourceAt resid dataOff = some r) : r.resid = resid ∧ r.data <:+: fork.data := by
  obtain ⟨len, -, h⟩ := Option.bind_eq_some_iff.mp h
  dsimp only at h
  split at h
  · cases h
  · obtain rfl := Option.some.inj h
    exact ⟨rfl, (List.take_prefix _ _).isInfix.trans (List.drop_suffix _ _).isInfix⟩

/-- What the search finds is what a reference it passed leads to. -/
theorem resFrom_returns {t : TypeEntry} {resid left n : ℕ} {r : Resource}
    (h : fork.resFrom t resid left n = some r) :
    ∃ m < n + left, ∃ off, fork.refEntry t m = some (resid, off) ∧
      fork.resourceAt resid off = some r := by
  induction left generalizing n with
  | zero => cases h
  | succ left ih =>
    rw [resFrom] at h
    split at h
    · cases h
    · rename_i rid off hentry
      split at h
      · rename_i hid
        subst hid
        exact ⟨n, by omega, off, hentry, h⟩
      · obtain ⟨m, hm, hfound⟩ := ih h
        exact ⟨m, by omega, hfound⟩

/-- What is found by an ID has it, and is one of those that can be read. -/
theorem resOfId_returns {resType resid : ℕ} {r : Resource}
    (h : fork.resOfId resType resid = some r) :
    r.resid = resid ∧ r.data <:+: fork.data ∧ r ∈ fork.readable resType := by
  obtain ⟨t, htype, h⟩ := Option.bind_eq_some_iff.mp h
  obtain ⟨m, hm, off, hentry, hat⟩ := resFrom_returns h
  obtain ⟨hid, hpart⟩ := resourceAt_returns hat
  refine ⟨hid, hpart, List.mem_filterMap.mpr ⟨m, ?_, ?_⟩⟩
  · rw [numResOfType, htype, List.mem_range]
    exact hm.trans_eq (Nat.zero_add _)
  · rw [nthResOfType, htype, Option.bind_eq_bind, Option.bind_some, if_neg (by omega), hentry]
    exact hat

end ResourceFork

/-- Some bytes stand at a place. -/
def At (data : List UInt8) (pos : ℕ) (bytes : List UInt8) : Prop := bytes <+: data.drop pos

instance (data : List UInt8) (pos : ℕ) (bytes : List UInt8) : Decidable (At data pos bytes) :=
  inferInstanceAs (Decidable (bytes <+: data.drop pos))

/-- The two bytes of an integer. -/
def word (n : ℕ) : List UInt8 := BigEndian.ofU16 (.ofNat n)

/-- Its three. -/
def triple (n : ℕ) : List UInt8 := UInt8.ofNat (n / 65536) :: word n

/-- Its four. -/
def long (n : ℕ) : List UInt8 := BigEndian.ofU32 (.ofNat n)

section Readers

variable {data : List UInt8} {pos n : ℕ}

theorem At.getElem? {bytes : List UInt8} (h : At data pos bytes) {i : ℕ} (hi : i < bytes.length) :
    data[pos + i]? = bytes[i]? := by
  obtain ⟨rest, hrest⟩ := h
  rw [← List.getElem?_drop, ← hrest, List.getElem?_append_left hi]

theorem be16_of_at (hn : n < 2 ^ 16) (h : At data pos (word n)) : be16 data pos = some n := by
  have hhigh := h.getElem? (i := 0) (by simp [word, BigEndian.ofU16])
  have hlow := h.getElem? (i := 1) (by simp [word, BigEndian.ofU16])
  rw [Nat.add_zero] at hhigh
  rw [be16, hhigh, hlow]
  simp [word, BigEndian.ofU16]
  omega

theorem be24_of_at (hn : n < 2 ^ 24) (h : At data pos (triple n)) : be24 data pos = some n := by
  have hfirst := h.getElem? (i := 0) (by simp [triple])
  have hhigh := h.getElem? (i := 1) (by simp [triple, word, BigEndian.ofU16])
  have hlow := h.getElem? (i := 2) (by simp [triple, word, BigEndian.ofU16])
  rw [Nat.add_zero] at hfirst
  rw [be24, be16, hfirst, hhigh, Nat.add_assoc, hlow]
  simp [triple, word, BigEndian.ofU16]
  omega

theorem be32_of_at (hn : n < 2 ^ 32) (h : At data pos (long n)) : be32 data pos = some n := by
  have hbyte : ∀ i < 4, data[pos + i]? = (long n)[i]? := fun i hi => h.getElem? hi
  have hfirst := hbyte 0 (by omega)
  rw [Nat.add_zero] at hfirst
  rw [be32, be16, be16, hfirst, hbyte 1 (by omega), hbyte 2 (by omega), Nat.add_assoc,
    hbyte 3 (by omega)]
  simp [long, BigEndian.ofU32]
  omega

theorem At.left {front back : List UInt8} (h : At data pos (front ++ back)) : At data pos front :=
  (List.prefix_append _ _).trans h

theorem At.right {front back : List UInt8} (h : At data pos (front ++ back)) :
    At data (pos + front.length) back := by
  obtain ⟨rest, hrest⟩ := h
  refine ⟨rest, ?_⟩
  rw [← List.drop_drop, ← hrest, List.append_assoc, List.drop_left]

/-- What stands at a place ends in the file. -/
theorem At.length_le {bytes : List UInt8} (h : At data pos bytes) (hne : bytes ≠ []) :
    pos + bytes.length ≤ data.length := by
  have hpos := List.length_pos_iff.mpr hne
  have hle := List.IsPrefix.length_le h
  rw [List.length_drop] at hle
  omega

end Readers

/-- A reference, and the data it leads to. -/
def HasResource (data : List UInt8) (dataOff refOff : ℕ) (r : Resource) : Prop :=
  r.resid < 2 ^ 16 ∧ At data refOff (word r.resid) ∧ r.data.length < 2 ^ 32 ∧
    ∃ off < 2 ^ 24, At data (refOff + 5) (triple off) ∧
      At data (dataOff + off) (long r.data.length ++ r.data)

/-- An entry of the type list, and its references. -/
def HasType (data : List UInt8) (dataOff listOff entryOff : ℕ) (t : ℕ × List Resource) : Prop :=
  t.1 < 2 ^ 32 ∧ At data entryOff (long t.1) ∧ t.2 ≠ [] ∧ t.2.length < 2 ^ 16 ∧
    At data (entryOff + 4) (word (t.2.length - 1)) ∧
    ∃ refs < 2 ^ 16, At data (entryOff + 6) (word refs) ∧
      ∀ n r, t.2[n]? = some r → HasResource data dataOff (listOff + refs + n * 12) r

/-- A fork as the format has it, in which these types have these resources. Counts are stored
less one, so there is no type without a resource, and no fork without a type. -/
def Laid (data : List UInt8) (types : List (ℕ × List Resource)) : Prop :=
  types ≠ [] ∧ types.length < 2 ^ 16 ∧ ∃ dataOff mapOff dataLen mapLen listOff,
    At data 0 (long dataOff) ∧ At data 4 (long mapOff) ∧ At data 8 (long dataLen) ∧
    At data 12 (long mapLen) ∧
    dataOff + dataLen ≤ data.length ∧ mapOff + mapLen ≤ data.length ∧ data.length < 2 ^ 32 ∧
    listOff < 2 ^ 16 ∧ At data (mapOff + 24) (word listOff) ∧
    At data (mapOff + 28) (word (types.length - 1)) ∧
    ∀ n t, types[n]? = some t →
      HasType data dataOff (mapOff + listOff) (mapOff + listOff + 2 + n * 8) t

/-- The resources of a type. -/
def ofType (types : List (ℕ × List Resource)) (resType : ℕ) : List Resource :=
  (types.find? (·.1 == resType)).elim [] Prod.snd

/-- An entry was read as it was laid. -/
structure TypeEntry.Reads (e : TypeEntry) (data : List UInt8) (dataOff listOff : ℕ)
    (t : ℕ × List Resource) : Prop where
  resType : e.resType = t.1
  count : e.count = t.2.length
  refs : ∀ n r, t.2[n]? = some r → HasResource data dataOff (listOff + e.refListOff + n * 12) r

theorem oneMore_pred {n : ℕ} (hpos : 0 < n) (hlt : n < 2 ^ 16) : oneMore (n - 1) = some n := by
  rw [oneMore, if_pos (by omega), Nat.sub_add_cancel hpos]

/-- The type list is read. -/
theorem typeEntries_of {data : List UInt8} {dataOff listOff o : ℕ}
    {types : List (ℕ × List Resource)}
    (h : ∀ n t, types[n]? = some t → HasType data dataOff listOff (o + n * 8) t) :
    ∃ entries, typeEntries data types.length o = some entries ∧
      List.Forall₂ (fun e t => e.Reads data dataOff listOff t) entries types := by
  induction types generalizing o with
  | nil => exact ⟨[], rfl, .nil⟩
  | cons t types ih =>
    have hfirst := h 0 t rfl
    rw [Nat.zero_mul, Nat.add_zero] at hfirst
    obtain ⟨htype, hkind, hne, hlen, hcount, refs, hrefs, hlist, hall⟩ := hfirst
    obtain ⟨entries, hentries, hreads⟩ := ih (o := o + 8) fun n t' ht' => by
      have hnext := h (n + 1) t' ht'
      rwa [show o + (n + 1) * 8 = o + 8 + n * 8 by omega] at hnext
    refine ⟨⟨t.1, t.2.length, refs⟩ :: entries, ?_, .cons ⟨rfl, rfl, hall⟩ hreads⟩
    have hpos := List.length_pos_iff.mpr hne
    simp only [List.length_cons, typeEntries, be32_of_at htype hkind,
      be16_of_at (by omega) hcount, oneMore_pred hpos hlen, be16_of_at hrefs hlist, hentries,
      Option.bind_eq_bind, Option.bind_some]

namespace ResourceFork

/-- A fork gives out these resources of a type: as many, each by its number, and the first that
has an ID by that. -/
structure Gives (fork : ResourceFork) (resType : ℕ) (rs : List Resource) : Prop where
  num : fork.numResOfType resType = rs.length
  nth : ∀ n, fork.nthResOfType resType n = rs[n]?
  ofId : ∀ resid, fork.resOfId resType resid = rs.find? (·.resid == resid)

variable {fork : ResourceFork} {t : ℕ × List Resource} {e : TypeEntry} {r : Resource} {n : ℕ}

/-- All the resources that a fork gives out can be read. -/
theorem Gives.readable {resType : ℕ} {rs : List Resource} (h : fork.Gives resType rs) :
    fork.readable resType = rs := by
  have hnth : fork.nthResOfType resType = fun n => rs[n]? := funext h.nth
  rw [ResourceFork.readable, h.num, hnth]
  clear h hnth
  induction rs with
  | nil => rfl
  | cons r rs ih => simpa [List.range_succ_eq_map, List.filterMap_map, Function.comp_def] using ih

/-- A reference is read, and what it leads to. -/
theorem refEntry_of (hreads : e.Reads fork.data fork.firstResOff
    (fork.resMapOff + fork.resTypeListOff) t) (hn : t.2[n]? = some r) :
    ∃ off, fork.refEntry e n = some (r.resid, off) ∧ fork.resourceAt r.resid off = some r := by
  obtain ⟨hid, href, hlen, off, hoff, hplace, hdata⟩ := hreads.refs n r hn
  refine ⟨off, ?_, ?_⟩
  · rw [refEntry, be16_of_at hid href, be24_of_at hoff hplace]
    rfl
  · have hend := hdata.length_le (by simp [long, BigEndian.ofU32])
    have hlong : (long r.data.length).length = 4 := rfl
    rw [List.length_append, hlong] at hend
    have hbytes := List.prefix_iff_eq_take.mp hdata.right
    rw [hlong] at hbytes
    rw [resourceAt, be32_of_at hlen hdata.left, Option.bind_eq_bind, Option.bind_some,
      if_neg (by omega), ← hbytes]

/-- The search finds the first resource with an ID from where it begins. -/
theorem resFrom_of (hreads : e.Reads fork.data fork.firstResOff
    (fork.resMapOff + fork.resTypeListOff) t) (resid : ℕ) {left : ℕ}
    (hleft : n + left = t.2.length) :
    fork.resFrom e resid left n = (t.2.drop n).find? (·.resid == resid) := by
  induction left generalizing n with
  | zero => rw [List.drop_eq_nil_of_le (by omega)]; rfl
  | succ left ih =>
    have hlt : n < t.2.length := by omega
    obtain ⟨off, hentry, hat⟩ := refEntry_of hreads (List.getElem?_eq_getElem hlt)
    rw [resFrom, hentry, List.drop_eq_getElem_cons hlt, List.find?_cons]
    by_cases hid : t.2[n].resid = resid
    · subst hid
      simp [hat]
    · have hne : (t.2[n].resid == resid) = false := beq_eq_false_iff_ne.mpr hid
      simp only [hid, if_false, hne]
      exact ih (by omega)

/-- The entry of a type is the one laid for it. -/
theorem find_entry {entries : List TypeEntry} {types : List (ℕ × List Resource)} {data : List UInt8}
    {dataOff listOff : ℕ}
    (h : List.Forall₂ (fun e t => e.Reads data dataOff listOff t) entries types) (resType : ℕ) :
    Option.Rel (fun e t => e.Reads data dataOff listOff t)
      (entries.find? (·.resType == resType)) (types.find? (·.1 == resType)) := by
  induction h with
  | nil => exact .none
  | @cons e t entries types hreads _ ih =>
    rw [List.find?_cons, List.find?_cons, hreads.resType]
    cases t.1 == resType with
    | true => exact .some hreads
    | false => exact ih

/-- A fork gives out what its type list was read as. -/
theorem gives_of_entries {types : List (ℕ × List Resource)}
    (h : List.Forall₂ (fun e t => e.Reads fork.data fork.firstResOff
      (fork.resMapOff + fork.resTypeListOff) t) fork.types types) (resType : ℕ) :
    fork.Gives resType (ofType types resType) := by
  have hfind := find_entry h resType
  rw [ofType]
  cases hentry : fork.types.find? (·.resType == resType) with
  | none =>
    cases htype : types.find? (·.1 == resType) with
    | none => constructor <;> simp [numResOfType, nthResOfType, resOfId, typeEntry, hentry]
    | some t =>
      rw [hentry, htype] at hfind
      cases hfind
  | some e =>
    cases htype : types.find? (·.1 == resType) with
    | none =>
      rw [hentry, htype] at hfind
      cases hfind
    | some t =>
      rw [hentry, htype] at hfind
      obtain ⟨hreads⟩ := hfind
      refine ⟨?_, fun n => ?_, fun resid => ?_⟩
      · simp [numResOfType, typeEntry, hentry, hreads.count]
      · simp only [nthResOfType, typeEntry, hentry, Option.bind_eq_bind, Option.bind_some,
          Option.elim_some, hreads.count]
        by_cases hn : t.2.length ≤ n
        · rw [if_pos hn, List.getElem?_eq_none hn]
        · have hr := List.getElem?_eq_getElem (show n < t.2.length by omega)
          obtain ⟨off, href, hat⟩ := refEntry_of hreads hr
          rw [if_neg hn, href, Option.bind_some, hat, hr]
      · simp only [resOfId, typeEntry, hentry, Option.bind_eq_bind, Option.bind_some,
          Option.elim_some, hreads.count]
        exact resFrom_of hreads resid (Nat.zero_add _)

/-- **A fork is read as it was laid**: every type's resources, by their numbers and by their IDs. -/
theorem parse_laid {data : List UInt8} {types : List (ℕ × List Resource)} (h : Laid data types) :
    ∃ fork, parse data = some fork ∧ ∀ resType, fork.Gives resType (ofType types resType) := by
  obtain ⟨hne, hlen, dataOff, mapOff, dataLen, mapLen, listOff, hdataOff, hmapOff, hdataLen,
    hmapLen, hdataEnd, hmapEnd, hsize, hlist, hlistAt, hcount, htypes⟩ := h
  obtain ⟨entries, hentries, hreads⟩ := typeEntries_of htypes
  have hpos := List.length_pos_iff.mpr hne
  have hfits : ¬ (data.length < dataOff + dataLen ∨ data.length < mapOff + mapLen) := by omega
  refine ⟨⟨data, dataOff, mapOff, listOff, entries⟩, ?_, gives_of_entries hreads⟩
  simp only [parse, be32_of_at (show dataOff < 2 ^ 32 by omega) hdataOff,
    be32_of_at (show mapOff < 2 ^ 32 by omega) hmapOff,
    be32_of_at (show dataLen < 2 ^ 32 by omega) hdataLen,
    be32_of_at (show mapLen < 2 ^ 32 by omega) hmapLen, be16_of_at hlist hlistAt,
    be16_of_at (show types.length - 1 < 2 ^ 16 by omega) hcount, oneMore_pred hpos hlen, hentries,
    Option.bind_eq_bind, Option.bind_some, if_neg hfits]

end ResourceFork

end Gtkhx.Icons
