import Mathlib.Data.List.Infix

/-!
# Paths

What the folder loops do with names that came off the wire: they join components with
`/`, turn the bytes into a path of the platform, and join that to the base folder. A path
is kept as `std::path` parses it, so that joining, taking a parent and comparing follow
the components.
-/

namespace Gtkhx.Htxf

/-- The two families of platform that the crate tells apart. -/
inductive Platform where
  /-- Paths are bytes, separated by `/`. -/
  | unix
  /-- Paths are Unicode, separated by `/` or a backslash, and may name a drive. -/
  | windows
  deriving DecidableEq, Repr

/-- A path component. -/
abbrev Name := List UInt8

/-- The component `.`. -/
def curDir : Name := [46]

/-- The component `..`. -/
def parentDir : Name := [46, 46]

/-- `components.join(&b'/')`. -/
def joined (names : List Name) : List UInt8 := [47].intercalate names

/-- What may follow in a UTF-8 character. -/
inductive Follow where
  /-- Any continuation byte. -/
  | any
  /-- One from `0xa0`, after `0xe0`. -/
  | fromA0
  /-- One up to `0x9f`, after `0xed`. -/
  | upTo9f
  /-- One from `0x90`, after `0xf0`. -/
  | from90
  /-- One up to `0x8f`, after `0xf4`. -/
  | upTo8f
  deriving DecidableEq, Repr

/-- Whether a byte may stand there. -/
def Follow.admits : Follow → UInt8 → Bool
  | .any, b => 0x80 ≤ b && b ≤ 0xbf
  | .fromA0, b => 0xa0 ≤ b && b ≤ 0xbf
  | .upTo9f, b => 0x80 ≤ b && b ≤ 0x9f
  | .from90, b => 0x90 ≤ b && b ≤ 0xbf
  | .upTo8f, b => 0x80 ≤ b && b ≤ 0x8f

/-- Where the decoding of UTF-8 stands. -/
inductive Decoding where
  /-- Between characters. -/
  | fresh
  /-- Inside one, with these bytes of it read and these to come. -/
  | inside (begun : List UInt8) (next : Follow) (more : List Follow)
  deriving DecidableEq, Repr

/-- U+FFFD, which stands for bytes that are no character. -/
def replacement : List UInt8 := [0xef, 0xbf, 0xbd]

/-- The first byte of a character: what it puts out, and where it leaves the decoding. -/
def decodeLead (b : UInt8) : List UInt8 × Decoding :=
  if b < 0x80 then ([b], .fresh)
  else if 0xc2 ≤ b ∧ b ≤ 0xdf then ([], .inside [b] .any [])
  else if b = 0xe0 then ([], .inside [b] .fromA0 [.any])
  else if b = 0xed then ([], .inside [b] .upTo9f [.any])
  else if 0xe1 ≤ b ∧ b ≤ 0xef then ([], .inside [b] .any [.any])
  else if b = 0xf0 then ([], .inside [b] .from90 [.any, .any])
  else if b = 0xf4 then ([], .inside [b] .upTo8f [.any, .any])
  else if 0xf1 ≤ b ∧ b ≤ 0xf3 then ([], .inside [b] .any [.any, .any])
  else (replacement, .fresh)

/-- One byte of `from_utf8_lossy`. A byte that cannot go on a character ends it, replaced,
and begins the next. -/
def decodeByte : Decoding → UInt8 → List UInt8 × Decoding
  | .fresh, b => decodeLead b
  | .inside begun next more, b =>
    if next.admits b then
      match more with
      | [] => (begun ++ [b], .fresh)
      | next' :: more' => ([], .inside (begun ++ [b]) next' more')
    else (replacement ++ (decodeLead b).1, (decodeLead b).2)

/-- `String::from_utf8_lossy`, from where the decoding stands. -/
def fromUtf8LossyFrom : Decoding → List UInt8 → List UInt8
  | .fresh, [] => []
  | .inside _ _ _, [] => replacement
  | d, b :: rest => (decodeByte d b).1 ++ fromUtf8LossyFrom (decodeByte d b).2 rest

/-- `String::from_utf8_lossy`. -/
def fromUtf8Lossy (bytes : List UInt8) : List UInt8 := fromUtf8LossyFrom .fresh bytes

/-- `os_from_bytes`. -/
def osFromBytes : Platform → List UInt8 → List UInt8
  | .unix, bytes => bytes
  | .windows, bytes => fromUtf8Lossy bytes

/-- Whether a byte separates components. -/
def Platform.isSep : Platform → UInt8 → Bool
  | .unix, b => b == 47
  | .windows, b => b == 47 || b == 92

/-- A parsed path. -/
structure PathBuf where
  /-- The drive it begins with, as `C:`, or nothing. -/
  drive : List UInt8
  /-- Whether a separator follows the drive, or begins the path. -/
  rooted : Bool
  /-- The components between the separators, as they are written. -/
  comps : List Name
  deriving DecidableEq, Repr

/-- The path of no bytes. -/
def PathBuf.empty : PathBuf := ⟨[], false, []⟩

/-- Whether a path begins with a drive: an ASCII letter and a colon. -/
def isDrivePrefix : List UInt8 → Bool
  | c :: 58 :: _ => (65 ≤ c && c ≤ 90) || (97 ≤ c && c ≤ 122)
  | _ => false

/-- The path after its drive. -/
def PathBuf.parseAfter (p : Platform) (drive rest : List UInt8) : PathBuf :=
  ⟨drive, rest.head?.any p.isSep, (rest.splitOnP p.isSep).filter (· ≠ [])⟩

/-- A path, as the platform parses it. -/
def PathBuf.parse (p : Platform) (s : List UInt8) : PathBuf :=
  if p = .windows ∧ isDrivePrefix s = true then .parseAfter p (s.take 2) (s.drop 2)
  else .parseAfter p [] s

/-- `Path::join`: a path with a drive replaces the base, one with a root replaces all but
its drive, and any other is appended. -/
def PathBuf.join (base rel : PathBuf) : PathBuf :=
  if rel.drive ≠ [] then rel
  else if rel.rooted then { rel with drive := base.drive }
  else { base with comps := base.comps ++ rel.comps }

/-- `Path::components`, past the drive and the root: a `.` counts only where a relative
path begins with it. -/
def PathBuf.components (p : PathBuf) : List Name :=
  match p.comps with
  | [] => []
  | c :: cs =>
    if c = curDir ∧ p.rooted = false then c :: cs.filter (· ≠ curDir)
    else (c :: cs).filter (· ≠ curDir)

/-- `Path::parent`. -/
def PathBuf.parent (p : PathBuf) : Option PathBuf :=
  match p.components with
  | [] => none
  | cs => some { p with comps := cs.dropLast }

/-- One component of a lexical resolution. -/
def resolveStep (rooted : Bool) (done : List Name) (c : Name) : List Name :=
  if c = curDir then done
  else if c = parentDir then
    match done.getLast? with
    | none => if rooted then [] else [c]
    | some last => if last = parentDir then done ++ [c] else done.dropLast
  else done ++ [c]

/-- A path's components with `.` and `..` resolved lexically. -/
def PathBuf.resolve (p : PathBuf) : List Name := p.comps.foldl (resolveStep p.rooted) []

/-- `p` is `base`, or lies under it. -/
def PathBuf.Inside (base p : PathBuf) : Prop :=
  p.drive = base.drive ∧ p.rooted = base.rooted ∧ base.resolve <+: p.resolve

/-- A path's components but for every `.`. -/
def PathBuf.core (p : PathBuf) : List Name := p.comps.filter (· ≠ curDir)

/-- `p` is `base` with components after it, none of which goes up. -/
def PathBuf.Below (base p : PathBuf) : Prop :=
  p.drive = base.drive ∧ p.rooted = base.rooted ∧
    ∃ names, parentDir ∉ names ∧ p.core = base.core ++ names

private theorem foldl_resolveStep_core (rooted : Bool) (cs : List Name) (done : List Name) :
    (cs.filter (· ≠ curDir)).foldl (resolveStep rooted) done =
      cs.foldl (resolveStep rooted) done := by
  induction cs generalizing done with
  | nil => rfl
  | cons c cs ih =>
    by_cases hc : c = curDir
    · simpa [hc, resolveStep] using ih done
    · simp only [List.filter_cons, hc, ne_eq, not_false_eq_true, decide_true, if_true,
        List.foldl_cons, ih]

/-- A `.` makes no difference to where a path leads. -/
theorem PathBuf.resolve_eq_core (p : PathBuf) :
    p.resolve = p.core.foldl (resolveStep p.rooted) [] :=
  (foldl_resolveStep_core p.rooted p.comps []).symm

private theorem foldl_resolveStep_names (rooted : Bool) {names : List Name}
    (hnames : parentDir ∉ names) (done : List Name) :
    done <+: names.foldl (resolveStep rooted) done := by
  induction names generalizing done with
  | nil => exact List.prefix_refl done
  | cons name names ih =>
    simp only [List.mem_cons, not_or] at hnames
    refine List.IsPrefix.trans ?_ (ih hnames.2 _)
    unfold resolveStep
    split
    · exact List.prefix_refl done
    · rw [if_neg (Ne.symm hnames.1)]
      exact List.prefix_append done [name]

/-- What is below the base lies under it once resolved. -/
theorem PathBuf.Below.inside {base p : PathBuf} (h : base.Below p) : base.Inside p := by
  obtain ⟨hdrive, hrooted, names, hnames, hcore⟩ := h
  refine ⟨hdrive, hrooted, ?_⟩
  rw [base.resolve_eq_core, p.resolve_eq_core, hcore, List.foldl_append, hrooted]
  exact foldl_resolveStep_names _ hnames _

theorem PathBuf.Below.refl (base : PathBuf) : base.Below base :=
  ⟨rfl, rfl, [], by simp, by simp⟩

/-- A path has its own components, and may begin with a `.`. -/
theorem PathBuf.components_eq (p : PathBuf) :
    p.components = p.core ∨ p.components = curDir :: p.core := by
  unfold components core
  cases p.comps with
  | nil => exact .inl rfl
  | cons c cs =>
    by_cases hc : c = curDir ∧ p.rooted = false
    · obtain ⟨rfl, hrooted⟩ := hc
      exact .inr (by simp [hrooted])
    · exact .inl (by simp only [if_neg hc])

/-- The parent of a path that has a component of its own. -/
theorem PathBuf.parent_of_core {p : PathBuf} (h : p.core ≠ []) :
    ∃ q, p.parent = some q ∧ q.drive = p.drive ∧ q.rooted = p.rooted ∧
      q.core = p.core.dropLast := by
  have hdrop : ∀ cs : List Name, (∀ c ∈ cs, c ≠ curDir) →
      (cs.dropLast).filter (· ≠ curDir) = cs.dropLast := fun cs hcs =>
    List.filter_eq_self.mpr fun c hc => by simpa using hcs c (List.dropLast_subset _ hc)
  have hcore : ∀ c ∈ p.core, c ≠ curDir := fun c hc => by
    simpa using (List.mem_filter.mp hc).2
  obtain ⟨c, cs, hcs⟩ := List.exists_cons_of_ne_nil h
  rcases p.components_eq with heq | heq
  · refine ⟨{ p with comps := p.core.dropLast }, ?_, rfl, rfl, hdrop _ hcore⟩
    rw [parent, heq, hcs]
  · refine ⟨{ p with comps := (curDir :: p.core).dropLast }, ?_, rfl, rfl, ?_⟩
    · rw [parent, heq]
    · rw [hcs, List.dropLast_cons_cons, ← hcs]
      simpa [core] using hdrop _ hcore

/-- Going up from below the base stays below it until the base is reached. -/
theorem PathBuf.Below.parent {base p : PathBuf} (h : base.Below p) :
    p.core = base.core ∨ ∃ q, p.parent = some q ∧ base.Below q := by
  obtain ⟨hdrive, hrooted, names, hnames, hcore⟩ := h
  rcases List.eq_nil_or_concat names with rfl | ⟨init, last, rfl⟩
  · exact .inl (by simpa using hcore)
  · obtain ⟨q, hparent, hqdrive, hqrooted, hqcore⟩ := p.parent_of_core (by simp [hcore])
    refine .inr ⟨q, hparent, hqdrive.trans hdrive, hqrooted.trans hrooted, init, ?_, ?_⟩
    · exact fun hmem => hnames (by simp [hmem])
    · rw [hqcore, hcore, List.concat_eq_append, ← List.append_assoc, List.dropLast_concat]

private theorem Follow.high_of_admits {f : Follow} {b : UInt8} (h : f.admits b = true) :
    0x80 ≤ b := by
  cases f <;> simp only [admits, Bool.and_eq_true, decide_eq_true_eq] at h
  · exact h.1
  · exact UInt8.le_trans (by decide) h.1
  · exact h.1
  · exact UInt8.le_trans (by decide) h.1
  · exact h.1

private theorem high_of_replacement {b : UInt8} (h : b ∈ replacement) : 0x80 ≤ b := by
  simp only [replacement, List.mem_cons, List.not_mem_nil, or_false] at h
  rcases h with rfl | rfl | rfl <;> decide

/-- The bytes of a character that has begun are none of them ASCII. -/
private def Decoding.High : Decoding → Prop
  | .fresh => True
  | .inside begun _ _ => begun ≠ [] ∧ ∀ b ∈ begun, 0x80 ≤ b

private theorem decodeLead_ascii {b : UInt8} (h : b < 0x80) : decodeLead b = ([b], .fresh) :=
  if_pos h

/-- A byte that is not ASCII begins a character or is replaced. -/
private theorem decodeLead_high {b : UInt8} (h : ¬ b < 0x80) :
    (∃ next more, decodeLead b = ([], .inside [b] next more)) ∨
      decodeLead b = (replacement, .fresh) := by
  unfold decodeLead
  rw [if_neg h]
  repeat' split
  all_goals first
    | exact .inl ⟨_, _, rfl⟩
    | exact .inr rfl

private theorem decodeLead_out_high {b c : UInt8} (h : ¬ b < 0x80) (hc : c ∈ (decodeLead b).1) :
    0x80 ≤ c := by
  obtain ⟨next, more, heq⟩ | heq := decodeLead_high h <;> rw [heq] at hc
  · cases hc
  · exact high_of_replacement hc

private theorem decodeLead_state_high (b : UInt8) : (decodeLead b).2.High := by
  by_cases h : b < 0x80
  · rw [decodeLead_ascii h]
    trivial
  · obtain ⟨next, more, heq⟩ | heq := decodeLead_high h <;> rw [heq]
    · simpa [Decoding.High] using UInt8.not_lt.mp h
    · trivial

/-- Inside a character a byte ends it, goes on with it, or breaks it off. -/
private theorem decodeByte_inside (begun : List UInt8) (next : Follow) (more : List Follow)
    (b : UInt8) :
    (next.admits b = true ∧ decodeByte (.inside begun next more) b = (begun ++ [b], .fresh)) ∨
    (∃ next' more', next.admits b = true ∧
      decodeByte (.inside begun next more) b = ([], .inside (begun ++ [b]) next' more')) ∨
    decodeByte (.inside begun next more) b =
      (replacement ++ (decodeLead b).1, (decodeLead b).2) := by
  by_cases hadmits : next.admits b = true
  · cases more with
    | nil => exact .inl ⟨hadmits, if_pos hadmits⟩
    | cons next' more' => exact .inr (.inl ⟨next', more', hadmits, if_pos hadmits⟩)
  · exact .inr (.inr (if_neg hadmits))

private theorem decodeByte_high {d : Decoding} (hd : d.High) (b : UInt8) :
    (decodeByte d b).2.High := by
  cases d with
  | fresh => exact decodeLead_state_high b
  | inside begun next more =>
    obtain ⟨-, heq⟩ | ⟨next', more', hadmits, heq⟩ | heq := decodeByte_inside begun next more b
    · rw [heq]
      trivial
    · rw [heq]
      refine ⟨by simp, fun c hc => ?_⟩
      rcases List.mem_append.mp hc with hc | hc
      · exact hd.2 c hc
      · obtain rfl := List.mem_singleton.mp hc
        exact Follow.high_of_admits hadmits
    · rw [heq]
      exact decodeLead_state_high b

/-- An ASCII byte ends whatever went before it. -/
private theorem fromUtf8LossyFrom_append (d : Decoding) (before : List UInt8) {c : UInt8}
    (hc : c < 0x80) (after : List UInt8) :
    fromUtf8LossyFrom d (before ++ c :: after) =
      fromUtf8LossyFrom d before ++ c :: fromUtf8Lossy after := by
  induction before generalizing d with
  | nil =>
    cases d with
    | fresh => simp [fromUtf8LossyFrom, decodeByte, decodeLead_ascii hc, fromUtf8Lossy]
    | inside begun next more =>
      have hnot : next.admits c = false := by
        by_contra h
        exact absurd (Follow.high_of_admits (by simpa using h)) (UInt8.not_le.mpr hc)
      simp [fromUtf8LossyFrom, decodeByte, decodeLead_ascii hc, hnot, fromUtf8Lossy]
  | cons b before ih => simp [fromUtf8LossyFrom, ih]

/-- Every ASCII byte that comes out went in. -/
private theorem mem_of_mem_fromUtf8LossyFrom {d : Decoding} (hd : d.High) {bytes : List UInt8}
    {c : UInt8} (hc : c < 0x80) (h : c ∈ fromUtf8LossyFrom d bytes) : c ∈ bytes := by
  induction bytes generalizing d with
  | nil =>
    cases d with
    | fresh => exact h
    | inside begun next more => exact absurd (high_of_replacement h) (UInt8.not_le.mpr hc)
  | cons b bytes ih =>
    have hlead : c ∈ (decodeLead b).1 → c = b := fun hmem => by
      by_cases hb : b < 0x80
      · rw [decodeLead_ascii hb] at hmem
        exact List.mem_singleton.mp hmem
      · exact absurd (decodeLead_out_high hb hmem) (UInt8.not_le.mpr hc)
    have hbyte : c ∈ (decodeByte d b).1 → c = b := fun hmem => by
      cases d with
      | fresh => exact hlead hmem
      | inside begun next more =>
        obtain ⟨-, heq⟩ | ⟨_, _, -, heq⟩ | heq := decodeByte_inside begun next more b <;>
          rw [heq] at hmem
        · rcases List.mem_append.mp hmem with hmem | hmem
          · exact absurd (hd.2 c hmem) (UInt8.not_le.mpr hc)
          · exact List.mem_singleton.mp hmem
        · cases hmem
        · rcases List.mem_append.mp hmem with hmem | hmem
          · exact absurd (high_of_replacement hmem) (UInt8.not_le.mpr hc)
          · exact hlead hmem
    simp only [fromUtf8LossyFrom, List.mem_append] at h
    rcases h with h | h
    · exact List.mem_cons.mpr (.inl (hbyte h))
    · exact List.mem_cons_of_mem _ (ih (decodeByte_high hd b) h)

private theorem mem_of_mem_fromUtf8Lossy {bytes : List UInt8} {c : UInt8} (hc : c < 0x80)
    (h : c ∈ fromUtf8Lossy bytes) : c ∈ bytes :=
  mem_of_mem_fromUtf8LossyFrom (d := .fresh) trivial hc h

/-- Inside a character, the first byte to come out is not ASCII. -/
private theorem fromUtf8LossyFrom_inside {begun : List UInt8} {next : Follow}
    {more : List Follow} (hd : (Decoding.inside begun next more).High) (bytes : List UInt8) :
    ∃ c rest, fromUtf8LossyFrom (.inside begun next more) bytes = c :: rest ∧ 0x80 ≤ c := by
  induction bytes generalizing begun next more with
  | nil => exact ⟨0xef, _, rfl, by decide⟩
  | cons b bytes ih =>
    have hnext := decodeByte_high hd b
    rw [fromUtf8LossyFrom]
    obtain ⟨-, heq⟩ | ⟨next', more', -, heq⟩ | heq := decodeByte_inside begun next more b
    · obtain ⟨c, begun', rfl⟩ := List.exists_cons_of_ne_nil hd.1
      rw [heq]
      exact ⟨c, _, rfl, hd.2 c List.mem_cons_self⟩
    · rw [heq] at hnext ⊢
      simpa using ih hnext
    · rw [heq]
      exact ⟨0xef, _, rfl, by decide⟩

/-- A byte that is not ASCII puts out, sooner or later, one that is not. -/
private theorem fromUtf8Lossy_cons_high {b : UInt8} (hb : ¬ b < 0x80) (bytes : List UInt8) :
    ∃ c rest, fromUtf8Lossy (b :: bytes) = c :: rest ∧ 0x80 ≤ c := by
  have hstate := decodeLead_state_high b
  obtain ⟨next, more, heq⟩ | heq := decodeLead_high hb
  · rw [heq] at hstate
    obtain ⟨c, rest, hout, hc⟩ := fromUtf8LossyFrom_inside hstate bytes
    exact ⟨c, rest, by simp [fromUtf8Lossy, fromUtf8LossyFrom, decodeByte, heq, hout], hc⟩
  · exact ⟨0xef, _, by simp [fromUtf8Lossy, fromUtf8LossyFrom, decodeByte, heq, replacement]; rfl,
      by decide⟩

private theorem fromUtf8Lossy_cons_ascii {b : UInt8} (hb : b < 0x80) (bytes : List UInt8) :
    fromUtf8Lossy (b :: bytes) = b :: fromUtf8Lossy bytes := by
  simp [fromUtf8Lossy, fromUtf8LossyFrom, decodeByte, decodeLead_ascii hb]

/-- What comes out beginning with an ASCII byte went in beginning with it. -/
private theorem eq_of_fromUtf8Lossy_cons {bytes rest : List UInt8} {c : UInt8} (hc : c < 0x80)
    (h : fromUtf8Lossy bytes = c :: rest) :
    ∃ bytes', bytes = c :: bytes' ∧ fromUtf8Lossy bytes' = rest := by
  cases bytes with
  | nil => cases h
  | cons b bytes =>
    by_cases hb : b < 0x80
    · rw [fromUtf8Lossy_cons_ascii hb] at h
      obtain ⟨rfl, hrest⟩ := List.cons.inj h
      exact ⟨bytes, rfl, hrest⟩
    · obtain ⟨c', rest', hout, hc'⟩ := fromUtf8Lossy_cons_high hb bytes
      obtain ⟨rfl, -⟩ := List.cons.inj (hout.symm.trans h)
      exact absurd hc' (UInt8.not_le.mpr hc)

private theorem fromUtf8Lossy_eq_nil {bytes : List UInt8} (h : fromUtf8Lossy bytes = []) :
    bytes = [] := by
  cases bytes with
  | nil => rfl
  | cons b bytes =>
    by_cases hb : b < 0x80
    · rw [fromUtf8Lossy_cons_ascii hb] at h
      cases h
    · obtain ⟨c, rest, hout, -⟩ := fromUtf8Lossy_cons_high hb bytes
      cases hout.symm.trans h

/-- A component that the folder loops accept: it is not empty and not `..`, and has no
separator of either platform in it. -/
def Plain (name : Name) : Prop := name ≠ [] ∧ name ≠ parentDir ∧ 47 ∉ name ∧ 92 ∉ name

@[simp] theorem joined_nil : joined [] = [] := rfl

@[simp] theorem joined_singleton (name : Name) : joined [name] = name := by simp [joined]

@[simp] theorem joined_cons_cons (name next : Name) (names : List Name) :
    joined (name :: next :: names) = name ++ 47 :: joined (next :: names) := by
  simp [joined]

/-- Joining plain components leaves nothing out. -/
theorem joined_eq_nil {names : List Name} (hplain : ∀ name ∈ names, Plain name)
    (h : joined names = []) : names = [] := by
  match names with
  | [] => rfl
  | [name] => exact absurd (by simpa using h) (hplain name List.mem_cons_self).1
  | name :: next :: names => simp at h

/-- One more component follows a separator, unless it is the first. -/
theorem joined_concat {names : List Name} (hplain : ∀ name ∈ names, Plain name) (name : Name) :
    (if joined names = [] then name else joined names ++ 47 :: name) =
      joined (names ++ [name]) := by
  induction names with
  | nil => simp
  | cons first names ih =>
    have hne : joined (first :: names) ≠ [] := fun h => by
      cases joined_eq_nil hplain h
    rw [if_neg hne]
    cases names with
    | nil => simp
    | cons next names =>
      have hrest : ∀ name ∈ next :: names, Plain name := fun name' hmem =>
        hplain name' (List.mem_cons_of_mem _ hmem)
      have htail := ih hrest
      rw [if_neg fun h => by cases joined_eq_nil hrest h] at htail
      simp only [joined_cons_cons, List.cons_append, List.append_assoc] at htail ⊢
      rw [htail]

/-- The conversion of a joined path converts its components. -/
theorem osFromBytes_joined (p : Platform) (names : List Name) :
    osFromBytes p (joined names) = joined (names.map (osFromBytes p)) := by
  cases p with
  | unix => simp [osFromBytes, show (fun name : Name => osFromBytes .unix name) = id from rfl]
  | windows =>
    induction names with
    | nil => rfl
    | cons name names ih =>
      cases names with
      | nil => simp
      | cons next names =>
        have hcut : fromUtf8Lossy (name ++ 47 :: joined (next :: names)) =
            fromUtf8Lossy name ++ 47 :: fromUtf8Lossy (joined (next :: names)) :=
          fromUtf8LossyFrom_append .fresh name (by decide) _
        simp only [osFromBytes, List.map_cons] at ih ⊢
        rw [joined_cons_cons, hcut, ih, joined_cons_cons]

/-- The conversion takes no byte for a separator and leaves none out. -/
theorem Plain.osFromBytes {name : Name} (h : Plain name) (p : Platform) :
    Plain (osFromBytes p name) := by
  obtain ⟨hne, hup, hslash, hback⟩ := h
  cases p with
  | unix => exact ⟨hne, hup, hslash, hback⟩
  | windows =>
    refine ⟨fun hnil => hne (fromUtf8Lossy_eq_nil hnil), fun hdots => hup ?_,
      fun hmem => hslash (mem_of_mem_fromUtf8Lossy (by decide) hmem),
      fun hmem => hback (mem_of_mem_fromUtf8Lossy (by decide) hmem)⟩
    obtain ⟨name, rfl, hone⟩ := eq_of_fromUtf8Lossy_cons (c := 46) (by decide) hdots
    obtain ⟨name, rfl, hnone⟩ := eq_of_fromUtf8Lossy_cons (c := 46) (by decide) hone
    rw [fromUtf8Lossy_eq_nil hnone]
    rfl

theorem Plain.not_sep {name : Name} (h : Plain name) (p : Platform) :
    ∀ b ∈ name, p.isSep b = false := by
  intro b hb
  have hslash : b ≠ 47 := fun heq => h.2.2.1 (heq ▸ hb)
  have hback : b ≠ 92 := fun heq => h.2.2.2 (heq ▸ hb)
  cases p <;> simp [Platform.isSep, hslash, hback]

private theorem splitOnP_joined (p : Platform) {names : List Name} (hne : names ≠ [])
    (hplain : ∀ name ∈ names, Plain name) : (joined names).splitOnP p.isSep = names := by
  have hslash : p.isSep 47 = true := by cases p <;> rfl
  induction names with
  | nil => exact absurd rfl hne
  | cons name names ih =>
    have hname := (hplain name List.mem_cons_self).not_sep p
    cases names with
    | nil =>
      rw [joined_singleton]
      exact List.splitOnP_eq_singleton hname
    | cons next names =>
      rw [joined_cons_cons, List.splitOnP_append_cons_of_forall_mem hname 47 hslash,
        ih (by simp) fun name hmem => hplain name (List.mem_cons_of_mem _ hmem)]

private theorem joined_head (names : List Name) (hplain : ∀ name ∈ names, Plain name)
    (p : Platform) : (joined names).head?.any p.isSep = false := by
  match names with
  | [] => rfl
  | name :: names =>
    have hname := hplain name List.mem_cons_self
    obtain ⟨b, rest, rfl⟩ := List.exists_cons_of_ne_nil hname.1
    have hb := hname.not_sep p b List.mem_cons_self
    cases names <;> simpa using hb

/-- A drive in what the platform makes of a path is a drive in the path. -/
theorem isDrivePrefix_osFromBytes {p : Platform} {bytes : List UInt8}
    (h : isDrivePrefix (osFromBytes p bytes) = true) : isDrivePrefix bytes = true := by
  cases p with
  | unix => exact h
  | windows =>
    change isDrivePrefix (fromUtf8Lossy bytes) = true at h
    rcases hout : fromUtf8Lossy bytes with _ | ⟨c, _ | ⟨d, rest⟩⟩ <;> rw [hout] at h
    · cases h
    · cases h
    · by_cases hd : d = 58
      · subst hd
        have hc : c < 0x80 := by
          simp only [isDrivePrefix, Bool.or_eq_true, Bool.and_eq_true, decide_eq_true_eq] at h
          rcases h with ⟨-, hle⟩ | ⟨-, hle⟩
          · exact UInt8.lt_of_le_of_lt hle (by decide)
          · exact UInt8.lt_of_le_of_lt hle (by decide)
        obtain ⟨bytes, rfl, hrest⟩ := eq_of_fromUtf8Lossy_cons hc hout
        obtain ⟨bytes, rfl, -⟩ := eq_of_fromUtf8Lossy_cons (c := 58) (by decide) hrest
        exact h
      · simp [isDrivePrefix, hd] at h

/-- Plain components, joined and taken for a path of the platform, append to the base,
unless the platform takes their beginning for a drive. -/
theorem join_below (base : PathBuf) (p : Platform) {names : List Name} (hne : names ≠ [])
    (hplain : ∀ name ∈ names, Plain name)
    (hdrive : p = .windows → isDrivePrefix (joined names) = false) :
    base.Below (base.join (.parse p (osFromBytes p (joined names)))) := by
  have hparse : PathBuf.parse p (osFromBytes p (joined names)) =
      .parseAfter p [] (osFromBytes p (joined names)) := by
    refine if_neg ?_
    rintro ⟨hwindows, hletter⟩
    rw [isDrivePrefix_osFromBytes hletter] at hdrive
    cases hdrive hwindows
  have hplain' : ∀ name ∈ names.map (osFromBytes p), Plain name := by
    intro converted hmem
    obtain ⟨name, hname, rfl⟩ := List.mem_map.mp hmem
    exact (hplain name hname).osFromBytes p
  rw [hparse, osFromBytes_joined, PathBuf.parseAfter, joined_head _ hplain',
    splitOnP_joined p (by simpa using hne) hplain']
  refine ⟨rfl, rfl, (names.map (osFromBytes p)).filter (· ≠ curDir), ?_, ?_⟩
  · intro hmem
    exact (hplain' _ (List.mem_filter.mp hmem).1).2.1 rfl
  · have hall : (names.map (osFromBytes p)).filter (· ≠ []) = names.map (osFromBytes p) :=
      List.filter_eq_self.mpr fun name hmem => by simpa using (hplain' name hmem).1
    simp only [PathBuf.join, PathBuf.core, ne_eq, not_true_eq_false, if_false, Bool.false_eq_true]
    rw [List.filter_append]
    congr 2

end Gtkhx.Htxf
