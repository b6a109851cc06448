import Gtkhx.Library.BigEndian
import Mathlib.Data.List.Basic

/-!
# Remote paths

A remote path is separated by `/`. On the wire a directory travels as a DIR chunk: a
count, and for each component two zero bytes, a length byte and the name. `encodeDir`
cuts a component to what its length byte holds, and drops those the chunk has no room for.
-/

namespace Gtkhx.Requests

/-- A component of a remote path, as the bytes the server knows it by. -/
abbrev Component := List UInt8

/-- The remote path separator. -/
def SEP : UInt8 := 47

/-- The longest name one component can carry. -/
def MAX_COMPONENT : ℕ := 255

/-- `u16::MAX`, the longest data a chunk can have. -/
def MAX_CHUNK : ℕ := 65535

/-- The components of a path: a leading, trailing or doubled separator makes none. -/
def components (path : List UInt8) : List Component := (path.splitOn SEP).filter (· ≠ [])

/-- The loop of `encode_dir`, from the bytes `out` that hold `count` components. -/
def encodeParts : List Component → (out : List UInt8) → (count : ℕ) → List UInt8 × ℕ
  | [], out, count => (out, count)
  | part :: parts, out, count =>
    let name := part.take MAX_COMPONENT
    if MAX_CHUNK < out.length + 3 + name.length then (out, count)
    else encodeParts parts (out ++ [0, 0, UInt8.ofNat name.length] ++ name) (count + 1)

/-- The components that `encode_dir` is to encode. -/
def dirParts (path : List UInt8) (isFile : Bool) : List Component :=
  (if isFile then (path.splitOn SEP).dropLast else path.splitOn SEP).filter (· ≠ [])

/-- `encode_dir`. -/
def encodeDir (path : List UInt8) (isFile : Bool) : List UInt8 :=
  let (out, count) := encodeParts (dirParts path isFile) [0, 0] 0
  BigEndian.ofU16 (.ofNat count) ++ out.drop 2

/-- `basename_offset`: where the last component starts. -/
def basenameOffset (path : List UInt8) : ℕ :=
  match path.reverse.findIdx? (· == SEP) with
  | some back => path.length - back
  | none => 0

/-- `split`: a path without its last component, and that component. -/
def split (path : List UInt8) : List UInt8 × Component :=
  let base := basenameOffset path
  (match base with
    | 0 => path.take 0
    | 1 => path.take 1
    | n + 2 => path.take (n + 1),
   path.drop base)

/-- `below_root`. -/
def belowRoot (dir : List UInt8) : Bool := dir ≠ [] ∧ dir ≠ [SEP]

/-- `count` components off the front of a DIR chunk. -/
def takeComponents : (count : ℕ) → List UInt8 → Option (List Component × List UInt8)
  | 0, rest => some ([], rest)
  | count + 1, 0 :: 0 :: len :: rest =>
    if len.toNat ≤ rest.length then
      (takeComponents count (rest.drop len.toNat)).map fun (parts, rest') =>
        (rest.take len.toNat :: parts, rest')
    else none
  | _ + 1, _ => none

/-- The components of a DIR chunk, as a server reads them. -/
def decodeDir (chunk : List UInt8) : Option (List Component) := do
  let (count, rest) ← BigEndian.takeU16 chunk
  let (parts, rest) ← takeComponents count.toNat rest
  if rest = [] then some parts else none

/-- How a component is framed in a DIR chunk. -/
def framed (name : Component) : List UInt8 := [0, 0, UInt8.ofNat name.length] ++ name

/-- The components that a chunk of `used` bytes has room for, each cut to what its length
byte holds, up to the first there is no room for. -/
def fitting : (used : ℕ) → List Component → List Component
  | _, [] => []
  | used, part :: parts =>
    let name := part.take MAX_COMPONENT
    if MAX_CHUNK < used + 3 + name.length then []
    else name :: fitting (used + 3 + name.length) parts

/-- The components of a directory that its DIR chunk carries. -/
def sent (parts : List Component) : List Component := fitting 2 parts

/-- A DIR chunk carries every component whole. -/
def Fits (parts : List Component) : Prop :=
  (∀ part ∈ parts, part.length ≤ MAX_COMPONENT) ∧
    2 + (parts.map fun part => 3 + part.length).sum ≤ MAX_CHUNK

instance (parts : List Component) : Decidable (Fits parts) := by
  unfold Fits; infer_instance

@[simp] theorem components_nil : components [] = [] := rfl

/-- A separator ends one part of a path and begins another. -/
@[simp] theorem components_append (front rest : List UInt8) :
    components (front ++ SEP :: rest) = components front ++ components rest := by
  rw [components, List.splitOn_append_cons_self, List.filter_append]
  rfl

/-- A path without a separator is a component. -/
theorem components_of_not_mem {name : Component} (hname : SEP ∉ name) :
    components name = if name = [] then [] else [name] := by
  rw [components, List.splitOn_eq_singleton hname]
  by_cases h : name = [] <;> simp [h]

/-- A path is one component, or what is before its last separator and what is after. -/
theorem path_cases (path : List UInt8) :
    SEP ∉ path ∨ ∃ front name, path = front ++ SEP :: name ∧ SEP ∉ name := by
  induction path with
  | nil => exact .inl List.not_mem_nil
  | cons b path ih =>
    rcases ih with hfree | ⟨front, name, rfl, hname⟩
    · by_cases hb : b = SEP
      · exact .inr ⟨[], path, by rw [hb, List.nil_append], hfree⟩
      · exact .inl (by simp [hfree, Ne.symm hb])
    · exact .inr ⟨b :: front, name, rfl, hname⟩

theorem basenameOffset_of_not_mem {path : List UInt8} (h : SEP ∉ path) :
    basenameOffset path = 0 := by
  have hnone : path.reverse.findIdx? (· == SEP) = none := by
    rw [List.findIdx?_eq_none_iff]
    intro b hb
    simp only [beq_eq_false_iff_ne]
    rintro rfl
    exact h (List.mem_reverse.mp hb)
  rw [basenameOffset, hnone]

/-- The last separator is before the name. -/
theorem findIdx?_reverse_append {front name : List UInt8} (h : SEP ∉ name) :
    (front ++ SEP :: name).reverse.findIdx? (· == SEP) = some name.length := by
  rw [List.reverse_append, List.reverse_cons, List.append_assoc, List.findIdx?_append]
  have hnone : name.reverse.findIdx? (· == SEP) = none := by
    rw [List.findIdx?_eq_none_iff]
    intro b hb
    simp only [beq_eq_false_iff_ne]
    rintro rfl
    exact h (List.mem_reverse.mp hb)
  simp [hnone, List.findIdx?_cons]

theorem basenameOffset_append {front name : List UInt8} (h : SEP ∉ name) :
    basenameOffset (front ++ SEP :: name) = front.length + 1 := by
  rw [basenameOffset, findIdx?_reverse_append h]
  simp only [List.length_append, List.length_cons]
  omega

/-- The directory of a path, and its name. -/
theorem split_append {front name : List UInt8} (h : SEP ∉ name) :
    split (front ++ SEP :: name) = (if front = [] then [SEP] else front, name) := by
  rw [split, basenameOffset_append h]
  cases front with
  | nil => rfl
  | cons b front => simp

theorem split_of_not_mem {path : List UInt8} (h : SEP ∉ path) : split path = ([], path) := by
  rw [split, basenameOffset_of_not_mem h]
  rfl

/-- For the path of a file, the DIR chunk is of its directory. -/
theorem dirParts_file (path : List UInt8) : dirParts path true = components (split path).1 := by
  rcases path_cases path with h | ⟨front, name, rfl, h⟩
  · rw [split_of_not_mem h, dirParts, List.splitOn_eq_singleton h]
    rfl
  · rw [split_append h, dirParts, List.splitOn_append_cons_self, List.splitOn_eq_singleton h,
      if_pos rfl, List.dropLast_concat]
    cases front with
    | nil => rfl
    | cons b front => rfl

theorem dirParts_dir (path : List UInt8) : dirParts path false = components path := rfl

/-- The loop writes the components there is room for. -/
theorem encodeParts_eq (parts : List Component) (out : List UInt8) (count : ℕ) :
    encodeParts parts out count = (out ++ (fitting out.length parts).flatMap framed,
      count + (fitting out.length parts).length) := by
  induction parts generalizing out count with
  | nil => simp [encodeParts, fitting]
  | cons part parts ih =>
    simp only [encodeParts, fitting]
    split
    · simp
    · rw [ih]
      have hused : (out ++ [0, 0, UInt8.ofNat (part.take MAX_COMPONENT).length] ++
          part.take MAX_COMPONENT).length = out.length + 3 + (part.take MAX_COMPONENT).length := by
        simp only [List.length_append, List.length_cons, List.length_nil]
      rw [hused]
      simp only [List.flatMap_cons, framed, List.append_assoc, Prod.mk.injEq, true_and,
        List.length_cons]
      omega

theorem fitting_length_le {used : ℕ} (hused : used ≤ MAX_CHUNK) (parts : List Component) :
    used + 3 * (fitting used parts).length ≤ MAX_CHUNK := by
  induction parts generalizing used with
  | nil => simpa [fitting] using hused
  | cons part parts ih =>
    simp only [fitting]
    split
    · simpa using hused
    · rename_i hroom
      have hused' : used + 3 + (part.take MAX_COMPONENT).length ≤ MAX_CHUNK := by omega
      have hrest := ih hused'
      simp only [List.length_cons]
      omega

theorem fitting_component_le {used : ℕ} {parts : List Component} :
    ∀ name ∈ fitting used parts, name.length ≤ MAX_COMPONENT := by
  induction parts generalizing used with
  | nil => simp [fitting]
  | cons part parts ih =>
    simp only [fitting]
    split
    · simp
    · rintro name hname
      rcases List.mem_cons.mp hname with rfl | hname
      · exact List.length_take_le _ _
      · exact ih name hname

/-- Framed components are read back. -/
theorem takeComponents_framed (names : List Component)
    (hnames : ∀ name ∈ names, name.length ≤ MAX_COMPONENT) (rest : List UInt8) :
    takeComponents names.length (names.flatMap framed ++ rest) = some (names, rest) := by
  induction names with
  | nil => rfl
  | cons name names ih =>
    have hlen : (UInt8.ofNat name.length).toNat = name.length := by
      have hle := hnames name List.mem_cons_self
      rw [MAX_COMPONENT] at hle
      rw [UInt8.toNat_ofNat']
      omega
    have hrest := ih fun name hname => hnames name (List.mem_cons_of_mem _ hname)
    simp only [List.flatMap_cons, framed, List.cons_append, List.nil_append, List.append_assoc,
      List.length_cons, takeComponents, hlen, List.length_append, Nat.le_add_right, if_true,
      List.drop_left, List.take_left] at hrest ⊢
    simp [hrest]

/-- A server reads from the DIR chunk of a directory the components there was room for. -/
theorem decodeDir_encodeDir (path : List UInt8) (isFile : Bool) :
    decodeDir (encodeDir path isFile) = some (sent (dirParts path isFile)) := by
  have htwo : 2 ≤ MAX_CHUNK := by decide
  have hlen := fitting_length_le htwo (dirParts path isFile)
  rw [MAX_CHUNK] at hlen
  have hcount : (UInt16.ofNat (fitting 2 (dirParts path isFile)).length).toNat =
      (fitting 2 (dirParts path isFile)).length := by
    rw [UInt16.toNat_ofNat']
    omega
  have hparts := takeComponents_framed (fitting 2 (dirParts path isFile))
    fitting_component_le []
  rw [List.append_nil] at hparts
  have henc : encodeDir path isFile =
      BigEndian.ofU16 (.ofNat (fitting 2 (dirParts path isFile)).length) ++
        (fitting 2 (dirParts path isFile)).flatMap framed := by
    simp [encodeDir, encodeParts_eq]
  rw [henc, decodeDir, BigEndian.takeU16_ofU16_append]
  simp only [Option.bind_eq_bind, Option.bind_some, hcount, hparts, if_true]
  rfl

/-- No DIR chunk is longer than a chunk can be. -/
theorem encodeDir_length (path : List UInt8) (isFile : Bool) :
    (encodeDir path isFile).length ≤ MAX_CHUNK := by
  have hlen : ∀ (parts : List Component) (out : List UInt8) (count : ℕ), out.length ≤ MAX_CHUNK →
      (encodeParts parts out count).1.length ≤ MAX_CHUNK := by
    intro parts
    induction parts with
    | nil => exact fun out count hout => hout
    | cons part parts ih =>
      intro out count hout
      simp only [encodeParts]
      split
      · exact hout
      · rename_i hroom
        refine ih _ _ ?_
        simp only [List.length_append, List.length_cons, List.length_nil]
        omega
  have hout := hlen (dirParts path isFile) [0, 0] 0 (by decide)
  rw [encodeDir]
  rw [MAX_CHUNK] at hout ⊢
  simp only [List.length_append, List.length_drop, BigEndian.ofU16, List.length_cons,
    List.length_nil]
  omega

private theorem fitting_eq_iff (used : ℕ) (parts : List Component) (hused : used ≤ MAX_CHUNK) :
    fitting used parts = parts ↔ (∀ part ∈ parts, part.length ≤ MAX_COMPONENT) ∧
      used + (parts.map fun part => 3 + part.length).sum ≤ MAX_CHUNK := by
  induction parts generalizing used with
  | nil => simpa [fitting] using hused
  | cons part parts ih =>
    have hcut : part.take MAX_COMPONENT = part ↔ part.length ≤ MAX_COMPONENT :=
      ⟨fun h => h ▸ List.length_take_le _ _, List.take_of_length_le⟩
    simp only [fitting, List.forall_mem_cons, List.map_cons, List.sum_cons]
    by_cases hlong : part.length ≤ MAX_COMPONENT
    · rw [hcut.mpr hlong]
      split
      · rename_i hroom
        refine iff_of_false (by simp) ?_
        rintro ⟨-, hsum⟩
        omega
      · rename_i hroom
        rw [List.cons_inj_right, ih _ (by omega)]
        simp only [hlong, true_and, Nat.add_assoc]
    · refine iff_of_false ?_ fun h => hlong h.1.1
      split
      · simp
      · exact fun h => hlong (hcut.mp (List.cons.inj h).1)

/-- A DIR chunk carries a directory whole exactly if every component and all of them fit. -/
theorem sent_eq_iff (parts : List Component) : sent parts = parts ↔ Fits parts :=
  fitting_eq_iff 2 parts (by decide)

end Gtkhx.Requests
