import Mathlib.Algebra.Group.Nat.Defs
import Mathlib.Data.List.Basic
import Mathlib.Data.List.Induction

/-!
# Text

Strings as lists of characters, with the functions on them that line-oriented formats are
read and written by: lines, words, decimal numbers and comparison without regard to the
case of ASCII letters.
-/

namespace Text

/-- A line feed. -/
def newline : Char := Char.ofNat 10

/-- A carriage return. -/
def carriageReturn : Char := Char.ofNat 13

/-- The byte of an ASCII character. -/
def byte (c : Char) : UInt8 := UInt8.ofNat c.toNat

/-- The characters with the Unicode property `White_Space`. -/
def isWhitespace (c : Char) : Bool :=
  9 ≤ c.toNat && c.toNat ≤ 13 || c.toNat == 0x20 || c.toNat == 0x85 || c.toNat == 0xA0 ||
    c.toNat == 0x1680 || 0x2000 ≤ c.toNat && c.toNat ≤ 0x200A || c.toNat == 0x2028 ||
    c.toNat == 0x2029 || c.toNat == 0x202F || c.toNat == 0x205F || c.toNat == 0x3000

/-- The words between white space. -/
def splitWhitespace (s : List Char) : List (List Char) :=
  (s.splitOnP isWhitespace).filter (· ≠ [])

/-- A line without the carriage return before its line feed. -/
def stripCr (line : List Char) : List Char :=
  if line.getLast? = some carriageReturn then line.dropLast else line

/-- The lines of a text. What follows the last line feed is a line if it is not empty. -/
def lines (s : List Char) : List (List Char) :=
  let parts := s.splitOn newline
  parts.dropLast.map stripCr ++ parts.getLast?.toList.filter (· ≠ [])

/-- A text of these lines, each ended by a line feed. -/
def unlines (ls : List (List Char)) : List Char := ls.flatMap (· ++ [newline])

/-- Equality up to the case of ASCII letters. -/
def eqIgnoreAsciiCase (a b : List Char) : Bool := a.map Char.toLower = b.map Char.toLower

/-- A 16-bit number in decimal digits, which a plus sign may precede. -/
def parseU16 (s : List Char) : Option ℕ :=
  let digits := if s.head? = some '+' then s.tail else s
  if digits = [] ∨ digits.all Char.isDigit = false then none
  else if Nat.ofDigitChars 10 digits 0 < 2 ^ 16 then some (Nat.ofDigitChars 10 digits 0)
  else none

/-- A 32-bit number, written the same way. -/
def parseU32 (s : List Char) : Option UInt32 :=
  let digits := if s.head? = some '+' then s.tail else s
  if digits = [] ∨ digits.all Char.isDigit = false then none
  else if Nat.ofDigitChars 10 digits 0 < 2 ^ 32 then
    some (UInt32.ofNat (Nat.ofDigitChars 10 digits 0))
  else none

/-- A text without the white space at its ends. -/
def trim (s : List Char) : List Char :=
  ((s.dropWhile isWhitespace).reverse.dropWhile isWhitespace).reverse

/-- The decimal digits of a number. -/
def decimal (n : ℕ) : List Char := Nat.toDigits 10 n

/-- A hexadecimal digit, in either case. -/
def isHexDigit (c : Char) : Bool := c.isDigit || 'a' ≤ c && c ≤ 'f' || 'A' ≤ c && c ≤ 'F'

/-- What a hexadecimal digit counts. -/
def hexValue (c : Char) : ℕ :=
  if c.isDigit then c.toNat - 48 else if 'a' ≤ c then c.toNat - 87 else c.toNat - 55

/-- The number that hexadecimal digits make. -/
def ofHex (s : List Char) : ℕ := s.foldl (fun n c => 16 * n + hexValue c) 0

/-- A number's hexadecimal digits in lower case, with zeros before them up to a width. -/
def paddedHex (width n : ℕ) : List Char :=
  List.replicate (width - (Nat.toDigits 16 n).length) '0' ++ Nat.toDigits 16 n

theorem isDigit_of_mem_decimal {n : ℕ} {c : Char} (h : c ∈ decimal n) : c.isDigit = true :=
  Nat.isDigit_of_mem_toDigits (by decide) (Nat.le_refl 10) h

theorem isDigit_iff (c : Char) : c.isDigit = true ↔ 48 ≤ c.toNat ∧ c.toNat ≤ 57 := by
  simp only [Char.isDigit, Bool.and_eq_true, decide_eq_true_eq, UInt32.le_iff_toNat_le, ge_iff_le]
  rfl

theorem toNat_byte {c : Char} (h : c.isDigit = true) : (byte c).toNat = c.toNat := by
  have hhigh := ((isDigit_iff c).mp h).2
  rw [byte, UInt8.toNat_ofNat']
  exact Nat.mod_eq_of_lt (by omega)

/-- The first digit of a number above zero is not zero. -/
theorem exists_decimal {n : ℕ} (hn : 0 < n) :
    ∃ d s, 0 < d ∧ d < 10 ∧ decimal n = Nat.digitChar d :: s := by
  induction n using Nat.strongRecOn with
  | ind n ih =>
    by_cases hsmall : n < 10
    · exact ⟨n, [], hn, hsmall, Nat.toDigits_of_lt_base hsmall⟩
    · obtain ⟨d, s, hpos, hlt, hdigits⟩ := ih (n / 10) (by omega) (by omega)
      refine ⟨d, s ++ [Nat.digitChar (n % 10)], hpos, hlt, ?_⟩
      rw [decimal] at hdigits
      rw [decimal, Nat.toDigits_of_base_le (by decide) (by omega), hdigits, List.cons_append]

theorem head?_decimal {n : ℕ} (hn : 0 < n) : (decimal n).head? ≠ some '0' := by
  have hdigit : ∀ d < 10, 0 < d → some (Nat.digitChar d) ≠ some '0' := by decide
  obtain ⟨d, s, hpos, hlt, hdecimal⟩ := exists_decimal hn
  rw [hdecimal, List.head?_cons]
  exact hdigit d hlt hpos

theorem digitChar_of_isDigit {c : Char} (h : c.isDigit = true) :
    Nat.digitChar (c.toNat - '0'.toNat) = c := by
  obtain ⟨hlow, hhigh⟩ := (isDigit_iff c).mp h
  have hzero : '0'.toNat = 48 := by decide
  rw [hzero]
  apply Char.toNat_inj.mp
  rw [Nat.toNat_digitChar_of_lt_ten (by omega)]
  omega

/-- Digits with no zero before them are those of their number. -/
theorem decimal_ofDigitChars {s : List Char} (hne : s ≠ []) (hhead : s.head? ≠ some '0')
    (hdigits : ∀ c ∈ s, c.isDigit = true) : decimal (Nat.ofDigitChars 10 s 0) = s := by
  induction s using List.reverseRecOn with
  | nil => exact absurd rfl hne
  | append_singleton s c ih =>
    have hc := hdigits c (by simp)
    have hrange := (isDigit_iff c).mp hc
    have hdigit : c.toNat - '0'.toNat < 10 := by
      have hzero : '0'.toNat = 48 := by decide
      omega
    rw [Nat.ofDigitChars_append, Nat.ofDigitChars_cons, Nat.ofDigitChars_nil]
    by_cases hs : s = []
    · subst hs
      rw [Nat.ofDigitChars_nil, Nat.mul_zero, Nat.zero_add, decimal,
        Nat.toDigits_of_lt_base hdigit, digitChar_of_isDigit hc, List.nil_append]
    · have hbefore : decimal (Nat.ofDigitChars 10 s 0) = s := by
        refine ih hs ?_ fun d hd => hdigits d (List.mem_append_left _ hd)
        rwa [List.head?_append_of_ne_nil _ hs] at hhead
      have hpos : 0 < Nat.ofDigitChars 10 s 0 := by
        by_contra hzero
        rw [Nat.eq_zero_of_not_pos hzero] at hbefore
        rw [List.head?_append_of_ne_nil _ hs, ← hbefore] at hhead
        exact hhead rfl
      rw [decimal] at hbefore
      rw [decimal, ← Nat.toDigits_append_toDigits (by decide) hpos hdigit, hbefore,
        Nat.toDigits_of_lt_base hdigit, digitChar_of_isDigit hc]

/-- A number is read back from its digits. -/
theorem parseU16_decimal {n : ℕ} (h : n < 2 ^ 16) : parseU16 (decimal n) = some n := by
  have hhead : (decimal n).head? ≠ some '+' := by
    intro hplus
    have hdigit := isDigit_of_mem_decimal (List.mem_of_mem_head? hplus)
    revert hdigit
    decide
  have hall : (decimal n).all Char.isDigit = true :=
    List.all_eq_true.mpr fun c hc => isDigit_of_mem_decimal hc
  have hvalue : Nat.ofDigitChars 10 (decimal n) 0 = n := Nat.ofDigitChars_ten_toDigits
  simp only [parseU16, if_neg hhead, hall, hvalue, if_pos h]
  simp [decimal, Nat.toDigits_ne_nil]

/-- A character of ASCII is one byte. -/
theorem utf8ByteSize_ofList {s : List Char} (h : ∀ c ∈ s, c.toNat < 0x80) :
    (String.ofList s).utf8ByteSize = s.length := by
  induction s with
  | nil => rfl
  | cons c s ih =>
    have hsize : c.utf8Size = 1 := by
      have hsmall := h c List.mem_cons_self
      rw [Char.utf8Size, if_pos]
      rw [UInt32.le_iff_toNat_le]
      exact Nat.le_of_lt_succ hsmall
    rw [String.ofList_cons, String.utf8ByteSize_append, String.utf8ByteSize_singleton, hsize,
      ih fun d hd => h d (List.mem_cons_of_mem _ hd), List.length_cons, Nat.add_comm]

theorem hexValue_digitChar {d : ℕ} (h : d < 16) : hexValue d.digitChar = d := by
  have hall : ∀ d < 16, hexValue (Nat.digitChar d) = d := by decide
  exact hall d h

theorem isHexDigit_digitChar {d : ℕ} (h : d < 16) : isHexDigit d.digitChar = true := by
  have hall : ∀ d < 16, isHexDigit (Nat.digitChar d) = true := by decide
  exact hall d h

theorem isHexDigit_of_mem_toDigits {n : ℕ} {c : Char} (h : c ∈ Nat.toDigits 16 n) :
    isHexDigit c = true := by
  induction n using Nat.strongRecOn with
  | ind n ih =>
    by_cases hn : n < 16
    · rw [Nat.toDigits_of_lt_base hn, List.mem_singleton] at h
      exact h ▸ isHexDigit_digitChar hn
    · rw [Nat.toDigits_of_base_le (by decide) (by omega), List.mem_append, List.mem_singleton] at h
      rcases h with h | rfl
      · exact ih (n / 16) (by omega) h
      · exact isHexDigit_digitChar (by omega)

theorem ofHex_concat (s : List Char) (c : Char) : ofHex (s ++ [c]) = 16 * ofHex s + hexValue c := by
  simp [ofHex]

theorem ofHex_toDigits (n : ℕ) : ofHex (Nat.toDigits 16 n) = n := by
  induction n using Nat.strongRecOn with
  | ind n ih =>
    by_cases hn : n < 16
    · rw [Nat.toDigits_of_lt_base hn]
      simp [ofHex, hexValue_digitChar hn]
    · rw [Nat.toDigits_of_base_le (by decide) (by omega), ofHex_concat, ih (n / 16) (by omega),
        hexValue_digitChar (by omega)]
      omega

/-- A number is read back from its hexadecimal digits, zeros before them or not. -/
theorem ofHex_paddedHex (width n : ℕ) : ofHex (paddedHex width n) = n := by
  have hzeros : ∀ k, ofHex (List.replicate k '0' ++ Nat.toDigits 16 n) = n := by
    intro k
    induction k with
    | zero => exact ofHex_toDigits n
    | succ k ih => exact ih
  exact hzeros _

/-- A hexadecimal digit in lower case. -/
def isLowerHex (c : Char) : Bool := c.isDigit || 'a' ≤ c && c ≤ 'f'

theorem isLowerHex_bounds {c : Char} (h : isLowerHex c = true) :
    48 ≤ c.toNat ∧ c.toNat ≤ 57 ∧ hexValue c = c.toNat - 48 ∨
      97 ≤ c.toNat ∧ c.toNat ≤ 102 ∧ hexValue c = c.toNat - 87 := by
  simp only [isLowerHex, Bool.or_eq_true, Bool.and_eq_true, decide_eq_true_eq] at h
  by_cases hdigit : c.isDigit = true
  · left
    have hrange := (isDigit_iff c).mp hdigit
    exact ⟨hrange.1, hrange.2, by rw [hexValue, if_pos hdigit]⟩
  · right
    obtain ⟨hlow, hhigh⟩ := h.resolve_left hdigit
    refine ⟨?_, ?_, by rw [hexValue, if_neg hdigit, if_pos hlow]⟩
    · exact UInt32.le_iff_toNat_le.mp (Char.le_def.mp hlow)
    · exact UInt32.le_iff_toNat_le.mp (Char.le_def.mp hhigh)

theorem isLowerHex_digitChar {d : ℕ} (h : d < 16) : isLowerHex d.digitChar = true := by
  have hall : ∀ d < 16, isLowerHex (Nat.digitChar d) = true := by decide
  exact hall d h

theorem isLowerHex_of_mem_toDigits {n : ℕ} {c : Char} (h : c ∈ Nat.toDigits 16 n) :
    isLowerHex c = true := by
  induction n using Nat.strongRecOn with
  | ind n ih =>
    by_cases hn : n < 16
    · rw [Nat.toDigits_of_lt_base hn, List.mem_singleton] at h
      exact h ▸ isLowerHex_digitChar hn
    · rw [Nat.toDigits_of_base_le (by decide) (by omega), List.mem_append, List.mem_singleton] at h
      rcases h with h | rfl
      · exact ih (n / 16) (by omega) h
      · exact isLowerHex_digitChar (by omega)

theorem isLowerHex_of_mem_paddedHex {width n : ℕ} {c : Char} (h : c ∈ paddedHex width n) :
    isLowerHex c = true := by
  rcases List.mem_append.mp h with h | h
  · rw [List.eq_of_mem_replicate h]
    rfl
  · exact isLowerHex_of_mem_toDigits h

/-- Digits of one number in lower case are the same if they are as many. -/
theorem ofHex_inj {s t : List Char} (hs : ∀ c ∈ s, isLowerHex c = true)
    (ht : ∀ c ∈ t, isLowerHex c = true) (hlength : s.length = t.length)
    (heq : ofHex s = ofHex t) : s = t := by
  induction s using List.reverseRecOn generalizing t with
  | nil => exact (List.eq_nil_of_length_eq_zero hlength.symm).symm
  | append_singleton s c ih =>
    rcases List.eq_nil_or_concat t with rfl | ⟨t, d, rfl⟩
    · simp at hlength
    · rw [List.concat_eq_append] at ht hlength heq ⊢
      have hc := isLowerHex_bounds (hs c (by simp))
      have hd := isLowerHex_bounds (ht d (by simp))
      rw [ofHex_concat, ofHex_concat] at heq
      have hsame : c.toNat = d.toNat := by omega
      have hinit : s = t := by
        refine ih (fun e he => hs e (by simp [he])) (fun e he => ht e (by simp [he])) ?_ (by omega)
        simpa using hlength
      rw [hinit, Char.ext (UInt32.toNat_inj.mp hsame)]

theorem ofHex_lt {s : List Char} (hs : ∀ c ∈ s, isLowerHex c = true) :
    ofHex s < 16 ^ s.length := by
  induction s using List.reverseRecOn with
  | nil => simp [ofHex]
  | append_singleton s c ih =>
    have hc := isLowerHex_bounds (hs c (by simp))
    have hinit := ih fun e he => hs e (by simp [he])
    rw [ofHex_concat, List.length_append, List.length_singleton, Nat.pow_succ]
    omega

/-- A number's digits in lower case are found again, with as many as there were. -/
theorem paddedHex_ofHex {s : List Char} (hne : 0 < s.length)
    (hs : ∀ c ∈ s, isLowerHex c = true) : paddedHex s.length (ofHex s) = s := by
  refine ofHex_inj (fun c hc => isLowerHex_of_mem_paddedHex hc) hs ?_ (ofHex_paddedHex _ _)
  have hlength := (Nat.length_toDigits_le_iff (by decide) hne).mpr (ofHex_lt hs)
  simp only [paddedHex, List.length_append, List.length_replicate]
  omega

theorem length_paddedHex {width n : ℕ} (hwidth : 0 < width) (h : n < 16 ^ width) :
    (paddedHex width n).length = width := by
  have hlength := (Nat.length_toDigits_le_iff (by decide) hwidth).mpr h
  simp only [paddedHex, List.length_append, List.length_replicate]
  omega

theorem isHexDigit_of_mem_paddedHex {width n : ℕ} {c : Char} (h : c ∈ paddedHex width n) :
    isHexDigit c = true := by
  rcases List.mem_append.mp h with h | h
  · rw [List.eq_of_mem_replicate h]
    rfl
  · exact isHexDigit_of_mem_toDigits h

/-- A hexadecimal digit is no white space. -/
theorem isWhitespace_of_isHexDigit {c : Char} (h : isHexDigit c = true) :
    isWhitespace c = false := by
  have hrange : 48 ≤ c.toNat ∧ c.toNat ≤ 102 := by
    simp only [isHexDigit, Char.isDigit, Char.le_def, Bool.or_eq_true, Bool.and_eq_true,
      decide_eq_true_eq, UInt32.le_iff_toNat_le, ge_iff_le] at h
    have hval : c.val.toNat = c.toNat := rfl
    revert h
    simp
    omega
  simp only [isWhitespace, Bool.or_eq_false_iff, Bool.and_eq_false_iff, decide_eq_false_iff_not,
    beq_eq_false_iff_ne]
  omega

/-- A text without white space is not trimmed. -/
theorem trim_eq_self {s : List Char} (h : ∀ c ∈ s, isWhitespace c = false) : trim s = s := by
  have hdrop : ∀ t : List Char, (∀ c ∈ t, isWhitespace c = false) →
      t.dropWhile isWhitespace = t := by
    intro t ht
    cases t with
    | nil => rfl
    | cons c t => simp [ht c List.mem_cons_self]
  rw [trim, hdrop s h, hdrop s.reverse fun c hc => h c (List.mem_reverse.mp hc),
    List.reverse_reverse]

private theorem dropWhile_eq_self {s : List Char} (h : ∀ c ∈ s.head?, isWhitespace c = false) :
    s.dropWhile isWhitespace = s := by
  cases s with
  | nil => rfl
  | cons c s => simp [h c rfl]

private theorem head_dropWhile (s : List Char) :
    ∀ c ∈ (s.dropWhile isWhitespace).head?, isWhitespace c = false := by
  intro c hc
  have hnot := List.head?_dropWhile_not isWhitespace s
  rw [Option.mem_def.mp hc] at hnot
  simpa using hnot

/-- A trimmed text ends in no white space. -/
theorem getLast_trim (s : List Char) : ∀ c ∈ (trim s).getLast?, isWhitespace c = false := by
  rw [trim, List.getLast?_reverse]
  exact head_dropWhile _

/-- And begins with none. -/
theorem head_trim (s : List Char) : ∀ c ∈ (trim s).head?, isWhitespace c = false := by
  intro c hc
  have hprefix : trim s <+: s.dropWhile isWhitespace := by
    rw [trim, ← List.reverse_suffix, List.reverse_reverse]
    exact List.dropWhile_suffix _
  refine head_dropWhile s c ?_
  obtain ⟨rest, hrest⟩ := hprefix
  rw [← hrest, List.head?_append, Option.mem_def.mp hc]
  rfl

/-- A text with no white space at its ends is not trimmed. -/
theorem trim_eq_of_ends {s : List Char} (hhead : ∀ c ∈ s.head?, isWhitespace c = false)
    (hlast : ∀ c ∈ s.getLast?, isWhitespace c = false) : trim s = s := by
  rw [trim, dropWhile_eq_self hhead, dropWhile_eq_self (by rwa [List.head?_reverse]),
    List.reverse_reverse]

theorem trim_trim (s : List Char) : trim (trim s) = trim s :=
  trim_eq_of_ends (head_trim s) (getLast_trim s)

theorem trim_subset (s : List Char) : trim s ⊆ s := by
  intro c hc
  rw [trim, List.mem_reverse] at hc
  exact (List.dropWhile_subset _) (List.mem_reverse.mp ((List.dropWhile_subset _) hc))

theorem eqIgnoreAsciiCase_refl (a : List Char) : eqIgnoreAsciiCase a a = true := by
  simp [eqIgnoreAsciiCase]

theorem eqIgnoreAsciiCase_comm {a b : List Char} (h : eqIgnoreAsciiCase a b = true) :
    eqIgnoreAsciiCase b a = true := by
  simp only [eqIgnoreAsciiCase, decide_eq_true_eq] at h ⊢
  exact h.symm

theorem eqIgnoreAsciiCase_trans {a b c : List Char} (h : eqIgnoreAsciiCase a b = true)
    (h' : eqIgnoreAsciiCase b c = true) : eqIgnoreAsciiCase a c = true := by
  simp only [eqIgnoreAsciiCase, decide_eq_true_eq] at h h' ⊢
  exact h.trans h'

/-- Equal texts are as long. -/
theorem length_of_eqIgnoreAsciiCase {a b : List Char} (h : eqIgnoreAsciiCase a b = true) :
    a.length = b.length := by
  simp only [eqIgnoreAsciiCase, decide_eq_true_eq] at h
  simpa using congrArg List.length h

private theorem toLower_eq_colon {c : Char} (h : c.toLower = ':') : c = ':' := by
  unfold Char.toLower at h
  split at h
  · rename_i hupper
    have hval := congrArg (fun x : Char => x.val.toNat) h
    simp only [UInt32.le_iff_toNat_le, ge_iff_le] at hupper
    simp only [UInt32.toNat_add] at hval
    revert hupper hval
    simp
    omega
  · exact h

/-- A colon has no case. -/
theorem colon_mem_iff {a b : List Char} (h : eqIgnoreAsciiCase a b = true) :
    ':' ∈ a ↔ ':' ∈ b := by
  have hmap : ∀ s : List Char, ':' ∈ s.map Char.toLower ↔ ':' ∈ s := by
    intro s
    constructor
    · intro hmem
      obtain ⟨c, hc, hlower⟩ := List.mem_map.mp hmem
      rwa [← toLower_eq_colon hlower]
    · exact fun hmem => List.mem_map.mpr ⟨':', hmem, rfl⟩
  simp only [eqIgnoreAsciiCase, decide_eq_true_eq] at h
  rw [← hmap a, h, hmap b]

/-- A word is the first of a text that goes on with white space after it. -/
theorem splitWhitespace_append {word : List Char} (hne : word ≠ [])
    (hword : ∀ c ∈ word, isWhitespace c = false) {space : Char} (hspace : isWhitespace space = true)
    (rest : List Char) :
    splitWhitespace (word ++ space :: rest) = word :: splitWhitespace rest := by
  rw [splitWhitespace, List.splitOnP_append_cons_of_forall_mem hword space hspace, List.filter_cons,
    if_pos (by simpa using hne), splitWhitespace]

/-- White space at the end makes no difference to the words. -/
theorem splitWhitespace_concat (s : List Char) {space : Char} (hspace : isWhitespace space = true) :
    splitWhitespace (s ++ [space]) = splitWhitespace s := by
  rw [splitWhitespace, List.splitOnP_append_cons s [] hspace, List.filter_append]
  simp [splitWhitespace]

/-- No part between separators holds one. -/
theorem not_mem_of_mem_splitOn {α : Type*} [BEq α] [LawfulBEq α] {a : α} {s part : List α}
    (h : part ∈ s.splitOn a) : a ∉ part := by
  induction s generalizing part with
  | nil =>
    rw [List.splitOn_nil, List.mem_singleton] at h
    simp [h]
  | cons c s ih =>
    rw [List.splitOn_cons_eq_if_modifyHead] at h
    split at h
    · rcases List.mem_cons.mp h with rfl | h
      · exact List.not_mem_nil
      · exact ih h
    · rename_i hc
      obtain ⟨first, rest, hsplit⟩ := List.exists_cons_of_ne_nil (List.splitOn_ne_nil a s)
      rw [hsplit, List.modifyHead_cons] at h
      rcases List.mem_cons.mp h with rfl | h
      · have hfirst : a ∉ first := ih (by rw [hsplit]; exact List.mem_cons_self)
        simp only [beq_iff_eq] at hc
        simp [hfirst, Ne.symm hc]
      · exact ih (by rw [hsplit]; exact List.mem_cons_of_mem _ h)

theorem stripCr_subset (line : List Char) : stripCr line ⊆ line := by
  unfold stripCr
  split
  · exact (List.dropLast_sublist line).subset
  · exact List.Subset.refl _

/-- A line holds no line feed. -/
theorem newline_not_mem_lines {s line : List Char} (h : line ∈ lines s) : newline ∉ line := by
  rcases List.mem_append.mp h with h | h
  · obtain ⟨part, hpart, rfl⟩ := List.mem_map.mp h
    exact fun hmem => not_mem_of_mem_splitOn (List.dropLast_subset _ hpart)
      (stripCr_subset part hmem)
  · have hlast := List.mem_of_mem_filter h
    rw [Option.mem_toList] at hlast
    exact not_mem_of_mem_splitOn (List.mem_of_getLast? hlast)

/-- Parts that are each ended by a separator are split off. -/
theorem splitOn_unlines {α : Type*} [BEq α] [LawfulBEq α] {a : α} {ls : List (List α)}
    (h : ∀ line ∈ ls, a ∉ line) (rest : List α) :
    (ls.flatMap (· ++ [a]) ++ rest).splitOn a = ls ++ rest.splitOn a := by
  induction ls with
  | nil => rfl
  | cons line ls ih =>
    rw [List.flatMap_cons, List.append_assoc, List.append_assoc, List.singleton_append,
      List.splitOn_append_cons_self_of_not_mem (h line List.mem_cons_self), List.cons_append]
    exact congrArg (line :: ·) (ih fun l hl => h l (List.mem_cons_of_mem _ hl))

/-- The lines that a text begins with are read back, without a carriage return at the end. -/
theorem lines_unlines_append {ls : List (List Char)} (h : ∀ line ∈ ls, newline ∉ line)
    (rest : List Char) : lines (unlines ls ++ rest) = ls.map stripCr ++ lines rest := by
  have hne := List.splitOn_ne_nil newline rest
  rw [lines, lines, unlines, splitOn_unlines h, List.dropLast_append_of_ne_nil hne,
    List.getLast?_append_of_ne_nil _ hne, List.map_append, List.append_assoc]

/-- The lines that a text was made of are read back. -/
theorem lines_unlines {ls : List (List Char)} (h : ∀ line ∈ ls, newline ∉ line) :
    lines (unlines ls) = ls.map stripCr := by
  have hlines := lines_unlines_append h []
  rwa [List.append_nil, show lines [] = [] from rfl, List.append_nil] at hlines

end Text
