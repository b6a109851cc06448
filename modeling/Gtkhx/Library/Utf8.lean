import Mathlib.Algebra.Group.Nat.Defs
import Mathlib.Data.List.Basic
import Mathlib.Data.List.DropRight
import Mathlib.Data.List.Infix

/-!
# UTF-8

Characters as bytes, and bytes as characters where those that are no character are replaced. What
was encoded is read back, and a line feed among the bytes is one among the characters, so that the
lines of a file can be decoded one by one.
-/

namespace Utf8

/-- The bytes of a text. -/
def encode (s : List Char) : List UInt8 := s.flatMap String.utf8EncodeChar

/-- U+FFFD, which stands for bytes that are no character. -/
def replacement : Char := Char.ofNat 0xfffd

/-- Where the decoding stands. -/
inductive Decoding where
  /-- Between characters. -/
  | fresh
  /-- Inside one: what its bytes make so far, the range of the next one, and how many follow it. -/
  | inside (value low high more : ℕ)
  deriving DecidableEq, Repr

/-- The first byte of a character: what it puts out, and where it leaves the decoding. -/
def decodeLead (b : ℕ) : List Char × Decoding :=
  if b < 0x80 then ([Char.ofNat b], .fresh)
  else if 0xc2 ≤ b ∧ b ≤ 0xdf then ([], .inside (b - 0xc0) 0x80 0xbf 0)
  else if 0xe0 ≤ b ∧ b ≤ 0xef then
    ([], .inside (b - 0xe0) (if b = 0xe0 then 0xa0 else 0x80) (if b = 0xed then 0x9f else 0xbf) 1)
  else if 0xf0 ≤ b ∧ b ≤ 0xf4 then
    ([], .inside (b - 0xf0) (if b = 0xf0 then 0x90 else 0x80) (if b = 0xf4 then 0x8f else 0xbf) 2)
  else ([replacement], .fresh)

/-- One byte. If it cannot go on a character, that one is replaced, and it begins the next. -/
def decodeByte : Decoding → ℕ → List Char × Decoding
  | .fresh, b => decodeLead b
  | .inside value low high more, b =>
    if low ≤ b ∧ b ≤ high then
      match more with
      | 0 => ([Char.ofNat (value * 64 + (b - 0x80))], .fresh)
      | more + 1 => ([], .inside (value * 64 + (b - 0x80)) 0x80 0xbf more)
    else (replacement :: (decodeLead b).1, (decodeLead b).2)

/-- The characters of bytes, from where the decoding stands. -/
def decodeFrom : Decoding → List UInt8 → List Char
  | .fresh, [] => []
  | .inside _ _ _ _, [] => [replacement]
  | d, b :: rest => (decodeByte d b.toNat).1 ++ decodeFrom (decodeByte d b.toNat).2 rest

/-- The characters of bytes. -/
def decode (bytes : List UInt8) : List Char := decodeFrom .fresh bytes

section Encoded

theorem encode_append (s t : List Char) : encode (s ++ t) = encode s ++ encode t :=
  List.flatMap_append

theorem encode_cons (c : Char) (s : List Char) :
    encode (c :: s) = String.utf8EncodeChar c ++ encode s := rfl

private theorem toNat_of_lt {n : ℕ} (h : n < 256) : (UInt8.ofNat n).toNat = n := by
  rw [UInt8.toNat_ofNat']
  exact Nat.mod_eq_of_lt h

private theorem decodeFrom_cons (d : Decoding) (b : UInt8) (rest : List UInt8) :
    decodeFrom d (b :: rest) =
      (decodeByte d b.toNat).1 ++ decodeFrom (decodeByte d b.toNat).2 rest := by
  cases d <;> rfl

private theorem decodeFrom_more {value low high more n : ℕ} (hbyte : n < 256)
    (hrange : low ≤ n ∧ n ≤ high)
    (rest : List UInt8) :
    decodeFrom (.inside value low high (more + 1)) (UInt8.ofNat n :: rest) =
      decodeFrom (.inside (value * 64 + (n - 0x80)) 0x80 0xbf more) rest := by
  rw [decodeFrom_cons, toNat_of_lt hbyte, decodeByte, if_pos hrange]
  rfl

private theorem decodeFrom_last {value low high n : ℕ} (hbyte : n < 256)
    (hrange : low ≤ n ∧ n ≤ high) (rest : List UInt8) :
    decodeFrom (.inside value low high 0) (UInt8.ofNat n :: rest) =
      Char.ofNat (value * 64 + (n - 0x80)) :: decodeFrom .fresh rest := by
  rw [decodeFrom_cons, toNat_of_lt hbyte, decodeByte, if_pos hrange]
  rfl

/-- A character is read back from its bytes. -/
theorem decode_encodeChar (c : Char) (rest : List UInt8) :
    decode (String.utf8EncodeChar c ++ rest) = c :: decode rest := by
  have hvalid : c.toNat < 0xd800 ∨ 0xdfff < c.toNat ∧ c.toNat < 0x110000 := c.valid
  have hvalue : c.val.toNat = c.toNat := rfl
  have hchar (n : ℕ) (hn : n = c.toNat) : Char.ofNat n = c := by
    rw [hn, Char.ofNat_toNat]
  unfold String.utf8EncodeChar
  simp only [hvalue]
  generalize c.toNat = v at hvalid hchar
  unfold decode
  split_ifs with hone htwo hthree
  · have hlead : decodeLead v = ([Char.ofNat v], .fresh) := if_pos (by omega)
    rw [List.cons_append, decodeFrom_cons, toNat_of_lt (by omega), decodeByte, hlead, hchar v rfl]
    rfl
  · have hlead : decodeLead (v / 64 % 32 + 192) =
        ([], .inside (v / 64 % 32 + 192 - 0xc0) 0x80 0xbf 0) := by
      rw [decodeLead, if_neg (by omega), if_pos (by omega)]
    rw [List.cons_append, decodeFrom_cons, toNat_of_lt (by omega), decodeByte, hlead,
      List.nil_append, List.cons_append, decodeFrom_last (by omega) (by omega)]
    rw [hchar _ (by omega)]
    rfl
  · have hlead : decodeLead (v / 4096 % 16 + 224) =
        ([], .inside (v / 4096 % 16 + 224 - 0xe0)
          (if v / 4096 % 16 + 224 = 0xe0 then 0xa0 else 0x80)
          (if v / 4096 % 16 + 224 = 0xed then 0x9f else 0xbf) 1) := by
      rw [decodeLead, if_neg (by omega), if_neg (by omega), if_pos (by omega)]
    have hrange : (if v / 4096 % 16 + 224 = 0xe0 then 0xa0 else 0x80) ≤ v / 64 % 64 + 128 ∧
        v / 64 % 64 + 128 ≤ if v / 4096 % 16 + 224 = 0xed then 0x9f else 0xbf := by
      split_ifs <;> omega
    rw [List.cons_append, decodeFrom_cons, toNat_of_lt (by omega), decodeByte, hlead,
      List.nil_append, List.cons_append, decodeFrom_more (by omega) hrange,
      List.cons_append, decodeFrom_last (by omega) (by omega)]
    rw [hchar _ (by omega)]
    rfl
  · have hlead : decodeLead (v / 262144 % 8 + 240) =
        ([], .inside (v / 262144 % 8 + 240 - 0xf0)
          (if v / 262144 % 8 + 240 = 0xf0 then 0x90 else 0x80)
          (if v / 262144 % 8 + 240 = 0xf4 then 0x8f else 0xbf) 2) := by
      rw [decodeLead, if_neg (by omega), if_neg (by omega), if_neg (by omega), if_pos (by omega)]
    have hrange : (if v / 262144 % 8 + 240 = 0xf0 then 0x90 else 0x80) ≤ v / 4096 % 64 + 128 ∧
        v / 4096 % 64 + 128 ≤ if v / 262144 % 8 + 240 = 0xf4 then 0x8f else 0xbf := by
      split_ifs <;> omega
    rw [List.cons_append, decodeFrom_cons, toNat_of_lt (by omega), decodeByte, hlead,
      List.nil_append, List.cons_append, decodeFrom_more (by omega) hrange,
      List.cons_append, decodeFrom_more (by omega) (by omega),
      List.cons_append, decodeFrom_last (by omega) (by omega)]
    rw [hchar _ (by omega)]
    rfl

/-- What was encoded is read back. -/
theorem decode_encode (s : List Char) : decode (encode s) = s := by
  induction s with
  | nil => rfl
  | cons c s ih => rw [encode_cons, decode_encodeChar, ih]

/-- An ASCII byte is the character it comes of. -/
theorem mem_of_mem_encode {s : List Char} {b : UInt8} (hascii : b.toNat < 0x80)
    (h : b ∈ encode s) : Char.ofNat b.toNat ∈ s := by
  obtain ⟨c, hc, hmem⟩ := List.mem_flatMap.mp h
  have hhigh : ∀ n, 0x80 ≤ n % 256 → b ≠ UInt8.ofNat n := by
    rintro n hn rfl
    rw [UInt8.toNat_ofNat'] at hascii
    omega
  have hvalue : c.toNat = b.toNat := by
    have hval : c.val.toNat = c.toNat := rfl
    simp only [String.utf8EncodeChar, hval] at hmem
    split_ifs at hmem with hone <;> simp only [List.mem_cons, List.not_mem_nil, or_false] at hmem
    · rw [hmem, UInt8.toNat_ofNat']
      omega
    · rcases hmem with hmem | hmem <;> exact absurd hmem (hhigh _ (by omega))
    · rcases hmem with hmem | hmem | hmem <;> exact absurd hmem (hhigh _ (by omega))
    · rcases hmem with hmem | hmem | hmem | hmem <;> exact absurd hmem (hhigh _ (by omega))
  rwa [← hvalue, Char.ofNat_toNat]

end Encoded

section Lines

/-- Inside a character the next byte is not ASCII, and neither is what it makes. -/
def Decoding.High : Decoding → Prop
  | .fresh => True
  | .inside value low _ more => 0x80 ≤ low ∧ 0x80 ≤ (value * 64 + (low - 0x80)) * 64 ^ more

theorem Decoding.high_fresh : Decoding.fresh.High := trivial

private theorem decodeLead_ascii {b : ℕ} (h : b < 0x80) :
    decodeLead b = ([Char.ofNat b], .fresh) :=
  if_pos h

/-- A byte is a character, begins one, or is none. -/
theorem decodeLead_cases (b : ℕ) :
    b < 0x80 ∧ decodeLead b = ([Char.ofNat b], .fresh) ∨
    (∃ value low high more, decodeLead b = ([], .inside value low high more)) ∨
    decodeLead b = ([replacement], .fresh) := by
  by_cases hascii : b < 0x80
  · exact Or.inl ⟨hascii, if_pos hascii⟩
  · right
    rw [decodeLead, if_neg hascii]
    by_cases htwo : 0xc2 ≤ b ∧ b ≤ 0xdf
    · exact Or.inl ⟨_, _, _, _, if_pos htwo⟩
    · rw [if_neg htwo]
      by_cases hthree : 0xe0 ≤ b ∧ b ≤ 0xef
      · exact Or.inl ⟨_, _, _, _, if_pos hthree⟩
      · rw [if_neg hthree]
        by_cases hfour : 0xf0 ≤ b ∧ b ≤ 0xf4
        · exact Or.inl ⟨_, _, _, _, if_pos hfour⟩
        · exact Or.inr (if_neg hfour)

/-- A byte inside a character breaks it off, ends it or goes on with it. -/
theorem decodeByte_cases (value low high more b : ℕ) :
    decodeByte (.inside value low high more) b =
      (replacement :: (decodeLead b).1, (decodeLead b).2) ∨
    low ≤ b ∧ more = 0 ∧ decodeByte (.inside value low high more) b =
      ([Char.ofNat (value * 64 + (b - 0x80))], .fresh) ∨
    ∃ more', low ≤ b ∧ more = more' + 1 ∧ decodeByte (.inside value low high more) b =
      ([], .inside (value * 64 + (b - 0x80)) 0x80 0xbf more') := by
  by_cases hrange : low ≤ b ∧ b ≤ high
  · right
    cases more with
    | zero => exact Or.inl ⟨hrange.1, rfl, if_pos hrange⟩
    | succ more => exact Or.inr ⟨more, hrange.1, rfl, if_pos hrange⟩
  · exact Or.inl (if_neg hrange)

theorem decodeLead_high (b : ℕ) : (decodeLead b).2.High := by
  unfold decodeLead
  split_ifs <;> simp only [Decoding.High, Nat.pow_zero, Nat.pow_one, Nat.reducePow] <;> omega

theorem decodeByte_high {d : Decoding} (hd : d.High) (b : ℕ) : (decodeByte d b).2.High := by
  cases d with
  | fresh => exact decodeLead_high b
  | inside value low high more =>
    obtain heq | ⟨-, -, heq⟩ | ⟨more', hlow, rfl, heq⟩ :=
      decodeByte_cases value low high more b <;> rw [heq]
    · exact decodeLead_high b
    · trivial
    · refine ⟨Nat.le_refl _, Nat.le_trans hd.2 ?_⟩
      have hle : value * 64 + (low - 0x80) ≤ value * 64 + (b - 0x80) := by omega
      rw [Nat.pow_succ, Nat.mul_comm (64 ^ more'), ← Nat.mul_assoc]
      exact Nat.mul_le_mul_right _ (by omega)

/-- An ASCII byte ends whatever went before it. -/
theorem decodeFrom_append {d : Decoding} (hd : d.High) (before : List UInt8) {b : UInt8}
    (hb : b.toNat < 0x80) (after : List UInt8) :
    decodeFrom d (before ++ b :: after) =
      decodeFrom d before ++ Char.ofNat b.toNat :: decode after := by
  induction before generalizing d with
  | nil =>
    rw [List.nil_append, decodeFrom_cons]
    cases d with
    | fresh =>
      rw [decodeByte, decodeLead_ascii hb]
      rfl
    | inside value low high more =>
      have hbreak : decodeByte (.inside value low high more) b.toNat =
          (replacement :: (decodeLead b.toNat).1, (decodeLead b.toNat).2) :=
        if_neg (by have := hd.1; omega)
      rw [hbreak, decodeLead_ascii hb]
      rfl
  | cons c before ih =>
    rw [List.cons_append, decodeFrom_cons, decodeFrom_cons, ih (decodeByte_high hd c.toNat),
      List.append_assoc]

private theorem ofNat_ne {n m : ℕ} (hn : n ≠ m) (hm : m ≠ 0) (hvalid : m < 0xd800) :
    Char.ofNat n ≠ Char.ofNat m := by
  intro h
  have hleft : (Char.ofNat n).toNat = n ∨ (Char.ofNat n).toNat = 0 := by
    by_cases hvalid : n.isValidChar
    · rw [Char.ofNat, dif_pos hvalid]
      exact Or.inl rfl
    · rw [Char.ofNat, dif_neg hvalid]
      exact Or.inr rfl
  have hright : (Char.ofNat m).toNat = m := by
    rw [Char.ofNat, dif_pos (Or.inl hvalid)]
    rfl
  rw [h, hright] at hleft
  omega

private theorem decodeLead_out {b n : ℕ} (hn : n ≠ 0) (hascii : n < 0x80)
    (h : Char.ofNat n ∈ (decodeLead b).1) : b = n := by
  obtain ⟨-, heq⟩ | ⟨_, _, _, _, heq⟩ | heq := decodeLead_cases b <;> rw [heq] at h
  · by_contra hne
    exact ofNat_ne hne hn (by omega) (List.mem_singleton.mp h).symm
  · exact absurd h List.not_mem_nil
  · exact absurd (List.mem_singleton.mp h).symm (ofNat_ne (by omega) hn (by omega))

private theorem decodeByte_out {d : Decoding} (hd : d.High) {b n : ℕ} (hn : n ≠ 0)
    (hascii : n < 0x80) (h : Char.ofNat n ∈ (decodeByte d b).1) : b = n := by
  cases d with
  | fresh => exact decodeLead_out hn hascii h
  | inside value low high more =>
    obtain heq | ⟨hlow, rfl, heq⟩ | ⟨_, -, -, heq⟩ :=
      decodeByte_cases value low high more b <;> rw [heq] at h
    · rcases List.mem_cons.mp h with h | h
      · exact absurd h.symm (ofNat_ne (by omega) hn (by omega))
      · exact decodeLead_out hn hascii h
    · have hhigh := hd.2
      rw [Nat.pow_zero, Nat.mul_one] at hhigh
      exact absurd (List.mem_singleton.mp h).symm (ofNat_ne (by omega) hn (by omega))
    · exact absurd h List.not_mem_nil

/-- An ASCII character comes of the byte it is. -/
theorem mem_of_mem_decodeFrom {d : Decoding} (hd : d.High) {bytes : List UInt8} {b : UInt8}
    (hne : b.toNat ≠ 0) (hascii : b.toNat < 0x80)
    (h : Char.ofNat b.toNat ∈ decodeFrom d bytes) : b ∈ bytes := by
  induction bytes generalizing d with
  | nil =>
    cases d with
    | fresh => exact absurd h List.not_mem_nil
    | inside value low high more =>
      rw [decodeFrom, List.mem_singleton] at h
      exact absurd h.symm (ofNat_ne (by omega) hne (by omega))
  | cons c bytes ih =>
    rw [decodeFrom_cons] at h
    rcases List.mem_append.mp h with h | h
    · rw [UInt8.toNat_inj.mp (decodeByte_out hd hne hascii h)]
      exact List.mem_cons_self
    · exact List.mem_cons_of_mem _ (ih (decodeByte_high hd c.toNat) h)

/-- Splitting the bytes at an ASCII byte splits the characters at that character. -/
theorem splitOn_decode {b : UInt8} (hne : b.toNat ≠ 0) (hascii : b.toNat < 0x80)
    (bytes : List UInt8) :
    (decode bytes).splitOn (Char.ofNat b.toNat) = (bytes.splitOn b).map decode := by
  induction hlength : bytes.length using Nat.strongRecOn generalizing bytes with
  | ind n ih =>
    by_cases hmem : b ∈ bytes
    · obtain ⟨before, after, rfl, hbefore⟩ := List.eq_append_cons_of_mem hmem
      have hnot : Char.ofNat b.toNat ∉ decode before := fun h =>
        hbefore (mem_of_mem_decodeFrom Decoding.high_fresh hne hascii h)
      have happend : decode (before ++ b :: after) =
          decode before ++ Char.ofNat b.toNat :: decode after :=
        decodeFrom_append Decoding.high_fresh before hascii after
      rw [happend, List.splitOn_append_cons_self_of_not_mem hnot,
        List.splitOn_append_cons_self_of_not_mem hbefore, List.map_cons,
        ih after.length (by rw [← hlength, List.length_append, List.length_cons]; omega) after rfl]
    · have hnot : Char.ofNat b.toNat ∉ decode bytes := fun h =>
        hmem (mem_of_mem_decodeFrom Decoding.high_fresh hne hascii h)
      rw [List.splitOn_eq_singleton hnot, List.splitOn_eq_singleton hmem]
      rfl

private theorem decodeFrom_inside_ne_nil (value low high more : ℕ) (bytes : List UInt8) :
    decodeFrom (.inside value low high more) bytes ≠ [] := by
  induction bytes generalizing value low high more with
  | nil => exact List.cons_ne_nil _ _
  | cons b bytes ih =>
    rw [decodeFrom_cons]
    obtain heq | ⟨-, -, heq⟩ | ⟨_, -, -, heq⟩ :=
      decodeByte_cases value low high more b.toNat <;> rw [heq]
    · exact List.cons_ne_nil _ _
    · exact List.cons_ne_nil _ _
    · exact ih _ _ _ _

/-- Bytes make characters. -/
theorem decode_eq_nil {bytes : List UInt8} : decode bytes = [] ↔ bytes = [] := by
  constructor
  · intro h
    cases bytes with
    | nil => rfl
    | cons b bytes =>
      rw [decode, decodeFrom_cons, decodeByte] at h
      obtain ⟨-, heq⟩ | ⟨_, _, _, _, heq⟩ | heq := decodeLead_cases b.toNat <;> rw [heq] at h
      · exact absurd h (List.cons_ne_nil _ _)
      · exact absurd h (decodeFrom_inside_ne_nil _ _ _ _ _)
      · exact absurd h (List.cons_ne_nil _ _)
  · rintro rfl
    rfl

end Lines

section Valid

variable {s t : List UInt8} {b : UInt8}

/-- Bytes that are those of a text. -/
def Valid (s : List UInt8) : Prop := ∃ text, s = encode text

theorem valid_nil : Valid [] := ⟨[], rfl⟩

theorem Valid.append (hs : Valid s) (ht : Valid t) : Valid (s ++ t) := by
  obtain ⟨left, rfl⟩ := hs
  obtain ⟨right, rfl⟩ := ht
  exact ⟨left ++ right, (encode_append left right).symm⟩

theorem valid_flatMap {α : Type*} {f : α → List UInt8} {xs : List α} (h : ∀ x ∈ xs, Valid (f x)) :
    Valid (xs.flatMap f) := by
  induction xs with
  | nil => exact valid_nil
  | cons x xs ih =>
    rw [List.flatMap_cons]
    exact (h x List.mem_cons_self).append (ih fun y hy => h y (List.mem_cons_of_mem _ hy))

private theorem encodeChar_ascii {c : Char} (hc : c.toNat < 0x80) :
    String.utf8EncodeChar c = [UInt8.ofNat c.toNat] := by
  have hval : c.val.toNat = c.toNat := rfl
  rw [String.utf8EncodeChar, hval, if_pos (by omega)]

theorem Valid.cons (hb : b.toNat < 0x80) (hs : Valid s) : Valid (b :: s) := by
  obtain ⟨text, rfl⟩ := hs
  have hchar : (Char.ofNat b.toNat).toNat = b.toNat := by
    rw [Char.ofNat, dif_pos (Or.inl (by omega))]
    rfl
  refine ⟨Char.ofNat b.toNat :: text, ?_⟩
  rw [encode_cons, encodeChar_ascii (by omega), hchar, UInt8.ofNat_toNat]
  rfl

theorem valid_of_ascii (hs : ∀ b ∈ s, b.toNat < 0x80) : Valid s := by
  induction s with
  | nil => exact valid_nil
  | cons b s ih =>
    exact (ih fun c hc => hs c (List.mem_cons_of_mem _ hc)).cons (hs b List.mem_cons_self)

/-- A text of which all bytes are small is valid, as a test of its bytes. -/
theorem valid_of_all (hs : (s.all fun b => b.toNat < 0x80) = true) : Valid s :=
  valid_of_ascii fun b hb => of_decide_eq_true (List.all_eq_true.mp hs b hb)

/-- No byte of a character but the first is ASCII. -/
theorem encodeChar_tail (c : Char) :
    ∃ b s, String.utf8EncodeChar c = b :: s ∧ (∀ x ∈ s, 0x80 ≤ x.toNat) ∧
      (b.toNat < 0x80 → s = []) := by
  have hhigh : ∀ n, 0x80 ≤ n % 256 → 0x80 ≤ (UInt8.ofNat n).toNat := by
    intro n hn
    rwa [UInt8.toNat_ofNat']
  have hlead : ∀ n, 0x80 ≤ n % 256 → ¬(UInt8.ofNat n).toNat < 0x80 := by
    intro n hn
    have hle := hhigh n hn
    omega
  have hvalid : c.toNat < 0xd800 ∨ 0xdfff < c.toNat ∧ c.toNat < 0x110000 := c.valid
  have hval : c.val.toNat = c.toNat := rfl
  simp only [String.utf8EncodeChar, hval]
  split_ifs with hone htwo hthree
  · exact ⟨_, _, rfl, fun x hx => absurd hx List.not_mem_nil, fun _ => rfl⟩
  · refine ⟨_, _, rfl, ?_, fun h => absurd h (hlead _ (by omega))⟩
    simp only [List.mem_cons, List.not_mem_nil, or_false]
    rintro x rfl
    exact hhigh _ (by omega)
  · refine ⟨_, _, rfl, ?_, fun h => absurd h (hlead _ (by omega))⟩
    simp only [List.mem_cons, List.not_mem_nil, or_false]
    rintro x (rfl | rfl)
    · exact hhigh _ (by omega)
    · exact hhigh _ (by omega)
  · refine ⟨_, _, rfl, ?_, fun h => absurd h (hlead _ (by omega))⟩
    simp only [List.mem_cons, List.not_mem_nil, or_false]
    rintro x (rfl | rfl | rfl)
    · exact hhigh _ (by omega)
    · exact hhigh _ (by omega)
    · exact hhigh _ (by omega)

/-- Bytes of a text are split before an ASCII byte. -/
theorem Valid.split (h : Valid (s ++ t)) (ht : ∀ b ∈ t.head?, b.toNat < 0x80) :
    Valid s ∧ Valid t := by
  obtain ⟨text, heq⟩ := h
  induction text generalizing s with
  | nil =>
    obtain ⟨rfl, rfl⟩ := List.append_eq_nil_iff.mp heq
    exact ⟨valid_nil, valid_nil⟩
  | cons c text ih =>
    cases s with
    | nil => exact ⟨valid_nil, c :: text, heq⟩
    | cons a s =>
      obtain ⟨b, tail, hchar, htail, -⟩ := encodeChar_tail c
      rw [encode_cons, hchar, List.cons_append, List.cons_append] at heq
      obtain ⟨rfl, hrest⟩ := List.cons.inj heq
      rcases List.append_eq_append_iff.mp hrest with ⟨more, hleft, hright⟩ | ⟨more, hleft, hright⟩
      · cases more with
        | nil =>
          rw [List.append_nil] at hleft
          subst hleft
          rw [List.nil_append] at hright
          exact ⟨⟨[c], by rw [encode_cons, hchar]; exact (List.append_nil _).symm⟩, text, hright⟩
        | cons x more =>
          have hlow : x.toNat < 0x80 := ht x (by rw [hright]; rfl)
          have hhigh := htail x (by rw [hleft]; simp)
          omega
      · subst hleft
        obtain ⟨hmore, hrest⟩ := ih hright.symm
        refine ⟨?_, hrest⟩
        obtain ⟨left, rfl⟩ := hmore
        exact ⟨c :: left, by rw [encode_cons, hchar]; rfl⟩

/-- What follows an ASCII byte is a text. -/
theorem Valid.tail (h : Valid (b :: s)) (hb : b.toNat < 0x80) : Valid s := by
  obtain ⟨text, heq⟩ := h
  cases text with
  | nil => cases heq
  | cons c text =>
    obtain ⟨lead, tail, hchar, -, hnone⟩ := encodeChar_tail c
    rw [encode_cons, hchar, List.cons_append] at heq
    obtain ⟨rfl, hrest⟩ := List.cons.inj heq
    rw [hnone hb] at hrest
    exact ⟨text, hrest⟩

theorem Valid.drop (h : Valid (s ++ t)) (hs : ∀ b ∈ s, b.toNat < 0x80) : Valid t := by
  induction s with
  | nil => exact h
  | cons a s ih =>
    exact ih (h.tail (hs a List.mem_cons_self)) fun b hb => hs b (List.mem_cons_of_mem _ hb)

theorem Valid.dropWhile (h : Valid s) {p : UInt8 → Bool} (hp : ∀ b, p b = true → b.toNat < 0x80) :
    Valid (s.dropWhile p) := by
  rw [← List.takeWhile_append_dropWhile (p := p) (l := s)] at h
  exact h.drop fun b hb => hp b (List.mem_takeWhile_imp hb)

theorem Valid.rdropWhile (h : Valid s) {p : UInt8 → Bool}
    (hp : ∀ b, p b = true → b.toNat < 0x80) : Valid (s.rdropWhile p) := by
  induction s using List.reverseRecOn with
  | nil => exact h
  | append_singleton s b ih =>
    rw [List.rdropWhile_concat]
    split_ifs with hb
    · have hascii := hp b hb
      refine ih (h.split ?_).1
      rintro a ha
      obtain rfl := Option.some.inj ha
      exact hascii
    · exact h

theorem Valid.splitOn (h : Valid s) (hb : b.toNat < 0x80) : ∀ part ∈ s.splitOn b, Valid part := by
  induction hlength : s.length using Nat.strongRecOn generalizing s with
  | ind n ih =>
    by_cases hmem : b ∈ s
    · obtain ⟨before, after, rfl, hbefore⟩ := List.eq_append_cons_of_mem hmem
      rw [List.splitOn_append_cons_self_of_not_mem hbefore]
      obtain ⟨hfirst, hrest⟩ := h.split fun a ha => by
        obtain rfl := Option.some.inj ha
        exact hb
      intro part hpart
      rcases List.mem_cons.mp hpart with rfl | hpart
      · exact hfirst
      · refine ih after.length ?_ (hrest.tail hb) rfl part hpart
        rw [← hlength, List.length_append, List.length_cons]
        omega
    · rw [List.splitOn_eq_singleton hmem]
      intro part hpart
      rwa [List.mem_singleton.mp hpart]

end Valid

section Cut

/-- The characters that the first so many bytes make, if no character is cut. -/
def cut (s : List Char) (n : ℕ) : Option (List Char) :=
  s.inits.find? fun start => (encode start).length = n

/-- The greatest number up to this one at which no character is cut. -/
def backOff (s : List Char) : ℕ → ℕ
  | 0 => 0
  | n + 1 => if (cut s (n + 1)).isSome then n + 1 else backOff s n

theorem prefix_of_cut {s start : List Char} {n : ℕ} (h : cut s n = some start) :
    start <+: s ∧ (encode start).length = n := by
  have hlength := List.find?_some h
  exact ⟨(List.mem_inits start s).mp (List.mem_of_find?_eq_some h), of_decide_eq_true hlength⟩

/-- No character is cut there. -/
theorem exists_cut (s : List Char) (n : ℕ) : ∃ start, cut s (backOff s n) = some start := by
  induction n with
  | zero =>
    refine Option.isSome_iff_exists.mp (List.find?_isSome.mpr ⟨[], ?_, rfl⟩)
    exact (List.mem_inits [] s).mpr List.nil_prefix
  | succ n ih =>
    rw [backOff]
    split_ifs with hsome
    · exact Option.isSome_iff_exists.mp hsome
    · exact ih

end Cut

end Utf8
