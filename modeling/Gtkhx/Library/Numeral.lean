import Mathlib.Algebra.Group.Int.Defs
import Mathlib.Algebra.Group.Nat.Defs
import Mathlib.Data.Int.Notation
import Mathlib.Data.List.Basic
import Mathlib.Data.List.Induction
import Mathlib.Data.List.TakeWhile

/-!
# Decimal numbers in a text

How the C library reads a number at the start of a text: white space is skipped, one sign may
stand before the digits, and what follows them is left. The text is of characters or of bytes,
whatever has a code.
-/

namespace Numeral

variable {α : Type*} (code : α → ℕ)

/-- White space: tab, line feed, vertical tab, form feed, carriage return, and blank. -/
def isSpace (a : α) : Bool := 9 ≤ code a && code a ≤ 13 || code a == 32

def isDigit (a : α) : Bool := 48 ≤ code a && code a ≤ 57

/-- The number that decimal digits make. -/
def value (s : List α) : ℕ := s.foldl (fun n a => 10 * n + (code a - 48)) 0

/-- What is read of a number: whether it is negative, what its digits make, and what follows. -/
structure Reading (α : Type*) where
  negative : Bool
  magnitude : ℕ
  rest : List α
  deriving DecidableEq

/-- Whether a text begins with a character of this code. -/
def starts (n : ℕ) (s : List α) : Bool := s.head?.any fun a => code a == n

/-- Digits, if there are any. -/
def readDigits (negative : Bool) (s : List α) : Option (Reading α) :=
  if s.takeWhile (isDigit code) = [] then none
  else some ⟨negative, value code (s.takeWhile (isDigit code)), s.dropWhile (isDigit code)⟩

/-- A number with the sign before it. -/
def readSigned (s : List α) : Option (Reading α) :=
  if starts code 45 s then readDigits code true s.tail
  else if starts code 43 s then readDigits code false s.tail
  else readDigits code false s

/-- A number with the white space and the sign before it. -/
def read (s : List α) : Option (Reading α) := readSigned code (s.dropWhile (isSpace code))

/-- `strtoll` in base 10: the value, whether it is out of range, and what follows it. -/
def strtoll (s : List α) : Option (ℤ × Bool × List α) :=
  (read code s).map fun r =>
    let v : ℤ := if r.negative then -r.magnitude else r.magnitude
    if v < -2 ^ 63 then (-2 ^ 63, true, r.rest)
    else if 2 ^ 63 ≤ v then (2 ^ 63 - 1, true, r.rest)
    else (v, false, r.rest)

/-- `strtoul` in base 10: the value, which wraps around when it is negative, and what follows. -/
def strtoul (s : List α) : Option (ℕ × List α) :=
  (read code s).map fun r =>
    if 2 ^ 64 ≤ r.magnitude then (2 ^ 64 - 1, r.rest)
    else if r.negative then ((2 ^ 64 - r.magnitude) % 2 ^ 64, r.rest)
    else (r.magnitude, r.rest)

variable {code}

/-- Digits only are a number. -/
theorem readDigits_of_digits {s : List α} (hne : s ≠ []) (h : ∀ a ∈ s, isDigit code a = true)
    (negative : Bool) : readDigits code negative s = some ⟨negative, value code s, []⟩ := by
  have htake : s.takeWhile (isDigit code) = s := List.takeWhile_eq_self_iff.mpr h
  have hdrop : s.dropWhile (isDigit code) = [] := List.dropWhile_eq_nil_iff.mpr h
  rw [readDigits, htake, hdrop, if_neg hne]

/-- A number that is read to the end is digits only. -/
theorem digits_of_readDigits {s : List α} {negative : Bool} {r : Reading α}
    (h : readDigits code negative s = some r) (hrest : r.rest = []) :
    s ≠ [] ∧ (∀ a ∈ s, isDigit code a = true) ∧ r = ⟨negative, value code s, []⟩ := by
  unfold readDigits at h
  split_ifs at h with hnil
  obtain rfl := Option.some.inj h
  have hdrop : s.dropWhile (isDigit code) = [] := hrest
  have hall : ∀ a ∈ s, isDigit code a = true := List.dropWhile_eq_nil_iff.mp hdrop
  have htake : s.takeWhile (isDigit code) = s := List.takeWhile_eq_self_iff.mpr hall
  rw [htake] at hnil
  refine ⟨hnil, hall, ?_⟩
  rw [htake, hdrop]

theorem not_isSpace_of_isDigit {a : α} (h : isDigit code a = true) : isSpace code a = false := by
  simp only [isDigit, Bool.and_eq_true, decide_eq_true_eq] at h
  simp only [isSpace, Bool.or_eq_false_iff, Bool.and_eq_false_iff, decide_eq_false_iff_not,
    beq_eq_false_iff_ne]
  omega

theorem starts_of_digits {s : List α} (h : ∀ a ∈ s, isDigit code a = true) {n : ℕ}
    (hn : n < 48) : starts code n s = false := by
  cases s with
  | nil => rfl
  | cons a s =>
    have hdigit := h a List.mem_cons_self
    simp only [isDigit, Bool.and_eq_true, decide_eq_true_eq] at hdigit
    simp only [starts, List.head?_cons, Option.any_some, beq_eq_false_iff_ne]
    omega

theorem readSigned_of_digits {s : List α} (hne : s ≠ []) (h : ∀ a ∈ s, isDigit code a = true) :
    readSigned code s = some ⟨false, value code s, []⟩ := by
  rw [readSigned, starts_of_digits h (by omega), starts_of_digits h (by omega),
    if_neg Bool.false_ne_true, if_neg Bool.false_ne_true, readDigits_of_digits hne h]

/-- Plain digits are read to the end. -/
theorem read_of_digits {s : List α} (hne : s ≠ []) (h : ∀ a ∈ s, isDigit code a = true) :
    read code s = some ⟨false, value code s, []⟩ := by
  have hdrop : s.dropWhile (isSpace code) = s := by
    cases s with
    | nil => rfl
    | cons a s =>
      rw [List.dropWhile_cons, not_isSpace_of_isDigit (h a List.mem_cons_self)]
      rfl
  rw [read, hdrop, readSigned_of_digits hne h]

theorem foldl_value (s : List α) (n : ℕ) :
    s.foldl (fun n a => 10 * n + (code a - 48)) n = n * 10 ^ s.length + value code s := by
  induction s generalizing n with
  | nil => simp [value]
  | cons a s ih =>
    rw [value, List.foldl_cons, List.foldl_cons, ih, ih (10 * 0 + (code a - 48)), List.length_cons,
      Nat.pow_succ, Nat.add_mul, Nat.mul_zero, Nat.zero_add]
    rw [Nat.mul_comm 10 n, Nat.mul_assoc, Nat.mul_comm 10, Nat.add_assoc]

theorem value_append (s t : List α) :
    value code (s ++ t) = value code s * 10 ^ t.length + value code t := by
  rw [value, List.foldl_append, foldl_value]
  rfl

theorem value_lt {s : List α} (h : ∀ a ∈ s, isDigit code a = true) :
    value code s < 10 ^ s.length := by
  induction s using List.reverseRecOn with
  | nil => simp [value]
  | append_singleton s a ih =>
    have hbefore := ih fun a ha => h a (List.mem_append_left _ ha)
    have hdigit := h a (List.mem_append_right _ (List.mem_singleton_self a))
    have hlast : value code [a] = code a - 48 := by simp [value]
    simp only [isDigit, Bool.and_eq_true, decide_eq_true_eq] at hdigit
    rw [value_append, List.length_append, List.length_singleton, Nat.pow_one, Nat.pow_succ, hlast]
    omega

theorem magnitude_of_readDigits {s : List α} {negative : Bool} {r : Reading α}
    (h : readDigits code negative s = some r) : r.magnitude < 10 ^ s.length := by
  unfold readDigits at h
  split_ifs at h
  obtain rfl := Option.some.inj h
  have hdigits := value_lt (s := s.takeWhile (isDigit code)) fun a ha =>
    List.mem_takeWhile_imp ha
  exact lt_of_lt_of_le hdigits
    (Nat.pow_le_pow_right (by omega) (List.takeWhile_prefix _).length_le)

/-- A number is no larger than its text has room for. -/
theorem magnitude_lt {s : List α} {r : Reading α} (h : read code s = some r) :
    r.magnitude < 10 ^ s.length := by
  have hdrop : (s.dropWhile (isSpace code)).length ≤ s.length :=
    (List.dropWhile_suffix _).length_le
  have htail : (s.dropWhile (isSpace code)).tail.length ≤ s.length := by
    rw [List.length_tail]
    omega
  unfold read readSigned at h
  split_ifs at h
  · exact lt_of_lt_of_le (magnitude_of_readDigits h) (Nat.pow_le_pow_right (by omega) htail)
  · exact lt_of_lt_of_le (magnitude_of_readDigits h) (Nat.pow_le_pow_right (by omega) htail)
  · exact lt_of_lt_of_le (magnitude_of_readDigits h) (Nat.pow_le_pow_right (by omega) hdrop)

theorem value_of_readDigits {s : List α} {negative negative' : Bool} {m : ℕ}
    (h : readDigits code negative s = some ⟨negative', m, []⟩) :
    s ≠ [] ∧ negative' = negative ∧ m = value code s := by
  obtain ⟨hne, -, heq⟩ := digits_of_readDigits h rfl
  simp only [Reading.mk.injEq] at heq
  exact ⟨hne, heq.1, heq.2.1⟩

/-- What follows a number that is read to the end is read after its digits. -/
theorem read_append {s : List α} {negative : Bool} {m : ℕ}
    (h : read code s = some ⟨negative, m, []⟩) :
    ∃ digits, digits ≠ [] ∧ m = value code digits ∧
      ∀ t, read code (s ++ t) = readDigits code negative (digits ++ t) := by
  have hdrop : s.dropWhile (isSpace code) ≠ [] := by
    intro hnil
    rw [read, hnil] at h
    cases h
  have happend : ∀ t, (s ++ t).dropWhile (isSpace code) = s.dropWhile (isSpace code) ++ t := by
    intro t
    rw [List.dropWhile_append, if_neg]
    rwa [List.isEmpty_iff]
  unfold read at h
  simp only [read, happend]
  cases hd : s.dropWhile (isSpace code) with
  | nil => exact absurd hd hdrop
  | cons a d =>
    rw [hd] at h
    have hstarts : ∀ n t, starts code n (a :: d ++ t) = starts code n (a :: d) := fun _ _ => rfl
    unfold readSigned at h
    simp only [readSigned, hstarts]
    split_ifs at h with hminus hplus
    · obtain ⟨hne, rfl, hm⟩ := value_of_readDigits h
      exact ⟨d, hne, hm, fun t => if_pos hminus⟩
    · obtain ⟨hne, rfl, hm⟩ := value_of_readDigits h
      exact ⟨d, hne, hm, fun t => by rw [if_neg hminus, if_pos hplus]; rfl⟩
    · obtain ⟨hne, rfl, hm⟩ := value_of_readDigits h
      exact ⟨a :: d, hne, hm, fun t => by rw [if_neg hminus, if_neg hplus]⟩

/-- No text that goes on after a number is read as that number. -/
theorem eq_nil_of_read_append {s t : List α} {negative : Bool} {m : ℕ}
    (h : read code s = some ⟨negative, m, []⟩) (hm : 0 < m)
    (ht : read code (s ++ t) = some ⟨negative, m, []⟩) : t = [] := by
  obtain ⟨digits, -, hvalue, happend⟩ := read_append h
  rw [happend] at ht
  obtain ⟨-, -, heq⟩ := value_of_readDigits ht
  rw [value_append, ← hvalue] at heq
  by_contra hne
  obtain ⟨n, hn⟩ := Nat.exists_eq_succ_of_ne_zero (mt List.length_eq_zero_iff.mp hne)
  have hpos : 0 < 10 ^ n := Nat.pow_pos (by omega)
  have hmul : m ≤ m * 10 ^ n := Nat.le_mul_of_pos_right m hpos
  rw [hn, Nat.pow_succ, ← Nat.mul_assoc] at heq
  omega

end Numeral
