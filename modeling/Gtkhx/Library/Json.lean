import Gtkhx.Library.Cursor
import Gtkhx.Library.Runs
import Gtkhx.Library.Text
import Gtkhx.Library.Utf8
import Mathlib.Data.List.Basic

/-!
# JSON

Values, how they are written without white space, and a reader of texts. What is written is read
back. Texts are bytes, and escapes of surrogates are not read.
-/

/-- A value. A number is as it is written. -/
inductive Json where
  | null
  | bool (b : Bool)
  | num (digits : List UInt8)
  | str (s : List UInt8)
  | arr (items : List Json)
  | obj (members : List (List UInt8 × Json))

namespace Json

open Cursor Text

section Written

/-- A hexadecimal digit, in lower case. -/
def hexDigit (d : ℕ) : UInt8 := UInt8.ofNat (if d < 10 then 48 + d else 87 + d)

/-- A byte in a string. -/
def escape (b : UInt8) : List UInt8 :=
  if b = byte '"' ∨ b = byte '\\' then [byte '\\', b]
  else if b.toNat < 0x20 then
    [byte '\\', byte 'u', byte '0', byte '0', hexDigit (b.toNat / 16), hexDigit (b.toNat % 16)]
  else [b]

/-- A string in quotes. -/
def quote (s : List UInt8) : List UInt8 := byte '"' :: (s.flatMap escape ++ [byte '"'])

/-- Texts with commas between them. -/
def commas : List (List UInt8) → List UInt8
  | [] => []
  | [t] => t
  | t :: ts => t ++ byte ',' :: commas ts

/-- A value as it is written. -/
def text : Json → List UInt8
  | null => "null".toList.map byte
  | bool true => "true".toList.map byte
  | bool false => "false".toList.map byte
  | num digits => digits
  | str s => quote s
  | arr items => byte '[' :: (commas (items.map fun j => text j) ++ [byte ']'])
  | obj members =>
    byte '{' :: (commas (members.map fun m => quote m.1 ++ byte ':' :: text m.2) ++ [byte '}'])
decreasing_by
  · simp only [arr.sizeOf_spec]
    have hlt := List.sizeOf_lt_of_mem ‹j ∈ items›
    omega
  · obtain ⟨key, j⟩ := m
    simp only [obj.sizeOf_spec]
    have hlt := List.sizeOf_lt_of_mem ‹(key, j) ∈ members›
    simp only [Prod.mk.sizeOf_spec] at hlt
    omega

end Written

/-- The first member of an object with a key. -/
def member (key : List UInt8) : Json → Option Json
  | obj members => members.lookup key
  | _ => none

section Read

def isSpace (b : UInt8) : Bool := b = 32 || b = 9 || b = 10 || b = 13

def isDigit (b : UInt8) : Bool := byte '0' ≤ b && b ≤ byte '9'

/-- What a number is made of. -/
def isNumberByte (b : UInt8) : Bool :=
  isDigit b || b = byte '-' || b = byte '+' || b = byte '.' || b = byte 'e' || b = byte 'E'

/-- One digit or more, and nothing else. -/
def isDigits (s : List UInt8) : Bool := s ≠ [] && s.all isDigit

/-- Nothing, or an exponent. -/
def isExponent (s : List UInt8) : Bool :=
  match s with
  | [] => true
  | b :: t =>
    (b = byte 'e' || b = byte 'E') &&
      isDigits (if t.head? = some (byte '+') ∨ t.head? = some (byte '-') then t.tail else t)

/-- Digits after a point if there are any, and an exponent if there is one. -/
def isFraction (s : List UInt8) : Bool :=
  if s.head? = some (byte '.') then
    isDigits (s.tail.takeWhile isDigit) && isExponent (s.tail.dropWhile isDigit)
  else isExponent s

/-- Whether a text is a number without its sign. -/
def isUnsigned (s : List UInt8) : Bool :=
  isDigits (s.takeWhile isDigit) &&
    (s.head? ≠ some (byte '0') || (s.takeWhile isDigit).length = 1) &&
      isFraction (s.dropWhile isDigit)

/-- Whether a text is a number. -/
def isNumber (s : List UInt8) : Bool :=
  s ≠ [] && s.all isNumberByte &&
    if s.head? = some (byte '-') then isUnsigned s.tail else isUnsigned s

/-- What a hexadecimal digit is worth. -/
def hexValue (b : UInt8) : Option ℕ :=
  if 48 ≤ b.toNat ∧ b.toNat ≤ 57 then some (b.toNat - 48)
  else if 65 ≤ b.toNat ∧ b.toNat ≤ 70 then some (b.toNat - 55)
  else if 97 ≤ b.toNat ∧ b.toNat ≤ 102 then some (b.toNat - 87)
  else none

/-- The byte after a backslash that stands for another. -/
def unescape (b : UInt8) : Option UInt8 :=
  if b = byte '"' ∨ b = byte '\\' ∨ b = byte '/' then some b
  else if b = byte 'b' then some 8
  else if b = byte 'f' then some 12
  else if b = byte 'n' then some 10
  else if b = byte 'r' then some 13
  else if b = byte 't' then some 9
  else none

/-- The number of four hexadecimal digits, and what follows them. -/
def readHex : List UInt8 → Option (ℕ × List UInt8)
  | a :: b :: c :: d :: rest =>
    (hexValue a).bind fun w => (hexValue b).bind fun x => (hexValue c).bind fun y =>
      (hexValue d).map fun z => (((w * 16 + x) * 16 + y) * 16 + z, rest)
  | _ => none

/-- What one step in a string finds. -/
inductive Piece where
  /-- The quote at its end. -/
  | close
  | bytes (bs : List UInt8)

/-- What a backslash and what follows it stand for. -/
def readEscape : List UInt8 → Option (Piece × List UInt8)
  | [] => none
  | b :: rest =>
    if b = byte 'u' then
      (readHex rest).bind fun found =>
        if 0xd800 ≤ found.1 ∧ found.1 < 0xe000 then none
        else some (.bytes (String.utf8EncodeChar (Char.ofNat found.1)), found.2)
    else (unescape b).map fun c => (.bytes [c], rest)

/-- The next piece of a string, and what follows it. -/
def readPiece : List UInt8 → Option (Piece × List UInt8)
  | [] => none
  | b :: rest =>
    if b = byte '"' then some (.close, rest)
    else if b = byte '\\' then readEscape rest
    else if b.toNat < 0x20 then none
    else some (.bytes [b], rest)

/-- A string after its first quote. -/
def readChars : ℕ → Parser UInt8 (List UInt8)
  | 0, c => (none, c)
  | fuel + 1, c =>
    match readPiece c with
    | none => (none, c)
    | some (.close, c) => (some [], c)
    | some (.bytes bs, c) => andThen (readChars fuel) (fun s c => (some (bs ++ s), c)) c

def skip (c : List UInt8) : List UInt8 := c.dropWhile isSpace

/-- This byte comes next. -/
def token (ch : UInt8) : Parser UInt8 Unit := fun c =>
  match skip c with
  | [] => (none, [])
  | b :: rest => if b = ch then (some (), rest) else (none, b :: rest)

/-- A string after white space. -/
def readString : Parser UInt8 (List UInt8) :=
  andThen (token (byte '"')) fun _ c => readChars (c.length + 1) c

/-- Items with commas between them, and this byte after them. -/
def readItems {α : Type} (item : Parser UInt8 α) (close : UInt8) : ℕ → Parser UInt8 (List α)
  | 0, c => (none, c)
  | fuel + 1, c =>
    andThen item (fun x c =>
      match skip c with
      | [] => (none, [])
      | b :: rest =>
        if b = byte ',' then
          andThen (readItems item close fuel) (fun xs c => (some (x :: xs), c)) rest
        else if b = close then (some [x], rest)
        else (none, b :: rest)) c

/-- Items, or none, and this byte after them. -/
def readList {α : Type} (item : Parser UInt8 α) (close : UInt8) : Parser UInt8 (List α) := fun c =>
  if (skip c).head? = some close then (some [], (skip c).tail)
  else readItems item close (c.length + 1) c

/-- A member of an object. -/
def readMember (value : Parser UInt8 Json) : Parser UInt8 (List UInt8 × Json) :=
  andThen readString fun key => andThen (token (byte ':')) fun _ =>
    andThen value fun j c => (some (key, j), c)

def readNumber : Parser UInt8 Json := fun c =>
  if isNumber (c.takeWhile isNumberByte) then
    (some (num (c.takeWhile isNumberByte)), c.dropWhile isNumberByte)
  else (none, c)

/-- A word that is a value. -/
def readWord (word : String) (j : Json) : Parser UInt8 Json := fun c =>
  if word.toList.map byte <+: c then (some j, c.drop word.length) else (none, c)

def readValue : ℕ → Parser UInt8 Json
  | 0, c => (none, c)
  | fuel + 1, c =>
    match (skip c).head? with
    | none => (none, [])
    | some b =>
      if b = byte '"' then andThen readString (fun s c => (some (str s), c)) (skip c)
      else if b = byte '[' then
        andThen (readList (readValue fuel) (byte ']')) (fun js c => (some (arr js), c))
          (skip c).tail
      else if b = byte '{' then
        andThen (readList (readMember (readValue fuel)) (byte '}'))
          (fun ms c => (some (obj ms), c)) (skip c).tail
      else if b = byte 'n' then readWord "null" null (skip c)
      else if b = byte 't' then readWord "true" (bool true) (skip c)
      else if b = byte 'f' then readWord "false" (bool false) (skip c)
      else readNumber (skip c)

/-- The value of a text. -/
def read (s : List UInt8) : Option Json :=
  match readValue (s.length + 1) s with
  | (some j, c) => if skip c = [] then some j else none
  | (none, _) => none

end Read

section RoundTrip

variable {c r s : List UInt8} {b : UInt8}

/-- A value whose numbers are numbers. -/
inductive Proper : Json → Prop
  | null : Proper null
  | bool (b : Bool) : Proper (bool b)
  | num {digits : List UInt8} (h : isNumber digits = true) : Proper (num digits)
  | str (s : List UInt8) : Proper (str s)
  | arr {items : List Json} (h : ∀ j ∈ items, Proper j) : Proper (arr items)
  | obj {members : List (List UInt8 × Json)} (h : ∀ m ∈ members, Proper m.2) :
      Proper (obj members)

theorem skip_cons (hb : isSpace b = false) (r : List UInt8) : skip (b :: r) = b :: r := by
  rw [skip, List.dropWhile_cons, hb, if_neg Bool.false_ne_true]

theorem token_cons {ch : UInt8} (hch : isSpace ch = false) (r : List UInt8) :
    token ch (ch :: r) = (some (), r) := by
  rw [token, skip_cons hch]
  exact if_pos rfl

theorem hexValue_hexDigit {d : ℕ} (hd : d < 16) : hexValue (hexDigit d) = some d := by
  have hall : ∀ d < 16, hexValue (hexDigit d) = some d := by decide
  exact hall d hd

/-- A byte is read as it was written. -/
theorem readPiece_escape (b : UInt8) (r : List UInt8) :
    readPiece (escape b ++ r) = some (.bytes [b], r) := by
  unfold escape
  split_ifs with hspecial hcontrol
  · have hu : b ≠ byte 'u' := by
      rintro rfl
      exact absurd hspecial (by decide)
    have hfound : unescape b = some b := by
      rw [unescape, if_pos (by tauto)]
    rw [List.cons_append, List.cons_append, List.nil_append, readPiece, if_neg (by decide),
      if_pos rfl, readEscape, if_neg hu, hfound]
    rfl
  · have hencode : ∀ n < 32, String.utf8EncodeChar (Char.ofNat n) = [UInt8.ofNat n] := by decide
    have hdigits : readHex ([byte '0', byte '0', hexDigit (b.toNat / 16),
        hexDigit (b.toNat % 16)] ++ r) = some (b.toNat, r) := by
      have hzero : hexValue (byte '0') = some 0 := by decide
      simp only [List.cons_append, List.nil_append, readHex, hzero, Option.bind_some,
        hexValue_hexDigit (by omega : b.toNat / 16 < 16),
        hexValue_hexDigit (by omega : b.toNat % 16 < 16), Option.map_some]
      congr 2
      omega
    simp only [List.cons_append, List.nil_append] at hdigits ⊢
    rw [readPiece, if_neg (by decide), if_pos rfl, readEscape, if_pos rfl, hdigits,
      Option.bind_some, if_neg (by omega), hencode _ hcontrol, UInt8.ofNat_toNat]
  · rw [not_or] at hspecial
    rw [List.singleton_append, readPiece, if_neg hspecial.1, if_neg hspecial.2, if_neg hcontrol]

theorem length_flatMap_escape (s : List UInt8) : s.length ≤ (s.flatMap escape).length := by
  induction s with
  | nil => exact Nat.zero_le _
  | cons b s ih =>
    have hpos : 0 < (escape b).length := by
      unfold escape
      split_ifs <;> simp
    rw [List.flatMap_cons, List.length_append, List.length_cons]
    omega

theorem readChars_quote {fuel : ℕ} (hfuel : s.length < fuel) (r : List UInt8) :
    readChars fuel (s.flatMap escape ++ byte '"' :: r) = (some s, r) := by
  induction s generalizing fuel with
  | nil =>
    obtain ⟨fuel, rfl⟩ := Nat.exists_eq_add_one.mpr hfuel
    rw [List.flatMap_nil, List.nil_append, readChars, readPiece, if_pos rfl]
  | cons b s ih =>
    rw [List.length_cons] at hfuel
    obtain ⟨fuel, rfl⟩ : ∃ n, fuel = n + 1 := Nat.exists_eq_add_one.mpr (by omega)
    rw [List.flatMap_cons, List.append_assoc, readChars, readPiece_escape]
    exact andThen_of_eq _ (ih (by omega))

/-- A string is read. -/
theorem readString_quote (s r : List UInt8) : readString (quote s ++ r) = (some s, r) := by
  have hlength := length_flatMap_escape s
  have hquote : quote s ++ r = byte '"' :: (s.flatMap escape ++ byte '"' :: r) := by
    simp [quote]
  rw [hquote, readString, andThen_of_eq _ (token_cons (by decide) _)]
  exact readChars_quote (by
    rw [List.length_append]
    omega) r

section Lists

variable {α : Type} {item : Parser UInt8 α} {close : UInt8} {t : α → List UInt8}

/-- What separates items and ends them does not belong to them. -/
def ReadsAs (item : Parser UInt8 α) (close : UInt8) (t : α → List UInt8) (x : α) : Prop :=
  ∀ b r, (b = byte ',' ∨ b = close) → item (t x ++ b :: r) = (some x, b :: r)

theorem readItems_commas (hclose : isSpace close = false ∧ close ≠ byte ',') (x : α) (xs : List α)
    (hitems : ∀ y ∈ x :: xs, ReadsAs item close t y) {fuel : ℕ} (hfuel : xs.length < fuel)
    (r : List UInt8) :
    readItems item close fuel (commas ((x :: xs).map t) ++ close :: r) = (some (x :: xs), r) := by
  induction xs generalizing x fuel with
  | nil =>
    obtain ⟨fuel, rfl⟩ := Nat.exists_eq_add_one.mpr hfuel
    have hitem := hitems x List.mem_cons_self close r (Or.inr rfl)
    rw [List.map_cons, List.map_nil, commas, readItems, andThen_of_eq _ hitem,
      skip_cons hclose.1]
    dsimp only
    rw [if_neg hclose.2, if_pos rfl]
  | cons y ys ih =>
    rw [List.length_cons] at hfuel
    obtain ⟨fuel, rfl⟩ : ∃ n, fuel = n + 1 := Nat.exists_eq_add_one.mpr (by omega)
    have hitem := hitems x List.mem_cons_self (byte ',') (commas ((y :: ys).map t) ++ close :: r)
      (Or.inl rfl)
    have hrest := ih y (fun z hz => hitems z (List.mem_cons_of_mem _ hz))
      (show ys.length < fuel by omega)
    have htext : commas ((x :: y :: ys).map t) ++ close :: r =
        t x ++ byte ',' :: (commas ((y :: ys).map t) ++ close :: r) := by
      simp [commas]
    rw [htext, readItems, andThen_of_eq _ hitem, skip_cons (by decide)]
    dsimp only
    rw [if_pos rfl, andThen_of_eq _ hrest]

theorem length_commas {ts : List (List UInt8)} (hne : ∀ t ∈ ts, t ≠ []) :
    ts.length ≤ (commas ts).length := by
  induction ts with
  | nil => exact Nat.zero_le _
  | cons t ts ih =>
    have hpos := List.length_pos_iff.mpr (hne t List.mem_cons_self)
    have hrest := ih fun t ht => hne t (List.mem_cons_of_mem _ ht)
    cases ts with
    | nil => exact hpos
    | cons u us =>
      rw [commas, List.length_append]
      · simp only [List.length_cons] at hrest ⊢
        omega
      · exact List.cons_ne_nil _ _

theorem length_le_commas {ts : List (List UInt8)} {t : List UInt8} (ht : t ∈ ts) :
    t.length ≤ (commas ts).length := by
  induction ts with
  | nil => cases ht
  | cons u us ih =>
    cases us with
    | nil => rw [List.mem_singleton.mp ht, commas]
    | cons v vs =>
      rw [commas, List.length_append, List.length_cons]
      · rcases List.mem_cons.mp ht with rfl | ht
        · omega
        · have hle := ih ht
          omega
      · exact List.cons_ne_nil _ _

/-- A list is read. -/
theorem readList_commas (hclose : isSpace close = false ∧ close ≠ byte ',') (xs : List α)
    (hitems : ∀ x ∈ xs, ReadsAs item close t x)
    (hstart : ∀ x ∈ xs, ∃ b s, t x = b :: s ∧ isSpace b = false ∧ b ≠ close) (r : List UInt8) :
    readList item close (commas (xs.map t) ++ close :: r) = (some xs, r) := by
  cases xs with
  | nil =>
    rw [List.map_nil, commas, List.nil_append, readList, skip_cons hclose.1]
    exact if_pos rfl
  | cons x xs =>
    obtain ⟨b, s, ht, hspace, hne⟩ := hstart x List.mem_cons_self
    have hbegin : ∃ s', commas ((x :: xs).map t) ++ close :: r = b :: s' := by
      cases xs with
      | nil => exact ⟨s ++ close :: r, by rw [List.map_cons, List.map_nil, commas, ht]; rfl⟩
      | cons y ys =>
        refine ⟨s ++ byte ',' :: commas ((y :: ys).map t) ++ close :: r, ?_⟩
        simp [commas, ht]
    have hlength : ((x :: xs).map t).length ≤ (commas ((x :: xs).map t)).length := length_commas (by
      intro u hu
      obtain ⟨y, hy, rfl⟩ := List.mem_map.mp hu
      obtain ⟨b', s', ht', -⟩ := hstart y hy
      rw [ht']
      exact List.cons_ne_nil _ _)
    rw [List.length_map, List.length_cons] at hlength
    have hhead : ¬(skip (commas ((x :: xs).map t) ++ close :: r)).head? = some close := by
      obtain ⟨s', hs'⟩ := hbegin
      rw [hs', skip_cons hspace, List.head?_cons]
      exact fun heq => hne (Option.some.inj heq)
    rw [readList, if_neg hhead]
    exact readItems_commas hclose x xs hitems (by
      rw [List.length_append]
      omega) r

end Lists

/-- What a written value begins with. -/
theorem exists_text {j : Json} (h : Proper j) :
    ∃ b s, text j = b :: s ∧ isSpace b = false ∧ b ≠ byte ']' ∧ b ≠ byte '}' := by
  cases h with
  | null => exact ⟨byte 'n', _, by rw [text]; rfl, by decide, by decide, by decide⟩
  | bool b =>
    cases b with
    | true => exact ⟨byte 't', _, by rw [text]; rfl, by decide, by decide, by decide⟩
    | false => exact ⟨byte 'f', _, by rw [text]; rfl, by decide, by decide, by decide⟩
  | str s => exact ⟨byte '"', _, by rw [text]; rfl, by decide, by decide, by decide⟩
  | arr h => exact ⟨byte '[', _, by rw [text], by decide, by decide, by decide⟩
  | obj h => exact ⟨byte '{', _, by rw [text], by decide, by decide, by decide⟩
  | @num digits h =>
    cases digits with
    | nil => exact absurd h (by decide)
    | cons b s =>
      simp only [isNumber, List.all_cons, Bool.and_eq_true] at h
      have hbyte : isNumberByte b = true := h.1.2.1
      refine ⟨b, s, by rw [text], ?_, ?_, ?_⟩
      · rw [Bool.eq_false_iff]
        intro hspace
        simp only [isSpace, Bool.or_eq_true, decide_eq_true_eq] at hspace
        rcases hspace with ((rfl | rfl) | rfl) | rfl
        · exact absurd hbyte (by decide)
        · exact absurd hbyte (by decide)
        · exact absurd hbyte (by decide)
        · exact absurd hbyte (by decide)
      · rintro rfl
        exact absurd hbyte (by decide)
      · rintro rfl
        exact absurd hbyte (by decide)

theorem readNumber_digits {digits : List UInt8} (h : isNumber digits = true)
    (hr : Runs.Stops isNumberByte r) : readNumber (digits ++ r) = (some (num digits), r) := by
  have hall : ∀ b ∈ digits, isNumberByte b = true := by
    simp only [isNumber, Bool.and_eq_true] at h
    exact List.all_eq_true.mp h.1.2
  rw [readNumber, Runs.takeWhile_append hall hr, Runs.dropWhile_append hall hr, if_pos h]

theorem readWord_append (word : String) (j : Json) (r : List UInt8) :
    readWord word j (word.toList.map byte ++ r) = (some j, r) := by
  have hlength : word.length = (word.toList.map byte).length := by
    rw [List.length_map, String.length_toList]
  rw [readWord, if_pos (List.prefix_append _ _), hlength, List.drop_left]

theorem text_arr (items : List Json) :
    text (arr items) = byte '[' :: (commas (items.map text) ++ [byte ']']) := by
  rw [text]

theorem text_obj (members : List (List UInt8 × Json)) : text (obj members) =
    byte '{' :: (commas (members.map fun m => quote m.1 ++ byte ':' :: text m.2) ++
      [byte '}']) := by
  rw [text]

theorem text_lt_of_mem {items : List Json} {j : Json} (hj : j ∈ items) :
    (text j).length < (text (arr items)).length := by
  have hmem : text j ∈ items.map text := List.mem_map_of_mem hj
  have hle := length_le_commas hmem
  rw [text_arr, List.length_cons, List.length_append]
  omega

theorem text_lt_of_mem_obj {members : List (List UInt8 × Json)} {m : List UInt8 × Json}
    (hm : m ∈ members) : (text m.2).length < (text (obj members)).length := by
  have hmem : quote m.1 ++ byte ':' :: text m.2 ∈
      members.map fun m => quote m.1 ++ byte ':' :: text m.2 :=
    List.mem_map_of_mem (f := fun m : List UInt8 × Json => quote m.1 ++ byte ':' :: text m.2) hm
  have hle := length_le_commas hmem
  rw [List.length_append, List.length_cons] at hle
  rw [text_obj, List.length_cons, List.length_append]
  omega

/-- A value is read. -/
theorem readValue_text {fuel : ℕ} {j : Json} (h : Proper j) (hfuel : (text j).length ≤ fuel)
    (hr : Runs.Stops isNumberByte r) : readValue fuel (text j ++ r) = (some j, r) := by
  induction fuel generalizing j r with
  | zero =>
    obtain ⟨b, s, ht, -⟩ := exists_text h
    rw [ht, List.length_cons] at hfuel
    omega
  | succ fuel ih =>
    obtain ⟨b, s, ht, hspace, -⟩ := exists_text h
    have hskip : skip (text j ++ r) = text j ++ r := by
      rw [ht, List.cons_append, skip_cons hspace]
    rw [readValue, hskip]
    cases h with
    | null =>
      have hword : text null = "null".toList.map byte := by rw [text]
      rw [hword]
      exact readWord_append "null" null r
    | bool b =>
      cases b with
      | true =>
        have hword : text (bool true) = "true".toList.map byte := by rw [text]
        rw [hword]
        exact readWord_append "true" (bool true) r
      | false =>
        have hword : text (bool false) = "false".toList.map byte := by rw [text]
        rw [hword]
        exact readWord_append "false" (bool false) r
    | @num digits h =>
      have hread := readNumber_digits h hr
      have hdigits : text (num digits) = digits := by rw [text]
      rw [hdigits] at ht ⊢
      have hbyte : isNumberByte b = true := by
        rw [ht] at h
        simp only [isNumber, List.all_cons, Bool.and_eq_true] at h
        exact h.1.2.1
      have hother : ∀ b', isNumberByte b' = false → ¬b = b' := by
        rintro b' hb' rfl
        rw [hb'] at hbyte
        cases hbyte
      rw [ht] at hread ⊢
      simp only [List.cons_append, List.head?_cons]
      rw [if_neg (hother _ (by decide)), if_neg (hother _ (by decide)),
        if_neg (hother _ (by decide)), if_neg (hother _ (by decide)),
        if_neg (hother _ (by decide)), if_neg (hother _ (by decide))]
      exact hread
    | str s =>
      have hquote : text (str s) = quote s := by rw [text]
      rw [hquote]
      have hhead : (quote s ++ r).head? = some (byte '"') := rfl
      rw [hhead]
      dsimp only
      rw [if_pos rfl, andThen_of_eq _ (readString_quote s r)]
    | @arr items h =>
      have hitems : ∀ j ∈ items, ReadsAs (readValue fuel) (byte ']') text j := by
        intro j hj b r' hb
        have hlt := text_lt_of_mem hj
        refine ih (h j hj) (by omega) (Runs.stops_cons ?_)
        rcases hb with rfl | rfl <;> decide
      have hlist := readList_commas (by decide) items hitems (fun j hj => by
        obtain ⟨b, s, ht, hspace, hclose, -⟩ := exists_text (h j hj)
        exact ⟨b, s, ht, hspace, hclose⟩) r
      have htext : text (arr items) ++ r =
          byte '[' :: (commas (items.map text) ++ byte ']' :: r) := by
        rw [text_arr]
        simp
      rw [htext, List.head?_cons, List.tail_cons]
      dsimp only
      rw [if_neg (by decide), if_pos rfl, andThen_of_eq _ hlist]
    | @obj members h =>
      have hmembers : ∀ m ∈ members, ReadsAs (readMember (readValue fuel)) (byte '}')
          (fun m => quote m.1 ++ byte ':' :: text m.2) m := by
        intro m hm b r' hb
        have hlt := text_lt_of_mem_obj hm
        have hvalue : readValue fuel (text m.2 ++ b :: r') = (some m.2, b :: r') := by
          refine ih (h m hm) (by omega) (Runs.stops_cons ?_)
          rcases hb with rfl | rfl <;> decide
        rw [List.append_assoc, List.cons_append, readMember,
          andThen_of_eq _ (readString_quote _ _), andThen_of_eq _ (token_cons (by decide) _),
          andThen_of_eq _ hvalue]
      have hlist := readList_commas (by decide) members hmembers
        (fun m _ => ⟨byte '"', _, rfl, by decide, by decide⟩) r
      have htext : text (obj members) ++ r = byte '{' ::
          (commas (members.map fun m => quote m.1 ++ byte ':' :: text m.2) ++
            byte '}' :: r) := by
        rw [text_obj]
        simp
      rw [htext, List.head?_cons, List.tail_cons]
      dsimp only
      rw [if_neg (by decide), if_neg (by decide), if_pos rfl, andThen_of_eq _ hlist]

/-- What is written is read back. -/
theorem read_text {j : Json} (h : Proper j) : read (text j) = some j := by
  have hvalue := readValue_text (r := []) h (Nat.le_succ _) Runs.stops_nil
  rw [List.append_nil] at hvalue
  rw [read, hvalue]
  rfl

end RoundTrip

section Decimal

theorem isDigit_byte {c : Char} (hc : c.isDigit = true) : isDigit (byte c) = true := by
  obtain ⟨hlow, hhigh⟩ := (isDigit_iff c).mp hc
  have hzero : (byte '0').toNat = 48 := by decide
  have hnine : (byte '9').toNat = 57 := by decide
  simp only [isDigit, Bool.and_eq_true, decide_eq_true_eq, UInt8.le_iff_toNat_le, toNat_byte hc]
  omega

/-- A number above zero is written as a number. -/
theorem isNumber_decimal {n : ℕ} (hn : 0 < n) : isNumber ((decimal n).map byte) = true := by
  have hdigits : ∀ b ∈ (decimal n).map byte, isDigit b = true := by
    intro b hb
    obtain ⟨c, hc, rfl⟩ := List.mem_map.mp hb
    exact isDigit_byte (isDigit_of_mem_decimal hc)
  have hbytes : ((decimal n).map byte).all isNumberByte = true :=
    List.all_eq_true.mpr fun b hb => by simp [isNumberByte, hdigits b hb]
  have hfirst : ∀ d < 10, 0 < d → byte (Nat.digitChar d) ≠ byte '0' ∧
      byte (Nat.digitChar d) ≠ byte '-' := by decide
  obtain ⟨d, s, hpos, hlt, hdecimal⟩ := exists_decimal hn
  obtain ⟨hzero, hminus⟩ := hfirst d hlt hpos
  rw [hdecimal, List.map_cons] at hdigits hbytes ⊢
  have htake : (byte (Nat.digitChar d) :: s.map byte).takeWhile isDigit = _ :=
    List.takeWhile_eq_self_iff.mpr hdigits
  have hdrop : (byte (Nat.digitChar d) :: s.map byte).dropWhile isDigit = [] :=
    List.dropWhile_eq_nil_iff.mpr hdigits
  have hall : isDigits (byte (Nat.digitChar d) :: s.map byte) = true := by
    simp only [isDigits, List.all_eq_true.mpr hdigits]
    rfl
  have hsign : (byte (Nat.digitChar d) :: s.map byte).head? ≠ some (byte '-') :=
    fun h => hminus (Option.some.inj h)
  rw [isNumber, hbytes, if_neg hsign, isUnsigned, htake, hdrop, hall]
  simp [hzero, isFraction, isExponent]

/-- Digits after a zero and a point are a number. -/
theorem isNumber_fraction {digits : List UInt8} (hne : digits ≠ [])
    (hdigits : ∀ b ∈ digits, isDigit b = true) :
    isNumber (byte '0' :: byte '.' :: digits) = true := by
  have hbytes : digits.all isNumberByte = true :=
    List.all_eq_true.mpr fun b hb => by simp [isNumberByte, hdigits b hb]
  have hzero : isDigit (byte '0') = true := by decide
  have hpoint : ¬isDigit (byte '.') = true := by decide
  have htake : (byte '0' :: byte '.' :: digits).takeWhile isDigit = [byte '0'] := by
    rw [List.takeWhile_cons_of_pos hzero, List.takeWhile_cons_of_neg hpoint]
  have hdrop : (byte '0' :: byte '.' :: digits).dropWhile isDigit = byte '.' :: digits := by
    rw [List.dropWhile_cons_of_pos hzero, List.dropWhile_cons_of_neg hpoint]
  have hfraction : isFraction (byte '.' :: digits) = true := by
    rw [isFraction, List.head?_cons, if_pos rfl, List.tail_cons,
      List.takeWhile_eq_self_iff.mpr hdigits, List.dropWhile_eq_nil_iff.mpr hdigits, isDigits,
      List.all_eq_true.mpr hdigits]
    simp [hne, isExponent]
  have hsign : (byte '0' :: byte '.' :: digits).head? ≠ some (byte '-') := by
    rw [List.head?_cons]
    decide
  have hmarks : isNumberByte (byte '0') = true ∧ isNumberByte (byte '.') = true ∧
      isDigits [byte '0'] = true := by decide
  rw [isNumber, if_neg hsign, isUnsigned, htake, hdrop, hfraction, List.all_cons, List.all_cons,
    hbytes, hmarks.1, hmarks.2.1, hmarks.2.2]
  simp

end Decimal

section Characters

open Utf8

/-- A value whose strings are text. -/
inductive Encoded : Json → Prop
  | null : Encoded null
  | bool (b : Bool) : Encoded (bool b)
  | num {digits : List UInt8} (h : isNumber digits = true) : Encoded (num digits)
  | str {s : List UInt8} (h : Valid s) : Encoded (str s)
  | arr {items : List Json} (h : ∀ j ∈ items, Encoded j) : Encoded (arr items)
  | obj {members : List (List UInt8 × Json)} (hkeys : ∀ m ∈ members, Valid m.1)
      (h : ∀ m ∈ members, Encoded m.2) : Encoded (obj members)

theorem encoded_obj {members : List (List UInt8 × Json)}
    (h : ∀ m ∈ members, Valid m.1 ∧ Encoded m.2) : Encoded (obj members) :=
  .obj (fun m hm => (h m hm).1) fun m hm => (h m hm).2

theorem Encoded.proper {j : Json} (h : Encoded j) : Proper j := by
  induction h with
  | null => exact .null
  | bool b => exact .bool b
  | num h => exact .num h
  | str h => exact .str _
  | arr h ih => exact .arr ih
  | obj hkeys h ih => exact .obj ih

theorem valid_of_isNumber {digits : List UInt8} (h : isNumber digits = true) : Valid digits := by
  refine valid_of_ascii fun b hb => ?_
  simp only [isNumber, Bool.and_eq_true] at h
  have hbyte := List.all_eq_true.mp h.1.2 b hb
  simp only [isNumberByte, isDigit, Bool.or_eq_true, Bool.and_eq_true, decide_eq_true_eq] at hbyte
  rcases hbyte with ((((⟨-, hle⟩ | rfl) | rfl) | rfl) | rfl) | rfl
  · have hmax := UInt8.le_iff_toNat_le.mp hle
    have hnine : (byte '9').toNat = 57 := by decide
    omega
  · decide
  · decide
  · decide
  · decide
  · decide

theorem escape_high {b : UInt8} (hb : 0x80 ≤ b.toNat) : escape b = [b] := by
  have hspecial : ¬(b = byte '"' ∨ b = byte '\\') := by
    rintro (rfl | rfl)
    · exact absurd hb (by decide)
    · exact absurd hb (by decide)
  rw [escape, if_neg hspecial, if_neg (by omega)]

theorem escape_ascii {b : UInt8} (hb : b.toNat < 0x80) : ∀ c ∈ escape b, c.toNat < 0x80 := by
  have hall : ∀ n < 0x80, ((escape (UInt8.ofNat n)).all fun c => c.toNat < 0x80) = true := by
    decide
  have hthis := List.all_eq_true.mp (hall _ hb)
  rw [UInt8.ofNat_toNat] at hthis
  exact fun c hc => of_decide_eq_true (hthis c hc)

theorem valid_quote {s : List UInt8} (h : Valid s) : Valid (quote s) := by
  obtain ⟨text, rfl⟩ := h
  refine Valid.cons (by decide) (Valid.append ?_ (valid_of_all (by decide)))
  rw [encode, List.flatMap_assoc]
  refine valid_flatMap fun c _ => ?_
  obtain ⟨b, s, hchar, hhigh, hascii⟩ := encodeChar_tail c
  have hplain : s.flatMap escape = s := by
    rw [List.flatMap_congr fun x hx => escape_high (hhigh x hx), List.flatMap_singleton']
  rw [hchar, List.flatMap_cons, hplain]
  by_cases hb : b.toNat < 0x80
  · rw [hascii hb, List.append_nil]
    exact valid_of_ascii (escape_ascii hb)
  · rw [escape_high (by omega), List.singleton_append, ← hchar]
    exact ⟨[c], (List.flatMap_singleton _ _).symm⟩

theorem valid_commas {ts : List (List UInt8)} (h : ∀ t ∈ ts, Valid t) : Valid (commas ts) := by
  induction ts with
  | nil => exact valid_nil
  | cons t ts ih =>
    have hfirst := h t List.mem_cons_self
    have hrest := ih fun u hu => h u (List.mem_cons_of_mem _ hu)
    cases ts with
    | nil => exact hfirst
    | cons u us => exact hfirst.append (hrest.cons (by decide))

/-- A value of texts is written as a text. -/
theorem valid_text {j : Json} (h : Encoded j) : Valid (text j) := by
  induction h with
  | null =>
    rw [text]
    exact valid_of_all (by decide)
  | bool b =>
    cases b with
    | true =>
      rw [text]
      exact valid_of_all (by decide)
    | false =>
      rw [text]
      exact valid_of_all (by decide)
  | num h =>
    rw [text]
    exact valid_of_isNumber h
  | str h =>
    rw [text]
    exact valid_quote h
  | arr h ih =>
    rw [text_arr]
    refine Valid.cons (by decide) (Valid.append (valid_commas ?_) (valid_of_all (by decide)))
    intro t ht
    obtain ⟨j, hj, rfl⟩ := List.mem_map.mp ht
    exact ih j hj
  | obj hkeys h ih =>
    rw [text_obj]
    refine Valid.cons (by decide) (Valid.append (valid_commas ?_) (valid_of_all (by decide)))
    intro t ht
    obtain ⟨m, hm, rfl⟩ := List.mem_map.mp ht
    exact (valid_quote (hkeys m hm)).append ((ih m hm).cons (by decide))

end Characters

end Json
