import Gtkhx.Library.Text
import Gtkhx.Library.Utf8

/-!
# Nick completion

The token under the caret of the input line is completed to a name of those in the chat: to the only
one it begins, to what all that it begins have in common, or, if it is a name, to the next one.
-/

namespace Gtkhx.Chat

open Utf8

/-- Names are compared character by character. -/
local instance lawfulNames : LawfulBEq (List Char) := inferInstance

/-- What ends a nick besides the suffix. -/
def BASE_DELIMS : List Char := [' ', '.', '?']

/-- An input line after a completion. -/
structure Completion where
  text : List Char
  /-- Where the caret goes, the end if there is none. -/
  cursor : Option ℕ
  /-- The names to choose from. -/
  info : List (List Char)
  deriving DecidableEq, Repr

/-- A byte of an ASCII letter in lower case. -/
def toAsciiLowercase (b : UInt8) : UInt8 := if 65 ≤ b.toNat ∧ b.toNat ≤ 90 then b + 32 else b

/-- Whether a name begins with this text, in either case. -/
def hasPrefixCi (name start : List Char) : Bool :=
  (encode start).length ≤ (encode name).length &&
    ((encode name).take (encode start).length).map toAsciiLowercase =
      (encode start).map toAsciiLowercase

/-- How many bytes at the start of two texts are the same, in either case. -/
def agreeing : List UInt8 → List UInt8 → ℕ
  | a :: s, b :: t => if toAsciiLowercase a = toAsciiLowercase b then agreeing s t + 1 else 0
  | _, _ => 0

/-- How many of so many bytes of a text are at the start of all those others too. -/
def commonLength (first : List UInt8) : ℕ → List (List Char) → ℕ
  | len, [] => len
  | len, n :: names =>
    if agreeing (first.take len) (encode n) = 0 then 0
    else commonLength first (agreeing (first.take len) (encode n)) names

/-- The longest common start of names, in the first one's casing. -/
def commonPrefixCi (first : List Char) (names : List (List Char)) : Option (List Char) :=
  cut first (backOff first (commonLength (encode first) (encode first).length names))

/-- The index after this one, or before it, around a list. -/
def cycle (cur len : ℕ) (reverse : Bool) : ℕ :=
  if reverse then (cur + len - 1) % len else (cur + 1) % len

/-- A difference of sizes. One below zero is a panic. -/
def checkedSub (a b : ℕ) : Option ℕ := if b ≤ a then some (a - b) else none

/-- What comes before the token, a blank, the name, and what comes after, without blanks at its
start, and the caret behind the name. -/
def rebuild (before name after : List Char) : Option Completion :=
  let raw := before ++ ' ' :: (name ++ after)
  let trimmed := raw.dropWhile (· = ' ')
  (checkedSub (encode raw).length (encode trimmed).length).bind fun trimmedLead =>
    (checkedSub (before.length + 1 + name.length) trimmedLead).map fun caret =>
      { text := trimmed, cursor := some caret, info := [] }

/-- Names that begin with a text. Of names that differ only in case the first is kept. -/
def candidates (names : List (List Char)) (word : List Char) : List (List Char) :=
  names.foldl (fun found n =>
    if hasPrefixCi n word && !found.getLast?.any (Text.eqIgnoreAsciiCase · n) then found ++ [n]
    else found) []

section Line

variable (input : List Char) (cursor : ℕ) (suffix : Char)

/-- Whether the whole line is one nick. -/
def addressForm : Bool := !input.any fun c => BASE_DELIMS.contains c || c = suffix

/-- Where the token under the caret starts. -/
def wordStart : ℕ :=
  if addressForm input suffix then 0
  else ((input.take (min cursor input.length)).rdropWhile (· ≠ ' ')).length

/-- The token under the caret, up to the caret. -/
def word : List Char :=
  (input.take (min cursor input.length)).drop (wordStart input cursor suffix)

/-- What is before the token, without the blank. -/
def before : List Char :=
  if wordStart input cursor suffix = 0 then [] else input.take (wordStart input cursor suffix - 1)

/-- What is after the caret. -/
def after : List Char := input.drop (min cursor input.length)

/-- The line with the token completed to a name. -/
def single (name : List Char) : Option Completion :=
  if addressForm input suffix then
    some { text := name ++ [suffix, ' '], cursor := none, info := [] }
  else rebuild (before input cursor suffix) name (after input cursor)

end Line

/-- Complete the token under the caret. The outer value is none after a panic, the inner one when
there is nothing to do. -/
def completeStyled (names : List (List Char)) (input : List Char) (cursor : ℕ) (reverse : Bool)
    (suffix : Char) (oldStyle : Bool) : Option (Option Completion) :=
  let token := word input cursor suffix
  if token = [] then some none
  else if token ∈ names then
    if 1 < names.length then
      (names[cycle (names.idxOf token) names.length reverse]?).bind fun name =>
        (single input cursor suffix name).map some
    else some none
  else
    match candidates names token with
    | [] => some none
    | [name] => (single input cursor suffix name).map some
    | name :: others =>
      if oldStyle then (single input cursor suffix name).map some
      else
        (commonPrefixCi name others).bind fun cp =>
          if (encode token).length < (encode cp).length then
            if addressForm input suffix then
              some (some { text := cp, cursor := none, info := name :: others })
            else
              (rebuild (before input cursor suffix) cp (after input cursor)).map fun c =>
                some { c with info := name :: others }
          else
            some (some { text := input, cursor := some (min cursor input.length),
                         info := name :: others })

/-- Complete in the new style. -/
def complete (names : List (List Char)) (input : List Char) (cursor : ℕ) (reverse : Bool)
    (suffix : Char) : Option (Option Completion) :=
  completeStyled names input cursor reverse suffix false

section Specified

/-- What becomes of the token. -/
inductive Becomes where
  /-- It stays. -/
  | token
  | name (n : List Char)
  /-- The common start of names. -/
  | start (common : List Char)

/-- What becomes of a token, if there is anything to do. -/
def becomes (names : List (List Char)) (token : List Char) (reverse oldStyle : Bool) :
    Option Becomes :=
  if token = [] then none
  else if token ∈ names then
    if 1 < names.length then
      (names[cycle (names.idxOf token) names.length reverse]?).map .name
    else none
  else
    match candidates names token with
    | [] => none
    | [name] => some (.name name)
    | name :: others =>
      if oldStyle then some (.name name)
      else
        (commonPrefixCi name others).map fun cp =>
          if (encode token).length < (encode cp).length then .start cp else .token

/-- What stands in the token's place. In the address form a name is followed by the suffix and a
blank. -/
def Becomes.text (address : Bool) (suffix : Char) (word : List Char) : Becomes → List Char
  | token => word
  | name n => if address then n ++ [suffix, ' '] else n
  | start common => common

/-- A text without the blanks it begins with. -/
def trimStart (s : List Char) : List Char := s.dropWhile (· = ' ')

variable (names : List (List Char)) (input : List Char) (cursor : ℕ) (reverse : Bool)
  (suffix : Char) (oldStyle : Bool)

/-- There is no panic, and a completion has its caret in its text, which is, up to blanks at its
start, what was before the token, what became of it, and all that was after the caret. -/
def KeepsRest : Prop :=
  ∃ result, completeStyled names input cursor reverse suffix oldStyle = some result ∧
    ∀ c ∈ result, c.cursor.getD c.text.length ≤ c.text.length ∧
      ∃ b ∈ becomes names (word input cursor suffix) reverse oldStyle,
        trimStart c.text = trimStart (input.take (wordStart input cursor suffix) ++
          b.text (addressForm input suffix) suffix (word input cursor suffix) ++
          after input cursor)

/-- In the address form nothing is after the caret unless the token stays. Otherwise there is
something else than blanks before the token or in the name, or no blank after the caret. -/
def RestIsSafe : Prop :=
  ∀ b ∈ becomes names (word input cursor suffix) reverse oldStyle,
    match b with
    | .token => True
    | .start _ => addressForm input suffix = true → after input cursor = []
    | .name n =>
      if addressForm input suffix then after input cursor = []
      else ¬((∀ c ∈ before input cursor suffix, c = ' ') ∧ (∀ c ∈ n, c = ' ') ∧
        (after input cursor).head? = some ' ')

end Specified

section Rebuilt

variable {before name after s : List Char}

theorem length_encode_blanks (hs : ∀ c ∈ s, c = ' ') : (encode s).length = s.length := by
  induction s with
  | nil => rfl
  | cons c s ih =>
    obtain rfl := hs c List.mem_cons_self
    have hrest := ih fun d hd => hs d (List.mem_cons_of_mem _ hd)
    rw [encode_cons, List.length_append, hrest, List.length_cons, Nat.add_comm]
    rfl

/-- The blanks a text begins with are as many bytes as characters. -/
theorem length_encode_trimStart (s : List Char) :
    (encode s).length =
      (s.takeWhile (· = ' ')).length + (encode (s.dropWhile (· = ' '))).length := by
  have hblanks : ∀ c ∈ s.takeWhile (· = ' '), c = ' ' := fun c hc =>
    of_decide_eq_true (List.mem_takeWhile_imp (p := fun c => decide (c = ' ')) hc)
  calc (encode s).length
      = (encode (s.takeWhile (· = ' ') ++ s.dropWhile (· = ' '))).length := by
        rw [List.takeWhile_append_dropWhile]
    _ = _ := by rw [encode_append, List.length_append, length_encode_blanks hblanks]

theorem takeWhile_eq_self_iff : s.takeWhile (· = ' ') = s ↔ ∀ c ∈ s, c = ' ' := by
  rw [List.takeWhile_eq_self_iff]
  simp only [decide_eq_true_eq]

/-- A text begins with more blanks than these characters exactly if they are all blank and another
one follows. -/
theorem length_lt_takeWhile_iff (s t : List Char) :
    s.length < ((s ++ t).takeWhile (· = ' ')).length ↔
      (∀ c ∈ s, c = ' ') ∧ t.head? = some ' ' := by
  have hle := (List.takeWhile_prefix (fun c => decide (c = ' ')) (l := s)).length_le
  rw [List.takeWhile_append]
  by_cases hall : (s.takeWhile (· = ' ')).length = s.length
  · have hblank : ∀ c ∈ s, c = ' ' := takeWhile_eq_self_iff.mp
      ((List.takeWhile_prefix _).eq_of_length hall)
    rw [if_pos hall, List.length_append]
    cases t with
    | nil => simp
    | cons c t =>
      by_cases hc : c = ' '
      · simpa [hc] using hblank
      · simp [hc]
  · rw [if_neg hall]
    constructor
    · intro hlt
      omega
    · rintro ⟨hblank, -⟩
      exact absurd (congrArg List.length (takeWhile_eq_self_iff.mpr hblank)) hall

/-- The caret is behind the name, if that is not among the blanks at the start. -/
theorem rebuild_eq (before name after : List Char) :
    rebuild before name after =
      (checkedSub (before.length + 1 + name.length)
        ((before ++ ' ' :: (name ++ after)).takeWhile (· = ' ')).length).map fun caret =>
          { text := trimStart (before ++ ' ' :: (name ++ after)), cursor := some caret,
            info := [] } := by
  have hlead := length_encode_trimStart (before ++ ' ' :: (name ++ after))
  rw [rebuild, hlead, checkedSub, if_pos (Nat.le_add_left _ _), Nat.add_sub_cancel]
  rfl

theorem front_eq (before name after : List Char) :
    before ++ ' ' :: (name ++ after) = (before ++ ' ' :: name) ++ after := by simp

theorem front_blank_iff (before name : List Char) :
    (∀ c ∈ before ++ ' ' :: name, c = ' ') ↔ (∀ c ∈ before, c = ' ') ∧ ∀ c ∈ name, c = ' ' := by
  rw [List.forall_mem_append, List.forall_mem_cons]
  simp

/-- A rebuilt text has the caret in it. -/
theorem exists_rebuild (hsafe : ¬((∀ c ∈ before, c = ' ') ∧ (∀ c ∈ name, c = ' ') ∧
      after.head? = some ' ')) :
    ∃ caret, caret ≤ (trimStart (before ++ ' ' :: (name ++ after))).length ∧
      rebuild before name after =
        some { text := trimStart (before ++ ' ' :: (name ++ after)), cursor := some caret,
               info := [] } := by
  have hlead := length_lt_takeWhile_iff (before ++ ' ' :: name) after
  rw [front_blank_iff, ← front_eq, and_assoc] at hlead
  have hle := Nat.not_lt.mp (mt hlead.mp hsafe)
  have htrim := congrArg List.length (List.takeWhile_append_dropWhile (p := fun c => c = ' ')
    (l := before ++ ' ' :: (name ++ after)))
  simp only [List.length_append, List.length_cons] at hle htrim
  refine ⟨before.length + 1 + name.length -
    ((before ++ ' ' :: (name ++ after)).takeWhile (· = ' ')).length, ?_, ?_⟩
  · rw [trimStart]
    omega
  · rw [rebuild_eq, checkedSub, if_pos (by omega)]
    rfl

/-- Blanks only before the caret and one after it make the caret's place less than zero. -/
theorem rebuild_eq_none (hbefore : ∀ c ∈ before, c = ' ') (hname : ∀ c ∈ name, c = ' ')
    (hafter : after.head? = some ' ') : rebuild before name after = none := by
  have hlead := (length_lt_takeWhile_iff (before ++ ' ' :: name) after).mpr
    ⟨(front_blank_iff before name).mpr ⟨hbefore, hname⟩, hafter⟩
  rw [← front_eq] at hlead
  simp only [List.length_append, List.length_cons] at hlead
  rw [rebuild_eq, checkedSub, if_neg (by omega)]
  rfl

end Rebuilt

section Started

variable {name start token first cp : List Char} {names : List (List Char)}

theorem toAsciiLowercase_blank {b : UInt8} (hb : toAsciiLowercase b = 32) : b = 32 := by
  unfold toAsciiLowercase at hb
  split_ifs at hb with hupper
  · have hvalue := congrArg UInt8.toNat hb
    rw [UInt8.toNat_add] at hvalue
    have h32 : (32 : UInt8).toNat = 32 := rfl
    omega
  · exact hb

/-- A name that begins with what is no blank begins with none. -/
theorem head_of_hasPrefixCi (h : hasPrefixCi name token = true) (hne : token ≠ [])
    (htoken : ' ' ∉ token) : ∃ c rest, name = c :: rest ∧ c ≠ ' ' := by
  obtain ⟨t, ts, rfl⟩ := List.exists_cons_of_ne_nil hne
  obtain ⟨b, bs, hb, -⟩ := encodeChar_tail t
  have hbytes : encode (t :: ts) = b :: (bs ++ encode ts) := by
    rw [encode_cons, hb, List.cons_append]
  simp only [hasPrefixCi, Bool.and_eq_true, decide_eq_true_eq] at h
  obtain ⟨hlength, hsame⟩ := h
  cases name with
  | nil =>
    rw [hbytes] at hlength
    exact absurd hlength (Nat.not_succ_le_zero _)
  | cons c rest =>
    refine ⟨c, rest, rfl, ?_⟩
    rintro rfl
    have hblank : encode (' ' :: rest) = 32 :: encode rest := rfl
    rw [hblank, hbytes, List.length_cons, List.take_succ_cons, List.map_cons, List.map_cons]
      at hsame
    have h32 : b = 32 := toAsciiLowercase_blank (List.cons.inj hsame).1.symm
    refine htoken (mem_of_mem_encode (b := 32) (by decide) ?_)
    rw [hbytes, h32]
    exact List.mem_cons_self

theorem mem_candidates (h : name ∈ candidates names token) :
    name ∈ names ∧ hasPrefixCi name token = true := by
  have hfold : ∀ (names found : List (List Char)), name ∈ names.foldl (fun found n =>
      if hasPrefixCi n token && !found.getLast?.any (Text.eqIgnoreAsciiCase · n) then found ++ [n]
      else found) found → name ∈ found ∨ name ∈ names ∧ hasPrefixCi name token = true := by
    intro names
    induction names with
    | nil => exact fun found h => Or.inl h
    | cons n names ih =>
      intro found h
      rcases ih _ h with h | ⟨hmem, hstart⟩
      · dsimp only at h
        split_ifs at h with hkept
        · rcases List.mem_append.mp h with h | h
          · exact Or.inl h
          · obtain rfl := List.mem_singleton.mp h
            rw [Bool.and_eq_true] at hkept
            exact Or.inr ⟨List.mem_cons_self, hkept.1⟩
        · exact Or.inl h
      · exact Or.inr ⟨List.mem_cons_of_mem _ hmem, hstart⟩
  exact (hfold names [] h).resolve_left List.not_mem_nil

/-- The common start of names is a start of the first. -/
theorem exists_commonPrefixCi (first : List Char) (names : List (List Char)) :
    ∃ cp, commonPrefixCi first names = some cp ∧ cp <+: first := by
  obtain ⟨cp, hcp⟩ := exists_cut first (commonLength (encode first) (encode first).length names)
  exact ⟨cp, hcp, (prefix_of_cut hcp).1⟩

end Started

section Parts

variable (input : List Char) (cursor : ℕ) (suffix : Char)

theorem word_eq (haddress : ¬addressForm input suffix = true) :
    word input cursor suffix = (input.take (min cursor input.length)).rtakeWhile (· ≠ ' ') := by
  have hdrop : ∀ s : List Char,
      s.drop (s.rdropWhile fun c => decide (c ≠ ' ')).length =
        s.rtakeWhile fun c => decide (c ≠ ' ') := by
    intro s
    have hparts := List.rdropWhile_append_rtakeWhile (p := fun c => decide (c ≠ ' ')) (l := s)
    generalize s.rdropWhile (fun c => decide (c ≠ ' ')) = left at hparts ⊢
    generalize s.rtakeWhile (fun c => decide (c ≠ ' ')) = right at hparts ⊢
    rw [← hparts, List.drop_left]
  rw [word, wordStart, if_neg haddress]
  exact hdrop _

/-- The token has no blank in it. -/
theorem blank_not_mem_word : ' ' ∉ word input cursor suffix := by
  by_cases haddress : addressForm input suffix = true
  · intro hmem
    have hinput : ' ' ∈ input := List.mem_of_mem_take (List.mem_of_mem_drop hmem)
    rw [addressForm, Bool.not_eq_true', List.any_eq_false] at haddress
    exact haddress ' ' hinput (by rw [Bool.or_eq_true]; exact Or.inl rfl)
  · rw [word_eq input cursor suffix haddress]
    intro hmem
    exact absurd (List.mem_rtakeWhile_imp hmem) (by decide)

/-- The line up to the caret is the token, or it is what is before that, a blank and the token. -/
theorem line_cases :
    wordStart input cursor suffix = 0 ∧ before input cursor suffix = [] ∧
      word input cursor suffix = input.take (min cursor input.length) ∨
    input.take (wordStart input cursor suffix) = before input cursor suffix ++ [' '] ∧
      input.take (min cursor input.length) =
        before input cursor suffix ++ ' ' :: word input cursor suffix := by
  by_cases haddress : addressForm input suffix = true
  · have hstart : wordStart input cursor suffix = 0 := if_pos haddress
    refine Or.inl ⟨hstart, if_pos hstart, ?_⟩
    rw [word, hstart, List.drop_zero]
  · have hstart : wordStart input cursor suffix =
        ((input.take (min cursor input.length)).rdropWhile (· ≠ ' ')).length := if_neg haddress
    have hparts := List.rdropWhile_append_rtakeWhile (p := fun c => decide (c ≠ ' '))
      (l := input.take (min cursor input.length))
    rw [← word_eq input cursor suffix haddress] at hparts
    rcases List.eq_nil_or_concat ((input.take (min cursor input.length)).rdropWhile (· ≠ ' '))
      with hnil | ⟨start, c, hconcat⟩
    · rw [hnil] at hstart hparts
      exact Or.inl ⟨hstart, if_pos hstart, hparts⟩
    · rw [List.concat_eq_append] at hconcat
      have hlast := List.rdropWhile_last_not (fun c => decide (c ≠ ' '))
        (input.take (min cursor input.length)) (by rw [hconcat]; simp)
      simp only [hconcat, List.getLast_append_singleton, decide_eq_true_eq, not_not] at hlast
      subst hlast
      rw [hconcat] at hstart hparts
      have hbefore : before input cursor suffix = start := by
        have hinput := List.take_append_drop (min cursor input.length) input
        rw [before, hstart, if_neg (by simp), List.length_append, List.length_singleton,
          Nat.add_sub_cancel, ← hinput, ← hparts]
        simp
      have htake : input.take (wordStart input cursor suffix) = start ++ [' '] := by
        have hinput := List.take_append_drop (min cursor input.length) input
        rw [hstart, ← hinput, ← hparts, List.append_assoc, List.take_left]
      rw [hbefore]
      refine Or.inr ⟨htake, ?_⟩
      rw [← hparts]
      simp

/-- The line is what is before the token, the token, and what is after the caret. -/
theorem line_eq : input.take (wordStart input cursor suffix) ++ word input cursor suffix ++
    after input cursor = input := by
  have htoken : input.take (wordStart input cursor suffix) ++ word input cursor suffix =
      input.take (min cursor input.length) := by
    rcases line_cases input cursor suffix with ⟨hstart, -, hword⟩ | ⟨hstart, hfront⟩
    · rw [hstart, List.take_zero, List.nil_append, hword]
    · rw [hstart, hfront]
      simp
  rw [htoken]
  exact List.take_append_drop _ _

/-- A blank at the start is trimmed, so that it makes no difference whether it is there. -/
theorem trimStart_before (s : List Char) :
    trimStart (before input cursor suffix ++ ' ' :: s) =
      trimStart (input.take (wordStart input cursor suffix) ++ s) := by
  rcases line_cases input cursor suffix with ⟨hstart, hbefore, -⟩ | ⟨hstart, hfront⟩
  · rw [hstart, hbefore]
    rfl
  · rw [hstart]
    simp

theorem trimStart_trimStart (s : List Char) : trimStart (trimStart s) = trimStart s :=
  List.dropWhile_idempotent _ s

/-- In the address form there is no blank after the caret. -/
theorem blank_not_mem_after {input : List Char} {cursor : ℕ} {suffix : Char}
    (haddress : addressForm input suffix = true) : ' ' ∉ after input cursor := by
  intro hmem
  rw [addressForm, Bool.not_eq_true', List.any_eq_false] at haddress
  exact haddress ' ' (List.mem_of_mem_drop hmem) (by rw [Bool.or_eq_true]; exact Or.inl rfl)

theorem trimStart_append_iff {s t : List Char} (ht : ' ' ∉ t) :
    trimStart s = trimStart (s ++ t) ↔ t = [] := by
  constructor
  · intro h
    unfold trimStart at h
    rw [List.dropWhile_append] at h
    split_ifs at h with hblank
    · rw [List.isEmpty_iff.mp hblank] at h
      cases t with
      | nil => rfl
      | cons c t =>
        have hc : ¬c = ' ' := fun hc => ht (hc ▸ List.mem_cons_self)
        rw [List.dropWhile_cons, if_neg (by simpa using hc)] at h
        cases h
    · exact List.append_right_eq_self.mp h.symm
  · rintro rfl
    rw [List.append_nil]

end Parts

section Kept

variable (names : List (List Char)) (input : List Char) (cursor : ℕ) (reverse : Bool)
  (suffix : Char) (oldStyle : Bool)

/-- What a completion is, from what becomes of the token. -/
def completed (info : List (List Char)) : Becomes → Option Completion
  | .token => some { text := input, cursor := some (min cursor input.length), info := info }
  | .name n => single input cursor suffix n
  | .start cp =>
    if addressForm input suffix then some { text := cp, cursor := none, info := info }
    else
      (rebuild (before input cursor suffix) cp (after input cursor)).map fun c =>
        { c with info := info }

theorem completeStyled_eq : completeStyled names input cursor reverse suffix oldStyle =
    match becomes names (word input cursor suffix) reverse oldStyle with
    | none => some none
    | some b => (completed input cursor suffix
        (candidates names (word input cursor suffix)) b).map some := by
  unfold completeStyled becomes
  dsimp only
  generalize word input cursor suffix = token
  by_cases hnil : token = []
  · rw [if_pos hnil, if_pos hnil]
  · rw [if_neg hnil, if_neg hnil]
    by_cases hmem : token ∈ names
    · rw [if_pos hmem, if_pos hmem]
      by_cases hlength : 1 < names.length
      · rw [if_pos hlength, if_pos hlength]
        have hlt : cycle (names.idxOf token) names.length reverse < names.length := by
          unfold cycle
          split_ifs
          · exact Nat.mod_lt _ (by omega)
          · exact Nat.mod_lt _ (by omega)
        rw [List.getElem?_eq_getElem hlt]
        rfl
      · rw [if_neg hlength, if_neg hlength]
    · rw [if_neg hmem, if_neg hmem]
      cases candidates names token with
      | nil => rfl
      | cons name others =>
        cases others with
        | nil => rfl
        | cons other others =>
          dsimp only
          by_cases hold : oldStyle = true
          · rw [if_pos hold, if_pos hold]
            rfl
          · obtain ⟨cp, hcp, -⟩ := exists_commonPrefixCi name (other :: others)
            rw [if_neg hold, if_neg hold, hcp, Option.bind_some, Option.map_some]
            by_cases hlonger : (encode token).length < (encode cp).length
            · rw [if_pos hlonger, if_pos hlonger]
              dsimp only [completed]
              split_ifs
              · rfl
              · rw [Option.map_map]
                rfl
            · rw [if_neg hlonger, if_neg hlonger]
              rfl

variable {names input cursor reverse suffix oldStyle}

/-- The common start that a token is completed to begins with no blank. -/
theorem head_of_becomes_start {token cp : List Char} (htoken : ' ' ∉ token)
    (h : becomes names token reverse oldStyle = some (.start cp)) :
    ∃ c rest, cp = c :: rest ∧ c ≠ ' ' := by
  unfold becomes at h
  by_cases hnil : token = []
  · rw [if_pos hnil] at h
    cases h
  rw [if_neg hnil] at h
  by_cases hmem : token ∈ names
  · rw [if_pos hmem] at h
    split_ifs at h
    simp at h
  rw [if_neg hmem] at h
  have hfirst : ∀ name ∈ candidates names token, ∃ c rest, name = c :: rest ∧ c ≠ ' ' :=
    fun name hname => head_of_hasPrefixCi (mem_candidates hname).2 hnil htoken
  cases hcandidates : candidates names token with
  | nil => simp [hcandidates] at h
  | cons name others =>
    obtain ⟨c, rest, rfl, hc⟩ := hfirst name (by rw [hcandidates]; exact List.mem_cons_self)
    cases others with
    | nil => simp [hcandidates] at h
    | cons other others =>
      obtain ⟨start, hcp, hprefix⟩ := exists_commonPrefixCi (c :: rest) (other :: others)
      rw [hcandidates] at h
      dsimp only at h
      by_cases hold : oldStyle = true
      · rw [if_pos hold] at h
        cases h
      rw [if_neg hold, hcp, Option.map_some] at h
      split_ifs at h with hlonger
      · obtain rfl := Becomes.start.inj (Option.some.inj h)
        cases start with
        | nil => exact absurd hlonger (Nat.not_lt_zero _)
        | cons d more =>
          rw [List.cons_prefix_cons] at hprefix
          exact ⟨d, more, rfl, hprefix.1 ▸ hc⟩
      · cases h

/-- A completion keeps the rest of the line and does not panic exactly if the rest is safe. -/
theorem completeStyled_keepsRest_iff (names : List (List Char)) (input : List Char) (cursor : ℕ)
    (reverse : Bool) (suffix : Char) (oldStyle : Bool) :
    KeepsRest names input cursor reverse suffix oldStyle ↔
      RestIsSafe names input cursor reverse suffix oldStyle := by
  unfold KeepsRest RestIsSafe
  rw [completeStyled_eq]
  cases hbecomes : becomes names (word input cursor suffix) reverse oldStyle with
  | none =>
    refine iff_of_true ⟨none, rfl, fun c hc => absurd hc (Option.not_mem_none c)⟩ ?_
    exact fun b hb => absurd hb (Option.not_mem_none b)
  | some b =>
    simp only [Option.mem_some_iff, forall_eq']
    cases b with
    | token =>
      refine iff_of_true ⟨_, rfl, ?_⟩ trivial
      simp only [Option.mem_some_iff, forall_eq', exists_eq_left']
      refine ⟨Nat.min_le_right _ _, ?_⟩
      rw [Becomes.text, line_eq]
    | name n =>
      rw [completed, single]
      by_cases haddress : addressForm input suffix = true
      · simp only [if_pos haddress, Option.map_some, Option.some.injEq, exists_eq_left',
          Option.mem_some_iff, forall_eq', Becomes.text]
        have htake : input.take (wordStart input cursor suffix) = [] := by
          rw [wordStart, if_pos haddress, List.take_zero]
        rw [htake, List.nil_append, trimStart_append_iff (blank_not_mem_after haddress)]
        exact and_iff_right (Nat.le_refl _)
      · simp only [if_neg haddress, Becomes.text]
        constructor
        · rintro ⟨result, hresult, -⟩ ⟨hbefore, hname, hafter⟩
          rw [rebuild_eq_none hbefore hname hafter] at hresult
          cases hresult
        · intro hsafe
          obtain ⟨caret, hcaret, hrebuild⟩ := exists_rebuild hsafe
          refine ⟨_, congrArg (Option.map some) hrebuild, ?_⟩
          simp only [Option.mem_some_iff, forall_eq', exists_eq_left']
          refine ⟨hcaret, ?_⟩
          rw [trimStart_trimStart, trimStart_before, List.append_assoc]
    | start cp =>
      rw [completed]
      by_cases haddress : addressForm input suffix = true
      · simp only [if_pos haddress, Option.map_some, Option.some.injEq, exists_eq_left',
          Option.mem_some_iff, forall_eq', Becomes.text]
        have htake : input.take (wordStart input cursor suffix) = [] := by
          rw [wordStart, if_pos haddress, List.take_zero]
        rw [htake, List.nil_append, trimStart_append_iff (blank_not_mem_after haddress),
          forall_prop_of_true haddress]
        exact and_iff_right (Nat.le_refl _)
      · obtain ⟨c, rest, rfl, hc⟩ :=
          head_of_becomes_start (blank_not_mem_word input cursor suffix) hbecomes
        have hsafe : ¬((∀ d ∈ before input cursor suffix, d = ' ') ∧ (∀ d ∈ c :: rest, d = ' ') ∧
            (after input cursor).head? = some ' ') := fun h => hc (h.2.1 c List.mem_cons_self)
        obtain ⟨caret, hcaret, hrebuild⟩ := exists_rebuild hsafe
        refine iff_of_true ⟨some _, by rw [if_neg haddress, hrebuild]; rfl, ?_⟩
          fun h => absurd h haddress
        simp only [Option.mem_some_iff, forall_eq', exists_eq_left']
        refine ⟨hcaret, ?_⟩
        rw [trimStart_trimStart, trimStart_before, Becomes.text, List.append_assoc]

/-- What is after the caret is lost in the address form, and a name of no characters before a blank
is a panic. -/
theorem rest_lost :
    ¬KeepsRest ["alice".toList] "ali!".toList 3 false ':' false ∧
      ¬KeepsRest [[], "bob".toList] "bob x".toList 3 true ':' false := by
  constructor
  · rintro ⟨result, hresult, hkeeps⟩
    have hcompleted : completeStyled ["alice".toList] "ali!".toList 3 false ':' false =
        some (some { text := "alice: ".toList, cursor := none, info := [] }) := by decide
    rw [hcompleted] at hresult
    obtain rfl := Option.some.inj hresult
    obtain ⟨-, b, hb, htext⟩ := hkeeps _ rfl
    have hbecomes : becomes ["alice".toList] (word "ali!".toList 3 ':') false false =
        some (.name "alice".toList) := by rfl
    rw [hbecomes] at hb
    obtain rfl := Option.some.inj hb
    exact absurd htext (by decide)
  · rintro ⟨result, hresult, -⟩
    have hpanic : completeStyled [[], "bob".toList] "bob x".toList 3 true ':' false = none := by
      decide
    rw [hpanic] at hresult
    cases hresult

end Kept

end Gtkhx.Chat
