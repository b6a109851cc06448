import Gtkhx.Library.Cut
import Gtkhx.Library.Numeral
import Gtkhx.Library.Text

/-!
# Host and port

A host and a port in one text, as bookmarks are written with them and connections are made to them.
Two readers take such a text apart. Both look for ASCII characters only, so that characters stand
for the bytes one of them goes through.
-/

namespace Gtkhx.Bookmarks

open Cut

/-- A complete decimal port from 1 to 65535. -/
def validPort (p : List Char) : Bool :=
  p ≠ [] && p.all Char.isDigit &&
    match Text.parseU32 p with
    | some n => 1 ≤ n.toNat && n.toNat ≤ 65535
    | none => false

/-- A text that begins with a bracket: what follows it is `rest`. -/
def splitBracketed (s rest : List Char) : List Char × List Char :=
  match cut ']' rest with
  | some (host, []) => (host, [])
  | some (host, c :: p) => if c = ':' ∧ validPort p = true then (host, p) else (s, [])
  | none => (s, [])

/-- Any other text. With more colons than one it is a host. -/
def splitPlain (s : List Char) : List Char × List Char :=
  if s.count ':' = 1 then
    match cut ':' s with
    | some (h, p) => if validPort p then (h, p) else (s, [])
    | none => (s, [])
  else (s, [])

/-- A host and a port, which is empty when there is none. What is neither clean is kept whole as
the host. -/
def split (s : List Char) : List Char × List Char :=
  match Text.trim s with
  | [] => ([], [])
  | c :: rest => if c = '[' then splitBracketed (c :: rest) rest else splitPlain (c :: rest)

/-- A host with its port, if there is one. -/
def join (host port : List Char) : List Char := if port = [] then host else host ++ ':' :: port

/-- The connection's reading of a port. -/
def readPort (p : List Char) : Option UInt16 :=
  match Numeral.strtoll Char.toNat p with
  | none => none
  | some (v, errno, rest) =>
    if errno = true ∨ rest ≠ [] ∨ v < 1 ∨ 65535 < v then none else some (UInt16.ofNat v.toNat)

/-- Where the host ends, and the port begins if there is one. -/
def hostAndPort (str : List Char) : Option (List Char × Option (List Char)) :=
  if str.head? = some '[' then
    match cut ']' str with
    | none => none
    | some (before, []) => some (before.tail, none)
    | some (before, c :: p) => if c = ':' then some (before.tail, some p) else none
  else
    match cut ':' str with
    | some (h, p) => if ':' ∈ p then some (str, none) else some (h, some p)
    | none => some (str, none)

/-- The host, the port, and whether there was one. -/
def gtkhxParseHostPort (str : List Char) (defaultPort : UInt16) :
    Option (List Char × UInt16 × Bool) :=
  match hostAndPort str with
  | none => none
  | some (host, portStr) =>
    if host = [] then none
    else
      match portStr with
      | none => some (host, defaultPort, false)
      | some p => if p = [] then none else (readPort p).map fun port => (host, port, true)

/-- What a bookmark's reader makes of a text is what the connection's makes of it. -/
def Agrees (s : List Char) (defaultPort : UInt16) : Prop :=
  match gtkhxParseHostPort s defaultPort with
  | some (host, port, hadPort) =>
    (split s).1 = host ∧
      if hadPort then
        (split s).2 ≠ [] ∧ (split s).2.all Char.isDigit = true ∧
          Nat.ofDigitChars 10 (split s).2 0 = port.toNat
      else (split s).2 = []
  | none => split s = (s, [])

section Ports

variable {p : List Char}

theorem isDigit_toNat (c : Char) : Numeral.isDigit Char.toNat c = c.isDigit := by
  rw [Bool.eq_iff_iff, Text.isDigit_iff, Numeral.isDigit, Bool.and_eq_true, decide_eq_true_eq,
    decide_eq_true_eq]

theorem value_toNat (p : List Char) : Numeral.value Char.toNat p = Nat.ofDigitChars 10 p 0 := by
  rw [Numeral.value, Nat.ofDigitChars]
  rfl

/-- A port is digits whose number is in range. -/
theorem validPort_iff : validPort p = true ↔ p ≠ [] ∧ p.all Char.isDigit = true ∧
    1 ≤ Nat.ofDigitChars 10 p 0 ∧ Nat.ofDigitChars 10 p 0 ≤ 65535 := by
  by_cases hdigits : p ≠ [] ∧ p.all Char.isDigit = true
  · obtain ⟨hne, hall⟩ := hdigits
    have hplus : p.head? ≠ some '+' := by
      cases p with
      | nil => exact absurd rfl hne
      | cons c p =>
        intro hhead
        rw [List.all_cons, Bool.and_eq_true] at hall
        rw [Option.some.inj hhead] at hall
        exact absurd hall.1 (by decide)
    have hnot : ¬(p = [] ∨ p.all Char.isDigit = false) := by simp [hne, hall]
    simp only [validPort, Text.parseU32, if_neg hplus, if_neg hnot]
    split_ifs with hsmall
    · simp only [UInt32.toNat_ofNat', Nat.mod_eq_of_lt hsmall]
      simp [hne, hall]
    · simp only [Bool.and_false, Bool.false_eq_true, false_iff, not_and]
      intro _ _ _
      omega
  · constructor
    · intro hvalid
      simp only [validPort, Bool.and_eq_true, decide_eq_true_eq] at hvalid
      exact absurd hvalid.1 hdigits
    · rintro ⟨hne, hall, -⟩
      exact absurd ⟨hne, hall⟩ hdigits

/-- A port is read of a number without a minus sign that is in range and has nothing after it. -/
theorem readPort_eq (p : List Char) : readPort p =
    (Numeral.read Char.toNat p).bind fun r =>
      if r.negative = false ∧ r.rest = [] ∧ 1 ≤ r.magnitude ∧ r.magnitude ≤ 65535 then
        some (UInt16.ofNat r.magnitude)
      else none := by
  unfold readPort Numeral.strtoll
  cases Numeral.read Char.toNat p with
  | none => rfl
  | some r =>
    obtain ⟨negative, magnitude, rest⟩ := r
    rw [Option.map_some, Option.bind_some]
    cases negative with
    | true =>
      have hlow : ¬(2 ^ 63 : ℤ) ≤ -magnitude := by omega
      have hsmall : -(magnitude : ℤ) < 1 := by omega
      simp only [if_true, if_neg hlow, Bool.true_eq_false, false_and, if_false]
      by_cases hfar : -(magnitude : ℤ) < -2 ^ 63
      · simp only [if_pos hfar, true_or, if_true]
      · simp only [if_neg hfar, hsmall, true_or, or_true, if_true]
    | false =>
      have hlow : ¬(magnitude : ℤ) < -2 ^ 63 := by omega
      simp only [Bool.false_eq_true, if_false, if_neg hlow, true_and]
      by_cases hfar : (2 ^ 63 : ℤ) ≤ magnitude
      · simp only [if_pos hfar, true_or, if_true]
        rw [if_neg]
        omega
      · simp only [if_neg hfar, Bool.false_eq_true, false_or, Int.toNat_natCast]
        by_cases hgood : rest = [] ∧ 1 ≤ magnitude ∧ magnitude ≤ 65535
        · rw [if_neg, if_pos hgood]
          rintro (hrest | hlow' | hhigh)
          · exact hrest hgood.1
          · omega
          · omega
        · rw [if_pos, if_neg hgood]
          by_contra hnot
          simp only [not_or, ne_eq, not_not] at hnot
          exact hgood ⟨hnot.1, by omega, by omega⟩

theorem digits_of_all (h : p.all Char.isDigit = true) :
    ∀ c ∈ p, Numeral.isDigit Char.toNat c = true := by
  intro c hc
  rw [isDigit_toNat]
  exact List.all_eq_true.mp h c hc

theorem all_of_digits (h : ∀ c ∈ p, Numeral.isDigit Char.toNat c = true) :
    p.all Char.isDigit = true := by
  refine List.all_eq_true.mpr fun c hc => ?_
  rw [← isDigit_toNat]
  exact h c hc

/-- A port that is plain digits is read by either reader. -/
theorem readPort_of_validPort (h : validPort p = true) :
    readPort p = some (UInt16.ofNat (Nat.ofDigitChars 10 p 0)) := by
  obtain ⟨hne, hall, hlow, hhigh⟩ := validPort_iff.mp h
  rw [readPort_eq, Numeral.read_of_digits hne (digits_of_all hall), Option.bind_some, value_toNat]
  exact if_pos ⟨rfl, rfl, hlow, hhigh⟩

/-- A port in range with white space or a plus sign before its digits. -/
def Spelled (p : List Char) : Prop :=
  ∃ spaces sign digits, p = spaces ++ (sign ++ digits) ∧
    (∀ c ∈ spaces, Numeral.isSpace Char.toNat c = true) ∧ (sign = [] ∨ sign = ['+']) ∧
    spaces ++ sign ≠ [] ∧ validPort digits = true

theorem not_validPort_of_spelled (h : Spelled p) : validPort p = false := by
  obtain ⟨spaces, sign, digits, rfl, hspaces, hsign, hne, -⟩ := h
  rw [Bool.eq_false_iff]
  intro hvalid
  obtain ⟨-, hall, -⟩ := validPort_iff.mp hvalid
  obtain ⟨c, hc⟩ := List.exists_mem_of_ne_nil _ hne
  have hdigit : c.isDigit = true := by
    refine List.all_eq_true.mp hall c ?_
    rcases List.mem_append.mp hc with hc | hc
    · exact List.mem_append_left _ hc
    · exact List.mem_append_right _ (List.mem_append_left _ hc)
  rcases List.mem_append.mp hc with hc | hc
  · have hspace := hspaces c hc
    rw [← isDigit_toNat] at hdigit
    rw [Numeral.not_isSpace_of_isDigit hdigit] at hspace
    cases hspace
  · rcases hsign with rfl | rfl
    · cases hc
    · rw [List.mem_singleton.mp hc] at hdigit
      exact absurd hdigit (by decide)

theorem isSome_readPort_of_spelled (h : Spelled p) : (readPort p).isSome = true := by
  obtain ⟨spaces, sign, digits, rfl, hspaces, hsign, -, hvalid⟩ := h
  obtain ⟨hne, hall, hlow, hhigh⟩ := validPort_iff.mp hvalid
  have hdigits := digits_of_all hall
  have hread : Numeral.read Char.toNat (spaces ++ (sign ++ digits)) =
      some ⟨false, Numeral.value Char.toNat digits, []⟩ := by
    have hstart : (sign ++ digits).dropWhile (Numeral.isSpace Char.toNat) = sign ++ digits := by
      rcases hsign with rfl | rfl
      · cases digits with
        | nil => rfl
        | cons c digits =>
          rw [List.nil_append, List.dropWhile_cons,
            Numeral.not_isSpace_of_isDigit (hdigits c List.mem_cons_self)]
          rfl
      · rfl
    rw [Numeral.read, List.dropWhile_append_of_pos hspaces, hstart]
    rcases hsign with rfl | rfl
    · exact Numeral.readSigned_of_digits hne hdigits
    · exact Numeral.readDigits_of_digits hne hdigits false
  rw [readPort_eq, hread, Option.bind_some, value_toNat, if_pos ⟨rfl, rfl, hlow, hhigh⟩,
    Option.isSome_some]

/-- The connection's reader takes a port that is plain, or one with white space or a plus sign. -/
theorem isSome_readPort_iff :
    (readPort p).isSome = true ↔ validPort p = true ∨ Spelled p := by
  constructor
  · intro h
    obtain ⟨n, hn⟩ := Option.isSome_iff_exists.mp h
    rw [readPort_eq] at hn
    obtain ⟨r, hread, hr⟩ := Option.bind_eq_some_iff.mp hn
    split_ifs at hr with hgood
    obtain ⟨hsign, hrest, hlow, hhigh⟩ := hgood
    rw [Numeral.read] at hread
    have hsplit := List.takeWhile_append_dropWhile (p := Numeral.isSpace Char.toNat) (l := p)
    have hspaces : ∀ c ∈ p.takeWhile (Numeral.isSpace Char.toNat),
        Numeral.isSpace Char.toNat c = true := fun c hc => List.mem_takeWhile_imp hc
    have hport : ∀ digits, Numeral.readDigits Char.toNat false digits = some r →
        validPort digits = true := by
      intro digits hdigits
      obtain ⟨hne, hall, rfl⟩ := Numeral.digits_of_readDigits hdigits hrest
      rw [value_toNat] at hlow hhigh
      exact validPort_iff.mpr ⟨hne, all_of_digits hall, hlow, hhigh⟩
    generalize p.dropWhile (Numeral.isSpace Char.toNat) = t at hread hsplit
    generalize p.takeWhile (Numeral.isSpace Char.toNat) = spaces at hspaces hsplit
    unfold Numeral.readSigned at hread
    split_ifs at hread with hminus hplus
    · obtain ⟨-, -, rfl⟩ := Numeral.digits_of_readDigits hread hrest
      cases hsign
    · right
      cases t with
      | nil => cases hplus
      | cons c t =>
        have hc : c = '+' := Char.toNat_inj.mp (by simpa [Numeral.starts] using hplus)
        exact ⟨spaces, ['+'], t, by rw [← hsplit, hc]; rfl, hspaces, Or.inr rfl, by simp,
          hport t hread⟩
    · by_cases hnil : spaces = []
      · left
        rw [← hsplit, hnil]
        exact hport t hread
      · right
        exact ⟨spaces, [], t, hsplit.symm, hspaces, Or.inl rfl, by simpa using hnil,
          hport t hread⟩
  · rintro (hvalid | hspelled)
    · rw [readPort_of_validPort hvalid, Option.isSome_some]
    · exact isSome_readPort_of_spelled hspelled

end Ports

/-- A host and a port in one text, with a single colon or with the host in brackets. -/
def Joined (h p s : List Char) : Prop :=
  ':' ∉ h ∧ ':' ∉ p ∧ h.head? ≠ some '[' ∧ s = h ++ ':' :: p ∨
    ']' ∉ h ∧ s = '[' :: (h ++ ']' :: ':' :: p)

/-- Where the two readers part: an empty host before a plain port or in brackets, and a host with a
port that has white space or a plus sign before its digits. -/
def Differs (s : List Char) : Prop :=
  s = ['[', ']'] ∨ ∃ h p, Joined h p s ∧ (h = [] ∧ validPort p = true ∨ h ≠ [] ∧ Spelled p)

section Agreement

variable {s : List Char}

/-- How a text is put together, for both readers. -/
theorem split_cases (htrim : Text.trim s = s) (hne : s ≠ []) :
    split s = (s, []) ∧ hostAndPort s = none ∨
    (split s = (s, []) ∧ hostAndPort s = some (s, none)) ∨
    (∃ h, s = '[' :: (h ++ [']']) ∧ split s = (h, []) ∧ hostAndPort s = some (h, none)) ∨
    ∃ h p, Joined h p s ∧ split s = (if validPort p then (h, p) else (s, [])) ∧
      hostAndPort s = some (h, some p) := by
  obtain ⟨c, rest, rfl⟩ := List.exists_cons_of_ne_nil hne
  by_cases hbracket : c = '['
  · subst hbracket
    have hsplit : split ('[' :: rest) = splitBracketed ('[' :: rest) rest := by
      rw [split, htrim]
      exact if_pos rfl
    rw [hsplit, splitBracketed, hostAndPort, List.head?_cons, if_pos rfl, cut,
      if_neg (by decide)]
    rcases cut_cases ']' rest with ⟨-, hcut⟩ | ⟨h, after, hnot, rfl, hcut⟩
    · left
      rw [hcut]
      exact ⟨rfl, rfl⟩
    · rw [hcut]
      cases after with
      | nil => exact Or.inr (Or.inr (Or.inl ⟨h, rfl, rfl, rfl⟩))
      | cons d p =>
        by_cases hd : d = ':'
        · subst hd
          refine Or.inr (Or.inr (Or.inr ⟨h, p, Or.inr ⟨hnot, rfl⟩, ?_, rfl⟩))
          simp
        · left
          simp [hd]
  · have hsplit : split (c :: rest) = splitPlain (c :: rest) := by
      rw [split, htrim]
      exact if_neg hbracket
    have hhead : ¬(c :: rest).head? = some '[' := by simpa using hbracket
    rw [hsplit, splitPlain, hostAndPort, if_neg hhead]
    rcases cut_cases ':' (c :: rest) with ⟨hnot, hcut⟩ | ⟨h, p, hnot, hs, hcut⟩
    · right; left
      rw [hcut, if_neg (by rw [List.count_eq_zero_of_not_mem hnot]; omega)]
      exact ⟨rfl, rfl⟩
    · rw [hcut]
      have hcount : (c :: rest).count ':' = p.count ':' + 1 := by
        rw [hs, List.count_append, List.count_eq_zero_of_not_mem hnot, List.count_cons_self,
          Nat.zero_add]
      by_cases hp : ':' ∈ p
      · right; left
        have hpos := List.count_pos_iff.mpr hp
        rw [if_neg (by omega)]
        exact ⟨rfl, if_pos hp⟩
      · right; right; right
        have hstart : h.head? ≠ some '[' := by
          intro hstart
          cases h with
          | nil => cases hstart
          | cons d h =>
            rw [List.cons_append] at hs
            obtain ⟨rfl, -⟩ := List.cons.inj hs
            exact hhead hstart
        have hzero := List.count_eq_zero_of_not_mem hp
        refine ⟨h, p, Or.inl ⟨hnot, hp, hstart, hs⟩, ?_, if_neg hp⟩
        rw [if_pos (by omega)]

theorem ne_of_joined {h p : List Char} (hjoined : Joined h p s) : s ≠ h := by
  intro heq
  have hlength := congrArg List.length heq
  rcases hjoined with ⟨-, -, -, rfl⟩ | ⟨-, rfl⟩
  · simp at hlength
  · simp only [List.length_cons, List.length_append] at hlength
    omega

theorem hostAndPort_of_joined {h p : List Char} (hjoined : Joined h p s) :
    hostAndPort s = some (h, some p) := by
  rcases hjoined with ⟨hnot, hp, hhead, rfl⟩ | ⟨hnot, rfl⟩
  · have hstart : ¬(h ++ ':' :: p).head? = some '[' := by
      cases h with
      | nil => simp
      | cons c h => exact hhead
    rw [hostAndPort, if_neg hstart, cut_append hnot]
    exact if_neg hp
  · have hcut : cut ']' ('[' :: (h ++ ']' :: ':' :: p)) = some ('[' :: h, ':' :: p) := by
      rw [cut, if_neg (by decide), cut_append hnot, Option.map_some]
    rw [hostAndPort, List.head?_cons, if_pos rfl, hcut]
    rfl

/-- The readers agree on a text with a host and a port unless they part there. -/
theorem agrees_of_joined {h p : List Char} (hjoined : Joined h p s) (defaultPort : UInt16)
    (hsplit : split s = if validPort p then (h, p) else (s, []))
    (hparse : hostAndPort s = some (h, some p)) :
    Agrees s defaultPort ↔ ¬(h = [] ∧ validPort p = true ∨ h ≠ [] ∧ Spelled p) := by
  have hne := ne_of_joined hjoined
  unfold Agrees
  rw [gtkhxParseHostPort, hparse, hsplit]
  dsimp only
  by_cases hempty : h = []
  · subst hempty
    rw [if_pos rfl]
    cases hvalid : validPort p with
    | true => simp [hne.symm]
    | false => simp
  · have hread := isSome_readPort_iff (p := p)
    rw [if_neg hempty]
    cases hvalid : validPort p with
    | true =>
      obtain ⟨hpne, hall, hlow, hhigh⟩ := validPort_iff.mp hvalid
      have hnot : ¬Spelled p := fun hspelled => by
        rw [not_validPort_of_spelled hspelled] at hvalid
        cases hvalid
      have hport : (UInt16.ofNat (Nat.ofDigitChars 10 p 0)).toNat = Nat.ofDigitChars 10 p 0 := by
        rw [UInt16.toNat_ofNat']
        exact Nat.mod_eq_of_lt (by omega)
      have hall' : ∀ c ∈ p, c.isDigit = true := List.all_eq_true.mp hall
      rw [if_neg hpne, readPort_of_validPort hvalid]
      simp [hempty, hnot, hport, hpne]
      exact hall'
    | false =>
      rw [hvalid] at hread
      cases hport : readPort p with
      | none =>
        rw [hport] at hread
        have hnot : ¬Spelled p := fun hspelled => by
          have hsome := hread.mpr (Or.inr hspelled)
          cases hsome
        simp [hempty, hnot]
      | some n =>
        rw [hport] at hread
        have hspelled : Spelled p := (hread.mp rfl).resolve_left Bool.false_ne_true
        have hpne : p ≠ [] := by
          rintro rfl
          cases hport
        simp [hempty, hspelled, hpne]

/-- For every text without white space at its ends, the bookmark's reader agrees with the
connection's exactly if neither its host is empty nor its port spelled in another way. -/
theorem agrees_iff (s : List Char) (htrim : Text.trim s = s) (defaultPort : UInt16) :
    Agrees s defaultPort ↔ ¬Differs s := by
  have hempty : hostAndPort ['[', ']'] = some ([], none) := rfl
  by_cases hne : s = []
  · subst hne
    refine iff_of_true rfl ?_
    rintro (hbrackets | ⟨h, p, hjoined, -⟩)
    · cases hbrackets
    · have hparse := hostAndPort_of_joined hjoined
      cases hparse
  · rcases split_cases htrim hne with ⟨hsplit, hparse⟩ | ⟨hsplit, hparse⟩ |
      ⟨h, hs, hsplit, hparse⟩ | ⟨h, p, hjoined, hsplit, hparse⟩
    · refine iff_of_true ?_ ?_
      · rw [Agrees, gtkhxParseHostPort, hparse]
        exact hsplit
      · rintro (rfl | ⟨h, p, hjoined, -⟩)
        · rw [hempty] at hparse
          cases hparse
        · rw [hostAndPort_of_joined hjoined] at hparse
          cases hparse
    · refine iff_of_true ?_ ?_
      · rw [Agrees, gtkhxParseHostPort, hparse]
        simp [hne, hsplit]
      · rintro (rfl | ⟨h, p, hjoined, -⟩)
        · rw [hempty] at hparse
          cases hparse
        · rw [hostAndPort_of_joined hjoined] at hparse
          cases hparse
    · rw [Agrees, gtkhxParseHostPort, hparse]
      by_cases hnil : h = []
      · subst hnil
        refine iff_of_false ?_ fun hnot => hnot (Or.inl hs)
        simp [hsplit, Ne.symm hne]
      · refine iff_of_true ?_ ?_
        · simp [hnil, hsplit]
        · rintro (rfl | ⟨h', p, hjoined, -⟩)
          · rw [hempty] at hparse
            exact hnil (Prod.mk.inj (Option.some.inj hparse)).1.symm
          · rw [hostAndPort_of_joined hjoined] at hparse
            cases hparse
    · rw [agrees_of_joined hjoined defaultPort hsplit hparse]
      refine not_congr ⟨fun hdiffers => Or.inr ⟨h, p, hjoined, hdiffers⟩, ?_⟩
      rintro (rfl | ⟨h', p', hjoined', hdiffers⟩)
      · rw [hempty] at hparse
        cases hparse
      · rw [hostAndPort_of_joined hjoined'] at hparse
        obtain ⟨rfl, hport⟩ := Prod.mk.inj (Option.some.inj hparse)
        obtain rfl := Option.some.inj hport
        exact hdiffers

/-- A plain host and port are read alike. -/
theorem plain_agrees : Agrees "hlserver.com:5500".toList 5500 ∧
    ¬Differs "hlserver.com:5500".toList := by
  have hparse : gtkhxParseHostPort "hlserver.com:5500".toList 5500 =
      some ("hlserver.com".toList, 5500, true) := by decide
  have hagrees : Agrees "hlserver.com:5500".toList 5500 := by
    rw [Agrees, hparse]
    decide
  exact ⟨hagrees, (agrees_iff _ (by decide) 5500).mp hagrees⟩

/-- A port alone, empty brackets, and ports with a plus sign or a blank are read in two ways. -/
theorem spelled_not_agrees :
    ¬Agrees ":5500".toList 5500 ∧ ¬Agrees "[]".toList 5500 ∧ ¬Agrees "host:+5500".toList 5500 ∧
      ¬Agrees "host: 5500".toList 5500 := by
  have halone : gtkhxParseHostPort ":5500".toList 5500 = none := by decide
  have hempty : gtkhxParseHostPort "[]".toList 5500 = none := by decide
  have hplus : gtkhxParseHostPort "host:+5500".toList 5500 =
      some ("host".toList, 5500, true) := by decide
  have hblank : gtkhxParseHostPort "host: 5500".toList 5500 =
      some ("host".toList, 5500, true) := by decide
  refine ⟨?_, ?_, ?_, ?_⟩
  · rw [Agrees, halone]
    decide
  · rw [Agrees, hempty]
    decide
  · rw [Agrees, hplus]
    decide
  · rw [Agrees, hblank]
    decide

end Agreement

end Gtkhx.Bookmarks
