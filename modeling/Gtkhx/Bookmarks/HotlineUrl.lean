import Gtkhx.Library.Cut
import Gtkhx.Library.Numeral
import Gtkhx.Library.Percent
import Gtkhx.Library.Text

/-!
# Addresses in a text

A `hotline://` address has a login and a password, a host, and a port. It is taken apart as it
stands, and then each part is decoded into a buffer, which cuts what there is no room for.
-/

namespace Gtkhx.Bookmarks

open Cut Text

/-- "hotline://". -/
def scheme : List UInt8 := "hotline://".toList.map byte

def asciiToLower (b : UInt8) : UInt8 :=
  if byte 'A' ≤ b ∧ b ≤ byte 'Z' then b + 32 else b

/-- A byte that ends the part of an address that is read. -/
def endsAddress (b : UInt8) : Bool := b = byte '/' || b = byte '?' || b = byte '#'

/-- The parts of an address as they stand. -/
structure Segments where
  login : List UInt8
  /-- Empty when there is none. -/
  pass : List UInt8
  host : List UInt8
  /-- What follows the colon after the host, if there is one. -/
  port : Option (List UInt8)
  deriving DecidableEq

/-- A host and a port. An IPv6 address is in brackets. -/
def hostSegments (hostinfo : List UInt8) : Option (List UInt8 × Option (List UInt8)) :=
  if hostinfo.head? = some (byte '[') then
    match cut (byte ']') hostinfo with
    | none => none
    | some (before, []) => some (before.tail, none)
    | some (before, c :: port) => if c = byte ':' then some (before.tail, some port) else none
  else if 1 < hostinfo.count (byte ':') then none
  else
    match cut (byte ':') hostinfo with
    | some (host, port) => some (host, some port)
    | none => some (hostinfo, none)

/-- A login and a password. -/
def userSegments (userinfo : List UInt8) : List UInt8 × List UInt8 :=
  match cut (byte ':') userinfo with
  | some parts => parts
  | none => (userinfo, [])

/-- The parts of an address that has a host. -/
def segments (url : List UInt8) : Option Segments :=
  if (url.take 10).map asciiToLower ≠ scheme then none
  else
    let text := (url.drop 10).takeWhile fun b => !endsAddress b
    let user := (cutLast (byte '@') text).elim [] Prod.fst
    let hostinfo := (cutLast (byte '@') text).elim text Prod.snd
    match hostSegments hostinfo with
    | some (host, port) =>
      if host = [] then none
      else some ⟨(userSegments user).1, (userSegments user).2, host, port⟩
    | none => none

/-- What an address says. -/
structure HotlineUrlParts where
  host : List UInt8
  login : List UInt8
  pass : List UInt8
  /-- Zero when there is none. -/
  port : UInt16
  deriving DecidableEq

/-- A number in the range of ports, or zero. -/
def portNumber (text : List UInt8) : UInt16 :=
  match Numeral.strtoul UInt8.toNat text with
  | some (port, rest) => if rest = [] ∧ 0 < port ∧ port ≤ 65535 then UInt16.ofNat port else 0
  | none => 0

section Decoded

variable (unescape : List UInt8 → Option (List UInt8))

/-- A part decoded into a buffer of this size. -/
def unescapeSegment (segment : List UInt8) (size : ℕ) : Option (List UInt8) :=
  if segment = [] then some []
  else (unescape segment).map fun decoded => decoded.take (size - 1)

/-- What an address says, if it is one. -/
def hotlineUrlParse (url : List UInt8) : Option HotlineUrlParts := do
  let parts ← segments url
  let login ← unescapeSegment unescape parts.login 33
  let pass ← unescapeSegment unescape parts.pass 33
  let host ← unescapeSegment unescape parts.host 128
  match parts.port with
  | none => return ⟨host, login, pass, 0⟩
  | some text =>
    let portbuf ← unescapeSegment unescape text 8
    return ⟨host, login, pass, portNumber portbuf⟩

end Decoded

/-- A byte that stands for itself in an address. -/
def unreserved (b : UInt8) : Bool :=
  byte '0' ≤ b && b ≤ byte '9' || byte 'A' ≤ b && b ≤ byte 'Z' || byte 'a' ≤ b && b ≤ byte 'z' ||
    b = byte '-' || b = byte '.' || b = byte '_' || b = byte '~'

/-- In brackets a colon does too. -/
def inBrackets (b : UInt8) : Bool := unreserved b || b = byte ':'

/-- How a host may stand in an address. -/
def HostText (host text : List UInt8) : Prop :=
  Percent.Escaped unreserved host text ∨
    ∃ e, Percent.Escaped inBrackets host e ∧ text = byte '[' :: (e ++ [byte ']'])

/-- A port as it stands after the host. -/
def portText (port : Option ℕ) : List UInt8 :=
  port.elim [] fun n => byte ':' :: (Text.decimal n).map byte

/-- Who logs in where, when there is room for it. -/
structure Address where
  login : List UInt8
  pass : List UInt8
  host : List UInt8
  port : Option ℕ
  login_fits : login.length ≤ 32 ∧ 0 ∉ login
  pass_fits : pass.length ≤ 32 ∧ 0 ∉ pass
  host_fits : host ≠ [] ∧ host.length ≤ 127 ∧ 0 ∉ host
  port_fits : ∀ n ∈ port, 1 ≤ n ∧ n ≤ 65535

/-- What the address is to be read as. -/
def Address.parts (address : Address) : HotlineUrlParts where
  host := address.host
  login := address.login
  pass := address.pass
  port := UInt16.ofNat (address.port.getD 0)

/-- The address stands in a text, where a path, a query, or a fragment may follow it. -/
def Address.IsText (address : Address) (url : List UInt8) : Prop :=
  ∃ l p h suffix, Percent.Escaped unreserved address.login l ∧
    Percent.Escaped unreserved address.pass p ∧ HostText address.host h ∧
    (∀ b ∈ suffix.head?, endsAddress b = true) ∧
    url = scheme ++ (l ++ byte ':' :: p ++ byte '@' :: (h ++ portText address.port)) ++ suffix

section Digits

theorem isDigit_byte {c : Char} (h : c.isDigit = true) :
    Numeral.isDigit UInt8.toNat (byte c) = true := by
  rw [Numeral.isDigit, toNat_byte h, Bool.and_eq_true, decide_eq_true_eq, decide_eq_true_eq]
  exact (isDigit_iff c).mp h

theorem value_bytes {s : List Char} (h : ∀ c ∈ s, c.isDigit = true) :
    Numeral.value UInt8.toNat (s.map byte) = Nat.ofDigitChars 10 s 0 := by
  have hfold : ∀ n, (s.map byte).foldl (fun n b => 10 * n + (b.toNat - 48)) n =
      Nat.ofDigitChars 10 s n := by
    induction s with
    | nil => exact fun _ => rfl
    | cons c s ih =>
      intro n
      rw [List.map_cons, List.foldl_cons, toNat_byte (h c List.mem_cons_self),
        ih fun c hc => h c (List.mem_cons_of_mem _ hc), Nat.ofDigitChars_cons]
      rfl
  exact hfold 0

theorem isDigit_of_mem_decimal_bytes {n : ℕ} {b : UInt8}
    (h : b ∈ (Text.decimal n).map byte) : Numeral.isDigit UInt8.toNat b = true := by
  obtain ⟨c, hc, rfl⟩ := List.mem_map.mp h
  exact isDigit_byte (Text.isDigit_of_mem_decimal hc)

/-- A port's digits are read as the port. -/
theorem portNumber_decimal {n : ℕ} (hlow : 1 ≤ n) (hhigh : n ≤ 65535) :
    portNumber ((Text.decimal n).map byte) = UInt16.ofNat n := by
  have hne : (Text.decimal n).map byte ≠ [] := by
    rw [ne_eq, List.map_eq_nil_iff]
    exact Nat.toDigits_ne_nil
  have hvalue : Numeral.value UInt8.toNat ((Text.decimal n).map byte) = n := by
    rw [value_bytes fun c hc => Text.isDigit_of_mem_decimal hc]
    exact Nat.ofDigitChars_ten_toDigits
  rw [portNumber, Numeral.strtoul,
    Numeral.read_of_digits hne fun b hb => isDigit_of_mem_decimal_bytes hb, hvalue,
    Option.map_some]
  simp only [if_neg (by omega : ¬2 ^ 64 ≤ n), Bool.false_eq_true, if_false]
  exact if_pos ⟨trivial, hlow, hhigh⟩

theorem length_decimal_le {n : ℕ} (hhigh : n ≤ 65535) :
    ((Text.decimal n).map byte).length ≤ 7 := by
  rw [List.length_map]
  exact (Nat.length_toDigits_le_iff (by omega) (by omega)).mpr (by omega)

end Digits

section Assembled

variable {unescape : List UInt8 → Option (List UInt8)} {plain : UInt8 → Bool}
  {login pass host l p h : List UInt8}

theorem unescapeSegment_of_escaped (hf : Percent.Decodes unescape)
    (hplain : plain Percent.sign = false) {s e : List UInt8} {size : ℕ}
    (h : Percent.Escaped plain s e) (hzero : 0 ∉ s) (hlength : s.length ≤ size - 1) :
    unescapeSegment unescape e size = some s := by
  rw [unescapeSegment]
  split_ifs with hnil
  · subst hnil
    cases h
    rfl
  · rw [Percent.decode_of_escaped hf hplain h hzero, Option.map_some,
      List.take_of_length_le hlength]

theorem notMem_portText {b : UInt8} (hcolon : b ≠ byte ':')
    (hdigit : Numeral.isDigit UInt8.toNat b = false) (port : Option ℕ) : b ∉ portText port := by
  cases port with
  | none => exact List.not_mem_nil
  | some n =>
    intro hmem
    rcases List.mem_cons.mp hmem with hb | hb
    · exact hcolon hb
    · rw [isDigit_of_mem_decimal_bytes hb] at hdigit
      cases hdigit

theorem notMem_hostText (hh : HostText host h) {b : UInt8} (hplain : inBrackets b = false)
    (hhex : Percent.hexValue b = none) (hsign : b ≠ Percent.sign)
    (hbrackets : b ≠ byte '[' ∧ b ≠ byte ']') : b ∉ h := by
  rcases hh with hh | ⟨e, he, rfl⟩
  · refine Percent.notMem_of_escaped hh ?_ hhex hsign
    rw [inBrackets, Bool.or_eq_false_iff] at hplain
    exact hplain.1
  · intro hmem
    rcases List.mem_cons.mp hmem with hb | hb
    · exact hbrackets.1 hb
    · rcases List.mem_append.mp hb with hb | hb
      · exact Percent.notMem_of_escaped he hplain hhex hsign hb
      · exact hbrackets.2 (List.mem_singleton.mp hb)

/-- The digits of a port, if there is one. -/
def portDigits (port : Option ℕ) : Option (List UInt8) :=
  port.map fun n => (Text.decimal n).map byte

theorem count_portText (port : Option ℕ) :
    (portText port).count (byte ':') = if port.isSome then 1 else 0 := by
  cases port with
  | none => rfl
  | some n =>
    have hnot : byte ':' ∉ (Text.decimal n).map byte := fun hmem =>
      absurd (isDigit_of_mem_decimal_bytes hmem) (by decide)
    rw [portText, Option.elim_some, List.count_cons_self, List.count_eq_zero_of_not_mem hnot]
    rfl

theorem hostSegments_plain (hnot : byte ':' ∉ h) (hhead : h.head? ≠ some (byte '[')) (hne : h ≠ [])
    (port : Option ℕ) : hostSegments (h ++ portText port) = some (h, portDigits port) := by
  have hstart : ¬(h ++ portText port).head? = some (byte '[') := by
    cases h with
    | nil => exact absurd rfl hne
    | cons b h => exact hhead
  have hcount : ¬1 < (h ++ portText port).count (byte ':') := by
    rw [List.count_append, List.count_eq_zero_of_not_mem hnot, count_portText]
    split_ifs <;> omega
  rw [hostSegments, if_neg hstart, if_neg hcount]
  cases port with
  | none =>
    have happend : h ++ portText none = h := List.append_nil h
    rw [happend, cut_of_notMem hnot]
    rfl
  | some n =>
    rw [portText, Option.elim_some, cut_append hnot]
    rfl

theorem hostSegments_brackets (hnot : byte ']' ∉ h) (port : Option ℕ) :
    hostSegments (byte '[' :: (h ++ [byte ']']) ++ portText port) =
      some (h, portDigits port) := by
  have hbefore : byte ']' ∉ byte '[' :: h := by
    intro hmem
    rcases List.mem_cons.mp hmem with heq | hmem
    · exact absurd heq (by decide)
    · exact hnot hmem
  have hparts : byte '[' :: (h ++ [byte ']']) ++ portText port =
      byte '[' :: h ++ byte ']' :: portText port := by simp
  rw [hparts, hostSegments, List.cons_append, List.head?_cons, if_pos rfl, ← List.cons_append,
    cut_append hbefore]
  cases port with
  | none => rfl
  | some n => exact if_pos rfl

/-- The host and the port are found. -/
theorem hostSegments_of_hostText (hh : HostText host h) (hne : host ≠ []) (port : Option ℕ) :
    ∃ plain e, plain Percent.sign = false ∧ Percent.Escaped plain host e ∧
      hostSegments (h ++ portText port) = some (e, portDigits port) := by
  rcases hh with hh | ⟨e, he, rfl⟩
  · have hhead : h.head? ≠ some (byte '[') := fun hhead =>
      Percent.notMem_of_escaped hh (c := byte '[') (by decide) (by decide) (by decide)
        (List.mem_of_mem_head? hhead)
    exact ⟨unreserved, h, by decide, hh, hostSegments_plain
      (Percent.notMem_of_escaped hh (by decide) (by decide) (by decide)) hhead
      (Percent.ne_nil_of_escaped hh hne) port⟩
  · exact ⟨inBrackets, e, by decide, he, hostSegments_brackets
      (Percent.notMem_of_escaped he (by decide) (by decide) (by decide)) port⟩

/-- A byte that an assembled address has nowhere. -/
def foreign (b : UInt8) : Bool :=
  !inBrackets b && (Percent.hexValue b).isNone && b ≠ Percent.sign && b ≠ byte '@' &&
    b ≠ byte '[' && b ≠ byte ']' && !Numeral.isDigit UInt8.toNat b

theorem notMem_assembled (hl : Percent.Escaped unreserved login l)
    (hp : Percent.Escaped unreserved pass p) (hh : HostText host h) (port : Option ℕ) {b : UInt8}
    (hb : foreign b = true) : b ∉ l ++ byte ':' :: p ++ byte '@' :: (h ++ portText port) := by
  simp only [foreign, Bool.and_eq_true, Bool.not_eq_true', Option.isNone_iff_eq_none,
    decide_eq_true_eq] at hb
  obtain ⟨⟨⟨⟨⟨⟨hin, hhex⟩, hsign⟩, hat⟩, hopen⟩, hclose⟩, hdigit⟩ := hb
  have hboth := hin
  rw [inBrackets, Bool.or_eq_false_iff, decide_eq_false_iff_not] at hboth
  obtain ⟨hplain, hcolon⟩ := hboth
  simp only [List.append_assoc, List.cons_append, List.mem_append, List.mem_cons, not_or]
  exact ⟨Percent.notMem_of_escaped hl hplain hhex hsign, hcolon,
    Percent.notMem_of_escaped hp hplain hhex hsign, hat,
    notMem_hostText hh hin hhex hsign ⟨hopen, hclose⟩, notMem_portText hcolon hdigit port⟩

/-- The parts of an assembled address are found. -/
theorem segments_assembled (hl : Percent.Escaped unreserved login l)
    (hp : Percent.Escaped unreserved pass p) (hh : HostText host h) {e : List UInt8}
    {port : Option ℕ} (hhost : hostSegments (h ++ portText port) = some (e, portDigits port))
    (hne : e ≠ []) {suffix : List UInt8} (hsuffix : ∀ b ∈ suffix.head?, endsAddress b = true) :
    segments (scheme ++ (l ++ byte ':' :: p ++ byte '@' :: (h ++ portText port)) ++ suffix) =
      some ⟨l, p, e, portDigits port⟩ := by
  have htext : ∀ b ∈ l ++ byte ':' :: p ++ byte '@' :: (h ++ portText port),
      (!endsAddress b) = true := by
    intro b hb
    rw [Bool.not_eq_true', Bool.eq_false_iff]
    intro hends
    simp only [endsAddress, Bool.or_eq_true, decide_eq_true_eq] at hends
    rcases hends with (rfl | rfl) | rfl
    · exact notMem_assembled hl hp hh port (by decide) hb
    · exact notMem_assembled hl hp hh port (by decide) hb
    · exact notMem_assembled hl hp hh port (by decide) hb
  have hrest : suffix.takeWhile (fun b => !endsAddress b) = [] := by
    cases suffix with
    | nil => rfl
    | cons b suffix =>
      have hb := hsuffix b rfl
      rw [List.takeWhile_cons, hb]
      rfl
  have hlast : byte '@' ∉ h ++ portText port := by
    rw [List.mem_append, not_or]
    exact ⟨notMem_hostText hh (by decide) (by decide) (by decide) (by decide),
      notMem_portText (by decide) (by decide) port⟩
  have hcut : cutLast (byte '@') (l ++ byte ':' :: p ++ byte '@' :: (h ++ portText port)) =
      some (l ++ byte ':' :: p, h ++ portText port) :=
    cutLast_eq_some_iff.mpr ⟨hlast, rfl⟩
  have huser : userSegments (l ++ byte ':' :: p) = (l, p) := by
    rw [userSegments, cut_append (Percent.notMem_of_escaped hl (by decide) (by decide) (by decide))]
  have hlength : scheme.length = 10 := rfl
  rw [segments, List.append_assoc, List.take_left' hlength, List.drop_left' hlength,
    if_neg (by decide), List.takeWhile_append_of_pos htext, hrest, List.append_nil]
  simp only [hcut, Option.elim_some, hhost, huser]
  exact if_neg hne

/-- An assembled address is read as the one it was assembled of. -/
theorem hotlineUrlParse_of_isText (hf : Percent.Decodes unescape) {address : Address}
    {url : List UInt8} (h : address.IsText url) :
    hotlineUrlParse unescape url = some address.parts := by
  obtain ⟨login, pass, host, port, hlogin, hpass, hhost, hport⟩ := address
  obtain ⟨l, p, h, suffix, hl, hp, hh, hsuffix, rfl⟩ := h
  dsimp only at hl hp hh
  obtain ⟨plain, e, hplain, he, hfound⟩ := hostSegments_of_hostText hh hhost.1 port
  rw [hotlineUrlParse,
    segments_assembled hl hp hh hfound (Percent.ne_nil_of_escaped he hhost.1) hsuffix]
  have hlogin' : unescapeSegment unescape l 33 = some login :=
    unescapeSegment_of_escaped hf (by decide) hl hlogin.2 hlogin.1
  have hpass' : unescapeSegment unescape p 33 = some pass :=
    unescapeSegment_of_escaped hf (by decide) hp hpass.2 hpass.1
  have hhost' : unescapeSegment unescape e 128 = some host :=
    unescapeSegment_of_escaped hf hplain he hhost.2.2 hhost.2.1
  simp only [bind, Option.bind_some, hlogin', hpass', hhost']
  cases port with
  | none => rfl
  | some n =>
    obtain ⟨hlow, hhigh⟩ := hport n rfl
    have hnot : Percent.sign ∉ (Text.decimal n).map byte := fun hmem =>
      absurd (isDigit_of_mem_decimal_bytes hmem) (by decide)
    have hne : (Text.decimal n).map byte ≠ [] := by
      rw [ne_eq, List.map_eq_nil_iff]
      exact Nat.toDigits_ne_nil
    simp only [portDigits, Option.map_some, unescapeSegment, if_neg hne,
      Percent.decode_of_notMem hf hnot, Option.bind_some,
      List.take_of_length_le (length_decimal_le hhigh), portNumber_decimal hlow hhigh]
    rfl

end Assembled

section Ports

variable (unescape : List UInt8 → Option (List UInt8)) (url : List UInt8)

/-- What follows the colon after the host, decoded. -/
def decodedPort : Option (List UInt8) :=
  (segments url).bind fun parts => parts.port.bind unescape

/-- The port that was read, if one was, is the number that its whole text is. -/
def PortWhole (port : UInt16) : Prop :=
  port ≠ 0 → ∃ text, decodedPort unescape url = some text ∧
    Numeral.read UInt8.toNat text = some ⟨false, port.toNat, []⟩

/-- The text has more than seven bytes and the first seven are a port. -/
def PortCut : Prop :=
  ∃ text, decodedPort unescape url = some text ∧ 7 < text.length ∧ portNumber (text.take 7) ≠ 0

variable {unescape url}

/-- A short text that is a port is read to its end. -/
theorem read_of_portNumber {text : List UInt8} (hlength : text.length ≤ 7)
    (hport : portNumber text ≠ 0) :
    0 < (portNumber text).toNat ∧
      Numeral.read UInt8.toNat text = some ⟨false, (portNumber text).toNat, []⟩ := by
  unfold portNumber Numeral.strtoul at hport ⊢
  cases hread : Numeral.read UInt8.toNat text with
  | none =>
    rw [hread] at hport
    exact absurd rfl hport
  | some r =>
    obtain ⟨negative, magnitude, rest⟩ := r
    have hsmall : magnitude < 10 ^ text.length := Numeral.magnitude_lt hread
    have hbound : 10 ^ text.length ≤ 10 ^ 7 := Nat.pow_le_pow_right (by omega) hlength
    have hnot : ¬2 ^ 64 ≤ magnitude := by omega
    rw [hread] at hport
    simp only [Option.map_some, if_neg hnot] at hport ⊢
    cases negative with
    | true =>
      exfalso
      rcases Nat.eq_zero_or_pos magnitude with rfl | hpos
      · exact hport (if_neg (by simp))
      · have hwrapped : (2 ^ 64 - magnitude) % 2 ^ 64 = 2 ^ 64 - magnitude :=
          Nat.mod_eq_of_lt (by omega)
        refine hport (if_neg ?_)
        rintro ⟨-, -, hhigh⟩
        rw [if_pos rfl] at hhigh
        omega
    | false =>
      simp only [Bool.false_eq_true, if_false] at hport ⊢
      by_cases hgood : rest = [] ∧ 0 < magnitude ∧ magnitude ≤ 65535
      · rw [if_pos hgood, UInt16.toNat_ofNat', Nat.mod_eq_of_lt (by omega), hgood.1]
        exact ⟨hgood.2.1, rfl⟩
      · exact absurd (if_neg hgood) hport

/-- The port that is read is of the first seven bytes of its text. -/
theorem port_of_parse {parts : HotlineUrlParts} (hf : unescape [] = some [])
    (h : hotlineUrlParse unescape url = some parts) :
    decodedPort unescape url = none ∧ parts.port = 0 ∨
      ∃ text, decodedPort unescape url = some text ∧ parts.port = portNumber (text.take 7) := by
  rw [hotlineUrlParse] at h
  simp only [bind, Option.bind_eq_some_iff] at h
  obtain ⟨found, hfound, login, -, pass, -, host, -, hport⟩ := h
  rw [decodedPort, hfound, Option.bind_some]
  cases hp : found.port with
  | none =>
    rw [hp] at hport
    cases hport
    exact Or.inl ⟨rfl, rfl⟩
  | some text =>
    rw [hp] at hport
    obtain ⟨portbuf, hbuf, heq⟩ := Option.bind_eq_some_iff.mp hport
    cases heq
    right
    rw [Option.bind_some]
    unfold unescapeSegment at hbuf
    split_ifs at hbuf with hnil
    · rw [hnil, hf]
      cases hbuf
      exact ⟨[], rfl, rfl⟩
    · obtain ⟨decoded, hdecoded, rfl⟩ := Option.map_eq_some_iff.mp hbuf
      exact ⟨decoded, hdecoded, rfl⟩

/-- The port is of its whole text unless that was cut and still is one. -/
theorem portWhole_iff {parts : HotlineUrlParts} (hf : unescape [] = some [])
    (h : hotlineUrlParse unescape url = some parts) :
    PortWhole unescape url parts.port ↔ ¬PortCut unescape url := by
  rcases port_of_parse hf h with ⟨hnone, hzero⟩ | ⟨text, htext, hport⟩
  · refine iff_of_true (fun hne => absurd hzero hne) ?_
    rintro ⟨text, htext, -⟩
    rw [hnone] at htext
    cases htext
  · have hfront : (text.take 7).length ≤ 7 := List.length_take_le _ _
    by_cases hzero : parts.port = 0
    · refine iff_of_true (fun hne => absurd hzero hne) ?_
      rintro ⟨text', htext', -, hne⟩
      rw [htext] at htext'
      rw [← Option.some.inj htext', ← hport] at hne
      exact hne hzero
    · rw [hport] at hzero
      obtain ⟨hpos, hread⟩ := read_of_portNumber hfront hzero
      constructor
      · intro hwhole
        rintro ⟨text', htext', hlong, -⟩
        rw [htext] at htext'
        obtain rfl := Option.some.inj htext'
        obtain ⟨text', htext', hall⟩ := hwhole (by rwa [hport])
        rw [htext] at htext'
        obtain rfl := Option.some.inj htext'
        have hnil : text.drop 7 = [] := Numeral.eq_nil_of_read_append hread hpos (by
          rw [List.take_append_drop, ← hport]
          exact hall)
        have hlength := congrArg List.length hnil
        rw [List.length_drop, List.length_nil] at hlength
        omega
      · intro hnot _
        have hshort : text.length ≤ 7 := by
          by_contra hlong
          exact hnot ⟨text, htext, by omega, hzero⟩
        rw [List.take_of_length_le hshort] at hread hport
        exact ⟨text, htext, by rw [hport]; exact hread⟩

/-- An address that stands in a text is read, and the port of any text that is accepted is of its
whole text unless that was cut and still is one. -/
theorem hotlineUrlParse_endpoint (unescape : List UInt8 → Option (List UInt8))
    (hf : Percent.Decodes unescape) :
    (∀ (address : Address) (url : List UInt8), address.IsText url →
      hotlineUrlParse unescape url = some address.parts) ∧
    ∀ (url : List UInt8) (parts : HotlineUrlParts), hotlineUrlParse unescape url = some parts →
      (PortWhole unescape url parts.port ↔ ¬PortCut unescape url) :=
  ⟨fun _ _ h => hotlineUrlParse_of_isText hf h, fun _ _ h => portWhole_iff hf.nil h⟩

/-- A guest with a password that has an at sign, and an IPv6 address. -/
theorem guest_endpoint :
    hotlineUrlParse Percent.decode ("hotline://guest:p%40ss@[::1]:5500/".toList.map byte) =
      some ⟨"::1".toList.map byte, "guest".toList.map byte, "p@ss".toList.map byte, 5500⟩ ∧
    PortWhole Percent.decode ("hotline://guest:p%40ss@[::1]:5500/".toList.map byte) 5500 := by
  have hfound : segments ("hotline://guest:p%40ss@[::1]:5500/".toList.map byte) =
      some ⟨"guest".toList.map byte, "p%40ss".toList.map byte, "::1".toList.map byte,
        some ("5500".toList.map byte)⟩ := by decide
  have hread : portNumber ("5500".toList.map byte) = 5500 := by decide
  have hparse : hotlineUrlParse Percent.decode
      ("hotline://guest:p%40ss@[::1]:5500/".toList.map byte) =
        some ⟨"::1".toList.map byte, "guest".toList.map byte, "p@ss".toList.map byte, 5500⟩ := by
    rw [hotlineUrlParse, hfound, ← hread]
    simp [unescapeSegment, Percent.decode, byte, Percent.sign, Percent.hexByte, Percent.hexValue]
  have hshort : ¬PortCut Percent.decode
      ("hotline://guest:p%40ss@[::1]:5500/".toList.map byte) := by
    rintro ⟨text, htext, hlong, -⟩
    rw [decodedPort, hfound, Option.bind_some, Option.bind_some,
      Percent.decode_of_notMem Percent.decodes_decode (by decide)] at htext
    rw [← Option.some.inj htext] at hlong
    exact absurd hlong (by decide)
  exact ⟨hparse, ((hotlineUrlParse_endpoint Percent.decode Percent.decodes_decode).2 _ _
    hparse).mpr hshort⟩

/-- A port of eight digits is cut to one of seven. -/
theorem cut_not_portWhole :
    hotlineUrlParse Percent.decode ("hotline://h:00055001".toList.map byte) =
      some ⟨"h".toList.map byte, [], [], 5500⟩ ∧
    ¬PortWhole Percent.decode ("hotline://h:00055001".toList.map byte) 5500 := by
  have hfound : segments ("hotline://h:00055001".toList.map byte) =
      some ⟨[], [], "h".toList.map byte, some ("00055001".toList.map byte)⟩ := by decide
  have hread : portNumber ("0005500".toList.map byte) = 5500 := by decide
  constructor
  · rw [hotlineUrlParse, hfound, ← hread]
    simp [unescapeSegment, Percent.decode, byte, Percent.sign]
  · intro hwhole
    obtain ⟨text, htext, hnumber⟩ := hwhole (by decide)
    rw [decodedPort, hfound, Option.bind_some, Option.bind_some,
      Percent.decode_of_notMem Percent.decodes_decode (by decide)] at htext
    rw [← Option.some.inj htext] at hnumber
    exact absurd hnumber (by decide)

end Ports

end Gtkhx.Bookmarks
