import Gtkhx.Bookmarks.HostPort
import Gtkhx.Library.Utf8

/-!
# Bookmarks as older clients keep them

A file has 460 bytes. The login and the password are at fixed places, the server is as long as the
byte before it says, and four bytes of flags follow it.
-/

namespace Gtkhx.Bookmarks

/-- A server, who logs in there, and how. -/
structure Bookmark where
  /-- What it is shown as and known by. -/
  name : List Char
  /-- Without the port. -/
  server : List Char
  /-- In digits. Empty is the default port. -/
  port : List Char
  login : List Char
  password : List Char
  /-- Encryption is on. -/
  hope : Bool
  compress : UInt8
  cipher : UInt8
  tls : Bool
  /-- The nickname on this server, if not the global one. -/
  nick : Option (List Char)
  /-- The icon on this server, if not the global one. -/
  icon : Option UInt16
  deriving DecidableEq, Repr

/-- The bytes from `first` up to `last`. -/
def slice (bytes : List UInt8) (first last : ℕ) : Option (List UInt8) :=
  if last ≤ bytes.length then some ((bytes.drop first).take (last - first)) else none

/-- "HTsc". -/
def magic : List UInt8 := [0x48, 0x54, 0x73, 0x63]

/-- The text of a field, which a NUL ends. -/
def cstrField (field : List UInt8) : List Char := Utf8.decode (field.takeWhile (· ≠ 0))

/-- How much of a text there is room for in a field. -/
def fieldLength (s : List Char) : ℕ := min (Utf8.encode s).length 32

/-- A text in a field of 33 bytes. -/
def fieldBytes (s : List Char) : List UInt8 :=
  (Utf8.encode s).take (fieldLength s) ++ List.replicate (33 - fieldLength s) 0

/-- A field with the length of its text. -/
def writeField (s : List Char) : List UInt8 := UInt8.ofNat (fieldLength s) :: fieldBytes s

/-- A file's bookmark, which has no name yet. -/
def parse (bytes : List UInt8) : Option Bookmark :=
  if bytes.length < 4 ∨ bytes.take 4 ≠ magic then none
  else do
    let login ← slice bytes 136 169
    let pass ← slice bytes 170 203
    let len : UInt8 ← bytes[203]?
    let serverRaw ← slice bytes 204 (204 + len.toNat)
    let secure : UInt8 ← bytes[204 + len.toNat]?
    let compress : UInt8 ← bytes[205 + len.toNat]?
    let cipher : UInt8 ← bytes[206 + len.toNat]?
    return {
      name := []
      server := (split (Utf8.decode serverRaw)).1
      port := (split (Utf8.decode serverRaw)).2
      login := cstrField login
      password := cstrField pass
      hope := secure ≠ 0
      compress := compress
      cipher := cipher
      tls := (bytes[207 + len.toNat]?).getD 0 ≠ 0
      nick := none
      icon := none }

/-- What a file has for its server. -/
def serverBytes (bm : Bookmark) : List UInt8 := Utf8.encode (join bm.server bm.port)

/-- How much of it there is room for. -/
def serverLength (bm : Bookmark) : ℕ := min (serverBytes bm).length 251

/-- A flag's byte. -/
def flagByte (flag : Bool) : UInt8 := if flag then 1 else 0

/-- A bookmark's file. -/
def write (bm : Bookmark) : List UInt8 :=
  magic ++ [0, 1] ++ List.replicate 129 0 ++ writeField bm.login ++ writeField bm.password ++
    [UInt8.ofNat (serverLength bm)] ++ (serverBytes bm).take (serverLength bm) ++
    [flagByte bm.hope, bm.compress, bm.cipher, flagByte bm.tls] ++
    List.replicate (256 - serverLength bm - 4) 0

/-- Where the parts of a file are that has all of its required ones. -/
structure Laid (bytes login pass server : List UInt8) (secure compress cipher : UInt8) : Prop where
  start : ¬(bytes.length < 4 ∨ bytes.take 4 ≠ magic)
  login_eq : slice bytes 136 169 = some login
  pass_eq : slice bytes 170 203 = some pass
  len_eq : bytes[203]? = some (UInt8.ofNat server.length)
  short : server.length ≤ 251
  server_eq : slice bytes 204 (204 + server.length) = some server
  secure_eq : bytes[204 + server.length]? = some secure
  compress_eq : bytes[205 + server.length]? = some compress
  cipher_eq : bytes[206 + server.length]? = some cipher

section Layout

variable {bytes login pass server : List UInt8} {secure compress cipher : UInt8} {a b k : ℕ}

theorem slice_append {h m t : List UInt8} (hfirst : h.length = a) (hlast : a + m.length = b) :
    slice (h ++ (m ++ t)) a b = some m := by
  have hle : b ≤ (h ++ (m ++ t)).length := by
    simp only [List.length_append]
    omega
  have hlength : b - a = m.length := by omega
  rw [slice, if_pos hle, ← hfirst, List.drop_left, hfirst, hlength, List.take_left]

theorem getElem?_append_cons {h t : List UInt8} {x : UInt8} (hindex : h.length = a) :
    (h ++ x :: t)[a]? = some x := by
  rw [List.getElem?_append_right (by omega), hindex, Nat.sub_self, List.getElem?_cons_zero]

theorem slice_take (hab : a ≤ b) (hbk : b ≤ k) : slice (bytes.take k) a b = slice bytes a b := by
  have hiff : b ≤ (bytes.take k).length ↔ b ≤ bytes.length := by
    rw [List.length_take]
    omega
  have hmin : min (b - a) (k - a) = b - a := by omega
  simp only [slice, hiff, List.drop_take, List.take_take, hmin]

theorem toNat_ofNat_of_le {n : ℕ} (h : n ≤ 251) : (UInt8.ofNat n).toNat = n := by
  rw [UInt8.toNat_ofNat']
  exact Nat.mod_eq_of_lt (by omega)

/-- What is read when the parts are there. -/
theorem parse_of_laid (h : Laid bytes login pass server secure compress cipher) :
    parse bytes = some {
      name := []
      server := (split (Utf8.decode server)).1
      port := (split (Utf8.decode server)).2
      login := cstrField login
      password := cstrField pass
      hope := secure ≠ 0
      compress := compress
      cipher := cipher
      tls := (bytes[207 + server.length]?).getD 0 ≠ 0
      nick := none
      icon := none } := by
  have hlen := toNat_ofNat_of_le h.short
  rw [parse, if_neg h.start, h.login_eq, h.pass_eq, h.len_eq]
  simp only [bind, Option.bind_some, hlen]
  rw [h.server_eq, h.secure_eq, h.compress_eq, h.cipher_eq]
  rfl

/-- Whatever is read has its flags. -/
theorem cipher_of_parse {bm : Bookmark} (h : parse bytes = some bm) :
    ∃ len : UInt8, bytes[203]? = some len ∧ 206 + len.toNat < bytes.length := by
  unfold parse at h
  split_ifs at h
  simp only [bind, Option.bind_eq_some_iff] at h
  obtain ⟨-, -, -, -, len, hlen, -, -, -, -, -, -, cipher, hcipher, -⟩ := h
  exact ⟨len, hlen, (List.getElem?_eq_some_iff.mp hcipher).1⟩

/-- The parts are still there when the bytes end after them. -/
theorem laid_take (h : Laid bytes login pass server secure compress cipher)
    (hk : 207 + server.length ≤ k) :
    Laid (bytes.take k) login pass server secure compress cipher where
  start := by
    have hstart := h.start
    rw [not_or, not_lt] at hstart
    rw [List.length_take, List.take_take, Nat.min_eq_left (by omega : 4 ≤ k), not_or]
    exact ⟨by omega, hstart.2⟩
  login_eq := by rw [slice_take (by omega) (by omega), h.login_eq]
  pass_eq := by rw [slice_take (by omega) (by omega), h.pass_eq]
  len_eq := by rw [List.getElem?_take_of_lt (by omega), h.len_eq]
  short := h.short
  server_eq := by rw [slice_take (by omega) (by omega), h.server_eq]
  secure_eq := by rw [List.getElem?_take_of_lt (by omega), h.secure_eq]
  compress_eq := by rw [List.getElem?_take_of_lt (by omega), h.compress_eq]
  cipher_eq := by rw [List.getElem?_take_of_lt (by omega), h.cipher_eq]

/-- Nothing is read when they end before. -/
theorem parse_take_eq_none (h : Laid bytes login pass server secure compress cipher)
    (hk : k < 207 + server.length) : parse (bytes.take k) = none := by
  by_contra hsome
  obtain ⟨bm, hbm⟩ := Option.ne_none_iff_exists'.mp hsome
  obtain ⟨len, hlen, hlast⟩ := cipher_of_parse hbm
  have hindex : 203 < (bytes.take k).length := (List.getElem?_eq_some_iff.mp hlen).1
  rw [List.length_take] at hlast hindex
  rw [List.getElem?_take_of_lt (by omega), h.len_eq] at hlen
  have htoNat := toNat_ofNat_of_le h.short
  rw [Option.some.inj hlen] at htoNat
  omega

end Layout

section Written

variable (bm : Bookmark)

@[simp] theorem length_fieldBytes (s : List Char) : (fieldBytes s).length = 33 := by
  simp only [fieldBytes, fieldLength, List.length_append, List.length_take, List.length_replicate]
  omega

@[simp] theorem length_writeField (s : List Char) : (writeField s).length = 34 := by
  rw [writeField, List.length_cons, length_fieldBytes]

/-- What a file has before its server's length. -/
def headBytes : List UInt8 :=
  magic ++ [0, 1] ++ List.replicate 129 0 ++ writeField bm.login ++ writeField bm.password

/-- What a file has after its server's length. -/
def restBytes : List UInt8 :=
  (serverBytes bm).take (serverLength bm) ++
    ([flagByte bm.hope, bm.compress, bm.cipher, flagByte bm.tls] ++
      List.replicate (256 - serverLength bm - 4) 0)

theorem length_headBytes : (headBytes bm).length = 203 := by
  simp [headBytes, magic]

theorem serverLength_le : serverLength bm ≤ 251 := Nat.min_le_right _ _

theorem length_server : ((serverBytes bm).take (serverLength bm)).length = serverLength bm := by
  rw [List.length_take, serverLength]
  omega

theorem write_eq : write bm = headBytes bm ++ UInt8.ofNat (serverLength bm) :: restBytes bm := by
  simp [write, headBytes, restBytes]

/-- Every file has 460 bytes. -/
theorem length_write : (write bm).length = 460 := by
  have hle := serverLength_le bm
  have hserver := length_server bm
  rw [write_eq, List.length_append, List.length_cons, length_headBytes, restBytes,
    List.length_append,
    hserver, List.length_append, List.length_replicate]
  simp only [List.length_cons, List.length_nil]
  omega

theorem write_parts : write bm = (headBytes bm ++ [UInt8.ofNat (serverLength bm)]) ++
    ((serverBytes bm).take (serverLength bm) ++
      ([flagByte bm.hope, bm.compress, bm.cipher, flagByte bm.tls] ++
        List.replicate (256 - serverLength bm - 4) 0)) := by
  rw [write_eq, restBytes, List.append_assoc, List.singleton_append]

theorem length_before_server :
    (headBytes bm ++ [UInt8.ofNat (serverLength bm)]).length = 204 := by
  rw [List.length_append, length_headBytes, List.length_singleton]

/-- The flags are after the server. -/
theorem flag_write {i : ℕ} (hi : i < 4) : (write bm)[204 + i + serverLength bm]? =
    [flagByte bm.hope, bm.compress, bm.cipher, flagByte bm.tls][i]? := by
  have hserver := length_server bm
  have hbefore := length_before_server bm
  rw [write_parts, List.getElem?_append_right (by omega), List.getElem?_append_right (by omega),
    List.getElem?_append_left (by simp only [List.length_cons, List.length_nil]; omega)]
  congr 1
  omega

theorem laid_write : Laid (write bm) (fieldBytes bm.login) (fieldBytes bm.password)
    ((serverBytes bm).take (serverLength bm)) (flagByte bm.hope) bm.compress bm.cipher := by
  have hserver := length_server bm
  exact {
    start := by
      have hlength := length_write bm
      rw [not_or, not_lt, not_not]
      exact ⟨by omega, by simp [write, magic]⟩
    login_eq := by
      have hlogin : write bm = (magic ++ [0, 1] ++ List.replicate 129 0 ++
          [UInt8.ofNat (fieldLength bm.login)]) ++ (fieldBytes bm.login ++
            (writeField bm.password ++ UInt8.ofNat (serverLength bm) :: restBytes bm)) := by
        simp [write_eq, headBytes, writeField]
      rw [hlogin]
      exact slice_append (by simp [magic]) (by rw [length_fieldBytes])
    pass_eq := by
      have hpass : write bm = (magic ++ [0, 1] ++ List.replicate 129 0 ++ writeField bm.login ++
          [UInt8.ofNat (fieldLength bm.password)]) ++ (fieldBytes bm.password ++
            UInt8.ofNat (serverLength bm) :: restBytes bm) := by
        simp [write_eq, headBytes, writeField]
      rw [hpass]
      exact slice_append (by simp [magic]) (by rw [length_fieldBytes])
    len_eq := by
      rw [write_eq, hserver]
      exact getElem?_append_cons (length_headBytes bm)
    short := by
      rw [hserver]
      exact serverLength_le bm
    server_eq := by
      rw [write_parts]
      exact slice_append (length_before_server bm) rfl
    secure_eq := by
      rw [hserver]
      exact flag_write bm (i := 0) (by omega)
    compress_eq := by
      rw [hserver]
      exact flag_write bm (i := 1) (by omega)
    cipher_eq := by
      rw [hserver]
      exact flag_write bm (i := 2) (by omega) }

/-- Every file is read as a bookmark. -/
theorem isSome_parse_write : (parse (write bm)).isSome = true := by
  rw [parse_of_laid (laid_write bm), Option.isSome_some]

end Written

section RoundTrip

variable {bm : Bookmark}

/-- A DNS name or an IPv4 address, or with two colons at least an IPv6 address. -/
def IsHost (s : List Char) : Prop :=
  (∀ c ∈ s, Text.isWhitespace c = false) ∧ '[' ∉ s ∧ (':' ∉ s ∨ 2 ≤ s.count ':')

/-- A bookmark there is room for in a file. -/
structure Fits (bm : Bookmark) : Prop where
  login : (Utf8.encode bm.login).length ≤ 32 ∧ Char.ofNat 0 ∉ bm.login
  password : (Utf8.encode bm.password).length ≤ 32 ∧ Char.ofNat 0 ∉ bm.password
  server : IsHost bm.server
  port : bm.port = [] ∨ validPort bm.port = true
  joined : (serverBytes bm).length ≤ 251

/-- What a file keeps of a bookmark. An IPv6 address stays joined with its port. -/
def kept (bm : Bookmark) : Bookmark :=
  if ':' ∈ bm.server ∧ bm.port ≠ [] then
    { bm with
      name := [], nick := none, icon := none, server := join bm.server bm.port, port := [] }
  else { bm with name := [], nick := none, icon := none }

theorem takeWhile_append_zeros {bytes : List UInt8} {n : ℕ} (hnot : 0 ∉ bytes) :
    (bytes ++ List.replicate n 0).takeWhile (· ≠ 0) = bytes := by
  have hall : ∀ b ∈ bytes, decide (b ≠ 0) = true := by
    intro b hb
    rw [decide_eq_true_eq]
    rintro rfl
    exact hnot hb
  rw [List.takeWhile_append_of_pos hall]
  cases n with
  | zero => simp
  | succ n => simp [List.replicate_succ]

/-- A text there is room for comes back from its field. -/
theorem cstrField_fieldBytes {s : List Char} (hlength : (Utf8.encode s).length ≤ 32)
    (hnul : Char.ofNat 0 ∉ s) : cstrField (fieldBytes s) = s := by
  have hfull : fieldLength s = (Utf8.encode s).length := Nat.min_eq_left hlength
  have hzero : (0 : UInt8) ∉ Utf8.encode s := fun hmem =>
    hnul (Utf8.mem_of_mem_encode (b := 0) (by decide) hmem)
  rw [cstrField, fieldBytes, hfull, List.take_length, takeWhile_append_zeros hzero,
    Utf8.decode_encode]

theorem isWhitespace_of_isDigit {c : Char} (h : c.isDigit = true) :
    Text.isWhitespace c = false :=
  Text.isWhitespace_of_isHexDigit (by simp [Text.isHexDigit, h])

theorem digits_of_validPort {p : List Char} (h : validPort p = true) :
    p ≠ [] ∧ ∀ c ∈ p, c.isDigit = true := by
  obtain ⟨hne, hall, -⟩ := validPort_iff.mp h
  exact ⟨hne, List.all_eq_true.mp hall⟩

theorem split_of_isHost {s : List Char} (hspace : ∀ c ∈ s, Text.isWhitespace c = false)
    (hbracket : s.head? ≠ some '[') : split s = splitPlain s := by
  rw [split, Text.trim_eq_self hspace]
  cases s with
  | nil => rfl
  | cons c s => exact if_neg fun hc => hbracket (by rw [hc, List.head?_cons])

/-- A host and a port come apart as they were joined, except for an IPv6 address. -/
theorem split_join {host port : List Char} (hhost : IsHost host)
    (hport : port = [] ∨ validPort port = true) :
    split (join host port) =
      if ':' ∈ host ∧ port ≠ [] then (join host port, []) else (host, port) := by
  obtain ⟨hspace, hbracket, hcolons⟩ := hhost
  rcases hport with rfl | hvalid
  · have hhead : host.head? ≠ some '[' := fun h => hbracket (List.mem_of_mem_head? h)
    have hcount : host.count ':' ≠ 1 := by
      rcases hcolons with hnone | htwo
      · rw [List.count_eq_zero_of_not_mem hnone]
        omega
      · omega
    rw [join, if_pos rfl, split_of_isHost hspace hhead, splitPlain, if_neg hcount, if_neg]
    exact fun h => h.2 rfl
  · obtain ⟨hne, hdigits⟩ := digits_of_validPort hvalid
    have hno : ':' ∉ port := fun h => absurd (hdigits _ h) (by decide)
    have hspaces : ∀ c ∈ host ++ ':' :: port, Text.isWhitespace c = false := by
      intro c hc
      rcases List.mem_append.mp hc with hc | hc
      · exact hspace c hc
      · rcases List.mem_cons.mp hc with rfl | hc
        · decide
        · exact isWhitespace_of_isDigit (hdigits c hc)
    have hhead : (host ++ ':' :: port).head? ≠ some '[' := by
      cases host with
      | nil => simp
      | cons c host =>
        rintro h
        exact hbracket (by rw [Option.some.inj h]; exact List.mem_cons_self)
    have hcount : (host ++ ':' :: port).count ':' = host.count ':' + 1 := by
      rw [List.count_append, List.count_cons_self, List.count_eq_zero_of_not_mem hno,
        Nat.zero_add]
    rw [join, if_neg hne, split_of_isHost hspaces hhead, splitPlain, hcount]
    rcases hcolons with hnone | htwo
    · have hzero := List.count_eq_zero_of_not_mem hnone
      rw [if_pos (by omega), Cut.cut_append hnone, if_neg (fun h => hnone h.1)]
      exact if_pos hvalid
    · have hmem : ':' ∈ host := List.count_pos_iff.mp (by omega)
      rw [if_neg (by omega), if_pos ⟨hmem, hne⟩]

theorem flagByte_ne_zero (flag : Bool) : decide (flagByte flag ≠ 0) = flag := by
  cases flag with
  | true => rfl
  | false => rfl

/-- The start of a file is read without its encryption over TLS, or not at all. -/
theorem parse_take_write (h : Fits bm) (k : ℕ) : parse ((write bm).take k) =
    if k < 207 + serverLength bm then none
    else some { kept bm with tls := bm.tls && decide (207 + serverLength bm < k) } := by
  have hlaid := laid_write bm
  have hserver := length_server bm
  by_cases hk : k < 207 + serverLength bm
  · rw [if_pos hk, parse_take_eq_none hlaid (by omega)]
  · have hfull : (serverBytes bm).take (serverLength bm) = serverBytes bm := by
      rw [serverLength, Nat.min_eq_left h.joined, List.take_length]
    have hsplit := split_join h.server h.port
    have htls : decide (((write bm).take k)[207 + serverLength bm]?.getD 0 ≠ 0) =
        (bm.tls && decide (207 + serverLength bm < k)) := by
      rw [List.getElem?_take]
      by_cases hlast : 207 + serverLength bm < k
      · have hflag : (write bm)[207 + serverLength bm]? = some (flagByte bm.tls) :=
          flag_write bm (i := 3) (by omega)
        rw [if_pos hlast, hflag, Option.getD_some, flagByte_ne_zero, decide_eq_true hlast,
          Bool.and_true]
      · rw [if_neg hlast, decide_eq_false hlast, Bool.and_false]
        rfl
    rw [if_neg hk, parse_of_laid (laid_take hlaid (by omega)), hserver, htls, hfull, serverBytes,
      Utf8.decode_encode, cstrField_fieldBytes h.login.1 h.login.2,
      cstrField_fieldBytes h.password.1 h.password.2, hsplit, flagByte_ne_zero]
    unfold kept
    split_ifs <;> rfl

/-- A bookmark's file has 460 bytes and keeps it, and a start of the file keeps it with TLS
possibly off, or is no bookmark. Only an IPv6 address does not come apart from its port. -/
theorem parse_write (bm : Bookmark) : (write bm).length = 460 ∧
    (Fits bm → parse (write bm) = some (kept bm) ∧
      ∀ k < 460, parse ((write bm).take k) = none ∨
        ∃ tls, (tls = bm.tls ∨ tls = false) ∧
          parse ((write bm).take k) = some { kept bm with tls := tls }) := by
  have hlength := length_write bm
  have hle := serverLength_le bm
  refine ⟨hlength, fun h => ⟨?_, fun k _ => ?_⟩⟩
  · have hwhole := parse_take_write h 460
    have hkept : (kept bm).tls = bm.tls := by
      unfold kept
      split_ifs <;> rfl
    rw [← hlength, List.take_length, hlength, if_neg (by omega), decide_eq_true (by omega),
      Bool.and_true, ← hkept] at hwhole
    exact hwhole
  · rw [parse_take_write h k]
    split_ifs with hk
    · exact Or.inl rfl
    · refine Or.inr ⟨_, ?_, rfl⟩
      cases decide (207 + serverLength bm < k) with
      | true => exact Or.inl (Bool.and_true _)
      | false => exact Or.inr (Bool.and_false _)

end RoundTrip

/-- A bookmark of a server with a name. -/
def sample : Bookmark where
  name := "Test Server".toList
  server := "example.com".toList
  port := "5501".toList
  login := "guest".toList
  password := "secret".toList
  hope := true
  compress := 1
  cipher := 2
  tls := false
  nick := none
  icon := none

theorem not_isWhitespace_of_all {s : List Char}
    (h : (s.all fun c => !Text.isWhitespace c) = true) : ∀ c ∈ s, Text.isWhitespace c = false :=
  fun c hc => by simpa using List.all_eq_true.mp h c hc

theorem fits_sample : Fits sample where
  login := by decide
  password := by decide
  server := by
    refine ⟨not_isWhitespace_of_all (by decide), by decide, Or.inl (by decide)⟩
  port := Or.inr (by decide)
  joined := by decide

theorem fits_address : Fits { sample with server := "fe80::1".toList } where
  login := by decide
  password := by decide
  server := by
    refine ⟨not_isWhitespace_of_all (by decide), by decide, Or.inr (by decide)⟩
  port := Or.inr (by decide)
  joined := by decide

/-- A name and a port come back. -/
theorem sample_parse : parse (write sample) = some { sample with name := [] } :=
  ((parse_write sample).2 fits_sample).1

/-- An IPv6 address and a port come back as one. -/
theorem address_parse : Fits { sample with server := "fe80::1".toList } ∧
    parse (write { sample with server := "fe80::1".toList }) =
      some { sample with name := [], server := "fe80::1:5501".toList, port := [] } ∧
    parse (write { sample with server := "fe80::1".toList }) ≠
      some { sample with name := [], server := "fe80::1".toList } := by
  have hwhole := parse_take_write fits_address 460
  rw [List.take_of_length_le (length_write _).le] at hwhole
  rw [hwhole]
  exact ⟨fits_address, by decide, by decide⟩

end Gtkhx.Bookmarks
