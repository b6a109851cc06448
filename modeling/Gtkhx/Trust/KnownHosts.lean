import Gtkhx.Library.Text
import Mathlib.Data.List.TakeWhile

/-!
# The store of trusted certificates

`known_hosts` is a text file with an entry a line: a host, perhaps with a port, and the
fingerprint of its certificate. Every operation reads the file anew. What the file says is
the list of its entries, and the operations on the file are operations on that list.
-/

namespace Gtkhx.Trust

open Text

/-- The verdict of looking a host, a port and a fingerprint up. -/
inductive TrustStatus where
  /-- The fingerprint is pinned. -/
  | trusted
  /-- Nothing is pinned. -/
  | unknown
  /-- Another fingerprint is pinned. -/
  | mismatch
  deriving DecidableEq, Repr

/-- A port that is not 0. -/
def parsePort (s : List Char) : Option ℕ :=
  match parseU16 s with
  | some (port + 1) => some (port + 1)
  | _ => none

/-- `parse_host_field`: the host and the port of an entry, where port 0 stands for every
port. -/
def parseHostField (field : List Char) : Option (List Char × ℕ) :=
  if field.head? = some '[' then
    let rest := field.tail
    match rest.findIdx? (· == ']') with
    | none => none
    | some close =>
      let host := rest.take close
      let after := rest.drop (close + 1)
      if host = [] then none
      else if after = [] then some (host, 0)
      else if after.head? = some ':' then (parsePort after.tail).map (host, ·)
      else none
  else if field.count ':' = 1 then
    let host := field.take (field.idxOf ':')
    if host = [] then none
    else (parsePort (field.drop (field.idxOf ':' + 1))).map (host, ·)
  else some (field, 0)

/-- One entry: its host, its port or 0, and the fingerprint. -/
structure Entry where
  /-- The host. -/
  host : List Char
  /-- The port; 0 is every port. -/
  port : ℕ
  /-- The fingerprint. -/
  fingerprint : List Char
  deriving DecidableEq, Repr

/-- What a fingerprint begins with, `sha256:`. -/
def fingerprintTag : List Char := [ 's', 'h', 'a', '2', '5', '6', ':']

/-- A space or a tab. -/
def isBlank (c : Char) : Bool := c == ' ' || c == Char.ofNat 9

/-- `parse_line`: the entry on a line, none for a comment, a blank or a malformed line. -/
def parseLine (line : List Char) : Option Entry :=
  let trimmed := line.dropWhile isBlank
  if trimmed = [] ∨ trimmed.head? = some '#' then none
  else match splitWhitespace trimmed with
    | hostField :: fpToken :: _ =>
      let fp := fpToken.takeWhile (· ≠ '#')
      if fingerprintTag.isPrefixOf fp then
        (parseHostField hostField).map fun (host, port) => ⟨host, port, fp⟩
      else none
    | _ => none

/-- `host_port_match`: an entry is for a host and a port. -/
def hostPortMatch (e : Entry) (host : List Char) (port : ℕ) : Bool :=
  eqIgnoreAsciiCase e.host host && (e.port == 0 || e.port == port)

/-- The entries of a file, absent or with this text. -/
def entries (known : Option (List Char)) : List Entry :=
  (lines (known.getD [])).filterMap parseLine

/-- The loop of `lookup` over the lines. -/
def lookupLines (host : List Char) (port : ℕ) (fp : List Char) :
    TrustStatus → List (List Char) → TrustStatus
  | result, [] => result
  | result, line :: rest =>
    match parseLine line with
    | none => lookupLines host port fp result rest
    | some e =>
      if hostPortMatch e host port = false then lookupLines host port fp result rest
      else if e.fingerprint = fp then .trusted
      else lookupLines host port fp .mismatch rest

/-- `lookup`. -/
def lookup (known : Option (List Char)) (host : List Char) (port : ℕ) (fp : List Char) :
    TrustStatus :=
  match known with
  | none => .unknown
  | some text => lookupLines host port fp .unknown (lines text)

/-- `host_has_fingerprint`. -/
def hostHasFingerprint (known : Option (List Char)) (host fp : List Char) : Bool :=
  match known with
  | none => false
  | some text => ((lines text).filterMap parseLine).any fun e =>
      eqIgnoreAsciiCase e.host host && e.fingerprint == fp

/-- A line stays when a host and a port are pinned: it is no entry for them. -/
def staysFor (host : List Char) (port : ℕ) (line : List Char) : Bool :=
  match parseLine line with
  | some e => !hostPortMatch e host port
  | none => true

/-- The line that pins a fingerprint. -/
def pinLine (host : List Char) (port : ℕ) (fp now : List Char) : List Char :=
  host ++ ':' :: decimal port ++ ' ' :: fp ++ [ ' ', '#', ' ', 'a', 'd', 'd', 'e', 'd', ' '] ++ now

/-- `pin`: the text of the file with a fingerprint pinned. -/
def pin (known : Option (List Char)) (host : List Char) (port : ℕ) (fp now : List Char) :
    List Char :=
  unlines ((lines (known.getD [])).filter (staysFor host port)) ++
    (pinLine host port fp now ++ [newline])

/-- A host as it is connected to: a DNS name or an address, without brackets. -/
def IsHost (host : List Char) : Prop :=
  host ≠ [] ∧ (∀ c ∈ host, isWhitespace c = false) ∧ host.head? ≠ some '#' ∧
    host.head? ≠ some '['

instance (host : List Char) : Decidable (IsHost host) :=
  decidable_of_iff (host ≠ [] ∧ (host.all fun c => !isWhitespace c) = true ∧
    host.head? ≠ some '#' ∧ host.head? ≠ some '[') (by simp [IsHost])

/-- A lower-case hexadecimal digit. -/
def isHexDigit (c : Char) : Bool := c.isDigit || (97 ≤ c.toNat && c.toNat ≤ 102)

/-- A certificate's fingerprint, `sha256:` and hexadecimal digits. -/
def IsFingerprint (fp : List Char) : Prop :=
  ∃ hex, fp = fingerprintTag ++ hex ∧ ∀ c ∈ hex, isHexDigit c = true

/-- What a file's entries say of a host, a port and a fingerprint. -/
def lookupIn (store : List Entry) (host : List Char) (port : ℕ) (fp : List Char) : TrustStatus :=
  if store.any fun e => hostPortMatch e host port && e.fingerprint == fp then .trusted
  else if store.any fun e => hostPortMatch e host port then .mismatch
  else .unknown

theorem hostPortMatch_iff {e : Entry} {host : List Char} {port : ℕ} :
    hostPortMatch e host port = true ↔
      eqIgnoreAsciiCase e.host host = true ∧ (e.port = 0 ∨ e.port = port) := by
  simp [hostPortMatch]

/-- The fingerprints that are trusted are those of the entries for the host and the port. -/
theorem lookupIn_eq_trusted {store : List Entry} {host fp : List Char} {port : ℕ} :
    lookupIn store host port fp = .trusted ↔
      ∃ e ∈ store, hostPortMatch e host port = true ∧ e.fingerprint = fp := by
  have hany : (store.any fun e => hostPortMatch e host port && e.fingerprint == fp) = true ↔
      ∃ e ∈ store, hostPortMatch e host port = true ∧ e.fingerprint = fp := by
    simp
  rw [← hany, lookupIn]
  split_ifs with htrusted hmatch
  · exact iff_of_true rfl htrusted
  · exact iff_of_false (by decide) htrusted
  · exact iff_of_false (by decide) htrusted

/-- The first entry decides, unless it is for another host or port or may yet be bettered. -/
theorem lookupIn_cons (e : Entry) (store : List Entry) (host : List Char) (port : ℕ)
    (fp : List Char) :
    lookupIn (e :: store) host port fp =
      if hostPortMatch e host port = false then lookupIn store host port fp
      else if e.fingerprint = fp then .trusted
      else if lookupIn store host port fp = .trusted then .trusted
      else .mismatch := by
  by_cases hmatch : hostPortMatch e host port = true
  · by_cases hfp : e.fingerprint = fp
    · simp [lookupIn, hmatch, hfp]
    · have hne : (e.fingerprint == fp) = false := beq_eq_false_iff_ne.mpr hfp
      rw [if_neg (by simp [hmatch]), if_neg hfp, lookupIn, List.any_cons, List.any_cons, hmatch,
        hne, Bool.true_or, Bool.and_false, Bool.false_or, if_pos rfl, lookupIn]
      split
      · rfl
      · split <;> rfl
  · rw [Bool.not_eq_true] at hmatch
    rw [if_pos hmatch, lookupIn, List.any_cons, List.any_cons, hmatch, Bool.false_and,
      Bool.false_or, Bool.false_or, lookupIn]

/-- Reading the lines is looking through their entries. -/
theorem lookupLines_eq (host : List Char) (port : ℕ) (fp : List Char) (result : TrustStatus)
    (ls : List (List Char)) :
    lookupLines host port fp result ls =
      if lookupIn (ls.filterMap parseLine) host port fp = .unknown then result
      else lookupIn (ls.filterMap parseLine) host port fp := by
  induction ls generalizing result with
  | nil => rfl
  | cons line ls ih =>
    cases hline : parseLine line with
    | none => simp [lookupLines, hline, ih]
    | some e =>
      rw [List.filterMap_cons_some hline, lookupIn_cons]
      simp only [lookupLines, hline, ih]
      split
      · rfl
      · split
        · simp
        · cases lookupIn (ls.filterMap parseLine) host port fp <;> simp

theorem lookup_eq (known : Option (List Char)) (host : List Char) (port : ℕ) (fp : List Char) :
    lookup known host port fp = lookupIn (entries known) host port fp := by
  cases known with
  | none => rfl
  | some text =>
    simp only [lookup, lookupLines_eq, entries, Option.getD_some, ite_eq_right_iff]
    exact Eq.symm

theorem hostHasFingerprint_eq (known : Option (List Char)) (host fp : List Char) :
    hostHasFingerprint known host fp = true ↔
      ∃ e ∈ entries known, eqIgnoreAsciiCase e.host host = true ∧ e.fingerprint = fp := by
  cases known with
  | none => simp [hostHasFingerprint, entries, lines]
  | some text =>
    rw [hostHasFingerprint, List.any_eq_true]
    simp [entries]

private theorem parseLine_concat_cr (line : List Char) :
    parseLine (line ++ [carriageReturn]) = parseLine line := by
  have hblank : isBlank carriageReturn = false := by decide
  have hspace : isWhitespace carriageReturn = true := by decide
  have htrim : (line ++ [carriageReturn]).dropWhile isBlank =
      line.dropWhile isBlank ++ [carriageReturn] := by
    rw [List.dropWhile_append]
    split
    · rename_i hempty
      simp [List.isEmpty_iff.mp hempty, hblank]
    · rfl
  have hwords := splitWhitespace_concat (line.dropWhile isBlank) hspace
  unfold parseLine
  rw [htrim]
  cases htrimmed : line.dropWhile isBlank with
  | nil => rfl
  | cons c rest =>
    rw [htrimmed] at hwords
    simp only [hwords]
    simp

/-- A carriage return at its end makes no difference to a line. -/
theorem parseLine_stripCr (line : List Char) : parseLine (stripCr line) = parseLine line := by
  unfold stripCr
  split
  · rename_i hlast
    obtain ⟨front, rfl⟩ := List.getLast?_eq_some_iff.mp hlast
    rw [List.dropLast_concat, parseLine_concat_cr]
  · rfl

/-- The entries of the lines that stay are those that are not for the host and the port. -/
theorem filterMap_filter_staysFor (host : List Char) (port : ℕ) (ls : List (List Char)) :
    (ls.filter (staysFor host port)).filterMap parseLine =
      (ls.filterMap parseLine).filter fun e => !hostPortMatch e host port := by
  induction ls with
  | nil => rfl
  | cons line ls ih =>
    cases hparse : parseLine line with
    | none => simp [staysFor, hparse, ih]
    | some e =>
      cases hmatch : hostPortMatch e host port <;> simp [staysFor, hparse, hmatch, ih]

/-- Pinning replaces the entries for the host and the port by what is on the new line. -/
theorem entries_pin_append (known : Option (List Char)) (host : List Char) (port : ℕ)
    (fp now : List Char) :
    entries (some (pin known host port fp now)) =
      (entries known).filter (fun e => !hostPortMatch e host port) ++
        entries (some (pinLine host port fp now ++ [newline])) := by
  have hlines : ∀ line ∈ (lines (known.getD [])).filter (staysFor host port), newline ∉ line :=
    fun line hmem => newline_not_mem_lines (List.mem_of_mem_filter hmem)
  rw [entries, Option.getD_some, pin, lines_unlines_append hlines, List.filterMap_append,
    List.filterMap_map, show parseLine ∘ stripCr = parseLine from funext parseLine_stripCr,
    filterMap_filter_staysFor]
  rfl

/-- A pin's line by itself is one line. -/
theorem entries_pinLine {host : List Char} {port : ℕ} {fp now : List Char}
    (hline : newline ∉ pinLine host port fp now) :
    entries (some (pinLine host port fp now ++ [newline])) =
      (parseLine (pinLine host port fp now)).toList := by
  have hlines := @lines_unlines [pinLine host port fp now]
    fun line hmem => List.mem_singleton.mp hmem ▸ hline
  rw [unlines, List.flatMap_singleton] at hlines
  rw [entries, Option.getD_some, hlines, List.filterMap_map,
    show parseLine ∘ stripCr = parseLine from funext parseLine_stripCr]
  cases h : parseLine (pinLine host port fp now) <;> simp [h]

/-- Pinning replaces the entries for the host and the port by the one on the new line. -/
theorem entries_pin (known : Option (List Char)) {host : List Char} {port : ℕ}
    {fp now : List Char} (hline : newline ∉ pinLine host port fp now) :
    entries (some (pin known host port fp now)) =
      (entries known).filter (fun e => !hostPortMatch e host port) ++
        (parseLine (pinLine host port fp now)).toList := by
  rw [entries_pin_append, entries_pinLine hline]

private theorem range_of_isHexDigit {c : Char} (h : isHexDigit c = true) :
    48 ≤ c.toNat ∧ c.toNat ≤ 57 ∨ 97 ≤ c.toNat ∧ c.toNat ≤ 102 := by
  simp only [isHexDigit, Bool.or_eq_true, Bool.and_eq_true, decide_eq_true_eq] at h
  refine h.imp_left fun hdigit => ?_
  simpa [Char.isDigit, UInt32.le_iff_toNat_le] using hdigit

/-- A digit is neither white space nor a mark of the format. -/
theorem hexDigit_plain {c : Char} (h : isHexDigit c = true) :
    isWhitespace c = false ∧ c ≠ '#' ∧ c ≠ ':' := by
  have hrange := range_of_isHexDigit h
  refine ⟨?_, ?_, ?_⟩
  · simp only [isWhitespace, Bool.or_eq_false_iff, Bool.and_eq_false_iff, decide_eq_false_iff_not,
      beq_eq_false_iff_ne, ne_eq]
    omega
  · rintro rfl
    revert hrange
    decide
  · rintro rfl
    revert hrange
    decide

theorem decimal_plain {n : ℕ} {c : Char} (h : c ∈ decimal n) :
    isWhitespace c = false ∧ c ≠ '#' ∧ c ≠ ':' :=
  hexDigit_plain (by simp [isHexDigit, isDigit_of_mem_decimal h])

theorem IsFingerprint.plain {fp : List Char} (h : IsFingerprint fp) {c : Char} (hc : c ∈ fp) :
    isWhitespace c = false ∧ c ≠ '#' := by
  obtain ⟨hex, rfl, hhex⟩ := h
  rcases List.mem_append.mp hc with hc | hc
  · have htag : (fingerprintTag.all fun c => !isWhitespace c && c != '#') = true := by decide
    have hc := List.all_eq_true.mp htag c hc
    simpa using hc
  · have hplain := hexDigit_plain (hhex c hc)
    exact ⟨hplain.1, hplain.2.1⟩

/-- A pin's line is one line. -/
theorem newline_not_mem_pinLine {host fp now : List Char} (hhost : IsHost host)
    (hfp : IsFingerprint fp) (hnow : newline ∉ now) (port : ℕ) :
    newline ∉ pinLine host port fp now := by
  have hspace : isWhitespace newline = true := by decide
  have hnewlineHost : newline ∉ host := fun hmem => by
    rw [hhost.2.1 _ hmem] at hspace
    cases hspace
  have hnewlinePort : newline ∉ decimal port := fun hmem => by
    rw [(decimal_plain hmem).1] at hspace
    cases hspace
  have hnewlineFp : newline ∉ fp := fun hmem => by
    rw [(hfp.plain hmem).1] at hspace
    cases hspace
  have hmarks : newline ∉ ([ ':', ' ', '#', 'a', 'd', 'e'] : List Char) := by decide
  simp only [List.mem_cons, List.not_mem_nil, or_false, not_or] at hmarks
  simp [pinLine, hnewlineHost, hnewlinePort, hnewlineFp, hnow, hmarks]

/-- The host field that is written for a host and a port. -/
def hostField (host : List Char) (port : ℕ) : List Char := host ++ ':' :: decimal port

theorem parsePort_decimal {port : ℕ} (hpos : 0 < port) (hport : port < 2 ^ 16) :
    parsePort (decimal port) = some port := by
  obtain ⟨n, rfl⟩ := Nat.exists_eq_succ_of_ne_zero (Nat.ne_of_gt hpos)
  rw [parsePort, parseU16_decimal hport]

theorem hostField_head {host : List Char} (h : IsHost host) (port : ℕ) :
    (hostField host port).head? = host.head? := by
  obtain ⟨c, rest, rfl⟩ := List.exists_cons_of_ne_nil h.1
  rfl

/-- The host field of a host without a colon is read back. With a colon it is read as an
address by itself, for every port. -/
theorem parseHostField_hostField {host : List Char} (h : IsHost host) {port : ℕ}
    (hpos : 0 < port) (hport : port < 2 ^ 16) :
    parseHostField (hostField host port) =
      some (if ':' ∈ host then (hostField host port, 0) else (host, port)) := by
  have hdecimal : (decimal port).count ':' = 0 :=
    List.count_eq_zero.mpr fun hmem => (decimal_plain hmem).2.2 rfl
  have hcount : (hostField host port).count ':' = host.count ':' + 1 := by
    rw [hostField, List.count_append, List.count_cons_self, hdecimal]
  rw [parseHostField, hostField_head h, if_neg h.2.2.2, hcount]
  by_cases hcolon : ':' ∈ host
  · have hsome : 0 < host.count ':' := List.count_pos_iff.mpr hcolon
    rw [if_neg (by omega), if_pos hcolon]
  · have hnone : host.count ':' = 0 := List.count_eq_zero.mpr hcolon
    have hidx : (hostField host port).idxOf ':' = host.length := by
      rw [hostField, List.idxOf_append_of_notMem hcolon, List.idxOf_cons_self, Nat.add_zero]
    have hdrop : (hostField host port).drop (host.length + 1) = decimal port := by
      simp [hostField, List.drop_append]
    rw [if_pos (by omega), if_neg hcolon, hidx, hdrop, parsePort_decimal hpos hport, hostField,
      List.take_left]
    simp [h.1]

/-- A pin's line is read back as the entry of its host field. -/
theorem parseLine_pinLine {host fp : List Char} (h : IsHost host) (hfp : IsFingerprint fp)
    {port : ℕ} (hpos : 0 < port) (hport : port < 2 ^ 16) (now : List Char) :
    parseLine (pinLine host port fp now) =
      some (if ':' ∈ host then ⟨hostField host port, 0, fp⟩ else ⟨host, port, fp⟩) := by
  have hspace : isWhitespace ' ' = true := by decide
  have hfield : ∀ c ∈ hostField host port, isWhitespace c = false := by
    intro c hc
    rcases List.mem_append.mp hc with hc | hc
    · exact h.2.1 c hc
    · rcases List.mem_cons.mp hc with rfl | hc
      · decide
      · exact (decimal_plain hc).1
  have hne : hostField host port ≠ [] := by simp [hostField]
  have hfpne : fp ≠ [] := by
    obtain ⟨hex, rfl, -⟩ := hfp
    simp [fingerprintTag]
  obtain ⟨rest, hline⟩ : ∃ rest, pinLine host port fp now =
      hostField host port ++ ' ' :: (fp ++ ' ' :: rest) :=
    ⟨[ '#', ' ', 'a', 'd', 'd', 'e', 'd', ' '] ++ now, by simp [pinLine, hostField]⟩
  have hblank : ∀ c, isWhitespace c = false → isBlank c = false := by
    intro c hc
    simp only [isBlank, Bool.or_eq_false_iff, beq_eq_false_iff_ne]
    constructor
    · rintro rfl
      revert hc
      decide
    · rintro rfl
      revert hc
      decide
  have htrim : (pinLine host port fp now).dropWhile isBlank = pinLine host port fp now := by
    obtain ⟨c, tail, hcons⟩ := List.exists_cons_of_ne_nil hne
    rw [hline, hcons, List.cons_append, List.dropWhile_cons,
      hblank c (hfield c (by rw [hcons]; exact List.mem_cons_self))]
    rfl
  have hwords : splitWhitespace (pinLine host port fp now) =
      hostField host port :: fp :: splitWhitespace rest := by
    rw [hline, splitWhitespace_append hne hfield hspace,
      splitWhitespace_append hfpne (fun c hc => (hfp.plain hc).1) hspace]
  have hcut : fp.takeWhile (· ≠ '#') = fp := by
    refine List.takeWhile_eq_self_iff.mpr fun c hc => ?_
    simpa using (hfp.plain hc).2
  have htag : fingerprintTag.isPrefixOf fp = true := by
    obtain ⟨hex, rfl, -⟩ := hfp
    rw [List.isPrefixOf_iff_prefix]
    exact List.prefix_append _ _
  have hhead : (pinLine host port fp now).head? = host.head? := by
    rw [hline, List.head?_append_of_ne_nil _ hne, hostField_head h]
  rw [parseLine, htrim, hwords, hhead, if_neg (by
    rw [not_or]
    exact ⟨by rw [hline]; simp, h.2.2.1⟩)]
  simp only [hcut, htag, if_true, parseHostField_hostField h hpos hport, Option.map_some]
  split <;> rfl

end Gtkhx.Trust
