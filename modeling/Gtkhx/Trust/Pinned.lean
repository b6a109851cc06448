import Gtkhx.Library.Utf8
import Gtkhx.Trust.KnownHosts

/-!
# What pinning leaves

`known_hosts` is read and written as bytes. Pinning decodes them, drops the entries that are for the
host and the port, and encodes the rest. What it leaves are the other lines, unless decoding changes
them, and the verdicts on all other hosts and ports, unless an entry that was dropped, or the one
that was written, pins more than the host and the port.
-/

namespace Gtkhx.Trust.File

open Text

/-- The lines of a file that a line feed ends. -/
def ended (bytes : List UInt8) : List (List UInt8) := (bytes.splitOn 10).dropLast

/-- What is after the last line feed, if anything is. -/
def unended (bytes : List UInt8) : List (List UInt8) :=
  (bytes.splitOn 10).getLast?.toList.filter (· ≠ [])

/-- The lines of a file, byte for byte. -/
def fileLines (bytes : List UInt8) : List (List UInt8) := ended bytes ++ unended bytes

/-- The entries of a file, absent or with these bytes. -/
def entries (known : Option (List UInt8)) : List Entry := Trust.entries (known.map Utf8.decode)

/-- `lookup`. -/
def lookup (known : Option (List UInt8)) (host : List Char) (port : ℕ) (fp : List Char) :
    TrustStatus :=
  Trust.lookup (known.map Utf8.decode) host port fp

/-- `pin`: the bytes that are written. -/
def pin (known : Option (List UInt8)) (host : List Char) (port : ℕ) (fp now : List Char) :
    List UInt8 :=
  Utf8.encode (Trust.pin (known.map Utf8.decode) host port fp now)

/-- The entries on what a pin adds. -/
def written (host : List Char) (port : ℕ) (fp now : List Char) : List Entry :=
  Trust.entries (some (pinLine host port fp now ++ [newline]))

/-- A line of the file is a comment, blank or not an entry for the host and the port. -/
def stays (host : List Char) (port : ℕ) (line : List UInt8) : Bool :=
  staysFor host port (Utf8.decode line)

/-- An entry that is for a host and a port has the fingerprint. -/
def Pinned (store : List Entry) (host : List Char) (port : ℕ) (fp : List Char) : Prop :=
  ∃ e ∈ store, hostPortMatch e host port = true ∧ e.fingerprint = fp

/-- It is the same host, but for the case of its letters, and the same port. -/
def Same (host host' : List Char) (port port' : ℕ) : Prop :=
  eqIgnoreAsciiCase host host' = true ∧ port = port'

/-- Pinning changes one verdict only. -/
structure Framed (known : Option (List UInt8)) (host : List Char) (port : ℕ)
    (fp now : List Char) : Prop where
  /-- The lines that are not for the host and the port are there, in order. -/
  lines : (fileLines (known.getD [])).filter (stays host port) <+:
    fileLines (pin known host port fp now)
  /-- The verdicts on other hosts and ports are as before. -/
  verdicts : ∀ host' port' fp', port' < 2 ^ 16 → ¬Same host' host port' port →
    lookup (some (pin known host port fp now)) host' port' fp' = lookup known host' port' fp'

/-- Decoding does not change a line. -/
def IsUtf8 (line : List UInt8) : Prop := Utf8.encode (Utf8.decode line) = line

/-- The lines that stay can be read and written, and the entries that go and come are for the host
and the port alone, or repeated. -/
structure Plain (known : Option (List UInt8)) (host : List Char) (port : ℕ)
    (fp now : List Char) : Prop where
  /-- A line that stays is UTF-8 without a carriage return at its end. -/
  ended : ∀ line ∈ ended (known.getD []), stays host port line = true →
    IsUtf8 line ∧ (Utf8.decode line).getLast? ≠ some carriageReturn
  /-- What is after the last line feed is UTF-8. -/
  unended : ∀ line ∈ unended (known.getD []), stays host port line = true → IsUtf8 line
  /-- If the host has an entry without a port, its other ports have entries of their own. -/
  dropped : ∀ e ∈ entries known, eqIgnoreAsciiCase e.host host = true → e.port = 0 →
    ∀ port' < 2 ^ 16, port' ≠ port →
      Pinned ((entries known).filter (fun e => !hostPortMatch e host port) ++
        written host port fp now) host port' e.fingerprint
  /-- If what is written is for another host or port, it was there. -/
  written : ∀ e ∈ written host port fp now, ∀ port' < 2 ^ 16, ¬Same e.host host port' port →
    hostPortMatch e e.host port' = true → Pinned (entries known) e.host port' e.fingerprint

section Lines

variable {host : List Char} {port : ℕ} {bytes : List UInt8}

private theorem lines_decode (bytes : List UInt8) :
    Text.lines (Utf8.decode bytes) =
      (ended bytes).map (fun line => stripCr (Utf8.decode line)) ++
        (unended bytes).map Utf8.decode := by
  have hsplit : (Utf8.decode bytes).splitOn newline = (bytes.splitOn 10).map Utf8.decode :=
    Utf8.splitOn_decode (b := 10) (by decide) (by decide) bytes
  rw [Text.lines, hsplit, ended, unended, ← List.map_dropLast, List.map_map, List.getLast?_map]
  congr 1
  cases (bytes.splitOn 10).getLast? with
  | none => rfl
  | some last =>
    by_cases hlast : last = []
    · simp [hlast, Utf8.decode_eq_nil.mpr rfl]
    · simp [hlast, Utf8.decode_eq_nil]

private theorem staysFor_stripCr (line : List Char) :
    staysFor host port (stripCr line) = staysFor host port line := by
  rw [staysFor, staysFor, parseLine_stripCr]

/-- The lines that a pin keeps are the decoded lines that stay. -/
theorem filter_lines_decode (bytes : List UInt8) :
    (Text.lines (Utf8.decode bytes)).filter (staysFor host port) =
      ((ended bytes).filter (stays host port)).map (fun line => stripCr (Utf8.decode line)) ++
        ((unended bytes).filter (stays host port)).map Utf8.decode := by
  rw [lines_decode, List.filter_append, List.filter_map, List.filter_map]
  congr 3
  funext line
  exact staysFor_stripCr _

private theorem encode_unlines (ls : List (List Char)) :
    Utf8.encode (unlines ls) = (ls.map Utf8.encode).flatMap (· ++ [10]) := by
  induction ls with
  | nil => rfl
  | cons line ls ih =>
    rw [unlines, List.flatMap_cons, Utf8.encode_append, Utf8.encode_append, List.map_cons,
      List.flatMap_cons, ← ih]
    rfl

/-- What is written begins with the lines it keeps. -/
theorem fileLines_encode {ls : List (List Char)} (h : ∀ line ∈ ls, newline ∉ line)
    (rest : List Char) :
    fileLines (Utf8.encode (unlines ls ++ rest)) =
      ls.map Utf8.encode ++ fileLines (Utf8.encode rest) := by
  have hbytes : ∀ line ∈ ls.map Utf8.encode, (10 : UInt8) ∉ line := by
    intro line hline hmem
    obtain ⟨text, htext, rfl⟩ := List.mem_map.mp hline
    exact h text htext (Utf8.mem_of_mem_encode (b := 10) (by decide) hmem)
  have hne := List.splitOn_ne_nil (10 : UInt8) (Utf8.encode rest)
  rw [Utf8.encode_append, encode_unlines, fileLines, ended, unended, splitOn_unlines hbytes,
    List.dropLast_append_of_ne_nil hne, List.getLast?_append_of_ne_nil _ hne, List.append_assoc]
  rfl

private theorem encode_stripCr_decode {line : List UInt8} :
    Utf8.encode (stripCr (Utf8.decode line)) = line ↔
      IsUtf8 line ∧ (Utf8.decode line).getLast? ≠ some carriageReturn := by
  constructor
  · intro h
    have hdecode : Utf8.decode line = stripCr (Utf8.decode line) := by
      conv_lhs => rw [← h, Utf8.decode_encode]
    refine ⟨?_, fun hlast => ?_⟩
    · rw [IsUtf8, hdecode, h]
    · rw [stripCr, if_pos hlast] at hdecode
      have hlength := congrArg List.length hdecode
      have hne : Utf8.decode line ≠ [] := by
        intro hnil
        rw [hnil] at hlast
        cases hlast
      have hpos := List.length_pos_iff.mpr hne
      rw [List.length_dropLast] at hlength
      omega
  · rintro ⟨hutf8, hlast⟩
    rw [stripCr, if_neg hlast]
    exact hutf8

private theorem map_eq_self_iff {α : Type} {f : α → α} {l : List α} :
    l = l.map f ↔ ∀ a ∈ l, f a = a := by
  induction l with
  | nil => simp
  | cons a l ih =>
    rw [List.map_cons, List.cons.injEq, ih, List.forall_mem_cons, eq_comm]

/-- The lines that stay are there if and only if decoding does not change them. -/
theorem lines_iff (known : Option (List UInt8)) (host : List Char) (port : ℕ)
    (fp now : List Char) :
    (fileLines (known.getD [])).filter (stays host port) <+:
        fileLines (pin known host port fp now) ↔
      (∀ line ∈ ended (known.getD []), stays host port line = true →
        IsUtf8 line ∧ (Utf8.decode line).getLast? ≠ some carriageReturn) ∧
      ∀ line ∈ unended (known.getD []), stays host port line = true → IsUtf8 line := by
  have htext : (known.map Utf8.decode).getD [] = Utf8.decode (known.getD []) := by
    cases known <;> rfl
  have hnewline : ∀ line ∈ (Text.lines ((known.map Utf8.decode).getD [])).filter
      (staysFor host port), newline ∉ line :=
    fun line hmem => newline_not_mem_lines (List.mem_of_mem_filter hmem)
  rw [pin, Trust.pin, fileLines_encode hnewline, htext, filter_lines_decode, fileLines,
    List.filter_append, List.map_append, List.map_map, List.map_map]
  generalize ended (known.getD []) = terminated
  generalize unended (known.getD []) = last
  generalize fileLines _ = rest
  have hstart : (terminated.filter (stays host port) ++ last.filter (stays host port) <+:
      (terminated.filter (stays host port)).map (Utf8.encode ∘ fun line =>
        stripCr (Utf8.decode line)) ++
        (last.filter (stays host port)).map (Utf8.encode ∘ Utf8.decode) ++ rest) ↔
      terminated.filter (stays host port) = (terminated.filter (stays host port)).map
        (Utf8.encode ∘ fun line => stripCr (Utf8.decode line)) ∧
      last.filter (stays host port) =
        (last.filter (stays host port)).map (Utf8.encode ∘ Utf8.decode) := by
    constructor
    · intro h
      have heq := List.prefix_iff_eq_take.mp h
      rw [List.take_left' (by simp)] at heq
      exact List.append_inj heq (by simp)
    · rintro ⟨hterminated, hlast⟩
      rw [← hterminated, ← hlast]
      exact List.prefix_append _ _
  rw [hstart, map_eq_self_iff, map_eq_self_iff]
  simp only [List.mem_filter, and_imp, Function.comp_apply, encode_stripCr_decode]
  rfl

end Lines

section Verdicts

variable {store store' : List Entry} {host host' : List Char} {port : ℕ} {fp : List Char}

/-- Verdicts are the same if and only if the same fingerprints are pinned. -/
theorem lookupIn_congr_iff :
    (∀ fp, lookupIn store host port fp = lookupIn store' host port fp) ↔
      ∀ fp, Pinned store host port fp ↔ Pinned store' host port fp := by
  constructor
  · intro h fp
    rw [Pinned, Pinned, ← lookupIn_eq_trusted, h fp, lookupIn_eq_trusted]
  · intro h fp
    have hany (s : List Entry) : (s.any fun e => hostPortMatch e host port) = true ↔
        ∃ fp, Pinned s host port fp := by
      simp [Pinned]
    have hfingerprint (s : List Entry) :
        (s.any fun e => hostPortMatch e host port && e.fingerprint == fp) = true ↔
          Pinned s host port fp := by
      simp [Pinned]
    have htrusted := Bool.eq_iff_iff.mpr
      ((hfingerprint store).trans ((h fp).trans (hfingerprint store').symm))
    have hmatch := Bool.eq_iff_iff.mpr
      ((hany store).trans ((exists_congr h).trans (hany store').symm))
    rw [lookupIn, lookupIn, htrusted, hmatch]

/-- An entry is for a host as it is for the same one in other letters. -/
theorem Pinned.congr (h : Pinned store host port fp) (hhost : eqIgnoreAsciiCase host host' = true) :
    Pinned store host' port fp := by
  obtain ⟨e, he, hmatch, hfp⟩ := h
  obtain ⟨hsame, hport⟩ := hostPortMatch_iff.mp hmatch
  exact ⟨e, he, hostPortMatch_iff.mpr ⟨eqIgnoreAsciiCase_trans hsame hhost, hport⟩, hfp⟩

theorem Pinned.append_left (h : Pinned store host port fp) :
    Pinned (store ++ store') host port fp := by
  obtain ⟨e, he, hmatch⟩ := h
  exact ⟨e, List.mem_append_left _ he, hmatch⟩

/-- Other verdicts stay if and only if no other host or port depends on what goes or comes. -/
theorem verdicts_iff (known : List Entry) (added : List Entry) (host : List Char) (port : ℕ) :
    (∀ host' port' fp', port' < 2 ^ 16 → ¬Same host' host port' port →
      lookupIn (known.filter (fun e => !hostPortMatch e host port) ++ added) host' port' fp' =
        lookupIn known host' port' fp') ↔
    (∀ e ∈ known, eqIgnoreAsciiCase e.host host = true → e.port = 0 →
      ∀ port' < 2 ^ 16, port' ≠ port →
        Pinned (known.filter (fun e => !hostPortMatch e host port) ++ added) host port'
          e.fingerprint) ∧
    ∀ e ∈ added, ∀ port' < 2 ^ 16, ¬Same e.host host port' port →
      hostPortMatch e e.host port' = true → Pinned known e.host port' e.fingerprint := by
  constructor
  · intro h
    have hpinned {host' : List Char} {port' : ℕ} (hport' : port' < 2 ^ 16)
        (hother : ¬Same host' host port' port) :=
      lookupIn_congr_iff.mp fun fp' => h host' port' fp' hport' hother
    constructor
    · intro e he hhost hzero port' hport' hne
      refine (hpinned hport' (fun hsame => hne hsame.2) e.fingerprint).mpr ⟨e, he, ?_, rfl⟩
      exact hostPortMatch_iff.mpr ⟨hhost, Or.inl hzero⟩
    · intro e he port' hport' hother hmatch
      exact (hpinned hport' hother e.fingerprint).mp ⟨e, List.mem_append_right _ he, hmatch, rfl⟩
  · rintro ⟨hdropped, hadded⟩ host' port' fp' hport' hother
    revert fp'
    rw [lookupIn_congr_iff]
    intro fp'
    constructor
    · rintro ⟨e, he, hmatch, rfl⟩
      rcases List.mem_append.mp he with he | he
      · exact ⟨e, List.mem_of_mem_filter he, hmatch, rfl⟩
      · obtain ⟨hhost', hmatch'⟩ := hostPortMatch_iff.mp hmatch
        have hself : hostPortMatch e e.host port' = true :=
          hostPortMatch_iff.mpr ⟨eqIgnoreAsciiCase_refl _, hmatch'⟩
        have hapart : ¬Same e.host host port' port := fun hsame =>
          hother ⟨eqIgnoreAsciiCase_trans (eqIgnoreAsciiCase_comm hhost') hsame.1, hsame.2⟩
        exact (hadded e he port' hport' hapart hself).congr hhost'
    · rintro ⟨e, he, hmatch, rfl⟩
      by_cases hgoes : hostPortMatch e host port = true
      · obtain ⟨hhost', hmatch'⟩ := hostPortMatch_iff.mp hmatch
        obtain ⟨hhost, hgoes⟩ := hostPortMatch_iff.mp hgoes
        have hsame : eqIgnoreAsciiCase host' host = true :=
          eqIgnoreAsciiCase_trans (eqIgnoreAsciiCase_comm hhost') hhost
        have hne : port' ≠ port := fun heq => hother ⟨hsame, heq⟩
        have hzero : e.port = 0 := by omega
        exact (hdropped e he hhost hzero port' hport' hne).congr (eqIgnoreAsciiCase_comm hsame)
      · refine ⟨e, List.mem_append_left _ (List.mem_filter.mpr ⟨he, ?_⟩), hmatch, rfl⟩
        simpa using hgoes

end Verdicts

/-- Pinning changes one verdict only if and only if the file is plain. -/
theorem framed_iff (known : Option (List UInt8)) (host : List Char) (port : ℕ)
    (fp now : List Char) : Framed known host port fp now ↔ Plain known host port fp now := by
  have hlookup (host' : List Char) (port' : ℕ) (fp' : List Char) :
      lookup (some (pin known host port fp now)) host' port' fp' =
        lookupIn ((entries known).filter (fun e => !hostPortMatch e host port) ++
          written host port fp now) host' port' fp' := by
    rw [lookup, Option.map_some, pin, Utf8.decode_encode, lookup_eq, entries_pin_append]
    rfl
  have hbefore (host' : List Char) (port' : ℕ) (fp' : List Char) :
      lookup known host' port' fp' = lookupIn (entries known) host' port' fp' :=
    lookup_eq _ _ _ _
  have hverdicts := verdicts_iff (entries known) (written host port fp now) host port
  have hlines := lines_iff known host port fp now
  constructor
  · intro h
    obtain ⟨hended, hunended⟩ := hlines.mp h.lines
    have hsame := h.verdicts
    simp only [hlookup, hbefore] at hsame
    obtain ⟨hdropped, hwritten⟩ := hverdicts.mp hsame
    exact ⟨hended, hunended, hdropped, hwritten⟩
  · intro h
    refine ⟨hlines.mpr ⟨h.ended, h.unended⟩, ?_⟩
    simp only [hlookup, hbefore]
    exact hverdicts.mpr ⟨h.dropped, h.written⟩

/-- A host without a port, and its fingerprint. -/
def hostnameOnly : List UInt8 :=
  Utf8.encode ([ 'h', ' '] ++ fingerprintTag ++ [ 'a', newline])

/-- A comment in Latin-1. -/
def latin : List UInt8 := [35, 0xe9, 10]

/-- Accepting another certificate on one port forgets the pin of the others, and a comment that is
not UTF-8 is changed. -/
theorem hostnameOnly_not_framed :
    ¬Framed (some hostnameOnly) [ 'h'] 5600 (fingerprintTag ++ [ 'b']) [ '-'] ∧
      ¬Framed (some latin) [ 'h'] 5600 (fingerprintTag ++ [ 'b']) [ '-'] := by
  constructor
  · intro h
    have hother : ¬Same [ 'h'] [ 'h'] 5601 5600 := fun hsame => absurd hsame.2 (by decide)
    have hverdict := h.verdicts [ 'h'] 5601 (fingerprintTag ++ [ 'a']) (by decide) hother
    revert hverdict
    decide
  · intro h
    have hlines := h.lines
    revert hlines
    decide

section Hosts

variable {known : Option (List UInt8)} {host : List Char} {port : ℕ} {fp now : List Char}

/-- What is written for a host is its entry, or that of its host field. -/
theorem written_eq (hhost : IsHost host) (hfp : IsFingerprint fp) (hpos : 0 < port)
    (hport : port < 2 ^ 16) (hnow : newline ∉ now) :
    written host port fp now =
      [if ':' ∈ host then ⟨hostField host port, 0, fp⟩ else ⟨host, port, fp⟩] := by
  rw [written, entries_pinLine (newline_not_mem_pinLine hhost hfp hnow port),
    parseLine_pinLine hhost hfp hpos hport]
  rfl

/-- For a host as it is connected to, a file is plain if its lines are, if no entry is for every
port of the host, and if what is written for a host with colons was there. -/
theorem plain_iff (hhost : IsHost host) (hfp : IsFingerprint fp) (hpos : 0 < port)
    (hport : port < 2 ^ 16) (hnow : newline ∉ now) :
    Plain known host port fp now ↔
      ((∀ line ∈ ended (known.getD []), stays host port line = true →
        IsUtf8 line ∧ (Utf8.decode line).getLast? ≠ some carriageReturn) ∧
      ∀ line ∈ unended (known.getD []), stays host port line = true → IsUtf8 line) ∧
      (∀ e ∈ entries known, eqIgnoreAsciiCase e.host host = true → e.port ≠ 0) ∧
      (':' ∈ host → ∃ e ∈ entries known, eqIgnoreAsciiCase e.host (hostField host port) = true ∧
        e.port = 0 ∧ e.fingerprint = fp) := by
  have hwritten := written_eq hhost hfp hpos hport hnow
  have hlonger : eqIgnoreAsciiCase (hostField host port) host = false := by
    rw [Bool.eq_false_iff]
    intro hsame
    have hlength := length_of_eqIgnoreAsciiCase hsame
    simp [hostField] at hlength
  constructor
  · intro h
    refine ⟨⟨h.ended, h.unended⟩, ?_, ?_⟩
    · intro e he hsame hzero
      obtain ⟨e', he', hmatch, -⟩ := h.dropped e he hsame hzero 0 (by decide) (by omega)
      obtain ⟨hsame', hport'⟩ := hostPortMatch_iff.mp hmatch
      rw [or_self] at hport'
      rcases List.mem_append.mp he' with he' | he'
      · have hkept := (List.mem_filter.mp he').2
        rw [hostPortMatch_iff.mpr ⟨hsame', Or.inl hport'⟩] at hkept
        exact absurd hkept (by decide)
      · rw [hwritten, List.mem_singleton] at he'
        split_ifs at he' with hcolon <;> subst he'
        · rw [hlonger] at hsame'
          exact absurd hsame' (by decide)
        · exact absurd hport' (Nat.ne_of_gt hpos)
    · intro hcolon
      have hmem : ⟨hostField host port, 0, fp⟩ ∈ written host port fp now := by
        rw [hwritten, if_pos hcolon]
        exact List.mem_singleton_self _
      have hother : ¬Same (hostField host port) host 0 port := fun hsame => by
        rw [Same, hlonger] at hsame
        exact absurd hsame.1 (by decide)
      have hself : hostPortMatch ⟨hostField host port, 0, fp⟩ (hostField host port) 0 = true :=
        hostPortMatch_iff.mpr ⟨eqIgnoreAsciiCase_refl _, Or.inl rfl⟩
      obtain ⟨e, he, hmatch, hsame⟩ := h.written _ hmem 0 (by decide) hother hself
      obtain ⟨hhost', hzero⟩ := hostPortMatch_iff.mp hmatch
      exact ⟨e, he, hhost', or_self_iff.mp hzero, hsame⟩
  · rintro ⟨⟨hended, hunended⟩, hnone, hthere⟩
    refine ⟨hended, hunended, ?_, ?_⟩
    · intro e he hsame hzero
      exact absurd hzero (hnone e he hsame)
    · intro e he port' _ hother hmatch
      rw [hwritten, List.mem_singleton] at he
      split_ifs at he with hcolon <;> subst he
      · obtain ⟨e, he, hsame, hzero, hfingerprint⟩ := hthere hcolon
        exact ⟨e, he, hostPortMatch_iff.mpr ⟨hsame, Or.inl hzero⟩, hfingerprint⟩
      · have hport' := (hostPortMatch_iff.mp hmatch).2
        dsimp only at hport'
        have heq : port' = port := by omega
        exact absurd ⟨eqIgnoreAsciiCase_refl _, heq⟩ hother

end Hosts

end Gtkhx.Trust.File
