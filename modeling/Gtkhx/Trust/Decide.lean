import Gtkhx.Library.Reactive
import Gtkhx.Trust.KnownHosts

/-!
# Trust on first use

`decide` looks a server's certificate up, and asks the user about one that is not pinned.
Over any run of decisions, a host without a colon in it is accepted silently only if its
certificate was accepted before, and a changed certificate is shown as one. A pin for an
address with colons is written so that it reads back as another address.
-/

namespace Gtkhx.Trust

open Text

/-- A number in at least so many digits. -/
def padded (width n : ℕ) : List Char :=
  List.replicate (width - (decimal n).length) '0' ++ decimal n

/-- `civil_from_days`: year, month and day from days since 1970. -/
def civilFromDays (days : ℤ) : ℤ × ℤ × ℤ :=
  let z := days + 719468
  let era := (if 0 ≤ z then z else z - 146096).tdiv 146097
  let doe := z - era * 146097
  let yoe := (doe - doe.tdiv 1460 + doe.tdiv 36524 - doe.tdiv 146096).tdiv 365
  let y := yoe + era * 400
  let doy := doe - (365 * yoe + yoe.tdiv 4 - yoe.tdiv 100)
  let mp := (5 * doy + 2).tdiv 153
  let d := doy - (153 * mp + 2).tdiv 5 + 1
  let m := if mp < 10 then mp + 3 else mp - 9
  (y + if m ≤ 2 then 1 else 0, m, d)

/-- `today_utc`, from the seconds since 1970. -/
def todayUtc (secs : ℕ) : List Char :=
  let (y, m, d) := civilFromDays (secs / 86400)
  padded 4 y.toNat ++ '-' :: padded 2 m.toNat ++ '-' :: padded 2 d.toNat

/-- A certificate to decide about, and what deciding meets. -/
structure Asked where
  /-- The host. -/
  host : List Char
  /-- The port. -/
  port : ℕ
  /-- The certificate's fingerprint. -/
  fingerprint : List Char
  /-- The time. -/
  secs : ℕ
  /-- `auto_accept`. -/
  autoAccept : Bool
  /-- What the prompt is answered. -/
  answer : Bool
  /-- Whether the file can be written. -/
  written : Bool
  deriving DecidableEq, Repr

/-- A decision: whether it accepts, and the status shown in the prompt, if there was one. -/
structure Verdict where
  /-- The certificate is accepted. -/
  accepted : Bool
  /-- The prompt. -/
  prompt : Option TrustStatus
  deriving DecidableEq, Repr

/-- `pin_now`: a file that cannot be written stays as it is. -/
def pinNow (known : Option (List Char)) (a : Asked) : Option (List Char) :=
  if a.written then some (pin known a.host a.port a.fingerprint (todayUtc a.secs)) else known

/-- `decide`, and the file after it. -/
def decide (known : Option (List Char)) (a : Asked) : Verdict × Option (List Char) :=
  let status := lookup known a.host a.port a.fingerprint
  if status = .trusted then (⟨true, none⟩, known)
  else if status = .unknown ∧ hostHasFingerprint known a.host a.fingerprint = true then
    (⟨true, none⟩, pinNow known a)
  else if a.autoAccept then (⟨true, none⟩, pinNow known a)
  else (⟨a.answer, some status⟩, if a.answer then pinNow known a else known)

/-- A host and a port as they are connected to, a certificate's fingerprint, a prompt, and
a file that can be written. -/
structure Asked.Ordinary (a : Asked) : Prop where
  host : IsHost a.host
  port_pos : 0 < a.port
  port_lt : a.port < 2 ^ 16
  fingerprint : IsFingerprint a.fingerprint
  asks : a.autoAccept = false
  written : a.written = true

/-- An ordinary question. -/
abbrev Question := { a : Asked // a.Ordinary }

/-- Deciding about one certificate after the other, from a file. -/
def deciding (known : Option (List Char)) :
    Reactive.Machine (Option (List Char)) Question Verdict where
  start := known
  step known q := ((decide known q.1).2, [(decide known q.1).1])

/-- A run's decisions, in order. -/
abbrev History := List (Asked × Verdict)

/-- Note the decisions of a run. -/
def noteDecision (history : History) (_ : Option (List Char)) (q : Question)
    (out : List Verdict) : History := history ++ out.map (q.1, ·)

/-- The decisions of a run from a file. -/
def decisions (known : Option (List Char)) (asked : List Question) : History :=
  (deciding known).record noteDecision [] asked

/-- A decision accepts a certificate for a host and a port. -/
def acceptsAt (host : List Char) (port : ℕ) (d : Asked × Verdict) : Bool :=
  d.2.accepted && eqIgnoreAsciiCase d.1.host host && d.1.port == port

/-- The certificate that was last accepted for a host and a port. -/
def lastAccepted (history : History) (host : List Char) (port : ℕ) : Option (List Char) :=
  (history.reverse.find? (acceptsAt host port)).map fun d => d.1.fingerprint

/-- A prompt for the host was accepted, with this certificate. -/
def Prompted (history : History) (host fp : List Char) : Prop :=
  ∃ d ∈ history, d.2.accepted = true ∧ d.2.prompt ≠ none ∧
    eqIgnoreAsciiCase d.1.host host = true ∧ d.1.fingerprint = fp

/-- The host's certificate was accepted once. -/
def EverAccepted (history : History) (host fp : List Char) : Prop :=
  ∃ d ∈ history, d.2.accepted = true ∧ eqIgnoreAsciiCase d.1.host host = true ∧
    d.1.fingerprint = fp

/-- A verdict trusts on first use: it accepts silently only what was accepted in a prompt,
accepts silently what was accepted last, and shows another certificate as a mismatch. -/
structure FirstUse (history : History) (a : Asked) (v : Verdict) : Prop where
  silent : v.accepted = true → v.prompt = none → Prompted history a.host a.fingerprint
  kept : lastAccepted history a.host a.port = some a.fingerprint → v = ⟨true, none⟩
  flagged : ∀ fp, lastAccepted history a.host a.port = some fp → a.fingerprint ≠ fp →
    ¬ EverAccepted history a.host a.fingerprint → v.prompt = some .mismatch

theorem newline_not_mem_padded (width n : ℕ) : newline ∉ padded width n := by
  intro h
  have hspace : isWhitespace newline = true := by decide
  rcases List.mem_append.mp h with h | h
  · have hzero := List.eq_of_mem_replicate h
    revert hzero
    decide
  · rw [(decimal_plain h).1] at hspace
    cases hspace

theorem newline_not_mem_todayUtc (secs : ℕ) : newline ∉ todayUtc secs := by
  have hdash : newline ≠ '-' := by decide
  unfold todayUtc
  generalize civilFromDays (secs / 86400) = date
  obtain ⟨y, m, d⟩ := date
  simp [newline_not_mem_padded, hdash]

/-- The entry that a question's pin reads back as. -/
def Asked.entry (a : Asked) : Entry :=
  if ':' ∈ a.host then ⟨hostField a.host a.port, 0, a.fingerprint⟩
  else ⟨a.host, a.port, a.fingerprint⟩

/-- The entries after a pin. -/
theorem entries_pinNow (known : Option (List Char)) {a : Asked} (h : a.Ordinary) :
    entries (pinNow known a) =
      (entries known).filter (fun e => !hostPortMatch e a.host a.port) ++ [a.entry] := by
  have hline :=
    newline_not_mem_pinLine h.host h.fingerprint (newline_not_mem_todayUtc a.secs) a.port
  rw [pinNow, if_pos h.written, entries_pin known hline,
    parseLine_pinLine h.host h.fingerprint h.port_pos h.port_lt]
  rfl

/-- What a decision comes from: the certificate is pinned, or it is pinned for the host
elsewhere, or the user was asked. -/
theorem decide_cases (known : Option (List Char)) {a : Asked} (h : a.Ordinary) :
    (lookup known a.host a.port a.fingerprint = .trusted ∧ decide known a = (⟨true, none⟩, known)) ∨
    (lookup known a.host a.port a.fingerprint = .unknown ∧
      hostHasFingerprint known a.host a.fingerprint = true ∧
      decide known a = (⟨true, none⟩, pinNow known a)) ∨
    (lookup known a.host a.port a.fingerprint ≠ .trusted ∧
      decide known a = (⟨a.answer, some (lookup known a.host a.port a.fingerprint)⟩,
        if a.answer then pinNow known a else known)) := by
  unfold decide
  by_cases htrusted : lookup known a.host a.port a.fingerprint = .trusted
  · exact .inl ⟨htrusted, if_pos htrusted⟩
  · dsimp only
    rw [if_neg htrusted]
    by_cases hreused : lookup known a.host a.port a.fingerprint = .unknown ∧
      hostHasFingerprint known a.host a.fingerprint = true
    · exact .inr (.inl ⟨hreused.1, hreused.2, if_pos hreused⟩)
    · rw [if_neg hreused, h.asks]
      exact .inr (.inr ⟨htrusted, rfl⟩)

theorem lookup_trusted_iff {known : Option (List Char)} {host fp : List Char} {port : ℕ} :
    lookup known host port fp = .trusted ↔
      ∃ e ∈ entries known, hostPortMatch e host port = true ∧ e.fingerprint = fp := by
  rw [lookup_eq, lookupIn_eq_trusted]

/-- A mismatch: something is pinned for the host and the port, but not this. -/
theorem lookup_mismatch {known : Option (List Char)} {host fp : List Char} {port : ℕ} {e : Entry}
    (hnot : lookup known host port fp ≠ .trusted) (he : e ∈ entries known)
    (hmatch : hostPortMatch e host port = true) : lookup known host port fp = .mismatch := by
  have hany : (entries known).any (fun e => hostPortMatch e host port) = true :=
    List.any_eq_true.mpr ⟨e, he, hmatch⟩
  rw [lookup_eq, lookupIn, hany, if_pos rfl] at hnot ⊢
  split
  · rename_i h
    rw [if_pos h] at hnot
    exact absurd rfl hnot
  · rfl

/-- What the file holds for hosts without a colon, after a history of decisions. -/
structure Pinned (known : Option (List Char)) (history : History) : Prop where
  /-- An entry is for one port, and its certificate was accepted in a prompt. -/
  accepted : ∀ e ∈ entries known, ':' ∉ e.host →
    e.port ≠ 0 ∧ Prompted history e.host e.fingerprint
  /-- The certificate that was last accepted has an entry. -/
  last : ∀ host port fp, ':' ∉ host → lastAccepted history host port = some fp →
    ∃ e ∈ entries known, hostPortMatch e host port = true ∧ e.fingerprint = fp

theorem Prompted.mono {history : History} {host host' fp : List Char} (d : Asked × Verdict)
    (h : Prompted history host fp) (hhost : eqIgnoreAsciiCase host host' = true) :
    Prompted (history ++ [d]) host' fp := by
  obtain ⟨d', hd', haccepted, hprompt, hsame, hfp⟩ := h
  exact ⟨d', List.mem_append_left _ hd', haccepted, hprompt, eqIgnoreAsciiCase_trans hsame hhost,
    hfp⟩

theorem lastAccepted_concat (history : History) (d : Asked × Verdict) (host : List Char)
    (port : ℕ) : lastAccepted (history ++ [d]) host port =
      if acceptsAt host port d = true then some d.1.fingerprint
      else lastAccepted history host port := by
  rw [lastAccepted, List.reverse_concat, List.find?_cons]
  cases acceptsAt host port d <;> rfl

/-- A question's host has a certificate pinned where its entry, for any port, is in the
file; that was accepted in a prompt. -/
theorem Pinned.prompted {known : Option (List Char)} {history : History} (h : Pinned known history)
    {host fp : List Char} (hcolon : ':' ∉ host) {e : Entry} (he : e ∈ entries known)
    (hhost : eqIgnoreAsciiCase e.host host = true) (hfp : e.fingerprint = fp) :
    Prompted history host fp := by
  have hfree : ':' ∉ e.host := fun hmem => hcolon ((colon_mem_iff hhost).mp hmem)
  obtain ⟨d, hd, haccepted, hprompt, hsame, hdfp⟩ := (h.accepted e he hfree).2
  exact ⟨d, hd, haccepted, hprompt, eqIgnoreAsciiCase_trans hsame hhost, hdfp.trans hfp⟩

/-- A pin after an accepted decision keeps the file as the history says. -/
theorem Pinned.pin {known : Option (List Char)} {history : History} (h : Pinned known history)
    {a : Asked} (ha : a.Ordinary) {v : Verdict} (hv : v.accepted = true)
    (hwhy : ':' ∉ a.host → Prompted (history ++ [(a, v)]) a.host a.fingerprint) :
    Pinned (pinNow known a) (history ++ [(a, v)]) := by
  constructor
  · intro e he hfree
    rw [entries_pinNow known ha] at he
    rcases List.mem_append.mp he with he | he
    · obtain ⟨hport, hprompted⟩ := h.accepted e (List.mem_of_mem_filter he) hfree
      exact ⟨hport, hprompted.mono (a, v) (eqIgnoreAsciiCase_refl _)⟩
    · rw [List.mem_singleton.mp he] at hfree ⊢
      unfold Asked.entry at hfree ⊢
      split at hfree
      · exact absurd (by simp [hostField]) hfree
      · rename_i hcolon
        rw [if_neg hcolon]
        exact ⟨ha.port_pos.ne', hwhy hcolon⟩
  · intro host port fp hcolon hlast
    rw [entries_pinNow known ha]
    rw [lastAccepted_concat] at hlast
    split at hlast
    · rename_i hat
      obtain rfl := Option.some.inj hlast
      simp only [acceptsAt, Bool.and_eq_true, beq_iff_eq] at hat
      have hfree : ':' ∉ a.host := fun hmem => hcolon ((colon_mem_iff hat.1.2).mp hmem)
      refine ⟨a.entry, List.mem_append_right _ (List.mem_singleton_self _), ?_, ?_⟩
      · rw [Asked.entry, if_neg hfree, hostPortMatch_iff]
        exact ⟨hat.1.2, .inr hat.2⟩
      · rw [Asked.entry, if_neg hfree]
    · rename_i hat
      obtain ⟨e, he, hmatch, hfp⟩ := h.last host port fp hcolon hlast
      refine ⟨e, List.mem_append_left _ (List.mem_filter.mpr ⟨he, ?_⟩), hmatch, hfp⟩
      rw [Bool.not_eq_true', Bool.eq_false_iff]
      intro hreplaced
      obtain ⟨hhost, hport⟩ := hostPortMatch_iff.mp hmatch
      obtain ⟨hhost', hport'⟩ := hostPortMatch_iff.mp hreplaced
      have hfree : ':' ∉ e.host := fun hmem => hcolon ((colon_mem_iff hhost).mp hmem)
      have hone := (h.accepted e he hfree).1
      apply hat
      have hsame := eqIgnoreAsciiCase_trans (eqIgnoreAsciiCase_comm hhost') hhost
      have hports : a.port = port :=
        (hport'.resolve_left hone).symm.trans (hport.resolve_left hone)
      simp [acceptsAt, hv, hsame, hports]

/-- A decision that leaves the file alone keeps it as the history says. -/
theorem Pinned.same {known : Option (List Char)} {history : History} (h : Pinned known history)
    {a : Asked} {v : Verdict}
    (hat : v.accepted = true → lookup known a.host a.port a.fingerprint = .trusted) :
    Pinned known (history ++ [(a, v)]) := by
  constructor
  · intro e he hfree
    obtain ⟨hport, hprompted⟩ := h.accepted e he hfree
    exact ⟨hport, hprompted.mono (a, v) (eqIgnoreAsciiCase_refl _)⟩
  · intro host port fp hcolon hlast
    rw [lastAccepted_concat] at hlast
    split at hlast
    · rename_i haccepts
      obtain rfl := Option.some.inj hlast
      simp only [acceptsAt, Bool.and_eq_true, beq_iff_eq] at haccepts
      obtain ⟨e, he, hmatch, hfp⟩ := lookup_trusted_iff.mp (hat haccepts.1.1)
      obtain ⟨hhost, hport⟩ := hostPortMatch_iff.mp hmatch
      refine ⟨e, he, hostPortMatch_iff.mpr ⟨eqIgnoreAsciiCase_trans hhost haccepts.1.2, ?_⟩, hfp⟩
      rwa [← haccepts.2]
    · exact h.last host port fp hcolon hlast

/-- A decision keeps the file as the history says. -/
theorem Pinned.decide {known : Option (List Char)} {history : History} (h : Pinned known history)
    {a : Asked} (ha : a.Ordinary) :
    Pinned (decide known a).2 (history ++ [(a, (Trust.decide known a).1)]) := by
  obtain ⟨htrusted, hdecide⟩ | ⟨-, hhas, hdecide⟩ | ⟨-, hdecide⟩ := decide_cases known ha <;>
    rw [hdecide]
  · exact h.same fun _ => htrusted
  · refine h.pin ha rfl fun hcolon => ?_
    obtain ⟨e, he, hhost, hfp⟩ := (hostHasFingerprint_eq known a.host a.fingerprint).mp hhas
    exact (h.prompted hcolon he hhost hfp).mono _ (eqIgnoreAsciiCase_refl _)
  · cases hanswer : a.answer with
    | false => exact h.same fun haccepted => by cases haccepted
    | true =>
      refine h.pin ha rfl fun _ => ?_
      exact ⟨_, List.mem_append_right _ (List.mem_singleton_self _), rfl, by simp,
        eqIgnoreAsciiCase_refl _, rfl⟩

/-- After any run, the file is as its history says. -/
theorem pinned_after {known : Option (List Char)} (hempty : entries known = [])
    (asked : List Question) :
    Pinned ((deciding known).after asked) (decisions known asked) := by
  refine Reactive.Machine.record_invariant (M := deciding known) ?_ ?_ asked
  · constructor
    · intro e he
      rw [show (deciding known).start = known from rfl, hempty] at he
      cases he
    · intro host port fp _ hlast
      cases hlast
  · intro s history q h
    exact h.decide q.2

/-- For a host without a colon a decision trusts on first use. -/
theorem Pinned.firstUse {known : Option (List Char)} {history : History} (h : Pinned known history)
    {a : Asked} (ha : a.Ordinary) (hcolon : ':' ∉ a.host) :
    FirstUse history a (Trust.decide known a).1 := by
  have hpinned : ∀ {fp}, lastAccepted history a.host a.port = some fp →
      ∃ e ∈ entries known, hostPortMatch e a.host a.port = true ∧ e.fingerprint = fp :=
    fun hlast => h.last a.host a.port _ hcolon hlast
  constructor
  · intro _ hnone
    obtain ⟨htrusted, -⟩ | ⟨-, hhas, -⟩ | ⟨-, hdecide⟩ := decide_cases known ha
    · obtain ⟨e, he, hmatch, hfp⟩ := lookup_trusted_iff.mp htrusted
      exact h.prompted hcolon he (hostPortMatch_iff.mp hmatch).1 hfp
    · obtain ⟨e, he, hhost, hfp⟩ := (hostHasFingerprint_eq known a.host a.fingerprint).mp hhas
      exact h.prompted hcolon he hhost hfp
    · rw [hdecide] at hnone
      cases hnone
  · intro hlast
    have htrusted := lookup_trusted_iff.mpr (hpinned hlast)
    obtain ⟨-, hdecide⟩ | ⟨hunknown, -⟩ | ⟨hnot, -⟩ := decide_cases known ha
    · rw [hdecide]
    · rw [htrusted] at hunknown
      cases hunknown
    · exact absurd htrusted hnot
  · intro fp hlast hne hnever
    obtain ⟨e, he, hmatch, hfp⟩ := hpinned hlast
    have hnot : lookup known a.host a.port a.fingerprint ≠ .trusted := by
      intro htrusted
      obtain ⟨e', he', hmatch', hfp'⟩ := lookup_trusted_iff.mp htrusted
      obtain ⟨d, hd, haccepted, -, hsame, hdfp⟩ :=
        h.prompted hcolon he' (hostPortMatch_iff.mp hmatch').1 hfp'
      exact hnever ⟨d, hd, haccepted, hsame, hdfp⟩
    have hmismatch := lookup_mismatch hnot he hmatch
    obtain ⟨htrusted, -⟩ | ⟨hunknown, -⟩ | ⟨-, hdecide⟩ := decide_cases known ha
    · exact absurd htrusted hnot
    · rw [hmismatch] at hunknown
      cases hunknown
    · rw [hdecide, hmismatch]

/-- A pin for a host with a colon is no pin for it: asked again, the user is prompted again,
as if for an unknown host. -/
theorem colon_host_unknown {a : Asked} (ha : a.Ordinary) (hcolon : ':' ∈ a.host)
    {known : Option (List Char)} (hempty : entries known = []) :
    (decide (pinNow known a) a).1.prompt = some .unknown := by
  have hentries : entries (pinNow known a) = [⟨hostField a.host a.port, 0, a.fingerprint⟩] := by
    rw [entries_pinNow known ha, hempty, Asked.entry, if_pos hcolon]
    rfl
  have hlonger : eqIgnoreAsciiCase (hostField a.host a.port) a.host = false := by
    rw [Bool.eq_false_iff]
    intro hsame
    have hlen := length_of_eqIgnoreAsciiCase hsame
    simp [hostField] at hlen
  have hunknown : lookup (pinNow known a) a.host a.port a.fingerprint = .unknown := by
    rw [lookup_eq, hentries]
    simp [lookupIn, hostPortMatch, hlonger]
  obtain ⟨htrusted, -⟩ | ⟨-, hhas, -⟩ | ⟨-, hdecide⟩ := decide_cases (pinNow known a) ha
  · rw [hunknown] at htrusted
    cases htrusted
  · rw [hostHasFingerprint_eq, hentries] at hhas
    simp [hlonger] at hhas
  · rw [hdecide, hunknown]

/-- The decisions about a host trust on first use, over any run from an empty or absent
file, exactly if the host holds no colon. -/
theorem firstUse_iff {host : List Char} (hhost : IsHost host) :
    (∀ known : Option (List Char), known = none ∨ known = some [] →
      ∀ (asked : List Question) (a : Asked), a.Ordinary → a.host = host →
        FirstUse (decisions known asked) a (decide ((deciding known).after asked) a).1) ↔
      ':' ∉ host := by
  constructor
  · intro h hcolon
    let a : Asked := ⟨host, 1, fingerprintTag, 0, false, true, true⟩
    have ha : a.Ordinary := ⟨hhost, Nat.one_pos, Nat.one_lt_two_pow (by decide),
      ⟨[], rfl, by simp⟩, rfl, rfl⟩
    have hfirst : decide none a = (⟨true, some .unknown⟩, pinNow none a) := by
      obtain ⟨htrusted, -⟩ | ⟨-, hhas, -⟩ | ⟨-, hdecide⟩ := decide_cases none ha
      · cases htrusted
      · cases hhas
      · exact hdecide
    have hagain := (h none (.inl rfl) [⟨a, ha⟩] a ha rfl).kept
    have hlast : lastAccepted (decisions none [⟨a, ha⟩]) a.host a.port = some a.fingerprint := by
      change lastAccepted ([] ++ [(a, (decide none a).1)]) a.host a.port = _
      rw [lastAccepted_concat, hfirst, if_pos]
      simp [acceptsAt, eqIgnoreAsciiCase_refl]
    have hafter : (deciding none).after [⟨a, ha⟩] = pinNow none a := by
      change (decide none a).2 = _
      rw [hfirst]
    have hnone := congrArg Verdict.prompt (hagain hlast)
    rw [hafter, colon_host_unknown ha hcolon rfl] at hnone
    cases hnone
  · rintro hcolon known hempty asked a ha rfl
    have hnothing : entries known = [] := by
      rcases hempty with rfl | rfl
      · rfl
      · rfl
    exact (pinned_after hnothing asked).firstUse ha hcolon

/-- A host `h` is one. -/
theorem h_trusted_on_first_use :
    FirstUse (decisions none []) ⟨[ 'h'], 5600, fingerprintTag, 0, false, true, true⟩
      (decide none ⟨[ 'h'], 5600, fingerprintTag, 0, false, true, true⟩).1 :=
  (firstUse_iff (show IsHost [ 'h'] by decide)).mpr (by decide) none
    (.inl rfl) [] _
    ⟨by decide, by decide, by decide, ⟨[], rfl, by simp⟩, rfl, rfl⟩ rfl

/-- The address `::1`, whose certificate is accepted. -/
def loopback : Asked := ⟨[ ':', ':', '1'], 5600, fingerprintTag ++ [ 'a'], 0, false, true, true⟩

/-- The address `::1:5600`. -/
def another : Asked :=
  ⟨[ ':', ':', '1', ':', '5', '6', '0', '0'], 80, fingerprintTag ++ [ 'a'], 0, false, false, true⟩

/-- After the certificate of `::1` was accepted in a prompt, the same certificate prompts
again, another one is shown as unknown, and the address `::1:5600` is accepted silently
with it, though no prompt for it ever was. -/
theorem loopback_pin_ineffective :
    loopback.Ordinary ∧ another.Ordinary ∧
    (decide none loopback).1 = ⟨true, some .unknown⟩ ∧
    (decide (decide none loopback).2 loopback).1 = ⟨true, some .unknown⟩ ∧
    (decide (decide none loopback).2
      { loopback with fingerprint := fingerprintTag ++ [ 'b'] }).1 = ⟨true, some .unknown⟩ ∧
    (decide (decide none loopback).2 another).1 = ⟨true, none⟩ := by
  have hfp : IsFingerprint (fingerprintTag ++ [ 'a']) :=
    ⟨[ 'a'], rfl, List.all_eq_true.mp (by decide)⟩
  refine ⟨⟨by decide, by decide, by decide, hfp, rfl, rfl⟩,
    ⟨by decide, by decide, by decide, hfp, rfl, rfl⟩, ?_, ?_, ?_, ?_⟩
  · decide +kernel
  · decide +kernel
  · decide +kernel
  · decide +kernel

end Gtkhx.Trust
