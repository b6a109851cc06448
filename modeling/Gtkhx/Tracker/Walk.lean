import Gtkhx.Library.Text
import Gtkhx.Tracker.Listing
import Mathlib.Logic.Function.Basic

/-!
# The walk over the trackers

Each tracker is connected to, with TLS first unless it is known not to speak it, probed, and
connected to again for a version 1 listing if the probe was inconclusive. The connector, the
exchanges over its streams and the consumer of the events are an arbitrary world; which connects
the walk makes, and what becomes of each, is recorded beside it.
-/

namespace Gtkhx.Tracker

/-- What a connection runs over. -/
inductive Transport
  | tls
  | plain
  deriving DecidableEq

/-- Why a connect failed. -/
inductive ConnectError
  | tls (message : String)
  | trustRejected (message : String)
  | transport (message : String)
  deriving DecidableEq

/-- What is known of a tracker's TLS. -/
inductive TlsVerdict
  | unknown
  | ok
  | no
  deriving DecidableEq

/-- The verdicts by URL. -/
abbrev VerdictCache := String → Option TlsVerdict

def VerdictCache.lookup (verdicts : VerdictCache) (url : String) : TlsVerdict :=
  (verdicts url).getD .unknown

def VerdictCache.record (verdicts : VerdictCache) (url : String) (v : TlsVerdict) : VerdictCache :=
  Function.update verdicts url (some v)

/-- What a probe finds out. -/
inductive Outcome
  | listing (listing : TrackerListing)
  | probeInconclusive

/-- What the walk tells. -/
inductive TrackerEvent
  | batchBegin (url : String) (version : UInt8) (count : UInt16)
  | record (total : UInt16) (record : TrackerRecord)
  | batchError (url message : String)
  | done

/-- The world of a walk: it answers the connects and the exchanges, and takes the events until
nobody listens. -/
structure Connector (σ Stream : Type*) where
  connect : σ → String → Transport → Except ConnectError Stream × σ
  runV3Probe : σ → Stream → UInt16 → ℕ → Except TrackerError Outcome × σ
  runV1 : σ → Stream → Except TrackerError TrackerListing × σ
  send : σ → TrackerEvent → Bool × σ
  /-- How an I/O error reads. -/
  ioText : Reader.ErrorKind → String

/-- How a failed connect reads. -/
def ConnectError.text : ConnectError → String
  | .tls message => "TLS: " ++ message
  | .trustRejected message => "TLS trust: " ++ message
  | .transport message => message

/-- How a failed fetch reads. -/
def TrackerError.text (ioText : Reader.ErrorKind → String) : TrackerError → String
  | .io kind => "tracker io error: " ++ ioText kind
  | .shortRead => "tracker response truncated"
  | .badMagic => "tracker response: bad magic"
  | .unsupportedVersion version =>
    "tracker response: unsupported HTRK version 0x" ++
      String.ofList (Text.paddedHex 4 version.toNat)
  | .badV3Header => "tracker: bad v3 response header"
  | .malformedV3Header totalSize recordCount =>
    "tracker: malformed v3 header (total_size=" ++ toString totalSize ++ ", record_count=" ++
      toString recordCount ++ ")"
  | .payloadTooLarge totalSize cap =>
    "tracker: v3 response too large (" ++ toString totalSize ++ " bytes, cap " ++
      toString cap ++ ")"
  | .malformedV3Record index count =>
    "tracker: malformed v3 record " ++ toString (index.toNat + 1) ++ "/" ++ toString count
  | .v3TrailingBytes n => "tracker: " ++ toString n ++ " trailing bytes after v3 records"
  | .excessivePadding => "tracker: too many v1 padding slots"

/-- A connect that was made, and why it failed if it did. -/
structure Attempt where
  transport : Transport
  failure : Option ConnectError
  deriving DecidableEq

/-- The connects of one tracker's turn: for the probe, and for the listing after it. -/
structure Turn where
  url : String
  probe : List Attempt
  reopen : List Attempt

/-- All connects of a turn, in order. -/
def Turn.attempts (t : Turn) : List Attempt := t.probe ++ t.reopen

/-- Why a connect failed. -/
def failure {α : Type*} : Except ConnectError α → Option ConnectError
  | .ok _ => none
  | .error e => some e

section Walk

variable {σ Stream : Type*} (C : Connector σ Stream)

/-- `connect_with_fallback`, with the connects it made. -/
def connectWithFallback (w : σ) (url : String) (verdicts : VerdictCache) :
    Except ConnectError Stream × VerdictCache × σ × List Attempt :=
  if verdicts.lookup url = .no then
    let (r, w) := C.connect w url .plain
    (r, verdicts, w, [⟨.plain, failure r⟩])
  else
    match C.connect w url .tls with
    | (.ok s, w) => (.ok s, verdicts.record url .ok, w, [⟨.tls, none⟩])
    | (.error (.tls message), w) =>
      let (r, w) := C.connect w url .plain
      (r, verdicts.record url .no, w, [⟨.tls, some (.tls message)⟩, ⟨.plain, failure r⟩])
    | (.error e, w) => (.error e, verdicts, w, [⟨.tls, some e⟩])

/-- The events of the records, for as long as somebody listens. -/
def sendRecords (total : UInt16) : σ → List TrackerRecord → Bool × σ
  | w, [] => (true, w)
  | w, record :: records =>
    match C.send w (.record total record) with
    | (true, w) => sendRecords total w records
    | (false, w) => (false, w)

/-- `emit_listing`. -/
def emitListing (w : σ) (url : String) (listing : TrackerListing) : Bool × σ :=
  match C.send w (.batchBegin url listing.version listing.expected) with
  | (true, w) => sendRecords C listing.expected w listing.records
  | (false, w) => (false, w)

/-- `emit_error`. -/
def emitError (w : σ) (url message : String) : Bool × σ := C.send w (.batchError url message)

/-- The second half of `fetch_one`, for an inconclusive probe. -/
def fetchV1 (w : σ) (url : String) (verdicts : VerdictCache) :
    Bool × VerdictCache × σ × List Attempt :=
  match connectWithFallback C w url verdicts with
  | (.error e, verdicts, w, attempts) =>
    let (more, w) := emitError C w url e.text
    (more, verdicts, w, attempts)
  | (.ok s, verdicts, w, attempts) =>
    match C.runV1 w s with
    | (.ok listing, w) =>
      let (more, w) := emitListing C w url listing
      (more, verdicts, w, attempts)
    | (.error e, w) =>
      let (more, w) := emitError C w url (e.text C.ioText)
      (more, verdicts, w, attempts)

/-- `fetch_one`: whether to go on, and the turn. -/
def fetchOne (w : σ) (url : String) (features : UInt16) (probeTimeout : ℕ)
    (verdicts : VerdictCache) : Bool × VerdictCache × σ × Turn :=
  match connectWithFallback C w url verdicts with
  | (.error e, verdicts, w, attempts) =>
    let (more, w) := emitError C w url e.text
    (more, verdicts, w, ⟨url, attempts, []⟩)
  | (.ok s, verdicts, w, attempts) =>
    match C.runV3Probe w s features probeTimeout with
    | (.ok (.listing listing), w) =>
      let (more, w) := emitListing C w url listing
      (more, verdicts, w, ⟨url, attempts, []⟩)
    | (.error e, w) =>
      let (more, w) := emitError C w url (e.text C.ioText)
      (more, verdicts, w, ⟨url, attempts, []⟩)
    | (.ok .probeInconclusive, w) =>
      let (more, verdicts, w, again) := fetchV1 C w url verdicts
      (more, verdicts, w, ⟨url, attempts, again⟩)

/-- `run_fetch_notifying`: the verdicts it leaves, and the turns there were. -/
def runFetch (features : UInt16) (probeTimeout : ℕ) :
    σ → VerdictCache → List String → VerdictCache × σ × List Turn
  | w, verdicts, [] => (verdicts, (C.send w .done).2, [])
  | w, verdicts, url :: urls =>
    match fetchOne C w url features probeTimeout verdicts with
    | (true, verdicts, w, turn) =>
      let (verdicts, w, turns) := runFetch features probeTimeout w verdicts urls
      (verdicts, w, turn :: turns)
    | (false, verdicts, w, turn) => (verdicts, w, [turn])

end Walk

/-- The connects a connect with its fallback makes, whether it got a stream, and the verdicts it
leaves. -/
inductive Ladder (url : String) (verdicts : VerdictCache) :
    Bool → VerdictCache → List Attempt → Prop
  /-- TLS is known not to be spoken. -/
  | plain (hno : verdicts.lookup url = .no) (e : Option ConnectError) :
    Ladder url verdicts e.isNone verdicts [⟨.plain, e⟩]
  | tls (hno : verdicts.lookup url ≠ .no) :
    Ladder url verdicts true (verdicts.record url .ok) [⟨.tls, none⟩]
  /-- TLS is found not to be spoken. -/
  | fellBack (hno : verdicts.lookup url ≠ .no) (message : String) (e : Option ConnectError) :
    Ladder url verdicts e.isNone (verdicts.record url .no)
      [⟨.tls, some (.tls message)⟩, ⟨.plain, e⟩]
  | stopped (hno : verdicts.lookup url ≠ .no) (e : ConnectError)
      (he : ∀ message, e ≠ .tls message) :
    Ladder url verdicts false verdicts [⟨.tls, some e⟩]

/-- The connects of a turn, and the verdicts it leaves. -/
inductive Taken (verdicts : VerdictCache) : VerdictCache → Turn → Prop
  /-- No listing was asked for after the probe. -/
  | once {url : String} {got : Bool} {after : VerdictCache} {probe : List Attempt}
    (hprobe : Ladder url verdicts got after probe) : Taken verdicts after ⟨url, probe, []⟩
  | twice {url : String} {got : Bool} {mid after : VerdictCache} {probe reopen : List Attempt}
    (hprobe : Ladder url verdicts true mid probe) (hreopen : Ladder url mid got after reopen) :
    Taken verdicts after ⟨url, probe, reopen⟩

/-- The turns of a walk, and the verdicts it leaves. -/
inductive Walked : VerdictCache → VerdictCache → List Turn → Prop
  | nil (verdicts : VerdictCache) : Walked verdicts verdicts []
  | cons {verdicts mid after : VerdictCache} {turn : Turn} {turns : List Turn}
    (hturn : Taken verdicts mid turn) (hturns : Walked mid after turns) :
    Walked verdicts after (turn :: turns)

section Steps

variable {σ Stream : Type*} {C : Connector σ Stream}

/-- What a connect with its fallback does. -/
theorem connectWithFallback_ladder (C : Connector σ Stream) (w : σ) (url : String)
    (verdicts : VerdictCache) {r : Except ConnectError Stream} {after : VerdictCache} {w' : σ}
    {attempts : List Attempt}
    (h : connectWithFallback C w url verdicts = (r, after, w', attempts)) :
    Ladder url verdicts (failure r).isNone after attempts := by
  unfold connectWithFallback at h
  by_cases hno : verdicts.lookup url = .no
  · rw [if_pos hno] at h
    simp only [Prod.mk.injEq] at h
    obtain ⟨rfl, rfl, -, rfl⟩ := h
    exact Ladder.plain hno _
  · rw [if_neg hno] at h
    split at h <;> simp only [Prod.mk.injEq] at h <;> obtain ⟨rfl, rfl, -, rfl⟩ := h
    · exact Ladder.tls hno
    · exact Ladder.fellBack hno _ _
    · rename_i e _ hnot _
      exact Ladder.stopped hno e fun message he => hnot message (he ▸ rfl)

/-- The listing after a probe takes one connect with its fallback. -/
theorem fetchV1_ladder (C : Connector σ Stream) (w : σ) (url : String) (verdicts : VerdictCache)
    {more : Bool} {after : VerdictCache} {w' : σ} {attempts : List Attempt}
    (h : fetchV1 C w url verdicts = (more, after, w', attempts)) :
    ∃ got, Ladder url verdicts got after attempts := by
  unfold fetchV1 at h
  rcases hconnect : connectWithFallback C w url verdicts with ⟨e | s, mid, w₁, made⟩
  · rw [hconnect] at h
    simp only [Prod.mk.injEq] at h
    obtain ⟨-, rfl, -, rfl⟩ := h
    exact ⟨_, connectWithFallback_ladder C w url verdicts hconnect⟩
  · rw [hconnect] at h
    dsimp only at h
    split at h <;> simp only [Prod.mk.injEq] at h <;> obtain ⟨-, rfl, -, rfl⟩ := h <;>
      exact ⟨_, connectWithFallback_ladder C w url verdicts hconnect⟩

/-- What a turn does. -/
theorem fetchOne_taken (C : Connector σ Stream) (w : σ) (url : String) (features : UInt16)
    (probeTimeout : ℕ) (verdicts : VerdictCache) {more : Bool} {after : VerdictCache} {w' : σ}
    {turn : Turn}
    (h : fetchOne C w url features probeTimeout verdicts = (more, after, w', turn)) :
    Taken verdicts after turn := by
  unfold fetchOne at h
  rcases hconnect : connectWithFallback C w url verdicts with ⟨e | s, mid, w₁, attempts⟩
  · rw [hconnect] at h
    simp only [Prod.mk.injEq] at h
    obtain ⟨-, rfl, -, rfl⟩ := h
    exact Taken.once (connectWithFallback_ladder C w url verdicts hconnect)
  · have hprobe := connectWithFallback_ladder C w url verdicts hconnect
    rw [hconnect] at h
    dsimp only at h
    split at h
    · simp only [Prod.mk.injEq] at h
      obtain ⟨-, rfl, -, rfl⟩ := h
      exact Taken.once hprobe
    · simp only [Prod.mk.injEq] at h
      obtain ⟨-, rfl, -, rfl⟩ := h
      exact Taken.once hprobe
    · rename_i w₂ _
      rcases hagain : fetchV1 C w₂ url mid with ⟨more', after', w₃, again⟩
      rw [hagain] at h
      simp only [Prod.mk.injEq] at h
      obtain ⟨-, rfl, -, rfl⟩ := h
      obtain ⟨got, hreopen⟩ := fetchV1_ladder C w₂ url mid hagain
      exact Taken.twice hprobe hreopen

/-- What a walk does. -/
theorem runFetch_walked (C : Connector σ Stream) (features : UInt16) (probeTimeout : ℕ)
    (w : σ) (verdicts : VerdictCache) (urls : List String) :
    Walked verdicts (runFetch C features probeTimeout w verdicts urls).1
      (runFetch C features probeTimeout w verdicts urls).2.2 := by
  induction urls generalizing w verdicts with
  | nil => exact Walked.nil verdicts
  | cons url urls ih =>
    unfold runFetch
    rcases hturn : fetchOne C w url features probeTimeout verdicts with ⟨_ | _, mid, w', turn⟩
    · exact Walked.cons (fetchOne_taken C w url features probeTimeout verdicts hturn)
        (Walked.nil mid)
    · exact Walked.cons (fetchOne_taken C w url features probeTimeout verdicts hturn) (ih w' mid)

end Steps

/-- All connects of some turns, in order. -/
def connects (turns : List Turn) : List (String × Attempt) :=
  turns.flatMap fun t => t.attempts.map fun a => (t.url, a)

/-- The verdict a connect settles: TLS that was spoken or not, and nothing else. -/
def settle (verdicts : VerdictCache) (c : String × Attempt) : VerdictCache :=
  match c.2 with
  | ⟨.tls, none⟩ => verdicts.record c.1 .ok
  | ⟨.tls, some (.tls _)⟩ => verdicts.record c.1 .no
  | _ => verdicts

/-- No tracker is silently downgraded. -/
structure Guarded (start after : VerdictCache) (turns : List Turn) : Prop where
  /-- A plain connect goes to a tracker that is known not to speak TLS, from the start or from an
  earlier connect. -/
  plain : ∀ earlier url e later, connects turns = earlier ++ (url, ⟨.plain, e⟩) :: later →
    start.lookup url = .no ∨ ∃ message, (url, ⟨.tls, some (.tls message)⟩) ∈ earlier
  /-- No plain connect follows a rejected certificate in a turn. -/
  rejected : ∀ t ∈ turns, ∀ earlier e later, t.attempts = earlier ++ ⟨.plain, e⟩ :: later →
    ∀ transport message, ⟨transport, some (.trustRejected message)⟩ ∉ earlier
  /-- The verdicts change by what the connects settle. -/
  settled : after = (connects turns).foldl settle start
  /-- A connect after a probe is on the transport of the probe. -/
  reopened : ∀ t ∈ turns, ∀ a ∈ t.reopen, ∀ p, t.probe.getLast? = some p → a.transport = p.transport
  /-- A tracker with a trusted certificate is not spoken to in the clear in that turn. -/
  spoken : ∀ t ∈ turns, ⟨.tls, none⟩ ∈ t.attempts → ∀ a ∈ t.attempts, a.transport = .tls

/-- No connect after a probe finds TLS not to be spoken. -/
def Steady (turns : List Turn) : Prop :=
  ∀ t ∈ turns, ∀ message, ⟨.tls, some (.tls message)⟩ ∉ t.reopen

section Verdicts

variable {url : String} {verdicts after : VerdictCache} {got : Bool} {attempts : List Attempt}

@[simp] theorem VerdictCache.lookup_record (url : String) (v : TlsVerdict) :
    (verdicts.record url v).lookup url = v := by
  simp [VerdictCache.record, VerdictCache.lookup]

/-- The connects of a ladder settle its verdicts. -/
theorem Ladder.settled (h : Ladder url verdicts got after attempts) :
    after = (attempts.map fun a => (url, a)).foldl settle verdicts := by
  cases h with
  | plain | tls => rfl
  | fellBack hno message e => rfl
  | stopped hno e he =>
    cases e with
    | tls message => exact absurd rfl (he message)
    | trustRejected message => rfl
    | transport message => rfl

/-- The connects of a turn settle its verdicts. -/
theorem Taken.settled {turn : Turn} (h : Taken verdicts after turn) :
    after = (turn.attempts.map fun a => (turn.url, a)).foldl settle verdicts := by
  cases h with
  | once hprobe =>
    rw [Turn.attempts, List.append_nil]
    exact hprobe.settled
  | twice hprobe hreopen =>
    rw [Turn.attempts, List.map_append, List.foldl_append, ← hprobe.settled]
    exact hreopen.settled

theorem Walked.settled {turns : List Turn} (h : Walked verdicts after turns) :
    after = (connects turns).foldl settle verdicts := by
  induction h with
  | nil => rfl
  | cons hturn _ ih =>
    rw [connects, List.flatMap_cons, List.foldl_append, ← hturn.settled]
    exact ih

/-- A verdict is that TLS is not spoken only if it was or a connect found so. -/
theorem lookup_foldl_settle {log : List (String × Attempt)}
    (h : (log.foldl settle verdicts).lookup url = .no) :
    verdicts.lookup url = .no ∨ ∃ message, (url, ⟨.tls, some (.tls message)⟩) ∈ log := by
  induction log using List.reverseRecOn with
  | nil => exact Or.inl h
  | append_singleton log c ih =>
    rw [List.foldl_append, List.foldl_cons, List.foldl_nil] at h
    have hearlier : (log.foldl settle verdicts).lookup url = .no →
        verdicts.lookup url = .no ∨
          ∃ message, (url, ⟨.tls, some (.tls message)⟩) ∈ log ++ [c] := by
      intro hno
      rcases ih hno with hno | ⟨message, hmem⟩
      · exact Or.inl hno
      · exact Or.inr ⟨message, List.mem_append_left _ hmem⟩
    obtain ⟨url', transport, e⟩ := c
    by_cases hurl : url' = url
    · subst hurl
      rcases transport with _ | _
      · rcases e with _ | ⟨message⟩ | ⟨message⟩ | ⟨message⟩
        · rw [settle, VerdictCache.lookup_record] at h
          cases h
        · exact Or.inr ⟨message, List.mem_append_right _ (List.mem_singleton_self _)⟩
        · exact hearlier h
        · exact hearlier h
      · exact hearlier h
    · refine hearlier ?_
      rcases transport with _ | _
      · rcases e with _ | ⟨message⟩ | ⟨message⟩ | ⟨message⟩ <;>
          simpa [settle, VerdictCache.record, VerdictCache.lookup,
            Function.update_of_ne (Ne.symm hurl)] using h
      · exact h

/-- Each plain connect comes when TLS is known not to be spoken. -/
def Justified (verdicts : VerdictCache) (log : List (String × Attempt)) : Prop :=
  ∀ earlier url e later, log = earlier ++ (url, ⟨.plain, e⟩) :: later →
    (earlier.foldl settle verdicts).lookup url = .no

theorem Justified.append {log log' : List (String × Attempt)} (h : Justified verdicts log)
    (h' : Justified (log.foldl settle verdicts) log') : Justified verdicts (log ++ log') := by
  intro earlier url e later hlog
  rcases List.append_eq_append_iff.mp hlog with ⟨middle, rfl, hmiddle⟩ | ⟨middle, hmiddle, hrest⟩
  · rw [List.foldl_append]
    exact h' middle url e later hmiddle
  · cases middle with
    | nil =>
      rw [List.append_nil] at hmiddle
      subst hmiddle
      exact h' [] url e later hrest.symm
    | cons c middle =>
      rw [List.cons_append, List.cons.injEq] at hrest
      obtain ⟨rfl, -⟩ := hrest
      exact h earlier url e middle hmiddle

theorem Ladder.justified (h : Ladder url verdicts got after attempts) :
    Justified verdicts (attempts.map fun a => (url, a)) := by
  intro earlier url' e' later hlog
  cases h with
  | plain hno e =>
    cases earlier with
    | nil =>
      obtain ⟨rfl, -⟩ := Prod.mk.inj (List.cons.inj hlog).1
      exact hno
    | cons c earlier => simp at hlog
  | tls hno =>
    cases earlier with
    | nil => simp at hlog
    | cons c earlier => simp at hlog
  | fellBack hno message e =>
    match earlier with
    | [] => simp at hlog
    | [c] =>
      simp only [List.map_cons, List.map_nil, List.cons_append, List.nil_append, List.cons.injEq,
        Prod.mk.injEq] at hlog
      obtain ⟨rfl, ⟨rfl, -⟩, -⟩ := hlog
      exact VerdictCache.lookup_record url .no
    | c :: c' :: earlier => simp at hlog
  | stopped hno e he =>
    cases earlier with
    | nil => simp at hlog
    | cons c earlier => simp at hlog

theorem Taken.justified {turn : Turn} (h : Taken verdicts after turn) :
    Justified verdicts (turn.attempts.map fun a => (turn.url, a)) := by
  cases h with
  | once hprobe =>
    rw [Turn.attempts, List.append_nil]
    exact hprobe.justified
  | twice hprobe hreopen =>
    rw [Turn.attempts, List.map_append]
    refine hprobe.justified.append ?_
    rw [← hprobe.settled]
    exact hreopen.justified

theorem Walked.justified {turns : List Turn} (h : Walked verdicts after turns) :
    Justified verdicts (connects turns) := by
  induction h with
  | nil =>
    intro earlier url e later hlog
    simp [connects] at hlog
  | cons hturn _ ih =>
    rw [connects, List.flatMap_cons]
    refine hturn.justified.append ?_
    rw [← hturn.settled]
    exact ih

/-- Each turn of a walk is taken from some verdicts. -/
theorem Walked.taken {turns : List Turn} (h : Walked verdicts after turns) {turn : Turn}
    (hturn : turn ∈ turns) : ∃ before mid, Taken before mid turn := by
  induction h with
  | nil => cases hturn
  | cons htaken _ ih =>
    rcases List.mem_cons.mp hturn with rfl | hmem
    · exact ⟨_, _, htaken⟩
    · exact ih hmem

/-- A rejected certificate ends a ladder. -/
theorem Ladder.rejected_last (h : Ladder url verdicts got after attempts)
    {earlier later : List Attempt}
    {e : Option ConnectError} (hattempts : attempts = earlier ++ ⟨.plain, e⟩ :: later)
    (transport : Transport) (message : String) :
    ⟨transport, some (.trustRejected message)⟩ ∉ earlier := by
  intro hmem
  cases h with
  | plain hno e' =>
    cases earlier with
    | nil => cases hmem
    | cons a earlier => simp at hattempts
  | tls hno =>
    cases earlier with
    | nil => cases hmem
    | cons a earlier => simp at hattempts
  | fellBack hno message' e' =>
    match earlier with
    | [] => cases hmem
    | [a] =>
      simp only [List.cons_append, List.nil_append, List.cons.injEq] at hattempts
      obtain ⟨rfl, -⟩ := hattempts
      simp at hmem
    | a :: a' :: earlier => simp at hattempts
  | stopped hno e' he =>
    cases earlier with
    | nil => cases hmem
    | cons a earlier => simp at hattempts

/-- A ladder that got a stream got it on a transport that is settled from then on. -/
theorem Ladder.got_cases (h : Ladder url verdicts got after attempts) (hgot : got = true) :
    after.lookup url = .no ∧ attempts.getLast? = some ⟨.plain, none⟩ ∧
        (∀ a ∈ attempts, a.failure = none ∨ ∃ message, a.failure = some (.tls message)) ∧
        ⟨.tls, none⟩ ∉ attempts ∨
      after.lookup url = .ok ∧ attempts = [⟨.tls, none⟩] := by
  cases h with
  | plain hno e =>
    obtain rfl := Option.isNone_iff_eq_none.mp hgot
    exact Or.inl ⟨hno, rfl, by simp, by simp⟩
  | tls hno => exact Or.inr ⟨VerdictCache.lookup_record url .ok, rfl⟩
  | fellBack hno message e =>
    obtain rfl := Option.isNone_iff_eq_none.mp hgot
    exact Or.inl ⟨VerdictCache.lookup_record url .no, rfl, by simp, by simp⟩
  | stopped => cases hgot

/-- Where TLS is known not to be spoken, there is one connect, in the clear. -/
theorem Ladder.of_no (h : Ladder url verdicts got after attempts)
    (hno : verdicts.lookup url = .no) :
    ∃ e, attempts = [⟨.plain, e⟩] := by
  cases h with
  | plain _ e => exact ⟨e, rfl⟩
  | tls hnot => exact absurd hno hnot
  | fellBack hnot => exact absurd hno hnot
  | stopped hnot => exact absurd hno hnot

/-- Where TLS is known to be spoken, all connects are over TLS, unless one finds it not to be. -/
theorem Ladder.of_ok (h : Ladder url verdicts got after attempts)
    (hok : verdicts.lookup url = .ok) :
    (∀ a ∈ attempts, a.transport = .tls ∧ ∀ message, a.failure ≠ some (.tls message)) ∨
      ∃ message e, attempts = [⟨.tls, some (.tls message)⟩, ⟨.plain, e⟩] := by
  cases h with
  | plain hno => exact absurd (hok.symm.trans hno) (by decide)
  | tls hno => exact Or.inl (by simp)
  | fellBack hno message e => exact Or.inr ⟨message, e, rfl⟩
  | stopped hno e he => exact Or.inl (by simpa using he)

/-- A ladder that got a stream has seen no rejected certificate. -/
theorem Ladder.not_rejected (h : Ladder url verdicts got after attempts) (hgot : got = true)
    (transport : Transport) (message : String) :
    ⟨transport, some (.trustRejected message)⟩ ∉ attempts := by
  intro hmem
  rcases h.got_cases hgot with ⟨-, -, hfailures, -⟩ | ⟨-, rfl⟩
  · rcases hfailures _ hmem with hnone | ⟨message', hsome⟩
    · cases hnone
    · cases hsome
  · simp at hmem

/-- A ladder with a trusted certificate has only that connect. -/
theorem Ladder.of_spoken (h : Ladder url verdicts got after attempts)
    (hmem : ⟨.tls, none⟩ ∈ attempts) : ∀ a ∈ attempts, a.transport = .tls := by
  cases h with
  | plain _ e => simp at hmem
  | tls => simp
  | fellBack _ message e => simp at hmem
  | stopped => simp

/-- A plain connect of a turn follows no rejected certificate. -/
theorem Taken.rejected {turn : Turn} (h : Taken verdicts after turn) {earlier later : List Attempt}
    {e : Option ConnectError} (hattempts : turn.attempts = earlier ++ ⟨.plain, e⟩ :: later)
    (transport : Transport) (message : String) :
    ⟨transport, some (.trustRejected message)⟩ ∉ earlier := by
  intro hmem
  cases h with
  | once hprobe =>
    rw [Turn.attempts, List.append_nil] at hattempts
    exact hprobe.rejected_last hattempts transport message hmem
  | twice hprobe hreopen =>
    rcases List.append_eq_append_iff.mp hattempts with
      ⟨middle, rfl, hmiddle⟩ | ⟨middle, hmiddle, hrest⟩
    · rcases List.mem_append.mp hmem with hmem | hmem
      · exact hprobe.not_rejected rfl transport message hmem
      · exact hreopen.rejected_last hmiddle transport message hmem
    · cases middle with
      | nil =>
        rw [List.append_nil] at hmiddle
        subst hmiddle
        exact hprobe.not_rejected rfl transport message hmem
      | cons a middle =>
        rw [List.cons_append, List.cons.injEq] at hrest
        obtain ⟨rfl, -⟩ := hrest
        exact hprobe.rejected_last hmiddle transport message hmem

/-- In a turn with no surprise after its probe, the connects after it are on its transport. -/
theorem Taken.same_transport {turn : Turn} (h : Taken verdicts after turn)
    (hsteady : ∀ message, ⟨.tls, some (.tls message)⟩ ∉ turn.reopen) :
    (∀ a ∈ turn.reopen, ∀ p, turn.probe.getLast? = some p → a.transport = p.transport) ∧
      (⟨.tls, none⟩ ∈ turn.attempts → ∀ a ∈ turn.attempts, a.transport = .tls) := by
  cases h with
  | once hprobe =>
    refine ⟨fun a ha => absurd ha List.not_mem_nil, fun hmem a ha => ?_⟩
    rw [Turn.attempts, List.append_nil] at hmem ha
    exact hprobe.of_spoken hmem a ha
  | twice hprobe hreopen =>
    rcases hprobe.got_cases rfl with ⟨hno, hlast, -, hnot⟩ | ⟨hok, rfl⟩
    · obtain ⟨e, rfl⟩ := hreopen.of_no hno
      constructor
      · intro a ha p hp
        obtain rfl := Option.some.inj (hlast.symm.trans hp)
        rw [List.mem_singleton.mp ha]
      · intro hmem
        rcases List.mem_append.mp hmem with hmem | hmem
        · exact absurd hmem hnot
        · simp at hmem
    · rcases hreopen.of_ok hok with hall | ⟨message, e, rfl⟩
      · constructor
        · intro a ha p hp
          obtain rfl := Option.some.inj hp
          exact (hall a ha).1
        · intro _ a ha
          rcases List.mem_append.mp ha with ha | ha
          · rw [List.mem_singleton.mp ha]
          · exact (hall a ha).1
      · exact absurd (List.mem_cons_self ..) (hsteady message)

/-- In a turn with a connect after its probe that finds TLS not to be spoken, the one after it is
not on the probe's transport. -/
theorem Taken.downgraded {turn : Turn} (h : Taken verdicts after turn) {message : String}
    (hmem : ⟨.tls, some (.tls message)⟩ ∈ turn.reopen) :
    ∃ a ∈ turn.reopen, ∃ p, turn.probe.getLast? = some p ∧ a.transport ≠ p.transport := by
  cases h with
  | once hprobe => cases hmem
  | twice hprobe hreopen =>
    rcases hprobe.got_cases rfl with ⟨hno, -, -, -⟩ | ⟨hok, rfl⟩
    · obtain ⟨e, rfl⟩ := hreopen.of_no hno
      simp at hmem
    · rcases hreopen.of_ok hok with hall | ⟨message', e, rfl⟩
      · exact absurd rfl ((hall _ hmem).2 message)
      · refine ⟨⟨.plain, e⟩, by simp, ⟨.tls, none⟩, rfl, ?_⟩
        exact fun h => Transport.noConfusion h

end Verdicts

section Walks

variable {σ Stream : Type*}

/-- In every walk, no tracker is silently downgraded if and only if no connect after a probe over
TLS finds TLS not to be spoken. -/
theorem guarded_iff (C : Connector σ Stream) (features : UInt16) (probeTimeout : ℕ) (w : σ)
    (start : VerdictCache) (urls : List String) :
    Guarded start (runFetch C features probeTimeout w start urls).1
        (runFetch C features probeTimeout w start urls).2.2 ↔
      Steady (runFetch C features probeTimeout w start urls).2.2 := by
  have hwalked := runFetch_walked C features probeTimeout w start urls
  constructor
  · intro h turn hturn message hmem
    obtain ⟨before, mid, htaken⟩ := hwalked.taken hturn
    obtain ⟨a, ha, p, hp, hne⟩ := htaken.downgraded hmem
    exact hne (h.reopened turn hturn a ha p hp)
  · intro hsteady
    refine ⟨?_, ?_, hwalked.settled, ?_, ?_⟩
    · intro earlier url e later hlog
      exact lookup_foldl_settle (hwalked.justified earlier url e later hlog)
    · intro turn hturn earlier e later hattempts
      obtain ⟨before, mid, htaken⟩ := hwalked.taken hturn
      exact htaken.rejected hattempts
    · intro turn hturn
      obtain ⟨before, mid, htaken⟩ := hwalked.taken hturn
      exact (htaken.same_transport (hsteady turn hturn)).1
    · intro turn hturn
      obtain ⟨before, mid, htaken⟩ := hwalked.taken hturn
      exact (htaken.same_transport (hsteady turn hturn)).2

/-- A tracker that speaks TLS to the first connect, answers no probe, and speaks no TLS to the
second; its state is how many connects there were. -/
def fickle : Connector ℕ Unit where
  connect n _ transport :=
    match n, transport with
    | 1, .tls => (.error (.tls "handshake"), n + 1)
    | _, _ => (.ok (), n + 1)
  runV3Probe n _ _ _ := (.ok .probeInconclusive, n)
  runV1 n _ := (.error .shortRead, n)
  send n _ := (true, n)
  ioText _ := ""

/-- It is spoken to over TLS, and then in the clear. -/
theorem fickle_downgraded : ¬Guarded (fun _ => none)
    (runFetch fickle 0 5000 0 (fun _ => none) ["t1"]).1
    (runFetch fickle 0 5000 0 (fun _ => none) ["t1"]).2.2 := by
  intro h
  have hturns : (runFetch fickle 0 5000 0 (fun _ => none) ["t1"]).2.2 =
      [⟨"t1", [⟨.tls, none⟩], [⟨.tls, some (.tls "handshake")⟩, ⟨.plain, none⟩]⟩] := by
    rfl
  have hspoken := h.spoken
  rw [hturns] at hspoken
  have htls := hspoken _ (List.mem_singleton_self _) (by decide) ⟨.plain, none⟩ (by decide)
  cases htls

end Walks

end Gtkhx.Tracker
