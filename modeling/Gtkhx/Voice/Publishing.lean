import Gtkhx.Voice.Requests
import Mathlib.Tactic.IntervalCases

/-!
# Publishing and the server

The machine and a server joined by two ordered channels. The machine's requests go up; the
server takes them in order, accepts or refuses each start, and sends the room's complete
list down whenever a publication changes, its own endings included. The two are compared
whenever nothing is in flight.

The machine reads a list that has its publication as the acknowledgement of the latest
start, but a list on its way may speak of an earlier one. `Publishing.Fresh` is the
condition that none is taken so.
-/

namespace Gtkhx.Voice

/-- What the server has. -/
structure VideoServer where
  /-- The room this client is in. -/
  room : Option UInt32 := none
  /-- The start whose publication of a kind it holds: the first, the second and so on. -/
  held : VideoKind → Option ℕ := fun _ => none
  paused : VideoKind → Bool := fun _ => false
  /-- How many starts of a kind it has taken. -/
  taken : VideoKind → ℕ := fun _ => 0
  /-- The publications of the other members. -/
  others : List Publication := []

/-- A message to the client. -/
inductive ServerMessage
  /-- A 611 for a room, sent when the server stood so. -/
  | status (cid : UInt32) (server : VideoServer)
  /-- The refusal of a start, with the 607's own number and its place among the starts. -/
  | startRefused (cid : UInt32) (kind : VideoKind) (gen : UInt32) (start : ℕ) (text : String)
  /-- The refusal of a pause. -/
  | pauseRefused (cid : UInt32) (kind : VideoKind) (gen : UInt32) (text : String)

namespace VideoServer

/-- The complete list of the room, with the client's own publications under its id. -/
def listing (uid : UInt16) (s : VideoServer) : List Publication :=
  s.others.filter (·.userId ≠ uid) ++
    VideoKind.all.filterMap (fun kind => (s.held kind).map fun _ => ⟨uid, kind, s.paused kind⟩)

/-- The 611 of the room the client is in. -/
def announce (s : VideoServer) : List ServerMessage := s.room.toList.map (.status · s)

/-- End the client's publication of a kind. -/
def close (s : VideoServer) (kind : VideoKind) : VideoServer × List ServerMessage :=
  let s := { s with held := Function.update s.held kind none }
  (s, s.announce)

/-- Take a request, and accept or refuse it if it can be refused. Leaving a room ends the
publications there. -/
def take (s : VideoServer) (accept : Bool) (text : String) :
    VideoRequest → VideoServer × List ServerMessage
  | .enter cid => ({ s with room := some cid, held := fun _ => none }, [])
  | .exit => ({ s with room := none, held := fun _ => none }, [])
  | .start cid kind gen =>
    let start := s.taken kind + 1
    let s := { s with taken := Function.update s.taken kind start }
    if accept then
      let s := { s with
        held := Function.update s.held kind (some start)
        paused := Function.update s.paused kind false }
      (s, s.announce)
    else (s, [.startRefused cid kind gen start text])
  | .stop kind => if s.held kind = none then (s, []) else s.close kind
  | .pause cid kind paused gen =>
    if ¬accept then (s, [.pauseRefused cid kind gen text])
    else if s.held kind = none then (s, [])
    else
      let s := { s with paused := Function.update s.paused kind paused }
      (s, s.announce)

end VideoServer

/-- What the client hears. -/
def ServerMessage.event (uid : UInt16) : ServerMessage → Event
  | .status cid s => .videoStatusReceived cid (s.listing uid) (some uid)
  | .startRefused cid kind gen _ text => .videoStartFailed cid kind gen text
  | .pauseRefused cid kind gen text => .videoPauseFailed cid kind gen text

/-- The machine, the server and the two channels. -/
structure Publishing where
  machine : SessionMachine := .new
  /-- How many starts of a kind the machine has sent. -/
  started : VideoKind → ℕ := fun _ => 0
  /-- Requests on their way to the server, oldest first. -/
  up : List VideoRequest := []
  server : VideoServer := {}
  /-- Messages on their way back, oldest first. -/
  down : List ServerMessage := []

/-- What happens next. -/
inductive PublishInput
  /-- Any event but the server's messages about video. -/
  | event (e : Event)
  /-- The server takes the next request. -/
  | take (accept : Bool) (text : String)
  /-- The server ends a publication by itself. -/
  | close (kind : VideoKind)
  /-- Another member's publications change. -/
  | change (others : List Publication)
  /-- The next message arrives. -/
  | deliver

/-- Whether an event is one of the server's messages about video. -/
def Event.isVideoMessage : Event → Bool
  | .videoStatusReceived _ _ _ => true
  | .videoStartFailed _ _ _ _ => true
  | .videoPauseFailed _ _ _ _ => true
  | _ => false

/-- Whether a request is a start of a kind. -/
def VideoRequest.isStart (kind : VideoKind) : VideoRequest → Bool
  | .start _ k _ => k = kind
  | _ => false

namespace Publishing

/-- The machine handles an event. -/
def handle (w : Publishing) (e : Event) : Publishing :=
  let requests := videoRequests (w.machine.step e).2
  { w with
    machine := (w.machine.step e).1
    started := fun kind => w.started kind + requests.countP (·.isStart kind)
    up := w.up ++ requests }

/-- One input, for the client whose user id is `uid`. -/
def step (uid : UInt16) (w : Publishing) : PublishInput → Option Publishing
  | .event e => if e.isVideoMessage then none else some (w.handle e)
  | .take accept text =>
    match w.up with
    | [] => none
    | r :: up =>
      some { w with
        up := up
        server := (w.server.take accept text r).1
        down := w.down ++ (w.server.take accept text r).2 }
  | .close kind =>
    if w.server.held kind = none then none
    else some { w with
      server := (w.server.close kind).1
      down := w.down ++ (w.server.close kind).2 }
  | .change others =>
    let s := { w.server with others := others }
    some { w with server := s, down := w.down ++ s.announce }
  | .deliver =>
    match w.down with
    | [] => none
    | message :: down => some ({ w with down := down }.handle (message.event uid))

/-- Nothing is in flight. -/
def Quiet (w : Publishing) : Prop := w.up = [] ∧ w.down = []

/-- The machine publishes a kind exactly when the server holds it, once nothing is in
flight. -/
def Agrees (w : Publishing) : Prop :=
  w.Quiet → ∀ kind, (w.machine.localVideo kind).isSome = true ↔ (w.server.held kind).isSome = true

/-- The start a message speaks of, as the machine would take it: a list of the active room
that has the publication, or a refusal under the number of the latest start. -/
def speaksOf (m : SessionMachine) (kind : VideoKind) : ServerMessage → Option ℕ
  | .status cid s => if m.activeCid = some cid then s.held kind else none
  | .startRefused cid k gen start _ =>
    if k = kind ∧ m.activeCid = some cid ∧ gen = m.startGen kind then some start else none
  | .pauseRefused _ _ _ _ => none

/-- While it publishes a kind, the machine is told of no start but the latest. -/
def Fresh (w : Publishing) (i : PublishInput) : Prop :=
  i = .deliver → ∀ message ∈ w.down.head?, ∀ kind, (w.machine.localVideo kind).isSome = true →
    ∀ start ∈ speaksOf w.machine kind message, start = w.started kind

end Publishing

/-- The client `uid` and its server, from the start of the session on. -/
def publishing (uid : UInt16) : Reactive.Process Publishing PublishInput where
  start := {}
  step := Publishing.step uid

namespace VideoRequest

/-- Whether a request can change what the server holds of a kind. -/
def bearsOn (kind : VideoKind) : VideoRequest → Bool
  | .enter _ => true
  | .exit => true
  | .start _ k _ => k = kind
  | .stop k => k = kind
  | .pause _ _ _ _ => false

/-- Whether the server holds a publication of a kind after it accepts a request. -/
def leaves (kind : VideoKind) (on : Bool) : VideoRequest → Bool
  | .enter _ => false
  | .exit => false
  | .start _ k _ => if k = kind then true else on
  | .stop k => if k = kind then false else on
  | .pause _ _ _ _ => on

/-- The room the client is in after a request. -/
def leadsTo (room : Option UInt32) : VideoRequest → Option UInt32
  | .enter cid => some cid
  | .exit => none
  | _ => room

variable {kind : VideoKind} {r : VideoRequest} {rs : List VideoRequest}

private theorem Foreign.not_bearsOn (h : r.Foreign kind) : r.bearsOn kind = false := by
  cases r with
  | enter | exit => exact h.elim
  | start _ k _ | stop k => exact decide_eq_false h
  | pause => rfl

private theorem isStart_of_not_bearsOn (h : r.bearsOn kind = false) : r.isStart kind = false := by
  cases r with
  | start => exact h
  | _ => rfl

private theorem leaves_of_not_bearsOn (h : r.bearsOn kind = false) (on : Bool) :
    r.leaves kind on = on := by
  cases r with
  | enter | exit => cases h
  | start _ k _ | stop k => exact if_neg (of_decide_eq_false h)
  | pause => rfl

private theorem leadsTo_of_not_bearsOn (h : r.bearsOn kind = false) (room : Option UInt32) :
    r.leadsTo room = room := by
  cases r with
  | enter | exit => cases h
  | _ => rfl

/-- What the server holds of a kind after it accepts all the requests. -/
def outcome (kind : VideoKind) (rs : List VideoRequest) (on : Bool) : Bool :=
  rs.foldl (leaves kind) on

/-- Nothing on the way bears on a kind. -/
def NoneBears (kind : VideoKind) (rs : List VideoRequest) : Prop :=
  ∀ r ∈ rs, r.bearsOn kind = false

private theorem outcome_append (rs rs' : List VideoRequest) (on : Bool) :
    outcome kind (rs ++ rs') on = outcome kind rs' (outcome kind rs on) :=
  List.foldl_append

private theorem NoneBears.outcome (h : NoneBears kind rs) (on : Bool) :
    outcome kind rs on = on := by
  induction rs with
  | nil => rfl
  | cons r rs ih =>
    rw [VideoRequest.outcome, List.foldl_cons, leaves_of_not_bearsOn (h r (by simp))]
    exact ih (fun r' hr' => h r' (by simp [hr']))

private theorem NoneBears.leadsTo (h : NoneBears kind rs) (room : Option UInt32) :
    rs.foldl VideoRequest.leadsTo room = room := by
  induction rs with
  | nil => rfl
  | cons r rs ih =>
    rw [List.foldl_cons, leadsTo_of_not_bearsOn (h r (by simp))]
    exact ih (fun r' hr' => h r' (by simp [hr']))

private theorem NoneBears.countP (h : NoneBears kind rs) : rs.countP (·.isStart kind) = 0 :=
  List.countP_eq_zero.mpr (fun r hr => by simp [isStart_of_not_bearsOn (h r hr)])

private theorem NoneBears.append {rs' : List VideoRequest} (h : NoneBears kind rs)
    (h' : NoneBears kind rs') : NoneBears kind (rs ++ rs') :=
  List.forall_mem_append.mpr ⟨h, h'⟩

/-- Holding less before leads to holding no more after. -/
private theorem outcome_mono (h : outcome kind rs true = false) :
    outcome kind rs false = false := by
  induction rs with
  | nil => cases h
  | cons r rs ih =>
    have hsame : r.leaves kind false = r.leaves kind true ∨
        (r.leaves kind true = true ∧ r.leaves kind false = false) := by
      cases r with
      | start _ k _ | stop k => by_cases hk : k = kind <;> simp [leaves, hk]
      | _ => simp [leaves]
    rw [outcome, List.foldl_cons] at h ⊢
    rcases hsame with hsame | ⟨htrue, hfalse⟩
    · rwa [hsame]
    · rw [htrue] at h
      rw [hfalse]
      exact ih h

/-- Without a start on the way, nothing comes to be held. -/
private theorem outcome_of_no_start (h : rs.countP (·.isStart kind) = 0) :
    outcome kind rs false = false := by
  induction rs with
  | nil => rfl
  | cons r rs ih =>
    have hzero := List.countP_eq_zero.mp h
    have hr : r.leaves kind false = false := by
      cases r with
      | start cid k gen =>
        have hk : k ≠ kind := by simpa [isStart] using hzero (.start cid k gen) (by simp)
        exact if_neg hk
      | stop k => simp [leaves]
      | _ => rfl
    rw [outcome, List.foldl_cons, hr]
    exact ih (List.countP_eq_zero.mpr (fun r' hr' => hzero r' (by simp [hr'])))

end VideoRequest

/-- The server's place in the order of a kind's starts: holding one, then holding none
after it. -/
def VideoServer.stamp (kind : VideoKind) (s : VideoServer) : ℕ :=
  match s.held kind with
  | some start => 2 * start
  | none => 2 * s.taken kind + 1

/-- The place a message speaks from. -/
def ServerMessage.stamp (kind : VideoKind) : ServerMessage → Option ℕ
  | .status _ s => some (s.stamp kind)
  | .startRefused _ k _ start _ => if k = kind then some (2 * start + 1) else none
  | .pauseRefused _ _ _ _ => none

namespace Publishing

variable {kind : VideoKind} {uid : UInt16}

/-- The latest start of a kind has been acknowledged, or will be by one of the messages. -/
def Acknowledged (kind : VideoKind) (m : SessionMachine) (messages : List ServerMessage) : Prop :=
  m.localListed kind = true ∨
    ∃ cid s, .status cid s ∈ messages ∧ m.activeCid = some cid ∧ (s.held kind).isSome = true

/-- The messages end the machine's publication of a kind. -/
def Ends (kind : VideoKind) (m : SessionMachine) (messages : List ServerMessage) : Prop :=
  (∃ cid start text, .startRefused cid kind (m.startGen kind) start text ∈ messages ∧
    m.activeCid = some cid) ∨
  ∃ before cid s after, messages = before ++ .status cid s :: after ∧ m.activeCid = some cid ∧
    s.held kind = none ∧ Acknowledged kind m before

/-- Where the latest start is while the machine publishes a kind. -/
inductive Lives (kind : VideoKind) (w : Publishing) : Prop
  /-- On its way to the server, with nothing behind it that undoes it. -/
  | sent (before : List VideoRequest) (cid : UInt32) (after : List VideoRequest)
      (hup : w.up = before ++ .start cid kind (w.machine.startGen kind) :: after)
      (hcid : w.machine.activeCid = some cid) (hafter : VideoRequest.NoneBears kind after)
  /-- Held by the server. -/
  | held (hheld : (w.server.held kind).isSome = true) (hup : VideoRequest.NoneBears kind w.up)
      (hack : Acknowledged kind w.machine w.down)
  /-- Gone at the server, which the machine is about to hear. -/
  | gone (hheld : w.server.held kind = none) (hup : VideoRequest.NoneBears kind w.up)
      (hends : Ends kind w.machine w.down)

/-- The places of all messages on their way, and of the server. -/
def stamps (kind : VideoKind) (w : Publishing) : List ℕ :=
  w.down.filterMap (·.stamp kind) ++ [w.server.stamp kind]

/-- What the server has taken and told keeps the order of the starts. -/
structure Ordered (kind : VideoKind) (w : Publishing) : Prop where
  /-- The starts not yet taken are on their way. -/
  counted : w.server.taken kind + w.up.countP (·.isStart kind) = w.started kind
  /-- The server holds no start that it has not taken. -/
  held_le : ∀ start ∈ w.server.held kind, start ≤ w.server.taken kind
  /-- The messages are in order. -/
  ordered : (w.stamps kind).Pairwise (· ≤ ·)
  /-- Nothing that the machine is still to hear is older than what it has acknowledged. -/
  noted : (w.machine.localVideo kind).isSome = true → w.machine.localListed kind = true →
    ∀ stamp ∈ w.stamps kind, 2 * w.started kind ≤ stamp
  /-- Each start on its way will find no publication. -/
  alternates : ∀ before cid gen after, w.up = before ++ .start cid kind gen :: after →
    VideoRequest.outcome kind before (w.server.held kind).isSome = false

/-- One kind of publication, at both ends. -/
structure Own (kind : VideoKind) (w : Publishing) : Prop extends Ordered kind w where
  off : w.machine.localVideo kind = none →
    VideoRequest.outcome kind w.up (w.server.held kind).isSome = false
  on : (w.machine.localVideo kind).isSome = true → w.Lives kind

/-- The invariant of the two ends. -/
structure Consistent (w : Publishing) : Prop where
  bound : w.machine.RoomBound
  voice : w.machine.VideoInVoice
  room : w.up.foldl VideoRequest.leadsTo w.server.room = w.machine.activeCid
  own : ∀ kind, w.Own kind

/-- With nothing in flight the invariant is the agreement. -/
theorem Consistent.agrees {w : Publishing} (h : w.Consistent) : w.Agrees := by
  rintro ⟨hup, hdown⟩ kind
  constructor
  · intro hsome
    cases (h.own kind).on hsome with
    | sent before cid after hsent => simp [hup] at hsent
    | held hheld => exact hheld
    | gone _ _ hends => simp [Ends, hdown] at hends
  · intro hheld
    by_contra hnone
    have hoff := (h.own kind).off (by simpa using hnone)
    simp [hup, VideoRequest.outcome, hheld] at hoff

/-- A place past the latest start: the server holds nothing and no start is on its way. -/
private theorem Ordered.past {w : Publishing} (h : w.Ordered kind)
    (hpast : 2 * w.started kind + 1 ≤ w.server.stamp kind) :
    w.server.held kind = none ∧ w.up.countP (·.isStart kind) = 0 := by
  have hcounted := h.counted
  cases hheld : w.server.held kind with
  | none =>
    have hstamp : w.server.stamp kind = 2 * w.server.taken kind + 1 := by
      simp [VideoServer.stamp, hheld]
    exact ⟨rfl, by omega⟩
  | some start =>
    have hstamp : w.server.stamp kind = 2 * start := by simp [VideoServer.stamp, hheld]
    have hle := h.held_le start hheld
    omega

/-- Every message speaks from no later than where the server stands. -/
private theorem Ordered.le_server {w : Publishing} (h : w.Ordered kind) {message : ServerMessage}
    (hmessage : message ∈ w.down) {stamp : ℕ} (hstamp : message.stamp kind = some stamp) :
    stamp ≤ w.server.stamp kind := by
  have hpair := (List.pairwise_append.mp h.ordered).2.2
  exact hpair stamp (List.mem_filterMap.mpr ⟨message, hmessage, hstamp⟩) _ (by simp)

/-- The machine hears more, and the server moves on. -/
private def served (w : Publishing) (up : List VideoRequest) (server : VideoServer)
    (messages : List ServerMessage) : Publishing :=
  { w with up := up, server := server, down := w.down ++ messages }

/-- The messages speak from where the server stands. -/
private def SpeakFrom (kind : VideoKind) (server : VideoServer)
    (messages : List ServerMessage) : Prop :=
  ∀ message ∈ messages, ∀ stamp ∈ message.stamp kind, stamp = server.stamp kind

private theorem speakFrom_announce (s : VideoServer) : SpeakFrom kind s s.announce := by
  intro message hmessage stamp hstamp
  obtain ⟨cid, _, rfl⟩ := List.mem_map.mp hmessage
  exact (Option.some.inj hstamp).symm

private theorem stamp_le {s : VideoServer} (h : ∀ start ∈ s.held kind, start ≤ s.taken kind) :
    s.stamp kind ≤ 2 * s.taken kind + 1 := by
  cases hheld : s.held kind with
  | none => simp [VideoServer.stamp, hheld]
  | some start =>
    have hle := h start hheld
    simp only [VideoServer.stamp, hheld]
    omega

/-- The order is kept when the server moves on in it and speaks from there. -/
private theorem Ordered.served {w : Publishing} (h : w.Ordered kind) {up : List VideoRequest}
    {server : VideoServer} {messages : List ServerMessage}
    (hcounted : server.taken kind + up.countP (·.isStart kind) = w.started kind)
    (hheld_le : ∀ start ∈ server.held kind, start ≤ server.taken kind)
    (hle : w.server.stamp kind ≤ server.stamp kind) (hspeak : SpeakFrom kind server messages)
    (halternates : ∀ before cid gen after, up = before ++ .start cid kind gen :: after →
      VideoRequest.outcome kind before (server.held kind).isSome = false) :
    (w.served up server messages).Ordered kind := by
  have hnew : ∀ stamp ∈ messages.filterMap (·.stamp kind), stamp = server.stamp kind := by
    intro stamp hstamp
    obtain ⟨message, hmessage, hsome⟩ := List.mem_filterMap.mp hstamp
    exact hspeak message hmessage stamp hsome
  obtain ⟨hdown, _, hserver⟩ := List.pairwise_append.mp h.ordered
  have hstamps : (w.served up server messages).stamps kind =
      w.down.filterMap (·.stamp kind) ++
        (messages.filterMap (·.stamp kind) ++ [server.stamp kind]) := by
    simp [stamps, Publishing.served]
  have hafter : ∀ stamp ∈ messages.filterMap (·.stamp kind) ++ [server.stamp kind],
      stamp = server.stamp kind := by
    intro stamp hstamp
    rcases List.mem_append.mp hstamp with hstamp | hstamp
    · exact hnew stamp hstamp
    · exact List.mem_singleton.mp hstamp
  refine ⟨hcounted, hheld_le, ?_, fun hsome hlisted => ?_, halternates⟩
  · rw [hstamps]
    refine List.pairwise_append.mpr ⟨hdown, ?_, fun old hold new hnew => ?_⟩
    · refine List.pairwise_of_forall_mem_list (fun a ha b hb => ?_)
      rw [hafter a ha, hafter b hb]
    · rw [hafter new hnew]
      exact (hserver old hold _ (by simp)).trans hle
  · have hnoted := h.noted hsome hlisted
    rw [hstamps]
    intro stamp hstamp
    rcases List.mem_append.mp hstamp with hstamp | hstamp
    · exact hnoted stamp (by simp [stamps, hstamp])
    · rw [hafter stamp hstamp]
      exact (hnoted _ (by simp [stamps])).trans hle

private theorem Acknowledged.append {m : SessionMachine} {messages : List ServerMessage}
    (h : Acknowledged kind m messages) (more : List ServerMessage) :
    Acknowledged kind m (messages ++ more) := by
  rcases h with h | ⟨cid, s, hmem, hcid, hheld⟩
  · exact Or.inl h
  · exact Or.inr ⟨cid, s, by simp [hmem], hcid, hheld⟩

private theorem Ends.append {m : SessionMachine} {messages : List ServerMessage}
    (h : Ends kind m messages) (more : List ServerMessage) : Ends kind m (messages ++ more) := by
  rcases h with ⟨cid, start, text, hmem, hcid⟩ | ⟨before, cid, s, after, rfl, hcid, hheld, hack⟩
  · exact Or.inl ⟨cid, start, text, by simp [hmem], hcid⟩
  · exact Or.inr ⟨before, cid, s, after ++ more, by simp, hcid, hheld, hack⟩

/-- A start among requests the server takes later, once nothing before it bears on the
kind. -/
private theorem split_start {dropped up before after : List VideoRequest} {cid gen : UInt32}
    (hdropped : VideoRequest.NoneBears kind dropped)
    (h : dropped ++ up = before ++ .start cid kind gen :: after) :
    ∃ rest, up = rest ++ .start cid kind gen :: after := by
  rcases List.append_eq_append_iff.mp h with ⟨rest, rfl, rfl⟩ | ⟨rest, hbefore, hrest⟩
  · exact ⟨rest, rfl⟩
  · cases rest with
    | nil => exact ⟨[], by simpa using hrest.symm⟩
    | cons r rest =>
      obtain ⟨rfl, _⟩ : VideoRequest.start cid kind gen = r ∧ after = rest ++ up := by
        simpa using hrest
      have hnot := hdropped (.start cid kind gen) (by simp [hbefore])
      simp [VideoRequest.bearsOn] at hnot

/-- The server moves on without touching a kind: it takes requests that do not bear on it,
or speaks of other publications. -/
private theorem Own.untouched {w : Publishing} (h : w.Own kind) (dropped : List VideoRequest)
    {up : List VideoRequest} {server : VideoServer} {messages : List ServerMessage}
    (hup : w.up = dropped ++ up)
    (hdropped : VideoRequest.NoneBears kind dropped) (hheld : server.held kind = w.server.held kind)
    (htaken : server.taken kind = w.server.taken kind) (hspeak : SpeakFrom kind server messages) :
    (w.served up server messages).Own kind := by
  have hstamp : server.stamp kind = w.server.stamp kind := by
    simp [VideoServer.stamp, hheld, htaken]
  refine ⟨h.toOrdered.served ?_ ?_ hstamp.ge hspeak ?_, fun hnone => ?_, fun hsome => ?_⟩
  · have hcounted := h.counted
    rw [hup, List.countP_append, hdropped.countP] at hcounted
    rw [htaken]
    omega
  · rw [hheld, htaken]
    exact h.held_le
  · intro before cid gen after hsplit
    have hfound := h.alternates (dropped ++ before) cid gen after (by rw [hup, hsplit]; simp)
    rwa [VideoRequest.outcome_append, hdropped.outcome, ← hheld] at hfound
  · have hoff := h.off hnone
    rwa [hup, VideoRequest.outcome_append, hdropped.outcome, ← hheld] at hoff
  · have hrest (hnone : VideoRequest.NoneBears kind w.up) : VideoRequest.NoneBears kind up :=
      fun r hr => hnone r (by simp [hup, hr])
    cases h.on hsome with
    | sent before cid after hsent hcid hafter =>
      obtain ⟨rest, hsplit⟩ := split_start hdropped (hup ▸ hsent)
      exact .sent rest cid after hsplit hcid hafter
    | held hsome hnone hack => exact .held (hheld ▸ hsome) (hrest hnone) (hack.append messages)
    | gone hgone hnone hends => exact .gone (hheld ▸ hgone) (hrest hnone) (hends.append messages)

/-- The server takes a request that leaves nothing of a kind: it ends the stay in the room
or stops the publication. -/
private theorem Own.emptied {w : Publishing} (h : w.Own kind) {r : VideoRequest}
    {up : List VideoRequest} {server : VideoServer} {messages : List ServerMessage}
    (hup : w.up = r :: up) (hbears : r.bearsOn kind = true) (hstart : r.isStart kind = false)
    (hleaves : ∀ on, r.leaves kind on = false) (hheld : server.held kind = none)
    (htaken : server.taken kind = w.server.taken kind) (hspeak : SpeakFrom kind server messages) :
    (w.served up server messages).Own kind := by
  have hstamp : server.stamp kind = 2 * w.server.taken kind + 1 := by
    simp [VideoServer.stamp, hheld, htaken]
  have hempty : (server.held kind).isSome = false := by simp [hheld]
  have houtcome (rs : List VideoRequest) (on : Bool) :
      VideoRequest.outcome kind (r :: rs) on = VideoRequest.outcome kind rs false := by
    rw [VideoRequest.outcome, List.foldl_cons, hleaves]
    rfl
  have hnot : ¬VideoRequest.NoneBears kind w.up := by
    intro hnone
    have hfalse := hnone r (by simp [hup])
    simp [hbears] at hfalse
  refine ⟨h.toOrdered.served ?_ (by simp [hheld]) ?_ hspeak ?_, fun hnone => ?_, fun hsome => ?_⟩
  · have hcounted := h.counted
    rwa [hup, List.countP_cons_of_neg (by simp [hstart]), ← htaken] at hcounted
  · rw [hstamp]
    exact stamp_le h.held_le
  · intro before cid gen after hsplit
    have hfound := h.alternates (r :: before) cid gen after (by rw [hup, hsplit]; rfl)
    rw [hempty]
    rwa [houtcome] at hfound
  · have hoff := h.off hnone
    change VideoRequest.outcome kind up (server.held kind).isSome = false
    rw [hempty]
    rwa [hup, houtcome] at hoff
  · cases h.on hsome with
    | sent before cid after hsent hcid hafter =>
      cases before with
      | nil =>
        obtain ⟨rfl, _⟩ : r = .start cid kind (w.machine.startGen kind) ∧ up = after := by
          simpa [hup] using hsent
        simp [VideoRequest.isStart] at hstart
      | cons r' before =>
        obtain ⟨_, hrest⟩ : r = r' ∧ up = before ++ _ := by simpa [hup] using hsent
        exact .sent before cid after hrest hcid hafter
    | held _ hnone => exact absurd hnone hnot
    | gone _ hnone => exact absurd hnone hnot

/-- Holding nothing instead of something leads to holding no more. -/
private theorem outcome_none {rs : List VideoRequest} {on : Bool}
    (h : VideoRequest.outcome kind rs on = false) : VideoRequest.outcome kind rs false = false := by
  cases on with
  | false => exact h
  | true => exact VideoRequest.outcome_mono h

/-- The server ends a publication by itself, and says so in the room the machine is in. -/
private theorem Own.closed {w : Publishing} (h : w.Own kind) {server : VideoServer}
    {messages : List ServerMessage} (hwas : (w.server.held kind).isSome = true)
    (hheld : server.held kind = none) (htaken : server.taken kind = w.server.taken kind)
    (hspeak : SpeakFrom kind server messages)
    (hannounced : (w.machine.localVideo kind).isSome = true → VideoRequest.NoneBears kind w.up →
      ∃ cid, w.machine.activeCid = some cid ∧ messages = [.status cid server]) :
    (w.served w.up server messages).Own kind := by
  have hempty : (server.held kind).isSome = false := by simp [hheld]
  have hstamp : server.stamp kind = 2 * w.server.taken kind + 1 := by
    simp [VideoServer.stamp, hheld, htaken]
  refine ⟨h.toOrdered.served ?_ (by simp [hheld]) ?_ hspeak ?_, fun hnone => ?_, fun hsome => ?_⟩
  · rw [htaken]
    exact h.counted
  · rw [hstamp]
    exact stamp_le h.held_le
  · intro before cid gen after hsplit
    rw [hempty]
    exact outcome_none (h.alternates before cid gen after hsplit)
  · change VideoRequest.outcome kind w.up (server.held kind).isSome = false
    rw [hempty]
    exact outcome_none (h.off hnone)
  · cases h.on hsome with
    | sent before cid after hsent hcid hafter => exact .sent before cid after hsent hcid hafter
    | held _ hnone hack =>
      obtain ⟨cid, hcid, rfl⟩ := hannounced hsome hnone
      exact .gone hheld hnone (Or.inr ⟨w.down, cid, server, [], rfl, hcid, hheld, hack⟩)
    | gone hgone => simp [hgone] at hwas

/-- The server accepts a start, and says so in the room the machine is in. -/
private theorem Own.accepted {w : Publishing} (h : w.Own kind) {cid gen : UInt32}
    {up : List VideoRequest} {server : VideoServer} {messages : List ServerMessage}
    (hup : w.up = .start cid kind gen :: up)
    (hheld : server.held kind = some (w.server.taken kind + 1))
    (htaken : server.taken kind = w.server.taken kind + 1)
    (hspeak : SpeakFrom kind server messages)
    (hannounced : (w.machine.localVideo kind).isSome = true → VideoRequest.NoneBears kind up →
      ∃ cid, w.machine.activeCid = some cid ∧ messages = [.status cid server]) :
    (w.served up server messages).Own kind := by
  have hon : (server.held kind).isSome = true := by simp [hheld]
  have hstamp : server.stamp kind = 2 * (w.server.taken kind + 1) := by
    simp [VideoServer.stamp, hheld]
  have hcounted := h.counted
  rw [hup, List.countP_cons_of_pos (by simp [VideoRequest.isStart])] at hcounted
  have houtcome (rs : List VideoRequest) (on : Bool) :
      VideoRequest.outcome kind (.start cid kind gen :: rs) on =
        VideoRequest.outcome kind rs true := by
    simp [VideoRequest.outcome, VideoRequest.leaves]
  refine ⟨h.toOrdered.served ?_ ?_ ?_ hspeak ?_, fun hnone => ?_, fun hsome => ?_⟩
  · rw [htaken]
    omega
  · rw [hheld, htaken]
    rintro start ⟨⟩
    exact le_rfl
  · have hle := stamp_le h.held_le
    rw [hstamp]
    omega
  · intro before cid' gen' after hsplit
    have hfound := h.alternates (.start cid kind gen :: before) cid' gen' after
      (by rw [hup, hsplit]; rfl)
    rwa [houtcome, ← hon] at hfound
  · have hoff := h.off hnone
    change VideoRequest.outcome kind up (server.held kind).isSome = false
    rw [hon]
    rwa [hup, houtcome] at hoff
  · cases h.on hsome with
    | sent before cid' after hsent hcid hafter =>
      cases before with
      | nil =>
        obtain ⟨_, rfl⟩ : _ ∧ up = after := by simpa [hup] using hsent
        obtain ⟨room, hroom, rfl⟩ := hannounced hsome hafter
        exact .held hon hafter (Or.inr ⟨room, server, by simp [Publishing.served], hroom, hon⟩)
      | cons r before =>
        obtain ⟨_, hrest⟩ : _ ∧ up = before ++ _ := by simpa [hup] using hsent
        exact .sent before cid' after hrest hcid hafter
    | held _ hnone | gone _ hnone =>
      have hfalse := hnone (.start cid kind gen) (by simp [hup])
      simp [VideoRequest.bearsOn] at hfalse

/-- The server refuses a start under the number it was sent with. -/
private theorem Own.refused {w : Publishing} (h : w.Own kind) {cid gen : UInt32}
    {up : List VideoRequest} {server : VideoServer} {text : String}
    (hup : w.up = .start cid kind gen :: up) (hheld : server.held kind = w.server.held kind)
    (htaken : server.taken kind = w.server.taken kind + 1) :
    (w.served up server [.startRefused cid kind gen (w.server.taken kind + 1) text]).Own kind := by
  have hwas : w.server.held kind = none := by
    simpa [VideoRequest.outcome] using h.alternates [] cid gen up hup
  have hnone : server.held kind = none := hheld.trans hwas
  have hempty : (server.held kind).isSome = false := by simp [hnone]
  have hstamp : server.stamp kind = 2 * (w.server.taken kind + 1) + 1 := by
    simp [VideoServer.stamp, hnone, htaken]
  have hcounted := h.counted
  rw [hup, List.countP_cons_of_pos (by simp [VideoRequest.isStart])] at hcounted
  have houtcome (rs : List VideoRequest) (on : Bool) :
      VideoRequest.outcome kind (.start cid kind gen :: rs) on =
        VideoRequest.outcome kind rs true := by
    simp [VideoRequest.outcome, VideoRequest.leaves]
  refine ⟨h.toOrdered.served ?_ (by simp [hnone]) ?_ ?_ ?_, fun hoff => ?_, fun hsome => ?_⟩
  · rw [htaken]
    omega
  · have hle := stamp_le h.held_le
    rw [hstamp]
    omega
  · rintro message hmessage stamp hmem
    obtain rfl := List.mem_singleton.mp hmessage
    have hsame : some (2 * (w.server.taken kind + 1) + 1) = some stamp := by
      simpa [ServerMessage.stamp] using hmem
    rw [hstamp, ← Option.some.inj hsame]
  · intro before cid' gen' after hsplit
    have hfound := h.alternates (.start cid kind gen :: before) cid' gen' after
      (by rw [hup, hsplit]; rfl)
    rw [hempty]
    exact outcome_none (houtcome before _ ▸ hfound)
  · have hfound := h.off hoff
    change VideoRequest.outcome kind up (server.held kind).isSome = false
    rw [hempty]
    rw [hup, houtcome] at hfound
    exact outcome_none hfound
  · cases h.on hsome with
    | sent before cid' after hsent hcid hafter =>
      cases before with
      | nil =>
        obtain ⟨⟨rfl, rfl⟩, rfl⟩ :
            (cid = cid' ∧ gen = w.machine.startGen kind) ∧ up = after := by
          simpa [hup] using hsent
        exact .gone hnone hafter (Or.inl ⟨cid, w.server.taken kind + 1, text,
          by simp [Publishing.served], hcid⟩)
      | cons r before =>
        obtain ⟨_, hrest⟩ : _ ∧ up = before ++ _ := by simpa [hup] using hsent
        exact .sent before cid' after hrest hcid hafter
    | held _ hall | gone _ hall =>
      have hfalse := hall (.start cid kind gen) (by simp [hup])
      simp [VideoRequest.bearsOn] at hfalse

/-- With nothing on its way that bears on a publication, the server speaks in the room the
machine publishes in. -/
private theorem Consistent.announced {w : Publishing} (h : w.Consistent) {up : List VideoRequest}
    {server : VideoServer} (hroom : up.foldl VideoRequest.leadsTo server.room = w.machine.activeCid)
    (hsome : (w.machine.localVideo kind).isSome = true) (hnone : VideoRequest.NoneBears kind up) :
    ∃ cid, w.machine.activeCid = some cid ∧ server.announce = [.status cid server] := by
  have hin := SessionMachine.inRoom_of_inVoice (h.voice kind hsome)
  obtain ⟨cid, hcid⟩ := Option.isSome_iff_exists.mp (h.bound.active_iff.mpr hin)
  rw [hnone.leadsTo, hcid] at hroom
  exact ⟨cid, hcid, by simp [VideoServer.announce, hroom]⟩

/-- The requests of one kind do not bear on the other. -/
private theorem noneBears_singleton {r : VideoRequest} (h : r.bearsOn kind = false) :
    VideoRequest.NoneBears kind [r] :=
  List.forall_mem_singleton.mpr h

/-- The server takes the next request. -/
private theorem Consistent.take {w : Publishing} (h : w.Consistent) {r : VideoRequest}
    {up : List VideoRequest} (hup : w.up = r :: up) (accept : Bool) (text : String) :
    (w.served up (w.server.take accept text r).1 (w.server.take accept text r).2).Consistent := by
  have hroom : up.foldl VideoRequest.leadsTo (w.server.take accept text r).1.room =
      w.machine.activeCid := by
    have hlead : (w.server.take accept text r).1.room = r.leadsTo w.server.room := by
      cases r with
      | start => cases accept <;> rfl
      | stop k =>
        simp only [VideoServer.take]
        split_ifs <;> rfl
      | pause =>
        simp only [VideoServer.take]
        split_ifs <;> rfl
      | _ => rfl
    have hwas := h.room
    rwa [hup, List.foldl_cons, ← hlead] at hwas
  refine ⟨h.bound, h.voice, hroom, fun kind => ?_⟩
  have hown := h.own kind
  cases r with
  | enter cid =>
    exact hown.emptied hup rfl rfl (fun _ => rfl) rfl rfl (by simp [SpeakFrom, VideoServer.take])
  | exit =>
    exact hown.emptied hup rfl rfl (fun _ => rfl) rfl rfl (by simp [SpeakFrom, VideoServer.take])
  | start cid k gen =>
    by_cases hk : k = kind
    · subst hk
      cases accept with
      | true =>
        refine hown.accepted hup ?_ ?_ (speakFrom_announce _) (fun hsome hnone => ?_)
        · simp [VideoServer.take]
        · simp [VideoServer.take]
        · exact h.announced hroom hsome hnone
      | false =>
        refine hown.refused hup ?_ ?_
        · simp [VideoServer.take]
        · simp [VideoServer.take]
    · have hbears := noneBears_singleton (r := .start cid k gen) (decide_eq_false hk)
      cases accept with
      | true =>
        refine hown.untouched [.start cid k gen] hup hbears ?_ ?_
          (speakFrom_announce _)
        · simp [VideoServer.take, Function.update_of_ne (Ne.symm hk)]
        · simp [VideoServer.take, Function.update_of_ne (Ne.symm hk)]
      | false =>
        refine hown.untouched [.start cid k gen] hup hbears ?_ ?_ ?_
        · simp [VideoServer.take]
        · simp [VideoServer.take, Function.update_of_ne (Ne.symm hk)]
        · simp [SpeakFrom, VideoServer.take, ServerMessage.stamp, hk]
  | stop k =>
    have hheld (hnone : w.server.held k = none) :
        w.server.take accept text (.stop k) = (w.server, []) := if_pos hnone
    have hclose (hsome : w.server.held k ≠ none) :
        w.server.take accept text (.stop k) = w.server.close k := if_neg hsome
    by_cases hk : k = kind
    · subst hk
      refine hown.emptied hup (decide_eq_true rfl) rfl (fun _ => if_pos rfl) ?_ ?_ ?_
      all_goals by_cases hnone : w.server.held k = none
      · simp [hheld hnone, hnone]
      · simp [hclose hnone, VideoServer.close]
      · simp [hheld hnone]
      · simp [hclose hnone, VideoServer.close]
      · simp [hheld hnone, SpeakFrom]
      · rw [hclose hnone]
        exact speakFrom_announce _
    · have hbears := noneBears_singleton (r := .stop k) (decide_eq_false hk)
      refine hown.untouched [.stop k] hup hbears ?_ ?_ ?_
      all_goals by_cases hnone : w.server.held k = none
      · simp [hheld hnone]
      · simp [hclose hnone, VideoServer.close, Function.update_of_ne (Ne.symm hk)]
      · simp [hheld hnone]
      · simp [hclose hnone, VideoServer.close]
      · simp [hheld hnone, SpeakFrom]
      · rw [hclose hnone]
        exact speakFrom_announce _
  | pause cid k paused gen =>
    have hbears : VideoRequest.NoneBears kind [.pause cid k paused gen] := noneBears_singleton rfl
    refine hown.untouched [.pause cid k paused gen] hup hbears ?_ ?_ ?_
    all_goals simp only [VideoServer.take]
    all_goals split_ifs
    any_goals rfl
    · simp [SpeakFrom]
    · exact speakFrom_announce _
    · simp [SpeakFrom, ServerMessage.stamp]

/-- The server ends a publication by itself. -/
private theorem Consistent.close {w : Publishing} (h : w.Consistent) {k : VideoKind}
    (hwas : w.server.held k ≠ none) :
    (w.served w.up (w.server.close k).1 (w.server.close k).2).Consistent := by
  have hroom : w.up.foldl VideoRequest.leadsTo (w.server.close k).1.room = w.machine.activeCid :=
    h.room
  refine ⟨h.bound, h.voice, hroom, fun kind => ?_⟩
  by_cases hk : k = kind
  · subst hk
    exact (h.own k).closed (Option.isSome_iff_ne_none.mpr hwas) (by simp [VideoServer.close]) rfl
      (speakFrom_announce _) (fun hsome hnone => h.announced hroom hsome hnone)
  · exact (h.own kind).untouched [] rfl (by simp [VideoRequest.NoneBears])
      (by simp [VideoServer.close, Function.update_of_ne (Ne.symm hk)]) rfl (speakFrom_announce _)

/-- Another member's publications change. -/
private theorem Consistent.change {w : Publishing} (h : w.Consistent) (others : List Publication) :
    (w.served w.up { w.server with others := others }
      { w.server with others := others }.announce).Consistent :=
  ⟨h.bound, h.voice, h.room, fun kind =>
    (h.own kind).untouched [] rfl (by simp [VideoRequest.NoneBears]) rfl rfl
      (speakFrom_announce _)⟩

/-- A start among the requests of a step or among those sent before. -/
private theorem split_sent {up requests before after : List VideoRequest} {r : VideoRequest}
    (h : up ++ requests = before ++ r :: after) :
    (∃ rest, up = before ++ r :: rest) ∨
      ∃ rest, before = up ++ rest ∧ requests = rest ++ r :: after := by
  rcases List.append_eq_append_iff.mp h with ⟨rest, hbefore, hrest⟩ | ⟨rest, hup, hrest⟩
  · exact Or.inr ⟨rest, hbefore, hrest⟩
  · cases rest with
    | nil => exact Or.inr ⟨[], by simpa using hup.symm, by simpa using hrest.symm⟩
    | cons r' rest =>
      obtain ⟨rfl, _⟩ : r = r' ∧ after = rest ++ requests := by simpa using hrest
      exact Or.inl ⟨rest, hup⟩

/-- The order is kept when the machine sends requests, none of them a start. -/
private theorem Ordered.sends {w : Publishing} (h : w.Ordered kind) {e : Event}
    (hstarts : (videoRequests (w.machine.step e).2).countP (·.isStart kind) = 0)
    (hnoted : ((w.machine.step e).1.localVideo kind).isSome = true →
      (w.machine.step e).1.localListed kind = true →
      ∀ stamp ∈ w.stamps kind, 2 * w.started kind ≤ stamp) :
    (w.handle e).Ordered kind where
  counted := by
    have hcounted := h.counted
    simp only [handle, List.countP_append]
    omega
  held_le := h.held_le
  ordered := h.ordered
  noted := by
    intro hsome hlisted
    have hstarted : (w.handle e).started kind = w.started kind := by simp [handle, hstarts]
    rw [hstarted]
    exact hnoted hsome hlisted
  alternates := by
    intro before cid gen after hsplit
    rcases split_sent hsplit with ⟨rest, hup⟩ | ⟨rest, _, hrequests⟩
    · exact h.alternates before cid gen rest hup
    · have hnot := List.countP_eq_zero.mp hstarts (.start cid kind gen) (by simp [hrequests])
      simp [VideoRequest.isStart] at hnot

private theorem Acknowledged.congr {m m' : SessionMachine} {messages : List ServerMessage}
    (h : Acknowledged kind m messages) (hlisted : m'.localListed kind = m.localListed kind)
    (hactive : m'.activeCid = m.activeCid) : Acknowledged kind m' messages := by
  simpa only [Acknowledged, hlisted, hactive] using h

/-- What the machine does about other publications leaves a kind where it is. -/
private theorem Own.same {w : Publishing} (h : w.Own kind) {e : Event}
    (hvideo : ((w.machine.step e).1.localVideo kind).isSome = (w.machine.localVideo kind).isSome)
    (hlisted : (w.machine.step e).1.localListed kind = w.machine.localListed kind)
    (hstartGen : (w.machine.step e).1.startGen kind = w.machine.startGen kind)
    (hactive : (w.machine.step e).1.activeCid = w.machine.activeCid)
    (hrequests : VideoRequest.NoneBears kind (videoRequests (w.machine.step e).2)) :
    (w.handle e).Own kind := by
  refine ⟨h.toOrdered.sends hrequests.countP ?_, fun hnone => ?_, fun hsome => ?_⟩
  · rw [hvideo, hlisted]
    exact h.noted
  · have hwas : w.machine.localVideo kind = none := by
      change (w.machine.step e).1.localVideo kind = none at hnone
      rw [hnone] at hvideo
      simpa using hvideo.symm
    change VideoRequest.outcome kind (w.up ++ videoRequests (w.machine.step e).2) _ = false
    rw [VideoRequest.outcome_append, hrequests.outcome]
    exact h.off hwas
  · cases h.on (hvideo ▸ hsome) with
    | sent before cid after hsent hcid hafter =>
      refine .sent before cid (after ++ videoRequests (w.machine.step e).2) ?_
        (hactive.trans hcid) (hafter.append hrequests)
      simp [handle, hsent, hstartGen]
    | held hheld hnone hack =>
      exact .held hheld (hnone.append hrequests) (hack.congr hlisted hactive)
    | gone hheld hnone hends =>
      refine .gone hheld (hnone.append hrequests) ?_
      rcases hends with ⟨cid, start, text, hmem, hcid⟩ |
        ⟨before, cid, s, after, hdown, hcid, hs, hack⟩
      · exact Or.inl ⟨cid, start, text, by simpa [handle, hstartGen] using hmem,
          hactive.trans hcid⟩
      · exact Or.inr ⟨before, cid, s, after, hdown, hactive.trans hcid, hs,
          hack.congr hlisted hactive⟩

/-- The machine ends its publication of a kind, and nothing on its way brings one back. -/
private theorem Own.ended {w : Publishing} (h : w.Ordered kind) {e : Event}
    (hnone : (w.machine.step e).1.localVideo kind = none)
    (hstarts : (videoRequests (w.machine.step e).2).countP (·.isStart kind) = 0)
    (hoff : VideoRequest.outcome kind (w.up ++ videoRequests (w.machine.step e).2)
      (w.server.held kind).isSome = false) :
    (w.handle e).Own kind := by
  refine ⟨h.sends hstarts (by simp [hnone]), fun _ => hoff, fun hsome => ?_⟩
  change ((w.machine.step e).1.localVideo kind).isSome = true at hsome
  simp [hnone] at hsome

/-- The machine starts a publication. -/
private theorem Own.started {w : Publishing} (h : w.Own kind) {e : Event} {cid : UInt32}
    (hcid : w.machine.activeCid = some cid) (hnone : w.machine.localVideo kind = none)
    (hvideo : (w.machine.step e).1.localVideo kind = some false)
    (hlisted : (w.machine.step e).1.localListed kind = false)
    (hstartGen : (w.machine.step e).1.startGen kind = w.machine.startGen kind + 1)
    (hactive : (w.machine.step e).1.activeCid = w.machine.activeCid)
    (hrequests : videoRequests (w.machine.step e).2 =
      [.start cid kind (w.machine.startGen kind + 1)]) :
    (w.handle e).Own kind := by
  refine ⟨⟨?_, h.held_le, h.ordered, ?_, ?_⟩, ?_, fun _ => ?_⟩
  · have hcounted := h.counted
    simp only [handle, hrequests, List.countP_append, List.countP_singleton]
    omega
  · intro _ hsome
    change (w.machine.step e).1.localListed kind = true at hsome
    simp [hlisted] at hsome
  · intro before cid' gen after hsplit
    rcases split_sent hsplit with ⟨rest, hup⟩ | ⟨rest, rfl, hlast⟩
    · exact h.alternates before cid' gen rest hup
    · rw [hrequests] at hlast
      obtain rfl : rest = [] := by
        cases rest with
        | nil => rfl
        | cons r rest => simp at hlast
      rw [List.append_nil]
      exact h.off hnone
  · intro hgone
    change (w.machine.step e).1.localVideo kind = none at hgone
    simp [hvideo] at hgone
  · refine .sent w.up cid [] ?_ (hactive.trans hcid) (by simp [VideoRequest.NoneBears])
    simp [handle, hrequests, hstartGen]

/-- The room the server will have is the room of the machine. -/
private theorem leadsTo_of_own {m m' : SessionMachine} {e : Event} {acts : List Action}
    (h : SessionMachine.OwnStep kind m e m' acts) :
    (videoRequests acts).foldl VideoRequest.leadsTo m.activeCid = m'.activeCid := by
  cases h with
  | kept _ hsame helse =>
    have hnone : VideoRequest.NoneBears kind (videoRequests acts) :=
      fun r hr => (helse.requests r hr).not_bearsOn
    rw [hnone.leadsTo, hsame.active]
  | started _ _ _ _ _ _ hactive hrequests => rw [hrequests, hactive]; rfl
  | stopped _ _ _ hactive hrequests => rw [hrequests, hactive]; rfl
  | paused _ _ _ _ _ _ _ _ hactive hrequests => rw [hrequests, hactive]; rfl
  | startRefused _ _ _ _ _ hactive hrequests => rw [hrequests, hactive]; rfl
  | pauseRefused _ _ _ _ _ _ _ _ _ hactive hrequests => rw [hrequests, hactive]; rfl
  | status _ _ _ _ _ _ _ _ hactive _ hrequests => rw [hrequests, hactive]; rfl
  | entered _ _ _ hactive hrequests => rw [hrequests, hactive]; rfl
  | left _ _ _ hactive hrequests => rw [hrequests, hactive]; rfl

/-- The machine handles an event that is no message of the server. -/
private theorem Consistent.event {w : Publishing} (h : w.Consistent) {e : Event}
    (hevent : e.isVideoMessage = false) : (w.handle e).Consistent := by
  have hroom : (w.up ++ videoRequests (w.machine.step e).2).foldl VideoRequest.leadsTo
      w.server.room = (w.machine.step e).1.activeCid := by
    rw [List.foldl_append, h.room]
    exact leadsTo_of_own (SessionMachine.step_own h.bound h.voice .camera e)
  refine ⟨h.bound.step e, h.voice.step e, hroom, fun kind => ?_⟩
  have hown := h.own kind
  cases SessionMachine.step_own h.bound h.voice kind e with
  | kept _ hsame helse =>
    exact hown.same (by rw [hsame.video]) hsame.listed hsame.startGen hsame.active
      (fun r hr => (helse.requests r hr).not_bearsOn)
  | started cid hcid hnone hvideo hlisted hstartGen hactive hrequests =>
    exact hown.started hcid hnone hvideo hlisted hstartGen hactive hrequests
  | stopped _ _ hvideo _ hrequests =>
    refine Own.ended hown.toOrdered hvideo (by simp [hrequests, VideoRequest.isStart]) ?_
    simp [hrequests, VideoRequest.outcome, VideoRequest.leaves]
  | paused cid paused _ hlocal hvideo hlisted hstartGen _ hactive hrequests =>
    refine hown.same (by rw [hvideo, hlocal]; rfl) hlisted hstartGen hactive ?_
    simp [hrequests, VideoRequest.NoneBears, VideoRequest.bearsOn]
  | startRefused | pauseRefused | status => cases hevent
  | entered cid hvideo _ _ hrequests =>
    refine Own.ended hown.toOrdered hvideo (by simp [hrequests, VideoRequest.isStart]) ?_
    simp [hrequests, VideoRequest.outcome, VideoRequest.leaves]
  | left _ hvideo _ _ hrequests =>
    refine Own.ended hown.toOrdered hvideo (by simp [hrequests, VideoRequest.isStart]) ?_
    simp [hrequests, VideoRequest.outcome, VideoRequest.leaves]

/-- The list has the client's publication exactly when the server holds it. -/
private theorem listsOwn_listing (s : VideoServer) (kind : VideoKind) :
    SessionMachine.listsOwn uid (s.listing uid) kind = (s.held kind).isSome := by
  rw [Bool.eq_iff_iff, SessionMachine.listsOwn, List.any_eq_true]
  constructor
  · rintro ⟨p, hp, hown⟩
    obtain ⟨huser, hkind⟩ : p.userId = uid ∧ p.kind = kind := by simpa using hown
    rcases List.mem_append.mp hp with hp | hp
    · simp [huser] at hp
    · obtain ⟨k, _, hk⟩ := List.mem_filterMap.mp hp
      obtain ⟨start, hheld, rfl⟩ := Option.map_eq_some_iff.mp hk
      rw [← hkind, hheld]
      rfl
  · intro hheld
    obtain ⟨start, hstart⟩ := Option.isSome_iff_exists.mp hheld
    refine ⟨⟨uid, kind, s.paused kind⟩, List.mem_append_right _ ?_, by simp⟩
    exact List.mem_filterMap.mpr ⟨kind, by simp, by simp [hstart]⟩

/-- The machine without the message it is about to hear. -/
private def hearing (w : Publishing) (down : List ServerMessage) : Publishing :=
  { w with down := down }

@[simp] private theorem hearing_machine (w : Publishing) (down : List ServerMessage) :
    (w.hearing down).machine = w.machine := rfl

private theorem Ordered.hearing {w : Publishing} (h : w.Ordered kind) {message : ServerMessage}
    {down : List ServerMessage} (hdown : w.down = message :: down) :
    (w.hearing down).Ordered kind := by
  have hsub : ((w.hearing down).stamps kind).Sublist (w.stamps kind) := by
    refine List.Sublist.append_right (List.Sublist.filterMap _ ?_) _
    rw [hdown]
    exact List.sublist_cons_self _ _
  exact ⟨h.counted, h.held_le, h.ordered.sublist hsub,
    fun hsome hlisted stamp hstamp => h.noted hsome hlisted stamp (hsub.subset hstamp),
    h.alternates⟩

/-- A message that neither acknowledges nor ends the publication of a kind. -/
private structure Beside (kind : VideoKind) (m : SessionMachine) (message : ServerMessage) :
    Prop where
  status : ∀ cid s, message = .status cid s → m.activeCid = some cid →
    s.held kind = none ∧ m.localListed kind = false
  refused : ∀ cid start text,
    message = .startRefused cid kind (m.startGen kind) start text → m.activeCid ≠ some cid

private theorem Acknowledged.beside {m : SessionMachine} {message : ServerMessage}
    {messages : List ServerMessage} (h : Acknowledged kind m (message :: messages))
    (hbeside : Beside kind m message) : Acknowledged kind m messages := by
  rcases h with h | ⟨cid, s, hmem, hcid, hheld⟩
  · exact Or.inl h
  · rcases List.mem_cons.mp hmem with hfirst | hmem
    · simp [(hbeside.status cid s hfirst.symm hcid).1] at hheld
    · exact Or.inr ⟨cid, s, hmem, hcid, hheld⟩

private theorem Ends.beside {m : SessionMachine} {message : ServerMessage}
    {messages : List ServerMessage} (h : Ends kind m (message :: messages))
    (hbeside : Beside kind m message) : Ends kind m messages := by
  rcases h with ⟨cid, start, text, hmem, hcid⟩ | ⟨before, cid, s, after, hsplit, hcid, hs, hack⟩
  · rcases List.mem_cons.mp hmem with hfirst | hmem
    · exact absurd hcid (hbeside.refused cid start text hfirst.symm)
    · exact Or.inl ⟨cid, start, text, hmem, hcid⟩
  · cases before with
    | nil =>
      obtain ⟨rfl, rfl⟩ : message = .status cid s ∧ messages = after := by simpa using hsplit
      have hunlisted := (hbeside.status cid s rfl hcid).2
      simp [Acknowledged, hunlisted] at hack
    | cons first before =>
      obtain ⟨rfl, hrest⟩ : message = first ∧ messages = before ++ .status cid s :: after := by
        simpa using hsplit
      exact Or.inr ⟨before, cid, s, after, hrest, hcid, hs, hack.beside hbeside⟩

/-- A message beside the publication leaves it where it is. -/
private theorem Own.beside {w : Publishing} (h : w.Own kind) {message : ServerMessage}
    {down : List ServerMessage} (hdown : w.down = message :: down)
    (hbeside : (w.machine.localVideo kind).isSome = true → Beside kind w.machine message) :
    (w.hearing down).Own kind := by
  refine ⟨h.toOrdered.hearing hdown, h.off, fun hsome => ?_⟩
  have hbeside := hbeside hsome
  cases h.on hsome with
  | sent before cid after hsent hcid hafter => exact .sent before cid after hsent hcid hafter
  | held hheld hnone hack => exact .held hheld hnone ((hdown ▸ hack).beside hbeside)
  | gone hheld hnone hends => exact .gone hheld hnone ((hdown ▸ hends).beside hbeside)

/-- A list that has the publication is taken as its acknowledgement. -/
private theorem Own.acknowledged {w : Publishing} (h : w.Own kind) {cid : UInt32} {s : VideoServer}
    {down : List ServerMessage} {e : Event} (hdown : w.down = .status cid s :: down)
    (hheld : s.held kind = some (w.started kind))
    (hvideo : (w.machine.step e).1.localVideo kind = w.machine.localVideo kind)
    (hlisted : (w.machine.step e).1.localListed kind = true)
    (hstartGen : (w.machine.step e).1.startGen kind = w.machine.startGen kind)
    (hactive : (w.machine.step e).1.activeCid = w.machine.activeCid)
    (hsome : (w.machine.localVideo kind).isSome = true)
    (hrequests : videoRequests (w.machine.step e).2 = []) :
    ((w.hearing down).handle e).Own kind := by
  have hstamps : w.stamps kind = 2 * w.started kind :: (w.hearing down).stamps kind := by
    simp [stamps, hdown, hearing, ServerMessage.stamp, VideoServer.stamp, hheld]
  have hstarts : (videoRequests (w.machine.step e).2).countP (·.isStart kind) = 0 := by
    simp [hrequests]
  refine ⟨(h.toOrdered.hearing hdown).sends hstarts (fun _ _ => ?_), fun hnone => ?_, fun _ => ?_⟩
  · have hordered := h.ordered
    rw [hstamps] at hordered
    exact (List.pairwise_cons.mp hordered).1
  · change (w.machine.step e).1.localVideo kind = none at hnone
    rw [hvideo] at hnone
    simp [hnone] at hsome
  · have hup : ((w.hearing down).handle e).up = w.up := by simp [handle, hearing, hrequests]
    cases h.on hsome with
    | sent before cid' after hsent hcid hafter =>
      refine .sent before cid' after ?_ (hactive.trans hcid) hafter
      rw [hup, hsent]
      exact congrArg (fun gen => before ++ .start cid' kind gen :: after) hstartGen.symm
    | held hheld' hnone _ => exact .held hheld' (hup ▸ hnone) (Or.inl hlisted)
    | gone hgone hnone hends =>
      refine .gone hgone (hup ▸ hnone) ?_
      rw [hdown] at hends
      rcases hends with ⟨cid', start, text, hmem, hcid⟩ |
        ⟨before, cid', s', after, hsplit, hcid, hs, hack⟩
      · have hmem' : .startRefused cid' kind (w.machine.startGen kind) start text ∈ down := by
          simpa using hmem
        exact Or.inl ⟨cid', start, text, hstartGen ▸ hmem', hactive.trans hcid⟩
      · cases before with
        | nil =>
          obtain ⟨⟨_, rfl⟩, _⟩ : (cid = cid' ∧ s = s') ∧ down = after := by simpa using hsplit
          simp [hheld] at hs
        | cons first before =>
          obtain ⟨_, hrest⟩ : _ ∧ down = before ++ .status cid' s' :: after := by
            simpa using hsplit
          exact Or.inr ⟨before, cid', s', after, hrest, hactive.trans hcid, hs, Or.inl hlisted⟩

/-- Once a message from past the latest start is on its way, nothing brings the publication
back. -/
private theorem Ordered.outcome_of_past {w : Publishing} (h : w.Ordered kind)
    {message : ServerMessage} (hmessage : message ∈ w.down) {stamp : ℕ}
    (hstamp : message.stamp kind = some stamp) (hpast : 2 * w.started kind + 1 ≤ stamp) :
    VideoRequest.outcome kind w.up (w.server.held kind).isSome = false := by
  obtain ⟨hheld, hstarts⟩ := h.past (hpast.trans (h.le_server hmessage hstamp))
  rw [hheld]
  exact VideoRequest.outcome_of_no_start hstarts

/-- The machine hears a list. -/
private theorem Own.hearStatus {w : Publishing} (h : w.Own kind) {cid : UInt32} {s : VideoServer}
    {down : List ServerMessage} (hdown : w.down = .status cid s :: down)
    (hbound : w.machine.RoomBound)
    (hown : w.machine.OwnStep kind (.videoStatusReceived cid (s.listing uid) (some uid))
      (w.machine.step (.videoStatusReceived cid (s.listing uid) (some uid))).1
      (w.machine.step (.videoStatusReceived cid (s.listing uid) (some uid))).2)
    (hfresh : (w.machine.localVideo kind).isSome = true → w.machine.activeCid = some cid →
      ∀ start ∈ s.held kind, start = w.started kind) :
    ((w.hearing down).handle (.videoStatusReceived cid (s.listing uid) (some uid))).Own kind := by
  cases hown with
  | kept hidle hsame helse =>
    have hother : w.machine.activeCid ≠ some cid := by
      intro hcid
      exact hidle ⟨hbound.active_iff.mp (by simp [hcid]), hcid, rfl⟩
    have hbeside : Beside kind w.machine (.status cid s) := by
      refine ⟨fun cid' s' heq hcid' => ?_, fun _ _ _ heq => by cases heq⟩
      obtain ⟨rfl, rfl⟩ := ServerMessage.status.inj heq
      exact absurd hcid' hother
    exact (h.beside hdown (fun _ => hbeside)).same (congrArg Option.isSome hsame.video) hsame.listed
      hsame.startGen hsame.active (fun r hr => (helse.requests r hr).not_bearsOn)
  | stopped he => rcases he with he | ⟨_, he⟩ <;> cases he
  | left he => rcases he with ⟨_, he⟩ | ⟨_, he⟩ <;> cases he
  | status _ _ _ hcid hvideo hlisted hstartGen _ hactive _ hrequests =>
    rw [listsOwn_listing] at hvideo hlisted
    have hends (hnone : (w.machine.step
          (.videoStatusReceived cid (s.listing uid) (some uid))).1.localVideo kind = none)
        (hoff : VideoRequest.outcome kind w.up (w.server.held kind).isSome = false) :
        ((w.hearing down).handle
          (.videoStatusReceived cid (s.listing uid) (some uid))).Own kind := by
      refine Own.ended (h.toOrdered.hearing hdown) hnone ?_ ?_
      · change (videoRequests (w.machine.step _).2).countP _ = 0
        rw [hrequests]
        rfl
      · change VideoRequest.outcome kind (w.up ++ videoRequests (w.machine.step _).2) _ = false
        rw [hrequests, List.append_nil]
        exact hoff
    cases hlocal : w.machine.localVideo kind with
    | none => exact hends (by simp [hvideo, hlocal]) (h.off hlocal)
    | some paused =>
      have hsome : (w.machine.localVideo kind).isSome = true := by simp [hlocal]
      cases hheld : s.held kind with
      | some start =>
        obtain rfl := hfresh hsome hcid start hheld
        exact h.acknowledged hdown hheld (by simp [hvideo, hheld])
          (by simp [hlisted, hlocal, hheld]) hstartGen hactive hsome hrequests
      | none =>
        have hmem : ServerMessage.status cid s ∈ w.down := by simp [hdown]
        have hstamp : (ServerMessage.status cid s).stamp kind = some (2 * s.taken kind + 1) := by
          simp [ServerMessage.stamp, VideoServer.stamp, hheld]
        by_cases hwas : w.machine.localListed kind = true
        · refine hends (by simp [hvideo, hwas, hheld]) (h.outcome_of_past hmem hstamp ?_)
          have hnoted := h.noted hsome hwas (2 * s.taken kind + 1)
            (List.mem_append_left _ (List.mem_filterMap.mpr ⟨_, hmem, hstamp⟩))
          omega
        · have hbeside : Beside kind w.machine (.status cid s) := by
            refine ⟨fun cid' s' heq _ => ?_, fun _ _ _ heq => by cases heq⟩
            obtain ⟨rfl, rfl⟩ := ServerMessage.status.inj heq
            exact ⟨hheld, by simpa using hwas⟩
          refine (h.beside hdown (fun _ => hbeside)).same ?_ ?_ hstartGen hactive ?_
          · exact congrArg Option.isSome (hvideo.trans (by simp [hwas]))
          · exact hlisted.trans (by simp [hlocal, hheld, hwas])
          · change VideoRequest.NoneBears kind (videoRequests (w.machine.step _).2)
            simp [hrequests, VideoRequest.NoneBears]

/-- The machine hears the refusal of a start. -/
private theorem Own.hearStartRefused {w : Publishing} (h : w.Own kind) {cid gen : UInt32}
    {k : VideoKind} {start : ℕ} {text : String} {down : List ServerMessage}
    (hdown : w.down = .startRefused cid k gen start text :: down)
    (hown : w.machine.OwnStep kind (.videoStartFailed cid k gen text)
      (w.machine.step (.videoStartFailed cid k gen text)).1
      (w.machine.step (.videoStartFailed cid k gen text)).2)
    (hfresh : (w.machine.localVideo kind).isSome = true → k = kind →
      w.machine.activeCid = some cid → gen = w.machine.startGen kind → start = w.started kind) :
    ((w.hearing down).handle (.videoStartFailed cid k gen text)).Own kind := by
  cases hown with
  | kept hidle hsame helse =>
    have hbeside (hsome : (w.machine.localVideo kind).isSome = true) :
        Beside kind w.machine (.startRefused cid k gen start text) := by
      refine ⟨fun _ _ heq => (by cases heq), fun cid' start' text' heq hcid => ?_⟩
      obtain ⟨rfl, rfl, rfl, _, _⟩ := ServerMessage.startRefused.inj heq
      exact hidle ⟨rfl, hcid, rfl, hsome⟩
    exact (h.beside hdown hbeside).same (congrArg Option.isSome hsame.video) hsame.listed
      hsame.startGen hsame.active (fun r hr => (helse.requests r hr).not_bearsOn)
  | stopped he => rcases he with he | ⟨_, he⟩ <;> cases he
  | left he => rcases he with ⟨_, he⟩ | ⟨_, he⟩ <;> cases he
  | startRefused _ _ hcid hsome hvideo hactive hrequests =>
    obtain rfl := hfresh hsome rfl hcid rfl
    refine Own.ended (h.toOrdered.hearing hdown) hvideo ?_ ?_
    · change (videoRequests (w.machine.step _).2).countP _ = 0
      rw [hrequests]
      rfl
    · change VideoRequest.outcome kind (w.up ++ videoRequests (w.machine.step _).2) _ = false
      rw [hrequests, List.append_nil]
      have hstamp : (ServerMessage.startRefused cid kind (w.machine.startGen kind)
          (w.started kind) text).stamp kind = some (2 * w.started kind + 1) := if_pos rfl
      exact h.outcome_of_past (by simp [hdown]) hstamp le_rfl

/-- The machine hears the refusal of a pause. -/
private theorem Own.hearPauseRefused {w : Publishing} (h : w.Own kind) {cid gen : UInt32}
    {k : VideoKind} {text : String} {down : List ServerMessage}
    (hdown : w.down = .pauseRefused cid k gen text :: down)
    (hown : w.machine.OwnStep kind (.videoPauseFailed cid k gen text)
      (w.machine.step (.videoPauseFailed cid k gen text)).1
      (w.machine.step (.videoPauseFailed cid k gen text)).2) :
    ((w.hearing down).handle (.videoPauseFailed cid k gen text)).Own kind := by
  have hbeside : Beside kind w.machine (.pauseRefused cid k gen text) :=
    ⟨fun _ _ heq => (by cases heq), fun _ _ _ heq => by cases heq⟩
  have hrest := h.beside hdown (fun _ => hbeside)
  cases hown with
  | kept hidle hsame helse =>
    exact hrest.same (congrArg Option.isSome hsame.video) hsame.listed hsame.startGen
      hsame.active (fun r hr => (helse.requests r hr).not_bearsOn)
  | stopped he => rcases he with he | ⟨_, he⟩ <;> cases he
  | left he => rcases he with ⟨_, he⟩ | ⟨_, he⟩ <;> cases he
  | pauseRefused _ _ paused hcid hlocal hvideo hlisted hstartGen _ hactive hrequests =>
    refine hrest.same ?_ hlisted hstartGen hactive ?_
    · change ((w.machine.step _).1.localVideo kind).isSome = (w.machine.localVideo kind).isSome
      rw [hvideo, hlocal]
      rfl
    · change VideoRequest.NoneBears kind (videoRequests (w.machine.step _).2)
      simp [hrequests, VideoRequest.NoneBears]

/-- The machine hears the next message. -/
private theorem Consistent.deliver {w : Publishing} (h : w.Consistent) {message : ServerMessage}
    {down : List ServerMessage} (hdown : w.down = message :: down)
    (hfresh : ∀ kind, (w.machine.localVideo kind).isSome = true →
      ∀ start ∈ speaksOf w.machine kind message, start = w.started kind) :
    ((w.hearing down).handle (message.event uid)).Consistent := by
  have hroom : (w.up ++ videoRequests (w.machine.step (message.event uid)).2).foldl
      VideoRequest.leadsTo w.server.room = (w.machine.step (message.event uid)).1.activeCid := by
    rw [List.foldl_append, h.room]
    exact leadsTo_of_own (SessionMachine.step_own h.bound h.voice .camera _)
  refine ⟨h.bound.step _, h.voice.step _, hroom, fun kind => ?_⟩
  have hown := SessionMachine.step_own h.bound h.voice kind (message.event uid)
  cases message with
  | status cid s =>
    refine (h.own kind).hearStatus hdown h.bound hown (fun hsome hcid start hstart => ?_)
    exact hfresh kind hsome start (by simpa [speaksOf, hcid] using hstart)
  | startRefused cid k gen start text =>
    refine (h.own kind).hearStartRefused hdown hown (fun hsome hk hcid hgen => ?_)
    exact hfresh kind hsome start (by simp [speaksOf, hk, hcid, hgen])
  | pauseRefused cid k gen text => exact (h.own kind).hearPauseRefused hdown hown

/-- Every step under the condition keeps the two ends consistent. -/
private theorem Consistent.step {w w' : Publishing} (h : w.Consistent) {i : PublishInput}
    (hfresh : w.Fresh i) (hstep : w.step uid i = some w') : w'.Consistent := by
  cases i with
  | event e =>
    simp only [Publishing.step] at hstep
    split_ifs at hstep with hevent
    obtain rfl := Option.some.inj hstep
    exact h.event (by simpa using hevent)
  | take accept text =>
    simp only [Publishing.step] at hstep
    split at hstep
    · cases hstep
    · rename_i r up hup
      obtain rfl := Option.some.inj hstep
      exact h.take hup accept text
  | close kind =>
    simp only [Publishing.step] at hstep
    split_ifs at hstep with hheld
    obtain rfl := Option.some.inj hstep
    exact h.close hheld
  | change others =>
    obtain rfl := Option.some.inj hstep
    exact h.change others
  | deliver =>
    simp only [Publishing.step] at hstep
    split at hstep
    · cases hstep
    · rename_i message down hdown
      obtain rfl := Option.some.inj hstep
      exact h.deliver hdown (fun kind hsome => hfresh rfl message (by simp [hdown]) kind hsome)

private theorem consistent_start : (publishing uid).start.Consistent where
  bound := SessionMachine.roomBound_new
  voice := fun _ h => by simp [publishing, SessionMachine.new] at h
  room := rfl
  own := fun kind =>
    ⟨⟨rfl, by simp [publishing], by simp [publishing, stamps], by
      simp [publishing, SessionMachine.new], by simp [publishing]⟩, fun _ => rfl,
      fun h => by simp [publishing, SessionMachine.new] at h⟩

end Publishing

/-- **Publications agree while acknowledgements are fresh.** In every run in which the
machine, while it publishes a kind, hears of no start of that kind but the latest, the
machine publishes exactly the kinds the server holds whenever nothing is in flight. -/
theorem publications_agree (uid : UInt16) (is : List PublishInput)
    (hfresh : (publishing uid).Along Publishing.Fresh is) :
    (publishing uid).Throughout Publishing.Agrees is := by
  intro before w hbegin hrun
  refine Publishing.Consistent.agrees (Reactive.Process.invariant_along
    (C := Publishing.Fresh) Publishing.consistent_start ?_ hrun (hfresh.of_begin hbegin))
  intro w i w' hw hcurrent hstep
  exact hw.step hcurrent hstep

/-- A camera that the server accepts and later ends, in room 1. -/
def acceptedThenEnded : List PublishInput :=
  [.event (.joinRequested 1), .take true "", .event (.sdpOfferReceived 1 ""),
    .event (.videoStartRequested .camera), .take true "", .deliver, .close .camera, .deliver]

/-- The camera that the server ends is published no more. -/
theorem publications_agree_accepted_then_ended :
    (publishing 7).Throughout Publishing.Agrees acceptedThenEnded := by
  refine publications_agree 7 acceptedThenEnded (fun before i w hbegin hrun => ?_)
  rintro rfl message hmessage kind hsome start hstart
  obtain ⟨rest, hrest⟩ := hbegin
  have hat : acceptedThenEnded[before.length]? = some .deliver := by
    rw [← hrest]
    simp
  have hbefore : before = acceptedThenEnded.take before.length := by
    rw [← hrest]
    simp
  have hplace : before.length = 5 ∨ before.length = 7 := by
    have hlt : before.length < 8 := (List.getElem?_eq_some_iff.mp hat).1
    generalize before.length = n at hat hlt
    interval_cases n <;> simp [acceptedThenEnded] at hat ⊢
  rcases hplace with hplace | hplace
  all_goals
    rw [hbefore, hplace] at hrun
    obtain rfl := Option.some.inj hrun
    obtain rfl := Option.some.inj hmessage
  · cases kind with
    | screen => cases hsome
    | camera => exact (Option.some.inj hstart).symm
  · cases kind with
    | screen => cases hsome
    | camera => cases hstart

/-- A start, a stop and a start within one round trip: the list that has the first start
is taken for the acknowledgement of the second, so the list without it ends the second,
which the server then accepts. -/
theorem restart_loses_publication :
    ¬∀ (uid : UInt16) (is : List PublishInput),
      (publishing uid).Throughout Publishing.Agrees is := by
  intro h
  have hagrees := h 7
    [.event (.joinRequested 1), .take true "", .event (.sdpOfferReceived 1 ""),
      .event (.videoStartRequested .camera), .take true "", .event (.videoStopRequested .camera),
      .event (.videoStartRequested .camera), .deliver, .take true "", .deliver, .take true "",
      .deliver] _ _ (List.prefix_refl _) rfl ⟨by decide, by rfl⟩ .camera
  exact absurd (hagrees.mpr (by decide)) (by decide)

end Gtkhx.Voice
