import Gtkhx.Voice.RoomBinding

/-!
# The control channel

Frames leave the machine through the bridge of `gtkhx-ui::voice_panel`, which hands them
to the senders of `hxhandlers::voice`. A sender keeps what it asked for until the server
answers, and a refusal comes back to the machine as the event that names the request.
The channel is a set of requests in flight, any of which may be answered at any time.
-/

namespace Gtkhx.Voice

/-- A request in flight, as the runtime's refusal path names it. -/
inductive Asked
  /-- Joining, leaving, the answer, muting, stopping video or subscribing. -/
  | op (opcode : UInt32)
  /-- Starting video of `kind` in room `cid`, under the machine's number `gen`. -/
  | videoStart (cid : UInt32) (kind : UInt16) (gen : UInt32)
  /-- Pausing or resuming it. -/
  | videoState (cid : UInt32) (kind : UInt16) (gen : UInt32)
  deriving DecidableEq, Repr

/-- The generation at the end of a 607 or 609 body, zero if the body is too short. -/
def bodyGen (payload : List UInt8) (offset : ℕ) : UInt32 :=
  ((BigEndian.takeU32 (payload.drop offset)).map Prod.fst).getD 0

/-- What the bridge asks the server for when the machine sends a frame. A join and a mute
are sent by the buttons along with the machine's event; an empty answer is not sent, and
a candidate expects no reply. -/
def sendWireFrame (opcode : UInt32) (body : List UInt8) : Option Asked :=
  match BigEndian.takeU32 body with
  | none => none
  | some (cid, payload) =>
    if opcode = htlcHdrVoiceSdpAnswer then
      if payload = [] then none else some (.op opcode)
    else if opcode = htlcHdrVoiceJoin ∨ opcode = htlcHdrVoiceLeave ∨ opcode = htlcHdrVoiceMute ∨
        opcode = htlcHdrVideoSubscribe then
      some (.op opcode)
    else match BigEndian.takeU16 payload with
    | none => none
    | some (kind, rest) =>
      if opcode = htlcHdrVideoStart then
        (VideoKind.fromWire kind).map fun _ => .videoStart cid kind (bodyGen payload 2)
      else if opcode = htlcHdrVideoStop then
        if kind = 0 then some (.op opcode)
        else (VideoKind.fromWire kind).map fun _ => .op opcode
      else if opcode = htlcHdrVideoState ∧ 2 ≤ rest.length then
        (VideoKind.fromWire kind).map fun _ => .videoState cid kind (bodyGen payload 4)
      else none

/-- The generation that follows a payload is read back. -/
theorem bodyGen_append (payload : List UInt8) (gen : UInt32) :
    bodyGen (payload ++ BigEndian.ofU32 gen) payload.length = gen := by
  have hread := BigEndian.takeU32_ofU32_append gen []
  rw [List.append_nil] at hread
  rw [bodyGen, List.drop_left, hread]
  rfl

/-- A 607 is known by the room, kind and number it was made of. -/
theorem sendWireFrame_encodeCidKindGen (cid : UInt32) (kind : VideoKind) (gen : UInt32) :
    sendWireFrame htlcHdrVideoStart (encodeCidKindGen cid kind gen) =
      some (.videoStart cid kind.wire gen) := by
  have hgen : bodyGen (BigEndian.ofU16 kind.wire ++ BigEndian.ofU32 gen) 2 = gen :=
    bodyGen_append (BigEndian.ofU16 kind.wire) gen
  have hop : htlcHdrVideoStart ≠ htlcHdrVoiceSdpAnswer ∧ ¬(htlcHdrVideoStart = htlcHdrVoiceJoin ∨
      htlcHdrVideoStart = htlcHdrVoiceLeave ∨ htlcHdrVideoStart = htlcHdrVoiceMute ∨
      htlcHdrVideoStart = htlcHdrVideoSubscribe) := by decide
  rw [sendWireFrame, encodeCidKindGen, encodeCidPlusKind, List.append_assoc,
    BigEndian.takeU32_ofU32_append]
  dsimp only
  rw [if_neg hop.1, if_neg hop.2, BigEndian.takeU16_ofU16_append]
  simp only [if_true, VideoKind.fromWire_wire, Option.map_some, hgen]

/-- A 609 is known by the room, kind and number it was made of. -/
theorem sendWireFrame_encodeCidKindPausedGen (cid : UInt32) (kind : VideoKind) (paused : Bool)
    (gen : UInt32) :
    sendWireFrame htlcHdrVideoState (encodeCidKindPausedGen cid kind paused gen) =
      some (.videoState cid kind.wire gen) := by
  have hgen : bodyGen (BigEndian.ofU16 kind.wire ++
      (BigEndian.ofU16 (flagWire paused) ++ BigEndian.ofU32 gen)) 4 = gen := by
    rw [← List.append_assoc]
    exact bodyGen_append (BigEndian.ofU16 kind.wire ++ BigEndian.ofU16 (flagWire paused)) gen
  have hop : htlcHdrVideoState ≠ htlcHdrVoiceSdpAnswer ∧ ¬(htlcHdrVideoState = htlcHdrVoiceJoin ∨
      htlcHdrVideoState = htlcHdrVoiceLeave ∨ htlcHdrVideoState = htlcHdrVoiceMute ∨
      htlcHdrVideoState = htlcHdrVideoSubscribe) ∧ htlcHdrVideoState ≠ htlcHdrVideoStart ∧
      htlcHdrVideoState ≠ htlcHdrVideoStop := by decide
  have hlong : htlcHdrVideoState = htlcHdrVideoState ∧
      2 ≤ (BigEndian.ofU16 (flagWire paused) ++ BigEndian.ofU32 gen).length :=
    ⟨rfl, by simp [BigEndian.ofU16, BigEndian.ofU32]⟩
  rw [sendWireFrame, encodeCidKindPausedGen, encodeCidPlusKind, List.append_assoc,
    List.append_assoc, BigEndian.takeU32_ofU32_append]
  dsimp only
  rw [if_neg hop.1, if_neg hop.2.1, BigEndian.takeU16_ofU16_append]
  dsimp only
  rw [if_neg hop.2.2.1, if_neg hop.2.2.2, if_pos hlong, hgen, VideoKind.fromWire_wire]
  rfl

/-- The reason given where a reply was cut short rather than refused. -/
def cutShort : String := "the server's reply was cut short"

/-- Text for C, and back: what stands before the first NUL. -/
def cText (text : String) : String := String.ofList (text.toList.takeWhile (·.toNat ≠ 0))

/-- What reaches the machine when a request fails: nothing for a reply cut short, and
otherwise the refusal with the server's text. -/
def failed (asked : Asked) (reason : Option String) : Option Event :=
  if reason = some cutShort then none
  else
    let text := cText (reason.getD "")
    match asked with
    | .op opcode => some (.serverTaskError ⟨opcode, text⟩)
    | .videoStart cid kind gen =>
      (VideoKind.fromWire kind).map fun kind => .videoStartFailed cid kind gen text
    | .videoState cid kind gen =>
      (VideoKind.fromWire kind).map fun kind => .videoPauseFailed cid kind gen text

/-- A request the server has not answered yet. -/
structure Request where
  /-- The transaction its answer will name. -/
  trans : ℕ
  asked : Asked
  /-- How many sessions had ended when it was sent. -/
  session : ℕ
  deriving DecidableEq, Repr

/-- The machine and its control channel. -/
structure Control where
  machine : SessionMachine
  /-- The requests in flight. -/
  asked : List Request
  /-- The next transaction. -/
  trans : ℕ
  /-- How many sessions have ended: each way to end one tears the pipeline down. -/
  ended : ℕ

/-- What drives the channel. -/
inductive ControlInput
  /-- A user event, a server event or a callback. -/
  | event (e : Event)
  /-- The server answered a request with no error. -/
  | done (trans : ℕ)
  /-- The server refused a request, or its reply was cut short. -/
  | failed (trans : ℕ) (reason : Option String)

/-- The events that report a refusal, which reach the machine through `failed` alone. -/
def Event.isRefusal : Event → Bool
  | .serverTaskError _ => true
  | .videoStartFailed _ _ _ _ => true
  | .videoPauseFailed _ _ _ _ => true
  | _ => false

namespace Control

/-- What an action does to the channel: a request goes in flight, and a teardown ends the
session. -/
def dispatch (c : Control) : Action → Control
  | .sendWireFrame opcode body =>
    match sendWireFrame opcode body with
    | some asked =>
      { c with asked := c.asked ++ [⟨c.trans, asked, c.ended⟩], trans := c.trans + 1 }
    | none => c
  | .tearDown => { c with ended := c.ended + 1 }
  | _ => c

/-- One event of the machine, with its actions dispatched in order. -/
def handle (c : Control) (e : Event) : Control :=
  (c.machine.step e).2.foldl dispatch { c with machine := (c.machine.step e).1 }

/-- The request a transaction names. -/
def answered (c : Control) (trans : ℕ) : Option Request :=
  c.asked.find? (·.trans = trans)

/-- The channel without the request of a transaction. -/
def forget (c : Control) (trans : ℕ) : Control :=
  { c with asked := c.asked.filter (·.trans ≠ trans) }

/-- What the machine does about a failed request. -/
def delivery (c : Control) (asked : Asked) (reason : Option String) :
    SessionMachine × List Action :=
  match Voice.failed asked reason with
  | some e => c.machine.step e
  | none => (c.machine, [])

/-- One input of the channel. -/
def step (c : Control) : ControlInput → Option Control
  | .event e => if e.isRefusal then none else some (c.handle e)
  | .done trans => (c.answered trans).map fun _ => c.forget trans
  | .failed trans reason => (c.answered trans).map fun request =>
    (c.delivery request.asked reason).2.foldl dispatch
      { c.forget trans with machine := (c.delivery request.asked reason).1 }

end Control

/-- The control channel of a fresh machine. -/
def control : Reactive.Process Control ControlInput where
  start := ⟨.new, [], 0, 0⟩
  step := Control.step

/-- A join or an answer of a session that has ended since. -/
def Request.Stale (request : Request) (c : Control) : Prop :=
  (request.asked = .op htlcHdrVoiceJoin ∨ request.asked = .op htlcHdrVoiceSdpAnswer) ∧
    request.session < c.ended

/-- Delivering this input does nothing to the current session, if it is the refusal of a
request of an earlier one: the machine stays as it is and at most shows an error. -/
def Control.Spared (c : Control) (i : ControlInput) : Prop :=
  ∀ trans reason request, i = .failed trans reason → c.answered trans = some request →
    request.Stale c →
    (c.delivery request.asked reason).1 = c.machine ∧
      ∀ a ∈ (c.delivery request.asked reason).2, ∃ text, a = errorSignal text

/-- The input is no refusal of an earlier session's request, unless its reply was cut
short. -/
def Control.OnlyCutShort (c : Control) (i : ControlInput) : Prop :=
  ∀ trans reason request, i = .failed trans reason → c.answered trans = some request →
    request.Stale c → reason = some cutShort

/-- A refused join or answer collapses the session the machine is in, whichever session
it was sent for. -/
theorem Control.delivery_of_refused {c : Control} {request : Request} {reason : Option String}
    (hop : request.asked = .op htlcHdrVoiceJoin ∨ request.asked = .op htlcHdrVoiceSdpAnswer)
    (hreason : reason ≠ some cutShort) :
    c.delivery request.asked reason = c.machine.fail (cText (reason.getD "")) := by
  have hfail (opcode : UInt32)
      (hfatal : opcode = htlcHdrVoiceJoin ∨ opcode = htlcHdrVoiceSdpAnswer) :
      c.machine.step (.serverTaskError ⟨opcode, cText (reason.getD "")⟩) =
        c.machine.fail (cText (reason.getD "")) :=
    SessionMachine.step_of_failText (if_pos hfatal)
  rcases hop with hop | hop
  · simp only [delivery, failed, hop, if_neg hreason]
    exact hfail _ (Or.inl rfl)
  · simp only [delivery, failed, hop, if_neg hreason]
    exact hfail _ (Or.inr rfl)

private theorem spared_iff (c : Control) (i : ControlInput) : c.Spared i ↔ c.OnlyCutShort i := by
  constructor
  · intro hspared trans reason request hi hrequest hstale
    by_contra hreason
    obtain ⟨_, hsignals⟩ := hspared trans reason request hi hrequest hstale
    rw [Control.delivery_of_refused hstale.1 hreason] at hsignals
    obtain ⟨text, htext⟩ := hsignals .tearDown (by simp [SessionMachine.fail])
    cases htext
  · intro hcut trans reason request hi hrequest hstale
    rw [hcut trans reason request hi hrequest hstale]
    simp [Control.delivery, failed]

/-- **When a late refusal spares the session.** In every run, each refused join or answer
of an ended session leaves the machine as it is, exactly when in that run each of them is
a reply cut short: a refusal that is delivered collapses whatever session it finds. -/
theorem refusals_spare_iff (is : List ControlInput) :
    control.Along Control.Spared is ↔ control.Along Control.OnlyCutShort is := by
  simp only [Reactive.Process.Along, spared_iff]

/-- Leaving room 1 and joining room 2 while the first join is unanswered: its refusal ends
room 2. -/
theorem late_join_refusal_collapses :
    ¬∀ is, control.Along Control.Spared is := by
  intro h
  have hspared := h [.event (.joinRequested 1), .event (.leaveRequested 1),
    .event (.joinRequested 2), .failed 0 (some "no")]
    [.event (.joinRequested 1), .event (.leaveRequested 1), .event (.joinRequested 2)]
    (.failed 0 (some "no")) _ (List.prefix_refl _) rfl 0 (some "no")
    ⟨0, .op htlcHdrVoiceJoin, 0⟩ rfl (by decide) ⟨by decide, by decide⟩
  exact absurd (congrArg SessionMachine.state hspared.1) (by decide)

end Gtkhx.Voice
