import Gtkhx.Library.BigEndian
import Gtkhx.Library.Reactive
import Gtkhx.Voice.Action
import Gtkhx.Voice.Sdp
import Mathlib.Data.List.Destutter
import Mathlib.Data.List.Sort
import Mathlib.Logic.Function.Basic

/-!
# The voice session machine

A translation of `hxvoice::state`. The state of one voice session and its single entry
point `step`, which answers an event with the next state and the actions the runtime
dispatches, in order. The arms of the source's `match` on state and event are grouped
by event, one definition for each event that has arms of its own.
-/

namespace Gtkhx.Voice

abbrev htlcHdrVoiceJoin : UInt32 := 600
abbrev htlcHdrVoiceLeave : UInt32 := 601
abbrev htlcHdrVoiceSdpAnswer : UInt32 := 603
abbrev htlcHdrVoiceIce : UInt32 := 604
abbrev htlcHdrVoiceMute : UInt32 := 606
abbrev htlcHdrVideoStart : UInt32 := 607
abbrev htlcHdrVideoStop : UInt32 := 608
abbrev htlcHdrVideoState : UInt32 := 609
abbrev htlcHdrVideoSubscribe : UInt32 := 610

def joinReplyTimeoutMs : UInt32 := 10000
def dtlsTimeoutMs : UInt32 := 10000
def iceTimeoutMs : UInt32 := 30000
def mediaTimeoutMs : UInt32 := 30000

/-- The UTF-8 bytes of a text. -/
def asBytes (text : String) : List UInt8 := text.toList.flatMap String.utf8EncodeChar

/-- A flag as the 16-bit integer the wire carries. -/
def flagWire (flag : Bool) : UInt16 := if flag then 1 else 0

def encodeCidOnly (cid : UInt32) : List UInt8 := BigEndian.ofU32 cid

def encodeCidPlusSdp (cid : UInt32) (sdp : String) : List UInt8 :=
  BigEndian.ofU32 cid ++ asBytes sdp

def encodeCidPlusIce (cid : UInt32) (candidateJson : String) : List UInt8 :=
  BigEndian.ofU32 cid ++ asBytes candidateJson

def encodeCidPlusKind (cid : UInt32) (kind : VideoKind) : List UInt8 :=
  BigEndian.ofU32 cid ++ BigEndian.ofU16 kind.wire

/-- A 607 body: `cid | kind`, then the start's generation, which never reaches the wire. -/
def encodeCidKindGen (cid : UInt32) (kind : VideoKind) (gen : UInt32) : List UInt8 :=
  encodeCidPlusKind cid kind ++ BigEndian.ofU32 gen

/-- A 609 body: `cid | kind | paused`, then the generation. -/
def encodeCidKindPausedGen (cid : UInt32) (kind : VideoKind) (paused : Bool)
    (gen : UInt32) : List UInt8 :=
  encodeCidPlusKind cid kind ++ BigEndian.ofU16 (flagWire paused) ++ BigEndian.ofU32 gen

/-- A 610 body: `cid`, then the packed `uid | kind` entries. -/
def encodeCidPlusStreams (cid : UInt32) (streams : List Stream) : List UInt8 :=
  BigEndian.ofU32 cid ++
    streams.flatMap (fun s => BigEndian.ofU16 s.userId ++ BigEndian.ofU16 s.kind.wire)

def encodeCidPlusMuted (cid : UInt32) (muted : Bool) : List UInt8 :=
  BigEndian.ofU32 cid ++ BigEndian.ofU16 (flagWire muted)

/-- The connection state a room-status signal shows for a session state. -/
def connectionStateForSession : SessionState → ConnectionState
  | .idle => .closed
  | .joinSent => .connecting
  | .offerPending => .connecting
  | .connecting => .connecting
  | .connected => .connected
  | .leaving => .closed

/-- The sorted receive set without repetitions: `sort_unstable` and then `dedup`. -/
def sortDedup (streams : List Stream) : List Stream :=
  (streams.insertionSort (· ≤ ·)).destutter (· ≠ ·)

/-- Per-session state. One instance lives as long as its runtime; leaving a room resets
it rather than dropping it. -/
structure SessionMachine where
  state : SessionState := .idle
  /-- The chat-room id joined or being joined. Zero is public chat. -/
  activeCid : Option UInt32 := none
  /-- Users of the receive mids of the last SDP accepted. -/
  midToUser : AList (fun _ : String => UInt16) := ∅
  /-- The room's publications as the last 611 described them. -/
  publications : List Publication := []
  /-- The receive set the UI wants, sorted and without repetitions. -/
  wanted : List Stream := []
  /-- The receive set the server was last told. -/
  subscribed : List Stream := []
  /-- The server refused the last 610, so the next one goes out even if it is equal. -/
  subscribedStale : Bool := false
  /-- This client's own publications: `none` not publishing, `some paused`. -/
  localVideo : VideoKind → Option Bool := fun _ => none
  /-- Whether a 611 has listed each of this client's publications. -/
  localListed : VideoKind → Bool := fun _ => false
  /-- A number for the latest 607 of each kind. -/
  startGen : VideoKind → UInt32 := fun _ => 0
  /-- A number for the latest 609 of each kind. -/
  pauseGen : VideoKind → UInt32 := fun _ => 0
  /-- The last participant list, by user. -/
  participants : AList (fun _ : UInt16 => Participant) := ∅
  muted : Bool := false
  /-- An offer that arrived while an answer was being made. -/
  queuedOffer : Option (UInt32 × String) := none

namespace SessionMachine

/-- A fresh machine. -/
def new : SessionMachine := {}

/-- True in the four states that belong to a room: joining it, negotiating, connecting
or connected. -/
def inRoom (m : SessionMachine) : Bool :=
  match m.state with
  | .joinSent | .offerPending | .connecting | .connected => true
  | .idle | .leaving => false

/-- Whether an offer for `cid` would be taken now rather than dropped. -/
def acceptsOffer (m : SessionMachine) (cid : UInt32) : Bool :=
  m.activeCid = some cid && m.inRoom

/-- True where the server has the client in a voice room, so that video requests are
legal. -/
def inVoice (m : SessionMachine) : Bool :=
  match m.state with
  | .offerPending | .connecting | .connected => true
  | .idle | .joinSent | .leaving => false

/-- Move to a new state, and signal it after the step's other actions. -/
def setState (m : SessionMachine) (newState : SessionState) (actions : List Action) :
    SessionMachine × List Action :=
  ({ m with state := newState }, actions ++ [stateChangedSignal newState])

/-- Drop every piece of per-room video state. -/
def resetVideo (m : SessionMachine) : SessionMachine :=
  { m with
    publications := []
    wanted := []
    subscribed := []
    subscribedStale := false
    localVideo := fun _ => none
    localListed := fun _ => false }

/-- Remember the users of an offer's receive mids. -/
def cacheOfferMids (m : SessionMachine) (sdp : String) : SessionMachine :=
  { m with midToUser := offerMids sdp }

/-- Bind the machine to the room an offer names. -/
def bindCidForOffer (m : SessionMachine) (cid : UInt32) : SessionMachine :=
  { m with activeCid := some cid }

/-- Send the wanted receive set if the server has a different one and the client is in a
room that can take it. -/
def flushSubscriptions (m : SessionMachine) : SessionMachine × List Action :=
  if ¬m.inVoice ∨ (m.wanted = m.subscribed ∧ ¬m.subscribedStale) then (m, [])
  else match m.activeCid with
  | none => (m, [])
  | some cid =>
    ({ m with subscribed := m.wanted, subscribedStale := false },
      [.sendWireFrame htlcHdrVideoSubscribe (encodeCidPlusStreams cid m.wanted)])

/-- Collapse the session: cancel the timers of the state it failed in, tell the user,
leave the room on the wire and tear the pipeline down. -/
def fail (m : SessionMachine) (text : String) : SessionMachine × List Action :=
  ({ { m with activeCid := none, queuedOffer := none }.resetVideo with state := .leaving },
    [.cancelTimer .joinReply] ++
    (if m.state = .connecting ∨ m.state = .connected then
      [.cancelTimer .dtls, .cancelTimer .iceConnectivity] else []) ++
    (if m.state = .connected then [.cancelTimer .media] else []) ++
    [errorSignal text, stateChangedSignal .leaving] ++
    (match m.activeCid with
      | some cid => [.sendWireFrame htlcHdrVoiceLeave (encodeCidOnly cid)]
      | none => []) ++
    [.tearDown])

/-- The offer's `SetRemoteDescription` with what goes before and after it: the receive
legs of departed users stop first, and the answer is asked for last. -/
def applyOffer (sdp : String) : List Action :=
  (inactiveRecvMids sdp).map .stopReceivePipeline ++
    [.setRemoteDescription sdp, .createAnswer]

/-- Cancel every timer the session can have armed. -/
def cancelAllTimers : List Action :=
  [.cancelTimer .joinReply, .cancelTimer .dtls, .cancelTimer .iceConnectivity,
    .cancelTimer .media]

/-- The per-room fields as a join sets them. -/
def enterRoom (m : SessionMachine) (cid : UInt32) : SessionMachine :=
  { { m with activeCid := some cid, midToUser := ∅, participants := ∅ }.resetVideo with
    queuedOffer := none }

/-- `JoinRequested`: a fresh join when idle, otherwise a switch of rooms, which tears the
old pipeline down. Joining the room a live session is already in does nothing. -/
def joinRequested (m : SessionMachine) (cid : UInt32) : SessionMachine × List Action :=
  if m.state = .idle then
    (m.enterRoom cid).setState .joinSent
      [.sendWireFrame htlcHdrVoiceJoin (encodeCidOnly cid),
        .armTimer .joinReply joinReplyTimeoutMs]
  else if m.state ≠ .leaving ∧ m.activeCid = some cid then (m, [])
  else
    setState { m.enterRoom cid with muted := false } .joinSent
      (cancelAllTimers ++
        [.tearDown, .sendWireFrame htlcHdrVoiceJoin (encodeCidOnly cid),
          .armTimer .joinReply joinReplyTimeoutMs])

/-- `LeaveRequested`: back to idle with every per-session field reset. -/
def leaveRequested (m : SessionMachine) (cid : UInt32) : SessionMachine × List Action :=
  if ¬m.inRoom ∨ m.activeCid ≠ some cid then (m, [])
  else
    setState
      { { m with queuedOffer := none, activeCid := none, midToUser := ∅,
                 participants := ∅ }.resetVideo with muted := false } .idle
      (cancelAllTimers ++
        [.sendWireFrame htlcHdrVoiceLeave (encodeCidOnly cid), .tearDown])

/-- `SdpOfferReceived`: the first offer of a room and a renegotiation are applied at
once; one arriving while an answer is being made waits, and replaces any other that
waits. An offer for another room is dropped. -/
def sdpOfferReceived (m : SessionMachine) (cid : UInt32) (sdp : String) :
    SessionMachine × List Action :=
  match m.state with
  | .joinSent =>
    if m.activeCid ≠ some cid then (m, [])
    else
      let r := ((m.cacheOfferMids sdp).bindCidForOffer cid).setState .offerPending
        (.cancelTimer .joinReply :: applyOffer sdp)
      let f := r.1.flushSubscriptions
      (f.1, r.2 ++ f.2)
  | .connected | .connecting =>
    if m.activeCid ≠ some cid then (m, [])
    else
      ((m.cacheOfferMids sdp).bindCidForOffer cid).setState .offerPending (applyOffer sdp)
  | .offerPending =>
    if m.activeCid ≠ some cid then (m, [])
    else ({ m with queuedOffer := some (cid, sdp) }, [])
  | .idle | .leaving => (m, [])

/-- What an answer puts out first: it is applied locally and sent to the server. -/
def answerActions (cid : UInt32) (sdp : String) : List Action :=
  [.setLocalDescription sdp,
    .sendWireFrame htlcHdrVoiceSdpAnswer (encodeCidPlusSdp cid sdp)]

/-- `WebrtcAnswerCreated`: flush the answer, then start the waiting offer if there is
one, or go on to connecting. -/
def webrtcAnswerCreated (m : SessionMachine) (sdp : String) : SessionMachine × List Action :=
  if m.state ≠ .offerPending then (m, [])
  else
    let cid := m.activeCid.getD 0
    let connect := setState { m with queuedOffer := none } .connecting
      (answerActions cid sdp ++
        [.armTimer .dtls dtlsTimeoutMs, .armTimer .iceConnectivity iceTimeoutMs])
    match m.queuedOffer with
    | some (queuedCid, queuedSdp) =>
      if m.activeCid = some queuedCid then
        (({ m with queuedOffer := none }.cacheOfferMids queuedSdp).bindCidForOffer queuedCid,
          answerActions cid sdp ++ applyOffer queuedSdp)
      else connect
    | none => connect

/-- `ParticipantsUpdated`: replace the list and signal it, for the active room only. -/
def participantsUpdated (m : SessionMachine) (cid : UInt32) (entries : List Participant) :
    SessionMachine × List Action :=
  if ¬m.inRoom ∨ m.activeCid ≠ some cid then (m, [])
  else
    ({ m with participants := entries.foldl (fun ps p => ps.insert p.userId p) ∅ },
      [.emitSignal .roomStatus (.roomStatus cid (connectionStateForSession m.state))])

/-- What a 611 does to this client's own publication of one kind: listing it
acknowledges it, and leaving out an acknowledged one ends it. -/
def checkOwnPublication (uid : UInt16) (r : SessionMachine × List Action) (kind : VideoKind) :
    SessionMachine × List Action :=
  let m := r.1
  if m.localVideo kind = none then r
  else if m.publications.any (fun p => p.userId = uid && p.kind = kind) then
    ({ m with localListed := Function.update m.localListed kind true }, r.2)
  else if m.localListed kind then
    ({ m with
        localVideo := Function.update m.localVideo kind none
        localListed := Function.update m.localListed kind false },
      r.2 ++ [.setVideoPublishing kind false, localChanged kind none])
  else r

/-- `VideoStatusReceived`: the room's complete publication list, for the active room. -/
def videoStatusReceived (m : SessionMachine) (cid : UInt32) (publications : List Publication)
    (selfUid : Option UInt16) : SessionMachine × List Action :=
  if ¬m.inRoom ∨ m.activeCid ≠ some cid then (m, [])
  else
    let m := { m with publications := publications }
    let r := match selfUid with
      | some uid => VideoKind.all.foldl (checkOwnPublication uid) (m, [])
      | none => (m, [])
    (r.1, r.2 ++ [.emitSignal .videoStatus (.videoStatus cid)])

/-- `VideoSubscriptionsWanted`: recorded in any state, and sent once in voice. -/
def videoSubscriptionsWanted (m : SessionMachine) (streams : List Stream) :
    SessionMachine × List Action :=
  { m with wanted := sortDedup streams }.flushSubscriptions

/-- `VideoStartRequested`: publish a stream of this kind. -/
def videoStartRequested (m : SessionMachine) (kind : VideoKind) :
    SessionMachine × List Action :=
  if ¬m.inVoice ∨ (m.localVideo kind).isSome then (m, [])
  else
    let gen := m.startGen kind + 1
    ({ m with
        localVideo := Function.update m.localVideo kind (some false)
        localListed := Function.update m.localListed kind false
        startGen := Function.update m.startGen kind gen
        pauseGen := Function.update m.pauseGen kind (m.pauseGen kind + 1) },
      [.setVideoPublishing kind true,
        .sendWireFrame htlcHdrVideoStart (encodeCidKindGen (m.activeCid.getD 0) kind gen),
        localChanged kind (some false)])

/-- `VideoStopRequested`: end a publication. -/
def videoStopRequested (m : SessionMachine) (kind : VideoKind) :
    SessionMachine × List Action :=
  if ¬m.inVoice ∨ (m.localVideo kind).isNone then (m, [])
  else
    ({ m with localVideo := Function.update m.localVideo kind none },
      [.setVideoPublishing kind false,
        .sendWireFrame htlcHdrVideoStop (encodeCidPlusKind (m.activeCid.getD 0) kind),
        localChanged kind none])

/-- `VideoPauseRequested`: pause or resume a publication, if that changes it. -/
def videoPauseRequested (m : SessionMachine) (kind : VideoKind) (paused : Bool) :
    SessionMachine × List Action :=
  if ¬m.inVoice then (m, [])
  else if m.localVideo kind = some !paused then
    let gen := m.pauseGen kind + 1
    ({ m with
        localVideo := Function.update m.localVideo kind (some paused)
        pauseGen := Function.update m.pauseGen kind gen },
      [.setVideoPaused kind paused,
        .sendWireFrame htlcHdrVideoState
          (encodeCidKindPausedGen (m.activeCid.getD 0) kind paused gen),
        localChanged kind (some paused)])
  else (m, [])

/-- `VideoStartFailed`: the server refused a start. Only a refusal of the latest start in
the active room ends the publication. -/
def videoStartFailed (m : SessionMachine) (cid : UInt32) (kind : VideoKind) (gen : UInt32)
    (text : String) : SessionMachine × List Action :=
  if m.activeCid = some cid ∧ gen = m.startGen kind ∧ (m.localVideo kind).isSome then
    ({ m with localVideo := Function.update m.localVideo kind none },
      [.setVideoPublishing kind false, localChanged kind none, errorSignal text])
  else (m, [errorSignal text])

/-- `VideoPauseFailed`: the server refused a pause or resume. Only the latest one in the
active room is undone. -/
def videoPauseFailed (m : SessionMachine) (cid : UInt32) (kind : VideoKind) (gen : UInt32)
    (text : String) : SessionMachine × List Action :=
  match decide (m.activeCid = some cid), decide (gen = m.pauseGen kind), m.localVideo kind with
  | true, true, some paused =>
    ({ m with localVideo := Function.update m.localVideo kind (some !paused) },
      [.setVideoPaused kind !paused, localChanged kind (some !paused), errorSignal text])
  | _, _, _ => (m, [errorSignal text])

/-- `VideoCaptureFailed`: the capture broke, so the publication is stopped on the wire
and the call is kept. -/
def videoCaptureFailed (m : SessionMachine) (kind : VideoKind) (text : String) :
    SessionMachine × List Action :=
  if m.localVideo kind = none then (m, [])
  else
    ({ m with localVideo := Function.update m.localVideo kind none },
      [.setVideoPublishing kind false] ++
      (match m.inVoice, m.activeCid with
        | true, some cid => [.sendWireFrame htlcHdrVideoStop (encodeCidPlusKind cid kind)]
        | _, _ => []) ++
      [localChanged kind none, errorSignal text])

/-- `MuteToggleRequested`: accepted from any state with a room, if it changes the mute. -/
def muteToggleRequested (m : SessionMachine) (muted : Bool) : SessionMachine × List Action :=
  if ¬m.inRoom ∨ m.muted = muted then (m, [])
  else
    ({ m with muted := muted },
      [.setSendPipelineMute muted,
        .sendWireFrame htlcHdrVoiceMute (encodeCidPlusMuted (m.activeCid.getD 0) muted),
        .emitSignal .muteChanged (.muteChanged muted)])

/-- `WebrtcConnectionStateChanged`: the first `Connected` finishes connecting, and
`Failed` ends a session that has an offer. -/
def webrtcConnectionStateChanged (m : SessionMachine) (state : ConnectionState) :
    SessionMachine × List Action :=
  match m.state, state with
  | .connecting, .connected =>
    m.setState .connected
      [.cancelTimer .dtls, .cancelTimer .iceConnectivity, .armTimer .media mediaTimeoutMs]
  | .connecting, .failed => m.fail "WebRTC connection failed"
  | .connected, .failed => m.fail "WebRTC connection failed"
  | .offerPending, .failed => m.fail "WebRTC connection failed"
  | _, _ => (m, [])

/-- A refused join or answer ends the session; a refused 610 lets the next one through;
anything else is only shown. -/
def handleServerError (m : SessionMachine) (err : ServerError) : SessionMachine × List Action :=
  if err.originOpcode = htlcHdrVoiceJoin ∨ err.originOpcode = htlcHdrVoiceSdpAnswer then
    m.fail err.text
  else if err.originOpcode = htlcHdrVideoSubscribe then
    ({ m with subscribedStale := true }, [errorSignal err.text])
  else (m, [errorSignal err.text])

/-- `Timeout`: no reply to a join and a wedged connection end the session; the other
watchdogs only show a message. -/
def timeout (m : SessionMachine) (kind : Timeout) : SessionMachine × List Action :=
  match m.state, kind with
  | .joinSent, .joinReply => m.fail "Server did not reply to voice join"
  | .connecting, .iceConnectivity =>
    (m, [errorSignal "Voice ICE connectivity check slow — keeping session alive"])
  | .connected, .iceConnectivity =>
    (m, [errorSignal "Voice ICE connectivity check slow — keeping session alive"])
  | .connecting, .dtls =>
    (m, [errorSignal "Voice DTLS handshake slow — keeping session alive"])
  | .connected, .media =>
    (m, [errorSignal
      "Voice quiet for 30s — no audio received from any participant (everyone muted?)"])
  | .connecting, .wedgeDeadline =>
    m.fail "Voice connection wedged — no media received during the runtime's wedge-watchdog window"
  | _, _ => (m, [])

/-- Drive one transition: the next state, and the side effects to dispatch in order. -/
def step (m : SessionMachine) : Event → SessionMachine × List Action
  | .joinRequested cid => m.joinRequested cid
  | .leaveRequested cid => m.leaveRequested cid
  | .muteToggleRequested muted => m.muteToggleRequested muted
  | .sdpOfferReceived cid sdp => m.sdpOfferReceived cid sdp
  | .iceCandidateReceived cid candidateJson =>
    if m.inVoice ∧ m.activeCid = some cid then (m, [.addRemoteIce candidateJson]) else (m, [])
  | .endOfRemoteCandidates _ => (m, [])
  | .participantsUpdated cid entries => m.participantsUpdated cid entries
  | .serverTaskError err => m.handleServerError err
  | .videoStatusReceived cid publications selfUid =>
    m.videoStatusReceived cid publications selfUid
  | .videoSubscriptionsWanted streams => m.videoSubscriptionsWanted streams
  | .videoStartRequested kind => m.videoStartRequested kind
  | .videoStopRequested kind => m.videoStopRequested kind
  | .videoPauseRequested kind paused => m.videoPauseRequested kind paused
  | .videoStartFailed cid kind gen text => m.videoStartFailed cid kind gen text
  | .videoPauseFailed cid kind gen text => m.videoPauseFailed cid kind gen text
  | .videoCaptureFailed kind text => m.videoCaptureFailed kind text
  | .webrtcPadAdded mid =>
    if m.inVoice then (m, [.startReceivePipeline mid ((m.midToUser.lookup mid).getD 0)])
    else (m, [])
  | .webrtcPadRemoved mid =>
    if m.inVoice then (m, [.stopReceivePipeline mid]) else (m, [])
  | .webrtcAnswerCreated sdp => m.webrtcAnswerCreated sdp
  | .webrtcLocalIceGathered candidateJson =>
    if m.inVoice then
      (m, [.sendWireFrame htlcHdrVoiceIce
        (encodeCidPlusIce (m.activeCid.getD 0) candidateJson)])
    else (m, [])
  | .webrtcConnectionStateChanged state => m.webrtcConnectionStateChanged state
  | .timeout kind => m.timeout kind

end SessionMachine

/-- The session machine as a reactive machine, started afresh. -/
def session : Reactive.Machine SessionMachine Event Action where
  start := .new
  step := SessionMachine.step

@[simp] theorem session_start : session.start = .new := rfl

@[simp] theorem session_step (m : SessionMachine) (e : Event) : session.step m e = m.step e := rfl

end Gtkhx.Voice
