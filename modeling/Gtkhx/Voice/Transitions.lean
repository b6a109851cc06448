import Gtkhx.Voice.Machine

/-!
# What one step of the session machine can do

`SessionMachine.Transition` lists every arm of `step` once, with its guard, its next
state and its actions. Every property of whole runs is proved by cases on it, so the
branches of `step` are split here and nowhere else.
-/

namespace Gtkhx.Voice.SessionMachine

/-- The text of the collapse an event causes, where the event reaches `fail`. -/
def failText (m : SessionMachine) : Event → Option String
  | .webrtcConnectionStateChanged .failed =>
    if m.inVoice then some "WebRTC connection failed" else none
  | .serverTaskError err =>
    if err.originOpcode = htlcHdrVoiceJoin ∨ err.originOpcode = htlcHdrVoiceSdpAnswer then
      some err.text
    else none
  | .timeout .joinReply =>
    if m.state = .joinSent then some "Server did not reply to voice join" else none
  | .timeout .wedgeDeadline =>
    if m.state = .connecting then
      some "Voice connection wedged — no media received during the runtime's wedge-watchdog window"
    else none
  | _ => none

/-- The events a state drops without a trace. -/
def Ignores (m : SessionMachine) : Event → Prop
  | .joinRequested cid => m.state ≠ .idle ∧ m.state ≠ .leaving ∧ m.activeCid = some cid
  | .leaveRequested cid => m.inRoom = false ∨ m.activeCid ≠ some cid
  | .muteToggleRequested muted => m.inRoom = false ∨ m.muted = muted
  | .sdpOfferReceived cid _ => m.acceptsOffer cid = false
  | .iceCandidateReceived cid _ => ¬(m.inVoice = true ∧ m.activeCid = some cid)
  | .endOfRemoteCandidates _ => True
  | .participantsUpdated cid _ => m.inRoom = false ∨ m.activeCid ≠ some cid
  | .serverTaskError _ => False
  | .videoStatusReceived cid _ _ => m.inRoom = false ∨ m.activeCid ≠ some cid
  | .videoSubscriptionsWanted _ => False
  | .videoStartRequested kind => m.inVoice = false ∨ (m.localVideo kind).isSome = true
  | .videoStopRequested kind => m.inVoice = false ∨ m.localVideo kind = none
  | .videoPauseRequested kind paused => m.inVoice = false ∨ m.localVideo kind ≠ some !paused
  | .videoStartFailed _ _ _ _ => False
  | .videoPauseFailed _ _ _ _ => False
  | .videoCaptureFailed kind _ => m.localVideo kind = none
  | .webrtcPadAdded _ => m.inVoice = false
  | .webrtcPadRemoved _ => m.inVoice = false
  | .webrtcAnswerCreated _ => m.state ≠ .offerPending
  | .webrtcLocalIceGathered _ => m.inVoice = false
  | .webrtcConnectionStateChanged state =>
    (state = .connected → m.state ≠ .connecting) ∧ (state = .failed → m.inVoice = false)
  | .timeout kind => m.failText (.timeout kind) = none

/-- The events a state answers with a message to the user and nothing else. -/
def Notices (m : SessionMachine) : Event → Prop
  | .serverTaskError err => err.originOpcode ≠ htlcHdrVoiceJoin ∧
      err.originOpcode ≠ htlcHdrVoiceSdpAnswer ∧ err.originOpcode ≠ htlcHdrVideoSubscribe
  | .videoStartFailed cid kind gen _ =>
    ¬(m.activeCid = some cid ∧ gen = m.startGen kind ∧ (m.localVideo kind).isSome = true)
  | .videoPauseFailed cid kind gen _ =>
    ¬(m.activeCid = some cid ∧ gen = m.pauseGen kind ∧ (m.localVideo kind).isSome = true)
  | .timeout kind => m.failText (.timeout kind) = none
  | _ => False

/-- Every arm of `step`: guard, event, next state and actions. -/
inductive Transition (m : SessionMachine) : Event → SessionMachine → List Action → Prop
  | ignored {e : Event} (hign : m.Ignores e) : Transition m e m []
  | notice {e : Event} (text : String) (hnot : m.Notices e) : Transition m e m [errorSignal text]
  | join (cid : UInt32) (hstate : m.state = .idle) :
      Transition m (.joinRequested cid) { m.enterRoom cid with state := .joinSent }
        [.sendWireFrame htlcHdrVoiceJoin (encodeCidOnly cid),
          .armTimer .joinReply joinReplyTimeoutMs, stateChangedSignal .joinSent]
  | roomSwitch (cid : UInt32) (hstate : m.state ≠ .idle)
      (hother : m.state ≠ .leaving → m.activeCid ≠ some cid) :
      Transition m (.joinRequested cid)
        { m.enterRoom cid with muted := false, state := .joinSent }
        (cancelAllTimers ++ [.tearDown, .sendWireFrame htlcHdrVoiceJoin (encodeCidOnly cid),
          .armTimer .joinReply joinReplyTimeoutMs, stateChangedSignal .joinSent])
  | leave (cid : UInt32) (hroom : m.inRoom = true) (hcid : m.activeCid = some cid) :
      Transition m (.leaveRequested cid)
        { { m with queuedOffer := none, activeCid := none, midToUser := ∅,
                   participants := ∅ }.resetVideo with muted := false, state := .idle }
        (cancelAllTimers ++ [.sendWireFrame htlcHdrVoiceLeave (encodeCidOnly cid), .tearDown,
          stateChangedSignal .idle])
  | firstOffer (cid : UInt32) (sdp : String) (hstate : m.state = .joinSent)
      (hcid : m.activeCid = some cid) :
      Transition m (.sdpOfferReceived cid sdp)
        { m with midToUser := offerMids sdp, state := .offerPending }.flushSubscriptions.1
        (.cancelTimer .joinReply :: applyOffer sdp ++ [stateChangedSignal .offerPending] ++
          { m with midToUser := offerMids sdp, state := .offerPending }.flushSubscriptions.2)
  | renegotiate (cid : UInt32) (sdp : String)
      (hstate : m.state = .connecting ∨ m.state = .connected) (hcid : m.activeCid = some cid) :
      Transition m (.sdpOfferReceived cid sdp)
        { m with midToUser := offerMids sdp, state := .offerPending }
        (applyOffer sdp ++ [stateChangedSignal .offerPending])
  | queueOffer (cid : UInt32) (sdp : String) (hstate : m.state = .offerPending)
      (hcid : m.activeCid = some cid) :
      Transition m (.sdpOfferReceived cid sdp) { m with queuedOffer := some (cid, sdp) } []
  | drain (sdp : String) (cid : UInt32) (queuedSdp : String) (hstate : m.state = .offerPending)
      (hqueued : m.queuedOffer = some (cid, queuedSdp)) (hcid : m.activeCid = some cid) :
      Transition m (.webrtcAnswerCreated sdp)
        { m with queuedOffer := none, midToUser := offerMids queuedSdp }
        (answerActions cid sdp ++ applyOffer queuedSdp)
  | answer (sdp : String) (hstate : m.state = .offerPending)
      (hqueued : ∀ q, m.queuedOffer = some q → m.activeCid ≠ some q.1) :
      Transition m (.webrtcAnswerCreated sdp)
        { m with queuedOffer := none, state := .connecting }
        (answerActions (m.activeCid.getD 0) sdp ++
          [.armTimer .dtls dtlsTimeoutMs, .armTimer .iceConnectivity iceTimeoutMs,
            stateChangedSignal .connecting])
  | remoteIce (cid : UInt32) (candidateJson : String) (hvoice : m.inVoice = true)
      (hcid : m.activeCid = some cid) :
      Transition m (.iceCandidateReceived cid candidateJson) m [.addRemoteIce candidateJson]
  | localIce (candidateJson : String) (hvoice : m.inVoice = true) :
      Transition m (.webrtcLocalIceGathered candidateJson) m
        [.sendWireFrame htlcHdrVoiceIce (encodeCidPlusIce (m.activeCid.getD 0) candidateJson)]
  | padAdded (mid : String) (hvoice : m.inVoice = true) :
      Transition m (.webrtcPadAdded mid) m
        [.startReceivePipeline mid ((m.midToUser.lookup mid).getD 0)]
  | padRemoved (mid : String) (hvoice : m.inVoice = true) :
      Transition m (.webrtcPadRemoved mid) m [.stopReceivePipeline mid]
  | roomStatus (cid : UInt32) (entries : List Participant) (hroom : m.inRoom = true)
      (hcid : m.activeCid = some cid) :
      Transition m (.participantsUpdated cid entries)
        { m with participants := entries.foldl (fun ps p => ps.insert p.userId p) ∅ }
        [.emitSignal .roomStatus (.roomStatus cid (connectionStateForSession m.state))]
  | videoStatus (cid : UInt32) (publications : List Publication) (selfUid : Option UInt16)
      (hroom : m.inRoom = true) (hcid : m.activeCid = some cid) :
      Transition m (.videoStatusReceived cid publications selfUid)
        (m.videoStatusReceived cid publications selfUid).1
        (m.videoStatusReceived cid publications selfUid).2
  | subscriptions (streams : List Stream) :
      Transition m (.videoSubscriptionsWanted streams)
        { m with wanted := sortDedup streams }.flushSubscriptions.1
        { m with wanted := sortDedup streams }.flushSubscriptions.2
  | videoStart (kind : VideoKind) (hvoice : m.inVoice = true) (hnone : m.localVideo kind = none) :
      Transition m (.videoStartRequested kind)
        { m with
          localVideo := Function.update m.localVideo kind (some false)
          localListed := Function.update m.localListed kind false
          startGen := Function.update m.startGen kind (m.startGen kind + 1)
          pauseGen := Function.update m.pauseGen kind (m.pauseGen kind + 1) }
        [.setVideoPublishing kind true,
          .sendWireFrame htlcHdrVideoStart
            (encodeCidKindGen (m.activeCid.getD 0) kind (m.startGen kind + 1)),
          localChanged kind (some false)]
  | videoStop (kind : VideoKind) (hvoice : m.inVoice = true)
      (hsome : (m.localVideo kind).isSome = true) :
      Transition m (.videoStopRequested kind)
        { m with localVideo := Function.update m.localVideo kind none }
        [.setVideoPublishing kind false,
          .sendWireFrame htlcHdrVideoStop (encodeCidPlusKind (m.activeCid.getD 0) kind),
          localChanged kind none]
  | videoPause (kind : VideoKind) (paused : Bool) (hvoice : m.inVoice = true)
      (hlocal : m.localVideo kind = some !paused) :
      Transition m (.videoPauseRequested kind paused)
        { m with
          localVideo := Function.update m.localVideo kind (some paused)
          pauseGen := Function.update m.pauseGen kind (m.pauseGen kind + 1) }
        [.setVideoPaused kind paused,
          .sendWireFrame htlcHdrVideoState
            (encodeCidKindPausedGen (m.activeCid.getD 0) kind paused (m.pauseGen kind + 1)),
          localChanged kind (some paused)]
  | startRefused (cid : UInt32) (kind : VideoKind) (text : String) (hcid : m.activeCid = some cid)
      (hsome : (m.localVideo kind).isSome = true) :
      Transition m (.videoStartFailed cid kind (m.startGen kind) text)
        { m with localVideo := Function.update m.localVideo kind none }
        [.setVideoPublishing kind false, localChanged kind none, errorSignal text]
  | pauseRefused (cid : UInt32) (kind : VideoKind) (text : String) (paused : Bool)
      (hcid : m.activeCid = some cid) (hlocal : m.localVideo kind = some paused) :
      Transition m (.videoPauseFailed cid kind (m.pauseGen kind) text)
        { m with localVideo := Function.update m.localVideo kind (some !paused) }
        [.setVideoPaused kind !paused, localChanged kind (some !paused), errorSignal text]
  | captureFailed (kind : VideoKind) (text : String) (hsome : (m.localVideo kind).isSome = true) :
      Transition m (.videoCaptureFailed kind text)
        { m with localVideo := Function.update m.localVideo kind none }
        ([.setVideoPublishing kind false] ++
          (match m.inVoice, m.activeCid with
            | true, some cid => [.sendWireFrame htlcHdrVideoStop (encodeCidPlusKind cid kind)]
            | _, _ => []) ++
          [localChanged kind none, errorSignal text])
  | mute (muted : Bool) (hroom : m.inRoom = true) (hne : m.muted ≠ muted) :
      Transition m (.muteToggleRequested muted) { m with muted := muted }
        [.setSendPipelineMute muted,
          .sendWireFrame htlcHdrVoiceMute (encodeCidPlusMuted (m.activeCid.getD 0) muted),
          .emitSignal .muteChanged (.muteChanged muted)]
  | connect (hstate : m.state = .connecting) :
      Transition m (.webrtcConnectionStateChanged .connected) { m with state := .connected }
        [.cancelTimer .dtls, .cancelTimer .iceConnectivity, .armTimer .media mediaTimeoutMs,
          stateChangedSignal .connected]
  | subscribeRefused (err : ServerError) (hop : err.originOpcode = htlcHdrVideoSubscribe) :
      Transition m (.serverTaskError err) { m with subscribedStale := true }
        [errorSignal err.text]
  | failed {e : Event} (text : String) (hfail : m.failText e = some text) :
      Transition m e (m.fail text).1 (m.fail text).2

private theorem bind_active {m : SessionMachine} {cid : UInt32} (hcid : m.activeCid = some cid) :
    { m with activeCid := some cid } = m := by
  cases m
  simp_all

/-- Rebinding to the room the machine is already in changes nothing, so the caches are
all that an offer for it touches. -/
private theorem cache_bind {m : SessionMachine} {cid : UInt32} (sdp : String)
    (hcid : m.activeCid = some cid) :
    (m.cacheOfferMids sdp).bindCidForOffer cid = { m with midToUser := offerMids sdp } := by
  have h := bind_active (m := { m with midToUser := offerMids sdp }) hcid
  exact h

private theorem sdpOfferReceived_transition (m : SessionMachine) (cid : UInt32) (sdp : String) :
    m.Transition (.sdpOfferReceived cid sdp) (m.sdpOfferReceived cid sdp).1
      (m.sdpOfferReceived cid sdp).2 := by
  by_cases hcid : m.activeCid = some cid
  · unfold sdpOfferReceived
    split
    · rename_i hstate
      rw [if_neg (not_not_intro hcid), cache_bind sdp hcid]
      exact .firstOffer cid sdp hstate hcid
    · rename_i hstate
      rw [if_neg (not_not_intro hcid), cache_bind sdp hcid]
      exact .renegotiate cid sdp (.inr hstate) hcid
    · rename_i hstate
      rw [if_neg (not_not_intro hcid), cache_bind sdp hcid]
      exact .renegotiate cid sdp (.inl hstate) hcid
    · rename_i hstate
      rw [if_neg (not_not_intro hcid)]
      exact .queueOffer cid sdp hstate hcid
    · rename_i hstate
      exact .ignored (by simp [Ignores, acceptsOffer, inRoom, hstate])
    · rename_i hstate
      exact .ignored (by simp [Ignores, acceptsOffer, inRoom, hstate])
  · have hstep : m.sdpOfferReceived cid sdp = (m, []) := by
      unfold sdpOfferReceived
      cases m.state <;> simp [hcid]
    rw [hstep]
    exact .ignored (by simp [Ignores, acceptsOffer, hcid])

private theorem webrtcAnswerCreated_transition (m : SessionMachine) (sdp : String) :
    m.Transition (.webrtcAnswerCreated sdp) (m.webrtcAnswerCreated sdp).1
      (m.webrtcAnswerCreated sdp).2 := by
  by_cases hstate : m.state = .offerPending
  · unfold webrtcAnswerCreated
    rw [if_neg (not_not_intro hstate)]
    dsimp only
    split
    · rename_i cid queuedSdp hq
      split_ifs with hcid
      · have hbound : m.activeCid.getD 0 = cid := by simp [hcid]
        rw [cache_bind (m := { m with queuedOffer := none }) queuedSdp hcid, hbound]
        exact .drain sdp cid queuedSdp hstate hq hcid
      · exact .answer sdp hstate (by simp [hq, hcid])
    · rename_i hq
      exact .answer sdp hstate (by simp [hq])
  · have hstep : m.webrtcAnswerCreated sdp = (m, []) := by simp [webrtcAnswerCreated, hstate]
    rw [hstep]
    exact .ignored hstate

private theorem webrtcConnectionStateChanged_transition (m : SessionMachine)
    (state : ConnectionState) :
    m.Transition (.webrtcConnectionStateChanged state) (m.webrtcConnectionStateChanged state).1
      (m.webrtcConnectionStateChanged state).2 := by
  unfold webrtcConnectionStateChanged
  split
  · rename_i hstate
    exact .connect hstate
  · rename_i hstate
    exact .failed _ (by simp [failText, inVoice, hstate])
  · rename_i hstate
    exact .failed _ (by simp [failText, inVoice, hstate])
  · rename_i hstate
    exact .failed _ (by simp [failText, inVoice, hstate])
  · rename_i hc h1 h2 h3
    refine .ignored ⟨fun hs hm => hc hm hs, fun hs => ?_⟩
    cases hm : m.state <;> simp_all [inVoice]

private theorem handleServerError_transition (m : SessionMachine) (err : ServerError) :
    m.Transition (.serverTaskError err) (m.handleServerError err).1
      (m.handleServerError err).2 := by
  unfold handleServerError
  split_ifs with hfatal hsub
  · exact .failed _ (by simp only [failText, hfatal, if_true])
  · exact .subscribeRefused err hsub
  · push Not at hfatal
    exact .notice _ ⟨hfatal.1, hfatal.2, hsub⟩

private theorem timeout_transition (m : SessionMachine) (kind : Timeout) :
    m.Transition (.timeout kind) (m.timeout kind).1 (m.timeout kind).2 := by
  cases hstate : m.state <;> cases kind <;> simp only [timeout, hstate] <;>
    first
    | exact .failed _ (by simp [failText, hstate])
    | exact .notice _ (by simp [Notices, failText])
    | exact .ignored (by simp [Ignores, failText, hstate])

private theorem videoPauseFailed_transition (m : SessionMachine) (cid : UInt32)
    (kind : VideoKind) (gen : UInt32) (text : String) :
    m.Transition (.videoPauseFailed cid kind gen text) (m.videoPauseFailed cid kind gen text).1
      (m.videoPauseFailed cid kind gen text).2 := by
  unfold videoPauseFailed
  split
  · rename_i paused hcid hgen hlocal
    have hgen' : gen = m.pauseGen kind := by simpa using hgen
    subst hgen'
    exact .pauseRefused cid kind text paused (by simpa using hcid) hlocal
  · rename_i hother
    refine .notice _ ?_
    rintro ⟨hcid, hgen, hsome⟩
    obtain ⟨paused, hlocal⟩ := Option.isSome_iff_exists.mp hsome
    exact hother paused (by simpa using hcid) (by simpa using hgen) hlocal

/-- Every step is one of the listed transitions. -/
theorem step_transition (m : SessionMachine) (e : Event) :
    m.Transition e (m.step e).1 (m.step e).2 := by
  cases e with
  | joinRequested cid =>
    simp only [step, joinRequested]
    split_ifs with hidle hsame
    · exact .join cid hidle
    · exact .ignored ⟨hidle, hsame⟩
    · exact .roomSwitch cid hidle (fun hlive hcid => hsame ⟨hlive, hcid⟩)
  | leaveRequested cid =>
    simp only [step, leaveRequested]
    split_ifs with hign
    · exact .ignored (by simpa [Ignores] using hign)
    · push Not at hign
      exact .leave cid hign.1 hign.2
  | muteToggleRequested muted =>
    simp only [step, muteToggleRequested]
    split_ifs with hign
    · exact .ignored (by simpa [Ignores] using hign)
    · push Not at hign
      exact .mute muted hign.1 hign.2
  | sdpOfferReceived cid sdp => exact m.sdpOfferReceived_transition cid sdp
  | iceCandidateReceived cid candidateJson =>
    simp only [step]
    split_ifs with hice
    · exact .remoteIce cid candidateJson hice.1 hice.2
    · exact .ignored hice
  | endOfRemoteCandidates cid => exact .ignored trivial
  | participantsUpdated cid entries =>
    simp only [step, participantsUpdated]
    split_ifs with hign
    · exact .ignored (by simpa [Ignores] using hign)
    · push Not at hign
      exact .roomStatus cid entries hign.1 hign.2
  | serverTaskError err => exact m.handleServerError_transition err
  | videoStatusReceived cid publications selfUid =>
    by_cases hign : ¬m.inRoom = true ∨ m.activeCid ≠ some cid
    · have hstep : m.videoStatusReceived cid publications selfUid = (m, []) := by
        simp only [videoStatusReceived, hign, if_true]
      simp only [step, hstep]
      exact .ignored (by simpa [Ignores] using hign)
    · push Not at hign
      exact .videoStatus cid publications selfUid hign.1 hign.2
  | videoSubscriptionsWanted streams => exact .subscriptions streams
  | videoStartRequested kind =>
    simp only [step, videoStartRequested]
    split_ifs with hign
    · exact .ignored (by simpa [Ignores] using hign)
    · push Not at hign
      exact .videoStart kind hign.1 (by simpa using hign.2)
  | videoStopRequested kind =>
    simp only [step, videoStopRequested]
    split_ifs with hign
    · exact .ignored (by simpa [Ignores] using hign)
    · push Not at hign
      exact .videoStop kind hign.1 (by simpa [Option.isSome_iff_ne_none] using hign.2)
  | videoPauseRequested kind paused =>
    simp only [step, videoPauseRequested]
    by_cases hvoice : m.inVoice = true
    · rw [if_neg (not_not_intro hvoice)]
      split_ifs with hlocal
      · exact .videoPause kind paused hvoice hlocal
      · exact .ignored (Or.inr hlocal)
    · rw [if_pos hvoice]
      exact .ignored (Or.inl (by simpa using hvoice))
  | videoStartFailed cid kind gen text =>
    simp only [step, videoStartFailed]
    split_ifs with heff
    · obtain ⟨hcid, rfl, hsome⟩ := heff
      exact .startRefused cid kind text hcid hsome
    · exact .notice _ heff
  | videoPauseFailed cid kind gen text => exact m.videoPauseFailed_transition cid kind gen text
  | videoCaptureFailed kind text =>
    simp only [step, videoCaptureFailed]
    split_ifs with hnone
    · exact .ignored hnone
    · exact .captureFailed kind text (Option.isSome_iff_ne_none.mpr hnone)
  | webrtcPadAdded mid =>
    simp only [step]
    split_ifs with hvoice
    · exact .padAdded mid hvoice
    · exact .ignored (by simpa [Ignores] using hvoice)
  | webrtcPadRemoved mid =>
    simp only [step]
    split_ifs with hvoice
    · exact .padRemoved mid hvoice
    · exact .ignored (by simpa [Ignores] using hvoice)
  | webrtcAnswerCreated sdp => exact m.webrtcAnswerCreated_transition sdp
  | webrtcLocalIceGathered candidateJson =>
    simp only [step]
    split_ifs with hvoice
    · exact .localIce candidateJson hvoice
    · exact .ignored (by simpa [Ignores] using hvoice)
  | webrtcConnectionStateChanged state =>
    exact m.webrtcConnectionStateChanged_transition state
  | timeout kind => exact m.timeout_transition kind

/-- An event that reaches `fail` does what `fail` does. -/
theorem step_of_failText {m : SessionMachine} {e : Event} {text : String}
    (h : m.failText e = some text) : m.step e = m.fail text := by
  cases e with
  | webrtcConnectionStateChanged state =>
    cases state with
    | failed =>
      cases hstate : m.state <;>
        simp_all [failText, inVoice, step, webrtcConnectionStateChanged]
    | _ => cases h
  | serverTaskError err =>
    simp only [failText] at h
    split_ifs at h with hfatal
    have htext : err.text = text := by simpa using h
    simp only [step, handleServerError, if_pos hfatal, htext]
  | timeout kind =>
    cases hstate : m.state <;> cases kind <;> simp_all [failText, step, timeout]
  | _ => cases h

/-- What is dropped does not collapse the session. -/
theorem failText_of_ignores {m : SessionMachine} {e : Event} (h : m.Ignores e) :
    m.failText e = none := by
  cases e with
  | webrtcConnectionStateChanged state => cases state <;> simp_all [Ignores, failText]
  | serverTaskError => exact h.elim
  | timeout => exact h
  | _ => rfl

/-- What is only shown to the user does not collapse the session. -/
theorem failText_of_notices {m : SessionMachine} {e : Event} (h : m.Notices e) :
    m.failText e = none := by
  cases e with
  | serverTaskError err => simp_all [Notices, failText]
  | timeout => exact h
  | videoStartFailed | videoPauseFailed => rfl
  | _ => exact h.elim

end Gtkhx.Voice.SessionMachine
