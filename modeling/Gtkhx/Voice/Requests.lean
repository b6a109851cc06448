import Gtkhx.Voice.Control

/-!
# Publications and the requests about them

What a step of the session machine can do to one of this client's publications, and what
it asks of the server for it. `SessionMachine.OwnStep` lists the ways once, so that the
protocols about publications need not look at the other arms of `step`.
-/

namespace Gtkhx.Voice

/-- A request that bears on this client's publications. The numbers stay with the sender,
which returns them with a refusal. -/
inductive VideoRequest
  | enter (cid : UInt32)
  | exit
  | start (cid : UInt32) (kind : VideoKind) (gen : UInt32)
  | stop (kind : VideoKind)
  | pause (cid : UInt32) (kind : VideoKind) (paused : Bool) (gen : UInt32)
  deriving DecidableEq

/-- The request about one kind of video in a frame that names the kind. -/
def kindRequest (opcode cid : UInt32) (kind : VideoKind) (payload : List UInt8) :
    Option VideoRequest :=
  if opcode = htlcHdrVideoStart then some (.start cid kind (bodyGen payload 2))
  else if opcode = htlcHdrVideoStop then some (.stop kind)
  else if opcode = htlcHdrVideoState then
    (BigEndian.takeU16 (payload.drop 2)).map fun word =>
      .pause cid kind (word.1 ≠ 0) (bodyGen payload 4)
  else none

/-- The request in a frame, if it has one. -/
def videoRequest : Action → Option VideoRequest
  | .sendWireFrame opcode body =>
    (BigEndian.takeU32 body).bind fun (cid, payload) =>
      if opcode = htlcHdrVoiceJoin then some (.enter cid)
      else if opcode = htlcHdrVoiceLeave then some .exit
      else ((BigEndian.takeU16 payload).bind (VideoKind.fromWire ·.1)).bind
        (kindRequest opcode cid · payload)
  | _ => none

/-- The requests of a step. -/
def videoRequests (acts : List Action) : List VideoRequest := acts.filterMap videoRequest

/-- The pause of a kind that the capture was last told. -/
def toldPaused (kind : VideoKind) (told : Bool) : Action → Bool
  | .setVideoPaused k paused => if k = kind then paused else told
  | _ => told

/-- A request about a publication of another kind. -/
def VideoRequest.Foreign (kind : VideoKind) : VideoRequest → Prop
  | .enter _ => False
  | .exit => False
  | .start _ k _ => k ≠ kind
  | .stop k => k ≠ kind
  | .pause _ k _ _ => k ≠ kind

@[simp] theorem videoRequest_join (cid : UInt32) :
    videoRequest (.sendWireFrame htlcHdrVoiceJoin (encodeCidOnly cid)) = some (.enter cid) := by
  have hread := BigEndian.takeU32_ofU32_append cid []
  rw [List.append_nil] at hread
  simp [videoRequest, encodeCidOnly, hread]

@[simp] theorem videoRequest_leave (cid : UInt32) :
    videoRequest (.sendWireFrame htlcHdrVoiceLeave (encodeCidOnly cid)) = some .exit := by
  have hread := BigEndian.takeU32_ofU32_append cid []
  rw [List.append_nil] at hread
  rw [videoRequest, encodeCidOnly, hread]
  rfl

private theorem videoRequest_kind (opcode cid : UInt32) (kind : VideoKind) (rest : List UInt8)
    (hjoin : opcode ≠ htlcHdrVoiceJoin) (hleave : opcode ≠ htlcHdrVoiceLeave) :
    videoRequest (.sendWireFrame opcode (encodeCidPlusKind cid kind ++ rest)) =
      kindRequest opcode cid kind (BigEndian.ofU16 kind.wire ++ rest) := by
  rw [videoRequest, encodeCidPlusKind, List.append_assoc, BigEndian.takeU32_ofU32_append]
  simp only [Option.bind_some, if_neg hjoin, if_neg hleave, BigEndian.takeU16_ofU16_append,
    VideoKind.fromWire_wire]

@[simp] theorem videoRequest_start (cid : UInt32) (kind : VideoKind) (gen : UInt32) :
    videoRequest (.sendWireFrame htlcHdrVideoStart (encodeCidKindGen cid kind gen)) =
      some (.start cid kind gen) := by
  have hgen : bodyGen (BigEndian.ofU16 kind.wire ++ BigEndian.ofU32 gen) 2 = gen :=
    bodyGen_append (BigEndian.ofU16 kind.wire) gen
  rw [encodeCidKindGen, videoRequest_kind _ _ _ _ (by decide) (by decide)]
  simp [kindRequest, hgen]

@[simp] theorem videoRequest_stop (cid : UInt32) (kind : VideoKind) :
    videoRequest (.sendWireFrame htlcHdrVideoStop (encodeCidPlusKind cid kind)) =
      some (.stop kind) := by
  have hkind := videoRequest_kind htlcHdrVideoStop cid kind [] (by decide) (by decide)
  rw [List.append_nil] at hkind
  rw [hkind]
  rfl

@[simp] theorem videoRequest_pause (cid : UInt32) (kind : VideoKind) (paused : Bool)
    (gen : UInt32) :
    videoRequest (.sendWireFrame htlcHdrVideoState (encodeCidKindPausedGen cid kind paused gen)) =
      some (.pause cid kind paused gen) := by
  have hgen : bodyGen (BigEndian.ofU16 kind.wire ++
      (BigEndian.ofU16 (flagWire paused) ++ BigEndian.ofU32 gen)) 4 = gen := by
    rw [← List.append_assoc]
    exact bodyGen_append (BigEndian.ofU16 kind.wire ++ BigEndian.ofU16 (flagWire paused)) gen
  have hword : BigEndian.takeU16 ((BigEndian.ofU16 kind.wire ++
      (BigEndian.ofU16 (flagWire paused) ++ BigEndian.ofU32 gen)).drop 2) =
      some (flagWire paused, BigEndian.ofU32 gen) :=
    BigEndian.takeU16_ofU16_append _ _
  have hflag : decide (flagWire paused ≠ 0) = paused := by
    cases paused <;> rfl
  have hop : htlcHdrVideoState ≠ htlcHdrVideoStart ∧ htlcHdrVideoState ≠ htlcHdrVideoStop := by
    decide
  rw [encodeCidKindPausedGen, List.append_assoc,
    videoRequest_kind _ _ _ _ (by decide) (by decide), kindRequest, if_neg hop.1, if_neg hop.2,
    if_pos rfl, hword, Option.map_some, hflag, hgen]

/-- The bridge returns a refused 607 as the event that names it. -/
theorem failed_start (cid : UInt32) (kind : VideoKind) (gen : UInt32) {reason : Option String}
    (hreason : reason ≠ some cutShort) :
    (sendWireFrame htlcHdrVideoStart (encodeCidKindGen cid kind gen)).bind (failed · reason) =
      some (.videoStartFailed cid kind gen (cText (reason.getD ""))) := by
  rw [sendWireFrame_encodeCidKindGen, Option.bind_some, failed, if_neg hreason]
  simp only [VideoKind.fromWire_wire, Option.map_some]

/-- The bridge returns a refused 609 as the event that names it. -/
theorem failed_pause (cid : UInt32) (kind : VideoKind) (paused : Bool) (gen : UInt32)
    {reason : Option String} (hreason : reason ≠ some cutShort) :
    (sendWireFrame htlcHdrVideoState (encodeCidKindPausedGen cid kind paused gen)).bind
        (failed · reason) =
      some (.videoPauseFailed cid kind gen (cText (reason.getD ""))) := by
  rw [sendWireFrame_encodeCidKindPausedGen, Option.bind_some, failed, if_neg hreason]
  simp only [VideoKind.fromWire_wire, Option.map_some]

/-- The actions concern no publication of a kind: what they request is about another kind,
and the capture is told nothing. -/
structure Elsewhere (kind : VideoKind) (acts : List Action) : Prop where
  requests : ∀ r ∈ videoRequests acts, r.Foreign kind
  told : ∀ told, acts.foldl (toldPaused kind) told = told

/-- Whether an action sends a request about video or tells a capture of a pause. -/
def Action.bearsOnVideo : Action → Bool
  | .sendWireFrame opcode _ =>
    opcode = htlcHdrVoiceJoin || opcode = htlcHdrVoiceLeave || opcode = htlcHdrVideoStart ||
      opcode = htlcHdrVideoStop || opcode = htlcHdrVideoState
  | .setVideoPaused _ _ => true
  | _ => false

private theorem videoRequest_of_not_bears {a : Action} (h : a.bearsOnVideo = false) :
    videoRequest a = none := by
  cases a with
  | sendWireFrame opcode body =>
    simp only [Action.bearsOnVideo, Bool.or_eq_false_iff, decide_eq_false_iff_not] at h
    obtain ⟨⟨⟨⟨hjoin, hleave⟩, hstart⟩, hstop⟩, hstate⟩ := h
    simp [videoRequest, kindRequest, hjoin, hleave, hstart, hstop, hstate]
  | _ => rfl

private theorem toldPaused_of_not_bears {a : Action} (h : a.bearsOnVideo = false)
    (kind : VideoKind) (told : Bool) : toldPaused kind told a = told := by
  cases a with
  | setVideoPaused => cases h
  | _ => rfl

/-- Actions that do not bear on video request nothing. -/
theorem videoRequests_of_not_bears {acts : List Action}
    (h : ∀ a ∈ acts, a.bearsOnVideo = false) : videoRequests acts = [] :=
  List.filterMap_eq_nil_iff.mpr (fun a ha => videoRequest_of_not_bears (h a ha))

/-- Actions that do not bear on video concern no publication. -/
theorem elsewhere_of_not_bears {kind : VideoKind} {acts : List Action}
    (h : ∀ a ∈ acts, a.bearsOnVideo = false) : Elsewhere kind acts where
  requests := by simp [videoRequests_of_not_bears h]
  told := by
    intro told
    induction acts with
    | nil => rfl
    | cons a acts ih =>
      rw [List.foldl_cons, toldPaused_of_not_bears (h a (by simp))]
      exact ih (fun b hb => h b (by simp [hb]))

/-- The machine has the same publication of a kind, in the same room. -/
structure SameOwn (kind : VideoKind) (m m' : SessionMachine) : Prop where
  video : m'.localVideo kind = m.localVideo kind
  listed : m'.localListed kind = m.localListed kind
  startGen : m'.startGen kind = m.startGen kind
  pauseGen : m'.pauseGen kind = m.pauseGen kind
  active : m'.activeCid = m.activeCid

namespace SessionMachine

/-- The events that change a publication of a kind or its acknowledgement, short of those
that end the stay in the room. -/
def Touches (m : SessionMachine) (kind : VideoKind) : Event → Prop
  | .videoStartRequested k => k = kind ∧ m.inVoice = true ∧ m.localVideo kind = none
  | .videoStopRequested k => k = kind ∧ m.inVoice = true ∧ (m.localVideo kind).isSome = true
  | .videoPauseRequested k paused =>
    k = kind ∧ m.inVoice = true ∧ m.localVideo kind = some !paused
  | .videoStartFailed cid k gen _ => k = kind ∧ m.activeCid = some cid ∧
      gen = m.startGen kind ∧ (m.localVideo kind).isSome = true
  | .videoPauseFailed cid k gen _ => k = kind ∧ m.activeCid = some cid ∧
      gen = m.pauseGen kind ∧ (m.localVideo kind).isSome = true
  | .videoCaptureFailed k _ => k = kind ∧ (m.localVideo kind).isSome = true
  | .videoStatusReceived cid _ uid =>
    m.inRoom = true ∧ m.activeCid = some cid ∧ uid.isSome = true
  | _ => False

/-- What a step can do to this client's publication of a kind. -/
inductive OwnStep (kind : VideoKind) (m : SessionMachine) :
    Event → SessionMachine → List Action → Prop
  | kept {e : Event} {m' : SessionMachine} {acts : List Action} (hidle : ¬m.Touches kind e)
      (hsame : SameOwn kind m m') (helse : Elsewhere kind acts) : OwnStep kind m e m' acts
  | started {m' : SessionMachine} {acts : List Action} (cid : UInt32)
      (hcid : m.activeCid = some cid) (hnone : m.localVideo kind = none)
      (hvideo : m'.localVideo kind = some false) (hlisted : m'.localListed kind = false)
      (hstartGen : m'.startGen kind = m.startGen kind + 1)
      (hactive : m'.activeCid = m.activeCid)
      (hrequests : videoRequests acts = [.start cid kind (m.startGen kind + 1)]) :
      OwnStep kind m (.videoStartRequested kind) m' acts
  | stopped {e : Event} {m' : SessionMachine} {acts : List Action}
      (he : e = .videoStopRequested kind ∨ ∃ text, e = .videoCaptureFailed kind text)
      (hsome : (m.localVideo kind).isSome = true) (hvideo : m'.localVideo kind = none)
      (hactive : m'.activeCid = m.activeCid) (hrequests : videoRequests acts = [.stop kind]) :
      OwnStep kind m e m' acts
  | paused {m' : SessionMachine} {acts : List Action} (cid : UInt32) (paused : Bool)
      (hcid : m.activeCid = some cid) (hlocal : m.localVideo kind = some !paused)
      (hvideo : m'.localVideo kind = some paused)
      (hlisted : m'.localListed kind = m.localListed kind)
      (hstartGen : m'.startGen kind = m.startGen kind)
      (hpauseGen : m'.pauseGen kind = m.pauseGen kind + 1)
      (hactive : m'.activeCid = m.activeCid)
      (hrequests : videoRequests acts = [.pause cid kind paused (m.pauseGen kind + 1)])
      (htold : ∀ told, acts.foldl (toldPaused kind) told = paused) :
      OwnStep kind m (.videoPauseRequested kind paused) m' acts
  | startRefused {m' : SessionMachine} {acts : List Action} (cid : UInt32) (text : String)
      (hcid : m.activeCid = some cid) (hsome : (m.localVideo kind).isSome = true)
      (hvideo : m'.localVideo kind = none) (hactive : m'.activeCid = m.activeCid)
      (hrequests : videoRequests acts = []) :
      OwnStep kind m (.videoStartFailed cid kind (m.startGen kind) text) m' acts
  | pauseRefused {m' : SessionMachine} {acts : List Action} (cid : UInt32) (text : String)
      (paused : Bool) (hcid : m.activeCid = some cid) (hlocal : m.localVideo kind = some paused)
      (hvideo : m'.localVideo kind = some !paused)
      (hlisted : m'.localListed kind = m.localListed kind)
      (hstartGen : m'.startGen kind = m.startGen kind)
      (hpauseGen : m'.pauseGen kind = m.pauseGen kind)
      (hactive : m'.activeCid = m.activeCid) (hrequests : videoRequests acts = [])
      (htold : ∀ told, acts.foldl (toldPaused kind) told = !paused) :
      OwnStep kind m (.videoPauseFailed cid kind (m.pauseGen kind) text) m' acts
  | status {m' : SessionMachine} {acts : List Action} (cid : UInt32) (ps : List Publication)
      (uid : UInt16) (hcid : m.activeCid = some cid)
      (hvideo : m'.localVideo kind =
        if m.localListed kind && !listsOwn uid ps kind then none else m.localVideo kind)
      (hlisted : m'.localListed kind =
        if m.localVideo kind = none then m.localListed kind else listsOwn uid ps kind)
      (hstartGen : m'.startGen kind = m.startGen kind)
      (hpauseGen : m'.pauseGen kind = m.pauseGen kind)
      (hactive : m'.activeCid = m.activeCid) (helse : Elsewhere kind acts)
      (hrequests : videoRequests acts = []) :
      OwnStep kind m (.videoStatusReceived cid ps (some uid)) m' acts
  | entered {m' : SessionMachine} {acts : List Action} (cid : UInt32)
      (hvideo : m'.localVideo kind = none) (hlisted : m'.localListed kind = false)
      (hactive : m'.activeCid = some cid) (hrequests : videoRequests acts = [.enter cid]) :
      OwnStep kind m (.joinRequested cid) m' acts
  | left {e : Event} {m' : SessionMachine} {acts : List Action}
      (he : (∃ cid, e = .leaveRequested cid) ∨ ∃ text, m.failText e = some text)
      (hvideo : m'.localVideo kind = none) (hlisted : m'.localListed kind = false)
      (hactive : m'.activeCid = none) (hrequests : videoRequests acts = [.exit]) :
      OwnStep kind m e m' acts

private theorem applyOffer_not_bears (sdp : String) :
    ∀ a ∈ applyOffer sdp, a.bearsOnVideo = false := by
  intro a ha
  simp only [applyOffer, List.mem_append, List.mem_map, List.mem_cons, List.not_mem_nil,
    or_false] at ha
  rcases ha with ⟨mid, _, rfl⟩ | rfl | rfl <;> rfl

private theorem flush_not_bears (m : SessionMachine) :
    ∀ a ∈ m.flushSubscriptions.2, a.bearsOnVideo = false := by
  intro a ha
  obtain ⟨_, cid, _, rfl⟩ := mem_flushSubscriptions_snd ha
  rfl

private theorem videoStatus_not_bears (m : SessionMachine) (cid : UInt32)
    (ps : List Publication) (selfUid : Option UInt16) :
    ∀ a ∈ (m.videoStatusReceived cid ps selfUid).2, a.bearsOnVideo = false := by
  intro a ha
  rcases mem_videoStatusReceived_snd ha with ⟨k, rfl⟩ | ⟨k, payload, rfl⟩ <;> rfl

/-- A publication lives only where the server has the client in voice. -/
def VideoInVoice (m : SessionMachine) : Prop :=
  ∀ kind, (m.localVideo kind).isSome = true → m.inVoice = true

/-- Every step keeps publications to voice. -/
theorem VideoInVoice.step {m : SessionMachine} (hm : m.VideoInVoice) (e : Event) :
    (m.step e).1.VideoInVoice := by
  have ht := m.step_transition e
  generalize (m.step e).1 = m', (m.step e).2 = acts at ht
  intro kind hsome
  cases ht with
  | join | roomSwitch | leave | failed => simp [enterRoom, resetVideo, fail] at hsome
  | firstOffer cid sdp =>
    obtain ⟨subscribed, stale, hf⟩ := flushSubscriptions_fst
      { m with midToUser := offerMids sdp, state := .offerPending }
    rw [hf]
    rfl
  | renegotiate | answer | connect => rfl
  | subscriptions streams =>
    obtain ⟨subscribed, stale, hf⟩ := flushSubscriptions_fst
      { m with wanted := sortDedup streams }
    rw [hf] at hsome ⊢
    exact hm kind hsome
  | videoStatus cid ps selfUid =>
    obtain ⟨publications, video, listed, hv⟩ := m.videoStatusReceived_fst cid ps selfUid
    have hown : (m.localVideo kind).isSome = true := by
      rcases m.videoStatusReceived_localVideo cid ps selfUid kind with hnone | hsame
      · simp [hnone] at hsome
      · rwa [hsame] at hsome
    rw [hv]
    exact hm kind hown
  | videoStart k hvoice | videoStop k hvoice | videoPause k paused hvoice => exact hvoice
  | startRefused cid k text hcid hk => exact hm k hk
  | pauseRefused cid k text paused hcid hk => exact hm k (by simp [hk])
  | captureFailed k text hk => exact hm k hk
  | _ => exact hm kind hsome

/-- Publications are kept to voice in every run. -/
theorem videoInVoice_after (es : List Event) : (session.after es).VideoInVoice :=
  Reactive.Machine.invariant (M := session) (Q := VideoInVoice) (fun _ h => by simp [new] at h)
    (fun _ e hm => hm.step e) es

private theorem sameOwn_refl (kind : VideoKind) (m : SessionMachine) : SameOwn kind m m :=
  ⟨rfl, rfl, rfl, rfl, rfl⟩

private theorem not_touches_of_ignores {m : SessionMachine} {e : Event} (kind : VideoKind)
    (h : m.Ignores e) : ¬m.Touches kind e := by
  cases e with
  | videoStartRequested k | videoStopRequested k | videoPauseRequested k | videoCaptureFailed k =>
    rintro ⟨rfl, htouches⟩
    simp_all [Ignores]
  | videoStatusReceived =>
    rintro ⟨hroom, hcid, -⟩
    simp_all [Ignores]
  | videoStartFailed | videoPauseFailed => exact h.elim
  | _ => exact id

private theorem not_touches_of_notices {m : SessionMachine} {e : Event} (kind : VideoKind)
    (h : m.Notices e) : ¬m.Touches kind e := by
  cases e with
  | videoStartFailed | videoPauseFailed =>
    rintro ⟨rfl, htouches⟩
    exact h htouches
  | serverTaskError | timeout => exact id
  | _ => exact h.elim

private theorem not_touches_of_failText {m : SessionMachine} {e : Event} {text : String}
    (kind : VideoKind) (h : m.failText e = some text) : ¬m.Touches kind e := by
  cases e with
  | serverTaskError | timeout | webrtcConnectionStateChanged => exact id
  | _ => cases h

/-- A step that leaves the fields of all publications alone. -/
private theorem OwnStep.untouched {kind : VideoKind} {m m' : SessionMachine} {e : Event}
    {acts : List Action} (hidle : ¬m.Touches kind e) (hvideo : m'.localVideo = m.localVideo)
    (hlisted : m'.localListed = m.localListed) (hstartGen : m'.startGen = m.startGen)
    (hpauseGen : m'.pauseGen = m.pauseGen) (hactive : m'.activeCid = m.activeCid)
    (h : ∀ a ∈ acts, a.bearsOnVideo = false) : OwnStep kind m e m' acts :=
  .kept hidle ⟨congrFun hvideo kind, congrFun hlisted kind, congrFun hstartGen kind,
    congrFun hpauseGen kind, hactive⟩ (elsewhere_of_not_bears h)

/-- A step that sends one request about another kind and tells its capture at most. -/
private theorem elsewhere_of_request {kind : VideoKind} {acts : List Action} {r : VideoRequest}
    (hrequests : videoRequests acts = [r]) (hr : r.Foreign kind)
    (htold : ∀ told, acts.foldl (toldPaused kind) told = told) : Elsewhere kind acts :=
  ⟨by simp [hrequests, hr], htold⟩

private theorem videoRequests_one {a b : Action} {r : VideoRequest} {rest : List Action}
    (ha : videoRequest a = none) (hb : videoRequest b = some r)
    (hrest : videoRequests rest = []) : videoRequests (a :: b :: rest) = [r] := by
  rw [videoRequests, List.filterMap_cons_none ha, List.filterMap_cons_some hb]
  exact congrArg _ hrest

/-- Every step does one of the listed things to a publication. -/
theorem step_own {m : SessionMachine} (hbound : m.RoomBound) (hvideo : m.VideoInVoice)
    (kind : VideoKind) (e : Event) : OwnStep kind m e (m.step e).1 (m.step e).2 := by
  have ht := m.step_transition e
  generalize (m.step e).1 = m', (m.step e).2 = acts at ht
  cases ht with
  | ignored hign =>
    exact .untouched (not_touches_of_ignores kind hign) rfl rfl rfl rfl rfl (by simp)
  | notice text hnot =>
    exact .untouched (not_touches_of_notices kind hnot) rfl rfl rfl rfl rfl
      (by simp [errorSignal, Action.bearsOnVideo])
  | join cid =>
    refine .entered cid rfl rfl rfl ?_
    change (videoRequest (.sendWireFrame htlcHdrVoiceJoin (encodeCidOnly cid))).toList = _
    rw [videoRequest_join]
    rfl
  | roomSwitch cid =>
    refine .entered cid rfl rfl rfl ?_
    change (videoRequest (.sendWireFrame htlcHdrVoiceJoin (encodeCidOnly cid))).toList = _
    rw [videoRequest_join]
    rfl
  | leave cid =>
    refine .left (Or.inl ⟨cid, rfl⟩) rfl rfl rfl ?_
    change (videoRequest (.sendWireFrame htlcHdrVoiceLeave (encodeCidOnly cid))).toList = _
    rw [videoRequest_leave]
    rfl
  | firstOffer cid sdp =>
    obtain ⟨subscribed, stale, hf⟩ := flushSubscriptions_fst
      { m with midToUser := offerMids sdp, state := .offerPending }
    rw [hf]
    refine .untouched id rfl rfl rfl rfl rfl (fun a ha => ?_)
    simp only [List.cons_append, List.mem_cons, List.mem_append, List.not_mem_nil, or_false] at ha
    rcases ha with rfl | (ha | rfl) | ha
    · rfl
    · exact applyOffer_not_bears sdp a ha
    · rfl
    · exact flush_not_bears _ a ha
  | renegotiate cid sdp =>
    refine .untouched id rfl rfl rfl rfl rfl (fun a ha => ?_)
    simp only [List.mem_append, List.mem_singleton] at ha
    rcases ha with ha | rfl
    · exact applyOffer_not_bears sdp a ha
    · rfl
  | drain sdp cid queuedSdp =>
    refine .untouched id rfl rfl rfl rfl rfl (fun a ha => ?_)
    simp only [answerActions, List.mem_append, List.mem_cons, List.not_mem_nil, or_false] at ha
    rcases ha with (rfl | rfl) | ha
    · rfl
    · rfl
    · exact applyOffer_not_bears queuedSdp a ha
  | queueOffer | remoteIce | padAdded | padRemoved | roomStatus | connect | subscribeRefused =>
    refine .untouched id rfl rfl rfl rfl rfl ?_
    simp [errorSignal, stateChangedSignal, Action.bearsOnVideo]
  | answer | localIce | mute =>
    refine .untouched id rfl rfl rfl rfl rfl ?_
    simp only [answerActions, stateChangedSignal, Action.bearsOnVideo, List.cons_append,
      List.nil_append, List.forall_mem_cons, List.not_mem_nil, false_implies, implies_true,
      and_true, true_and]
    decide
  | videoStatus cid ps selfUid hroom hcid =>
    obtain ⟨publications, video, listed, hv⟩ := m.videoStatusReceived_fst cid ps selfUid
    have hbears := m.videoStatus_not_bears cid ps selfUid
    cases selfUid with
    | none =>
      have hguard : ¬(¬m.inRoom = true ∨ m.activeCid ≠ some cid) := by simp [hroom, hcid]
      have hstep : (m.videoStatusReceived cid ps none).1 = { m with publications := ps } := by
        rw [videoStatusReceived, if_neg hguard]
      rw [hstep]
      exact .untouched (by simp [Touches]) rfl rfl rfl rfl rfl hbears
    | some uid =>
      obtain ⟨hown, hack⟩ := videoStatusReceived_own hroom hcid ps uid kind
      exact .status cid ps uid hcid hown hack (by rw [hv]) (by rw [hv]) (by rw [hv])
        (elsewhere_of_not_bears hbears) (videoRequests_of_not_bears hbears)
  | subscriptions streams =>
    obtain ⟨subscribed, stale, hf⟩ := flushSubscriptions_fst
      { m with wanted := sortDedup streams }
    rw [hf]
    exact .untouched id rfl rfl rfl rfl rfl (flush_not_bears _)
  | videoStart k hvoice hnone =>
    have hcid := hbound.activeCid_getD (inRoom_of_inVoice hvoice)
    have hrequests : videoRequests [.setVideoPublishing k true,
        .sendWireFrame htlcHdrVideoStart
          (encodeCidKindGen (m.activeCid.getD 0) k (m.startGen k + 1)),
        localChanged k (some false)] =
        [.start (m.activeCid.getD 0) k (m.startGen k + 1)] :=
      videoRequests_one rfl (videoRequest_start _ _ _) rfl
    by_cases hk : k = kind
    · subst hk
      exact .started _ hcid hnone (by simp) (by simp) (by simp) rfl hrequests
    · exact .kept (fun h => hk h.1)
        ⟨Function.update_of_ne (Ne.symm hk) _ _, Function.update_of_ne (Ne.symm hk) _ _,
          Function.update_of_ne (Ne.symm hk) _ _, Function.update_of_ne (Ne.symm hk) _ _, rfl⟩
        (elsewhere_of_request hrequests hk (fun _ => rfl))
  | videoStop k hvoice hsome =>
    have hrequests : videoRequests [.setVideoPublishing k false,
        .sendWireFrame htlcHdrVideoStop (encodeCidPlusKind (m.activeCid.getD 0) k),
        localChanged k none] = [.stop k] :=
      videoRequests_one rfl (videoRequest_stop _ _) rfl
    by_cases hk : k = kind
    · subst hk
      exact .stopped (Or.inl rfl) hsome (by simp) rfl hrequests
    · exact .kept (fun h => hk h.1) ⟨Function.update_of_ne (Ne.symm hk) _ _, rfl, rfl, rfl, rfl⟩
        (elsewhere_of_request hrequests hk (fun _ => rfl))
  | videoPause k paused hvoice hlocal =>
    have hcid := hbound.activeCid_getD (inRoom_of_inVoice hvoice)
    have hrequests : videoRequests [.setVideoPaused k paused,
        .sendWireFrame htlcHdrVideoState
          (encodeCidKindPausedGen (m.activeCid.getD 0) k paused (m.pauseGen k + 1)),
        localChanged k (some paused)] =
        [.pause (m.activeCid.getD 0) k paused (m.pauseGen k + 1)] :=
      videoRequests_one rfl (videoRequest_pause _ _ _ _) rfl
    by_cases hk : k = kind
    · subst hk
      exact .paused _ paused hcid hlocal (by simp) rfl rfl (by simp) rfl hrequests
        (fun told => if_pos rfl)
    · exact .kept (fun h => hk h.1) ⟨Function.update_of_ne (Ne.symm hk) _ _, rfl, rfl,
        Function.update_of_ne (Ne.symm hk) _ _, rfl⟩
        (elsewhere_of_request hrequests hk (fun told => if_neg hk))
  | startRefused cid k text hcid hsome =>
    have hrequests : videoRequests [.setVideoPublishing k false, localChanged k none,
        errorSignal text] = [] := rfl
    by_cases hk : k = kind
    · subst hk
      exact .startRefused cid text hcid hsome (by simp) rfl rfl
    · exact .kept (fun h => hk h.1) ⟨Function.update_of_ne (Ne.symm hk) _ _, rfl, rfl, rfl, rfl⟩
        ⟨by simp [hrequests], fun _ => rfl⟩
  | pauseRefused cid k text paused hcid hlocal =>
    have hrequests : videoRequests [.setVideoPaused k !paused, localChanged k (some !paused),
        errorSignal text] = [] := rfl
    by_cases hk : k = kind
    · subst hk
      exact .pauseRefused cid text paused hcid hlocal (by simp) rfl rfl rfl rfl rfl
        (fun told => if_pos rfl)
    · exact .kept (fun h => hk h.1) ⟨Function.update_of_ne (Ne.symm hk) _ _, rfl, rfl, rfl, rfl⟩
        ⟨by simp [hrequests], fun told => if_neg hk⟩
  | captureFailed k text hsome =>
    have hvoice := hvideo k hsome
    have hcid := hbound.activeCid_getD (inRoom_of_inVoice hvoice)
    generalize m.activeCid.getD 0 = cid at hcid
    simp only [hvoice, hcid]
    have hrequests : videoRequests [.setVideoPublishing k false,
        .sendWireFrame htlcHdrVideoStop (encodeCidPlusKind cid k),
        localChanged k none, errorSignal text] = [.stop k] :=
      videoRequests_one rfl (videoRequest_stop _ _) rfl
    by_cases hk : k = kind
    · subst hk
      exact .stopped (Or.inr ⟨text, rfl⟩) hsome (by simp) hcid.symm hrequests
    · exact .kept (fun h => hk h.1)
        ⟨Function.update_of_ne (Ne.symm hk) _ _, rfl, rfl, rfl, hcid.symm⟩
        (elsewhere_of_request hrequests hk (fun _ => rfl))
  | failed text hfail =>
    cases hcid : m.activeCid with
    | none =>
      have hout : m.inRoom = false := by
        have hactive := hbound.active_iff
        simpa [hcid] using hactive
      obtain ⟨_, _, hnone, hunlisted⟩ := hbound.outside hout
      refine .kept (not_touches_of_failText kind hfail)
        ⟨(hnone kind).symm, (hunlisted kind).symm, rfl, rfl, hcid.symm⟩
        (elsewhere_of_not_bears ?_)
      simp only [fail, hcid]
      split_ifs <;> simp [errorSignal, stateChangedSignal, Action.bearsOnVideo]
    | some cid =>
      have hone : (videoRequest (.sendWireFrame htlcHdrVoiceLeave (encodeCidOnly cid))).toList =
          [.exit] := by
        rw [videoRequest_leave]
        rfl
      refine .left (Or.inr ⟨text, hfail⟩) rfl rfl rfl ?_
      simp only [fail, hcid]
      split_ifs <;> exact hone

end SessionMachine

end Gtkhx.Voice
