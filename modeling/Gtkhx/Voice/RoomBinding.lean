import Gtkhx.Voice.Transitions

/-!
# The room a session is bound to

The fields of the machine that belong to a room are set exactly while the machine is in
one, and every frame it sends names that room. Zero is the id of public chat, so the
fallback of `active_cid.unwrap_or(0)` would address a real room; the invariant shows
that it is never used.
-/

namespace Gtkhx.Voice

namespace SessionMachine

/-- What a flush can change: the record of what the server was told. -/
theorem flushSubscriptions_fst (m : SessionMachine) :
    ∃ subscribed stale, m.flushSubscriptions.1 =
      { m with subscribed := subscribed, subscribedStale := stale } := by
  unfold flushSubscriptions
  split_ifs
  · exact ⟨m.subscribed, m.subscribedStale, rfl⟩
  · split
    · exact ⟨m.subscribed, m.subscribedStale, rfl⟩
    · exact ⟨m.wanted, false, rfl⟩

/-- A flush sends at most one frame: the wanted set, to the active room, in voice. -/
theorem mem_flushSubscriptions_snd {m : SessionMachine} {a : Action}
    (ha : a ∈ m.flushSubscriptions.2) :
    m.inVoice = true ∧ ∃ cid, m.activeCid = some cid ∧
      a = .sendWireFrame htlcHdrVideoSubscribe (encodeCidPlusStreams cid m.wanted) := by
  unfold flushSubscriptions at ha
  split_ifs at ha with hquiet
  · simp at ha
  · push Not at hquiet
    split at ha
    · simp at ha
    · rename_i cid hcid
      exact ⟨hquiet.1, cid, hcid, by simpa using ha⟩

/-- The checks a 611 makes on the client's own publications change only those. -/
private theorem checkOwnPublication_fst (uid : UInt16) (r : SessionMachine × List Action)
    (kind : VideoKind) : ∃ video listed, (checkOwnPublication uid r kind).1 =
      { r.1 with localVideo := video, localListed := listed } := by
  unfold checkOwnPublication
  dsimp only
  split_ifs
  all_goals exact ⟨_, _, rfl⟩

private theorem checkOwnPublication_snd {uid : UInt16} {r : SessionMachine × List Action}
    {kind : VideoKind} {a : Action} (ha : a ∈ (checkOwnPublication uid r kind).2) :
    a ∈ r.2 ∨ a = .setVideoPublishing kind false ∨ a = localChanged kind none := by
  unfold checkOwnPublication at ha
  dsimp only at ha
  split_ifs at ha
  · exact Or.inl ha
  · exact Or.inl ha
  · simpa using ha
  · exact Or.inl ha

/-- A 611 changes the publication list and this client's own publications, and nothing
else of the machine. -/
theorem videoStatusReceived_fst (m : SessionMachine) (cid : UInt32) (ps : List Publication)
    (selfUid : Option UInt16) : ∃ publications video listed,
      (m.videoStatusReceived cid ps selfUid).1 =
        { m with publications := publications, localVideo := video, localListed := listed } := by
  unfold videoStatusReceived
  split_ifs
  · exact ⟨_, _, _, rfl⟩
  · cases selfUid with
    | none => exact ⟨ps, _, _, rfl⟩
    | some uid =>
      simp only [VideoKind.all, List.foldl_cons, List.foldl_nil]
      obtain ⟨v₁, l₁, h₁⟩ := checkOwnPublication_fst uid ({ m with publications := ps }, [])
        .camera
      obtain ⟨v₂, l₂, h₂⟩ := checkOwnPublication_fst uid
        (checkOwnPublication uid ({ m with publications := ps }, []) .camera) .screen
      exact ⟨ps, v₂, l₂, by rw [h₂, h₁]⟩

/-- Whether a listing has this client's publication of a kind. -/
def listsOwn (uid : UInt16) (ps : List Publication) (kind : VideoKind) : Bool :=
  ps.any (fun p => p.userId = uid && p.kind = kind)

/-- The check of a kind, on that kind's own fields. -/
private theorem checkOwnPublication_same (uid : UInt16) (r : SessionMachine × List Action)
    (kind : VideoKind) :
    (checkOwnPublication uid r kind).1.localVideo kind =
        (if r.1.localListed kind && !listsOwn uid r.1.publications kind then none
          else r.1.localVideo kind) ∧
      (checkOwnPublication uid r kind).1.localListed kind =
        (if r.1.localVideo kind = none then r.1.localListed kind
          else listsOwn uid r.1.publications kind) := by
  unfold checkOwnPublication listsOwn
  dsimp only
  generalize r.1.publications.any (fun p => p.userId = uid && p.kind = kind) = own
  split_ifs <;> simp_all

/-- The check of a kind leaves the other kind's fields alone. -/
private theorem checkOwnPublication_other (uid : UInt16) (r : SessionMachine × List Action)
    {kind k : VideoKind} (hk : k ≠ kind) :
    (checkOwnPublication uid r k).1.localVideo kind = r.1.localVideo kind ∧
      (checkOwnPublication uid r k).1.localListed kind = r.1.localListed kind := by
  unfold checkOwnPublication
  dsimp only
  split_ifs <;> simp [Function.update_of_ne hk.symm]

/-- What a 611 for the active room does to one kind of this client's publications: an
acknowledged one that it leaves out ends, and any other is acknowledged if it is listed. -/
theorem videoStatusReceived_own {m : SessionMachine} {cid : UInt32} (hroom : m.inRoom = true)
    (hcid : m.activeCid = some cid) (ps : List Publication) (uid : UInt16) (kind : VideoKind) :
    (m.videoStatusReceived cid ps (some uid)).1.localVideo kind =
        (if m.localListed kind && !listsOwn uid ps kind then none else m.localVideo kind) ∧
      (m.videoStatusReceived cid ps (some uid)).1.localListed kind =
        (if m.localVideo kind = none then m.localListed kind else listsOwn uid ps kind) := by
  have hguard : ¬(¬m.inRoom = true ∨ m.activeCid ≠ some cid) := by simp [hroom, hcid]
  rw [videoStatusReceived, if_neg hguard]
  simp only [VideoKind.all, List.foldl_cons, List.foldl_nil]
  generalize hr : (({ m with publications := ps } : SessionMachine), ([] : List Action)) = r
  cases kind with
  | camera =>
    obtain ⟨hvideo, hlisted⟩ := checkOwnPublication_other uid (checkOwnPublication uid r .camera)
      (show VideoKind.screen ≠ .camera by decide)
    rw [hvideo, hlisted]
    simpa [← hr] using checkOwnPublication_same uid r .camera
  | screen =>
    obtain ⟨hvideo, hlisted⟩ := checkOwnPublication_other uid r
      (show VideoKind.camera ≠ .screen by decide)
    obtain ⟨video, listed, hfst⟩ := checkOwnPublication_fst uid r .camera
    have hsame := checkOwnPublication_same uid (checkOwnPublication uid r .camera) .screen
    have hps : (checkOwnPublication uid r .camera).1.publications = ps := by
      rw [hfst, ← hr]
    rw [hvideo, hlisted, hps] at hsame
    simpa [← hr] using hsame

/-- A 611 ends this client's publication of a kind or leaves it as it is. -/
theorem videoStatusReceived_localVideo (m : SessionMachine) (cid : UInt32)
    (ps : List Publication) (selfUid : Option UInt16) (kind : VideoKind) :
    (m.videoStatusReceived cid ps selfUid).1.localVideo kind = none ∨
      (m.videoStatusReceived cid ps selfUid).1.localVideo kind = m.localVideo kind := by
  by_cases hguard : ¬m.inRoom = true ∨ m.activeCid ≠ some cid
  · exact Or.inr (by rw [videoStatusReceived, if_pos hguard])
  · cases selfUid with
    | none => exact Or.inr (by rw [videoStatusReceived, if_neg hguard])
    | some uid =>
      push Not at hguard
      rw [(videoStatusReceived_own hguard.1 hguard.2 ps uid kind).1]
      split_ifs
      · exact Or.inl rfl
      · exact Or.inr rfl

/-- A 611 stops captures, shows that, and tells the UI of the new list. -/
theorem mem_videoStatusReceived {m : SessionMachine} {cid : UInt32} {ps : List Publication}
    {selfUid : Option UInt16} {a : Action} (ha : a ∈ (m.videoStatusReceived cid ps selfUid).2) :
    (∃ kind, a = .setVideoPublishing kind false) ∨ (∃ kind, a = localChanged kind none) ∨
      a = .emitSignal .videoStatus (.videoStatus cid) := by
  unfold videoStatusReceived at ha
  split_ifs at ha
  · simp at ha
  · cases selfUid with
    | none => exact .inr (.inr (by simpa using ha))
    | some uid =>
      simp only [VideoKind.all, List.foldl_cons, List.foldl_nil, List.mem_append,
        List.mem_singleton] at ha
      rcases ha with ha | ha
      · rcases checkOwnPublication_snd ha with ha | ha | ha
        · rcases checkOwnPublication_snd ha with ha | ha | ha
          · simp at ha
          · exact .inl ⟨_, ha⟩
          · exact .inr (.inl ⟨_, ha⟩)
        · exact .inl ⟨_, ha⟩
        · exact .inr (.inl ⟨_, ha⟩)
      · exact .inr (.inr ha)

/-- A 611 stops captures and signals the UI; it sends nothing and touches no timer. -/
theorem mem_videoStatusReceived_snd {m : SessionMachine} {cid : UInt32} {ps : List Publication}
    {selfUid : Option UInt16} {a : Action} (ha : a ∈ (m.videoStatusReceived cid ps selfUid).2) :
    (∃ kind, a = .setVideoPublishing kind false) ∨
      ∃ kind payload, a = .emitSignal kind payload := by
  rcases mem_videoStatusReceived ha with hstop | ⟨kind, hshow⟩ | htell
  · exact .inl hstop
  · exact .inr ⟨_, _, hshow⟩
  · exact .inr ⟨_, _, htell⟩

/-- The room-binding invariant. -/
structure RoomBound (m : SessionMachine) : Prop where
  /-- A room is bound exactly in the states of a session. -/
  active_iff : m.activeCid.isSome = true ↔ m.inRoom = true
  /-- An offer waits only behind an answer, and only for the bound room. -/
  queued : ∀ cid sdp, m.queuedOffer = some (cid, sdp) →
    m.state = .offerPending ∧ m.activeCid = some cid
  /-- Outside a room no video state is left. -/
  outside : m.inRoom = false → m.publications = [] ∧ m.subscribed = [] ∧
    (∀ kind, m.localVideo kind = none) ∧ ∀ kind, m.localListed kind = false
  /-- After leaving, nothing of the last room is left at all. -/
  idle : m.state = .idle → m.muted = false ∧ m.participants = ∅ ∧ m.midToUser = ∅

/-- The machine in voice is in a room. -/
theorem inRoom_of_inVoice {m : SessionMachine} (h : m.inVoice = true) : m.inRoom = true := by
  cases hs : m.state <;> simp_all [inVoice, inRoom]

/-- In a room, the bound id exists, so `unwrap_or(0)` returns it. -/
theorem RoomBound.activeCid_getD {m : SessionMachine} (hm : m.RoomBound)
    (h : m.inRoom = true) : m.activeCid = some (m.activeCid.getD 0) := by
  obtain ⟨cid, hcid⟩ := Option.isSome_iff_exists.mp (hm.active_iff.mpr h)
  simp [hcid]

/-- No offer waits outside the answer of an earlier one. -/
theorem RoomBound.queuedOffer_eq_none {m : SessionMachine} (hm : m.RoomBound)
    (h : m.state ≠ .offerPending) : m.queuedOffer = none := by
  cases hq : m.queuedOffer with
  | none => rfl
  | some q => exact absurd (hm.queued q.1 q.2 hq).1 h

/-- The invariant depends on the room fields only. -/
private theorem RoomBound.congr {m m' : SessionMachine} (hm : m.RoomBound)
    (hstate : m'.state = m.state) (hactive : m'.activeCid = m.activeCid)
    (hqueued : m'.queuedOffer = m.queuedOffer)
    (houtside : m.inRoom = false → m'.publications = m.publications ∧
      m'.subscribed = m.subscribed ∧ m'.localVideo = m.localVideo ∧
      m'.localListed = m.localListed)
    (hidle : m.state = .idle → m'.muted = m.muted ∧ m'.participants = m.participants ∧
      m'.midToUser = m.midToUser) : m'.RoomBound where
  active_iff := by
    have h : m'.inRoom = m.inRoom := by simp [inRoom, hstate]
    rw [hactive, h]
    exact hm.active_iff
  queued := by
    rw [hqueued, hstate, hactive]
    exact hm.queued
  outside := by
    intro hout
    have h : m.inRoom = false := by simpa [inRoom, hstate] using hout
    obtain ⟨hp, hs, hv, hl⟩ := houtside h
    rw [hp, hs, hv, hl]
    exact hm.outside h
  idle := by
    intro h
    rw [hstate] at h
    obtain ⟨h₁, h₂, h₃⟩ := hidle h
    rw [h₁, h₂, h₃]
    exact hm.idle h

theorem roomBound_new : RoomBound new where
  active_iff := by decide
  queued := by intro cid sdp h; cases h
  outside := fun _ => ⟨rfl, rfl, fun _ => rfl, fun _ => rfl⟩
  idle := fun _ => ⟨rfl, rfl, rfl⟩

private theorem not_outside {m : SessionMachine} {P : Prop} (h : m.inRoom = true) :
    m.inRoom = false → P := by
  intro hout
  rw [h] at hout
  cases hout

private theorem not_idle {m : SessionMachine} {P : Prop} (h : m.inRoom = true) :
    m.state = .idle → P := by
  intro hidle
  simp [inRoom, hidle] at h

/-- One step keeps the invariant. -/
theorem RoomBound.step {m : SessionMachine} (hm : m.RoomBound) (e : Event) :
    (m.step e).1.RoomBound := by
  have ht := m.step_transition e
  generalize (m.step e).1 = m', (m.step e).2 = acts at ht
  cases ht with
  | ignored | notice | remoteIce | localIce | padAdded | padRemoved => exact hm
  | join cid hstate =>
    exact ⟨by simp [enterRoom, resetVideo, inRoom], by simp [enterRoom],
      by simp [inRoom], by simp⟩
  | roomSwitch cid hstate hother =>
    exact ⟨by simp [enterRoom, resetVideo, inRoom], by simp [enterRoom],
      by simp [inRoom], by simp⟩
  | leave cid hroom hcid =>
    exact ⟨by simp [resetVideo, inRoom], by simp [resetVideo], by simp [resetVideo],
      by simp [resetVideo]⟩
  | firstOffer cid sdp hstate hcid =>
    obtain ⟨subscribed, stale, hf⟩ := flushSubscriptions_fst
      { m with midToUser := offerMids sdp, state := .offerPending }
    rw [hf]
    have hnone := hm.queuedOffer_eq_none (by simp [hstate])
    exact ⟨by simp [hcid, inRoom], by simp [hnone], by simp [inRoom], by simp⟩
  | renegotiate cid sdp hstate hcid =>
    have hnone := hm.queuedOffer_eq_none (by rcases hstate with h | h <;> simp [h])
    exact ⟨by simp [hcid, inRoom], by simp [hnone], by simp [inRoom], by simp⟩
  | queueOffer cid sdp hstate hcid =>
    exact ⟨by simp [hcid, inRoom, hstate], by simp_all, by simp [inRoom, hstate],
      by simp [hstate]⟩
  | drain sdp cid queuedSdp hstate hqueued hcid =>
    exact ⟨by simp [hcid, inRoom, hstate], by simp, by simp [inRoom, hstate],
      by simp [hstate]⟩
  | answer sdp hstate hqueued =>
    have hactive := hm.active_iff.mpr (by simp [inRoom, hstate])
    exact ⟨by simp [hactive, inRoom], by simp, by simp [inRoom], by simp⟩
  | roomStatus cid entries hroom hcid =>
    exact hm.congr rfl rfl rfl (not_outside hroom) (not_idle hroom)
  | videoStatus cid publications selfUid hroom hcid =>
    obtain ⟨ps, video, listed, hv⟩ := m.videoStatusReceived_fst cid publications selfUid
    rw [hv]
    exact hm.congr rfl rfl rfl (not_outside hroom) (not_idle hroom)
  | subscriptions streams =>
    by_cases hroom : m.inRoom = true
    · obtain ⟨subscribed, stale, hf⟩ := flushSubscriptions_fst
        { m with wanted := sortDedup streams }
      rw [hf]
      exact hm.congr rfl rfl rfl (not_outside hroom) (not_idle hroom)
    · have hquiet : m.inVoice = false := by
        by_contra hvoice
        exact hroom (inRoom_of_inVoice (by simpa using hvoice))
      have hf : { m with wanted := sortDedup streams }.flushSubscriptions.1 =
          { m with wanted := sortDedup streams } := by
        have hvoice : { m with wanted := sortDedup streams }.inVoice = false := hquiet
        simp [flushSubscriptions, hvoice]
      rw [hf]
      exact hm.congr rfl rfl rfl (fun _ => ⟨rfl, rfl, rfl, rfl⟩) (fun _ => ⟨rfl, rfl, rfl⟩)
  | videoStart kind hvoice hnone =>
    have hroom := inRoom_of_inVoice hvoice
    exact hm.congr rfl rfl rfl (not_outside hroom) (not_idle hroom)
  | videoStop kind hvoice hsome =>
    have hroom := inRoom_of_inVoice hvoice
    exact hm.congr rfl rfl rfl (not_outside hroom) (not_idle hroom)
  | videoPause kind paused hvoice hlocal =>
    have hroom := inRoom_of_inVoice hvoice
    exact hm.congr rfl rfl rfl (not_outside hroom) (not_idle hroom)
  | startRefused cid kind text hcid hsome =>
    have hroom := hm.active_iff.mp (by simp [hcid])
    exact hm.congr rfl rfl rfl (not_outside hroom) (not_idle hroom)
  | pauseRefused cid kind text paused hcid hlocal =>
    have hroom := hm.active_iff.mp (by simp [hcid])
    exact hm.congr rfl rfl rfl (not_outside hroom) (not_idle hroom)
  | captureFailed kind text hsome =>
    have hroom : m.inRoom = true := by
      by_contra hout
      have hnone := (hm.outside (by simpa using hout)).2.2.1 kind
      simp [hnone] at hsome
    exact hm.congr rfl rfl rfl (not_outside hroom) (not_idle hroom)
  | mute muted hroom hne =>
    exact hm.congr rfl rfl rfl (not_outside hroom) (not_idle hroom)
  | connect hstate =>
    have hactive := hm.active_iff.mpr (by simp [inRoom, hstate])
    have hnone := hm.queuedOffer_eq_none (by simp [hstate])
    exact ⟨by simp [hactive, inRoom], by simp [hnone], by simp [inRoom], by simp⟩
  | subscribeRefused err hop =>
    exact hm.congr rfl rfl rfl (fun _ => ⟨rfl, rfl, rfl, rfl⟩) (fun _ => ⟨rfl, rfl, rfl⟩)
  | failed text hfail =>
    exact ⟨by simp [fail, resetVideo, inRoom], by simp [fail, resetVideo],
      by simp [fail, resetVideo], by simp [fail]⟩

/-- The room a frame is addressed to: the id its body starts with. A 600 goes to the room
being joined, any other frame to the room the machine was bound to before the step. -/
def FrameAddressed (m : SessionMachine) (e : Event) (opcode : UInt32) (body : List UInt8) :
    Prop :=
  ∃ cid rest, body = BigEndian.ofU32 cid ++ rest ∧
    if opcode = htlcHdrVoiceJoin then e = .joinRequested cid else m.activeCid = some cid

private theorem FrameAddressed.of_active {m : SessionMachine} {e : Event} {opcode cid : UInt32}
    {body : List UInt8} (rest : List UInt8) (hcid : m.activeCid = some cid)
    (hbody : body = BigEndian.ofU32 cid ++ rest) (hop : opcode ≠ htlcHdrVoiceJoin) :
    m.FrameAddressed e opcode body :=
  ⟨cid, rest, hbody, by rw [if_neg hop]; exact hcid⟩

/-- Every frame a step sends from a bound state is addressed to the right room. -/
theorem RoomBound.frameAddressed {m : SessionMachine} (hm : m.RoomBound) {e : Event}
    {opcode : UInt32} {body : List UInt8}
    (hsent : .sendWireFrame opcode body ∈ (m.step e).2) : m.FrameAddressed e opcode body := by
  have ht := m.step_transition e
  generalize (m.step e).1 = m', (m.step e).2 = acts at ht hsent
  cases ht with
  | ignored | notice | queueOffer | remoteIce | padAdded | padRemoved | roomStatus
  | startRefused | pauseRefused | connect | subscribeRefused =>
    simp [errorSignal, localChanged, stateChangedSignal] at hsent
  | renegotiate => simp [applyOffer, stateChangedSignal] at hsent
  | join cid | roomSwitch cid =>
    obtain ⟨rfl, rfl⟩ : opcode = htlcHdrVoiceJoin ∧ body = encodeCidOnly cid := by
      simpa [cancelAllTimers, stateChangedSignal] using hsent
    exact ⟨cid, [], by simp [encodeCidOnly], by simp⟩
  | leave cid hroom hcid =>
    obtain ⟨rfl, rfl⟩ : opcode = htlcHdrVoiceLeave ∧ body = encodeCidOnly cid := by
      simpa [cancelAllTimers, stateChangedSignal] using hsent
    exact .of_active [] hcid (List.append_nil _).symm (by decide)
  | firstOffer cid sdp hstate hcid =>
    have hflush : .sendWireFrame opcode body ∈
        { m with midToUser := offerMids sdp, state := .offerPending }.flushSubscriptions.2 := by
      simpa [applyOffer, stateChangedSignal] using hsent
    obtain ⟨_, cid', hcid', heq⟩ := mem_flushSubscriptions_snd hflush
    injection heq with hop hbody
    exact .of_active _ hcid' hbody (by rw [hop]; decide)
  | drain sdp cid queuedSdp hstate hqueued hcid =>
    obtain ⟨rfl, rfl⟩ : opcode = htlcHdrVoiceSdpAnswer ∧ body = encodeCidPlusSdp cid sdp := by
      simpa [answerActions, applyOffer] using hsent
    exact .of_active _ hcid rfl (by decide)
  | answer sdp hstate hqueued =>
    obtain ⟨rfl, rfl⟩ : opcode = htlcHdrVoiceSdpAnswer ∧
        body = encodeCidPlusSdp (m.activeCid.getD 0) sdp := by
      simpa [answerActions, stateChangedSignal] using hsent
    exact .of_active _ (hm.activeCid_getD (by simp [inRoom, hstate])) rfl (by decide)
  | localIce candidateJson hvoice =>
    obtain ⟨rfl, rfl⟩ : opcode = htlcHdrVoiceIce ∧
        body = encodeCidPlusIce (m.activeCid.getD 0) candidateJson := by simpa using hsent
    exact .of_active _ (hm.activeCid_getD (inRoom_of_inVoice hvoice)) rfl (by decide)
  | videoStatus cid publications selfUid hroom hcid =>
    rcases mem_videoStatusReceived_snd hsent with ⟨kind, h⟩ | ⟨kind, payload, h⟩ <;> cases h
  | subscriptions streams =>
    obtain ⟨_, cid', hcid', heq⟩ := mem_flushSubscriptions_snd hsent
    injection heq with hop hbody
    exact .of_active _ hcid' hbody (by rw [hop]; decide)
  | videoStart kind hvoice hnone =>
    obtain ⟨rfl, rfl⟩ : opcode = htlcHdrVideoStart ∧
        body = encodeCidKindGen (m.activeCid.getD 0) kind (m.startGen kind + 1) := by
      simpa [localChanged] using hsent
    exact .of_active (BigEndian.ofU16 kind.wire ++ BigEndian.ofU32 (m.startGen kind + 1))
      (hm.activeCid_getD (inRoom_of_inVoice hvoice))
      (by simp [encodeCidKindGen, encodeCidPlusKind]) (by decide)
  | videoStop kind hvoice hsome =>
    obtain ⟨rfl, rfl⟩ : opcode = htlcHdrVideoStop ∧
        body = encodeCidPlusKind (m.activeCid.getD 0) kind := by
      simpa [localChanged] using hsent
    exact .of_active _ (hm.activeCid_getD (inRoom_of_inVoice hvoice)) rfl (by decide)
  | videoPause kind paused hvoice hlocal =>
    obtain ⟨rfl, rfl⟩ : opcode = htlcHdrVideoState ∧ body =
        encodeCidKindPausedGen (m.activeCid.getD 0) kind paused (m.pauseGen kind + 1) := by
      simpa [localChanged] using hsent
    exact .of_active (BigEndian.ofU16 kind.wire ++ (BigEndian.ofU16 (flagWire paused) ++
        BigEndian.ofU32 (m.pauseGen kind + 1)))
      (hm.activeCid_getD (inRoom_of_inVoice hvoice))
      (by simp [encodeCidKindPausedGen, encodeCidPlusKind]) (by decide)
  | captureFailed kind text hsome =>
    cases hvoice : m.inVoice with
    | false => simp [hvoice, localChanged, errorSignal] at hsent
    | true =>
      have hcid := hm.activeCid_getD (inRoom_of_inVoice hvoice)
      rw [hvoice, hcid] at hsent
      obtain ⟨rfl, rfl⟩ : opcode = htlcHdrVideoStop ∧
          body = encodeCidPlusKind (m.activeCid.getD 0) kind := by
        simpa [localChanged, errorSignal] using hsent
      exact .of_active _ hcid rfl (by decide)
  | mute muted hroom hne =>
    obtain ⟨rfl, rfl⟩ : opcode = htlcHdrVoiceMute ∧
        body = encodeCidPlusMuted (m.activeCid.getD 0) muted := by simpa using hsent
    exact .of_active _ (hm.activeCid_getD hroom) rfl (by decide)
  | failed text hfail =>
    cases hcid : m.activeCid with
    | none =>
      have hnone : Action.sendWireFrame opcode body ∉ (m.fail text).2 := by
        simp only [fail, hcid]
        split_ifs <;> simp [errorSignal, stateChangedSignal]
      exact absurd hsent hnone
    | some cid =>
      have hframe : opcode = htlcHdrVoiceLeave ∧ body = encodeCidOnly cid := by
        simp only [fail, hcid] at hsent
        split_ifs at hsent <;> simpa [errorSignal, stateChangedSignal] using hsent
      obtain ⟨rfl, rfl⟩ := hframe
      exact .of_active [] hcid (List.append_nil _).symm (by decide)

end SessionMachine

/-- The invariant holds after every sequence of events. -/
theorem roomBound_after (es : List Event) : (session.after es).RoomBound :=
  Reactive.Machine.invariant SessionMachine.roomBound_new (fun _ e hm => hm.step e) es

/-- **Room binding.** After every sequence of events the room fields are those of the
state, and every frame the next step sends names the room it is for. -/
theorem room_binding (es : List Event) :
    let m := session.after es
    (m.activeCid.isSome = true ↔ m.state = .joinSent ∨ m.state = .offerPending ∨
      m.state = .connecting ∨ m.state = .connected) ∧
    (∀ cid sdp, m.queuedOffer = some (cid, sdp) →
      m.state = .offerPending ∧ m.activeCid = some cid) ∧
    (m.state = .idle ∨ m.state = .leaving → m.publications = [] ∧ m.subscribed = [] ∧
      (∀ kind, m.localVideo kind = none) ∧ ∀ kind, m.localListed kind = false) ∧
    (m.state = .idle → m.muted = false ∧ m.participants = ∅ ∧ m.midToUser = ∅) ∧
    ∀ e opcode body, .sendWireFrame opcode body ∈ (m.step e).2 →
      m.FrameAddressed e opcode body := by
  have hm := roomBound_after es
  refine ⟨?_, hm.queued, ?_, hm.idle, fun e opcode body => hm.frameAddressed⟩
  · rw [hm.active_iff]
    cases h : (session.after es).state <;> simp [SessionMachine.inRoom, h]
  · rintro (h | h) <;> exact hm.outside (by simp [SessionMachine.inRoom, h])

end Gtkhx.Voice
