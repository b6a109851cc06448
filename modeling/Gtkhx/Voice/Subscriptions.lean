import Gtkhx.Voice.RoomBinding
import Mathlib.Data.Finset.Sort

/-!
# The receive set the server was told

A client names the streams it wants to receive in a 610, always the complete set. The
set may be declared in any state, also before there is a room to send it to. A log of
what a run declared, sent and had refused is kept beside the machine, and the last 610
of a stay in a room is compared with the last declaration.
-/

namespace Gtkhx.Voice

/-- The packed `uid | kind` entries of a 610, read to the end of the body. -/
def takeStreams : List UInt8 → Option (List Stream)
  | [] => some []
  | a :: b :: c :: d :: rest =>
    match BigEndian.takeU16 [a, b], BigEndian.takeU16 [c, d], takeStreams rest with
    | some (userId, _), some (wire, _), some streams =>
      (VideoKind.fromWire wire).map (⟨userId, ·⟩ :: streams)
    | _, _, _ => none
  | _ => none

/-- The room and the streams a 610 body names. -/
def decodeStreams (body : List UInt8) : Option (UInt32 × List Stream) :=
  match BigEndian.takeU32 body with
  | some (cid, rest) => (takeStreams rest).map (cid, ·)
  | none => none

/-- The sorted, duplicate-free form of a list of streams. -/
def receiveSet (streams : List Stream) : List Stream := streams.toFinset.sort (· ≤ ·)

/-- What a run does about the receive set: it joins a room, sends a 610, or is refused
one. -/
inductive SubscribeMark
  | joined
  | sent (body : List UInt8)
  | refused
  deriving DecidableEq

/-- The mark an action leaves. -/
def SubscribeMark.ofAction : Action → Option SubscribeMark
  | .sendWireFrame opcode body =>
    if opcode = htlcHdrVoiceJoin then some .joined
    else if opcode = htlcHdrVideoSubscribe then some (.sent body)
    else none
  | _ => none

/-- The mark an event leaves before any action. -/
def SubscribeMark.ofEvent : Event → List SubscribeMark
  | .serverTaskError err =>
    if err.originOpcode = htlcHdrVideoSubscribe then [.refused] else []
  | _ => []

/-- The body of a 610. -/
def SubscribeMark.body : SubscribeMark → Option (List UInt8)
  | .sent body => some body
  | _ => none

/-- The streams declared last, after one more event. -/
def declared (wanted : List Stream) : Event → List Stream
  | .videoSubscriptionsWanted streams => streams
  | _ => wanted

/-- The receive sets of a run. -/
structure SubscribeLog where
  /-- The streams last declared since the join. -/
  wanted : List Stream := []
  /-- The 610 bodies sent since the join. -/
  sent : List (List UInt8) := []
  /-- Every join, 610 and refused 610 of the run. -/
  marks : List SubscribeMark := []

/-- What one step adds. A join starts the first two lists afresh. -/
def SubscribeLog.note (log : SubscribeLog) (_ : SessionMachine) (e : Event)
    (acts : List Action) : SubscribeLog :=
  let new := acts.filterMap SubscribeMark.ofAction
  let kept : SubscribeLog := if .joined ∈ new then { marks := log.marks } else log
  { wanted := declared kept.wanted e
    sent := kept.sent ++ new.filterMap SubscribeMark.body
    marks := log.marks ++ SubscribeMark.ofEvent e ++ new }

/-- The receive sets of a sequence of events. -/
def subscribeLog (es : List Event) : SubscribeLog := session.record SubscribeLog.note {} es

/-- Two marks in a row that send different sets, if both send one. -/
def SubscribeMark.Differs (a b : SubscribeMark) : Prop :=
  ∀ body body', a = .sent body → b = .sent body' →
    (decodeStreams body).map Prod.snd ≠ (decodeStreams body').map Prod.snd

private theorem takeStreams_entry (s : Stream) (rest : List UInt8) :
    takeStreams (BigEndian.ofU16 s.userId ++ BigEndian.ofU16 s.kind.wire ++ rest) =
      (takeStreams rest).map (s :: ·) := by
  have huser : BigEndian.takeU16 (BigEndian.ofU16 s.userId) = some (s.userId, []) := by
    simpa using BigEndian.takeU16_ofU16_append s.userId []
  have hkind : BigEndian.takeU16 (BigEndian.ofU16 s.kind.wire) = some (s.kind.wire, []) := by
    simpa using BigEndian.takeU16_ofU16_append s.kind.wire []
  simp only [BigEndian.ofU16] at huser hkind
  simp only [BigEndian.ofU16, List.cons_append, List.nil_append, takeStreams, huser, hkind]
  cases takeStreams rest <;> simp

private theorem takeStreams_encode (streams : List Stream) :
    takeStreams (streams.flatMap
      (fun s => BigEndian.ofU16 s.userId ++ BigEndian.ofU16 s.kind.wire)) = some streams := by
  induction streams with
  | nil => rfl
  | cons s streams ih => rw [List.flatMap_cons, takeStreams_entry, ih, Option.map_some]

/-- A 610 body reads back as the room and the streams it was made of. -/
@[simp] theorem decodeStreams_encode (cid : UInt32) (streams : List Stream) :
    decodeStreams (encodeCidPlusStreams cid streams) = some (cid, streams) := by
  simp [decodeStreams, encodeCidPlusStreams, takeStreams_encode]

/-- Sorting and then dropping repetitions gives the sorted form of the set. -/
theorem sortDedup_eq_receiveSet (streams : List Stream) :
    sortDedup streams = receiveSet streams := by
  have hsorted : (streams.insertionSort (· ≤ ·)).Pairwise (· ≤ ·) :=
    List.pairwise_insertionSort _ _
  have hdedup : sortDedup streams = (streams.insertionSort (· ≤ ·)).dedup :=
    hsorted.destutter_eq_dedup
  have hpairwise : (sortDedup streams).Pairwise (· ≤ ·) := by
    rw [hdedup]
    exact hsorted.sublist (List.dedup_sublist _)
  have hset : (sortDedup streams).toFinset = streams.toFinset := by
    ext s
    simp [hdedup]
  have hnodup : (sortDedup streams).Nodup := by
    rw [hdedup]
    exact List.nodup_dedup _
  rw [receiveSet, ← hset]
  exact ((List.toFinset_sort (· ≤ ·) hnodup).mpr hpairwise).symm

/-- What a flush does in a room: nothing, when the server already has the wanted set and
has not refused it, or it sends that set. -/
theorem SessionMachine.flushSubscriptions_cases {m : SessionMachine} (hm : m.RoomBound) :
    (m.flushSubscriptions = (m, []) ∧
      (m.inVoice = true → m.wanted = m.subscribed ∧ m.subscribedStale = false)) ∨
    ∃ cid, m.activeCid = some cid ∧ m.inVoice = true ∧
      (m.wanted ≠ m.subscribed ∨ m.subscribedStale = true) ∧
      m.flushSubscriptions =
        ({ m with subscribed := m.wanted, subscribedStale := false },
          [.sendWireFrame htlcHdrVideoSubscribe (encodeCidPlusStreams cid m.wanted)]) := by
  by_cases hquiet : ¬m.inVoice = true ∨ (m.wanted = m.subscribed ∧ ¬m.subscribedStale = true)
  · refine Or.inl ⟨by rw [flushSubscriptions, if_pos hquiet], fun hvoice => ?_⟩
    simpa [hvoice] using hquiet
  · have hvoice : m.inVoice = true := by
      by_contra hout
      exact hquiet (Or.inl hout)
    have hcid := hm.activeCid_getD (inRoom_of_inVoice hvoice)
    refine Or.inr ⟨_, hcid, hvoice, ?_, ?_⟩
    · push Not at hquiet
      by_cases heq : m.wanted = m.subscribed
      · exact Or.inr (hquiet.2 heq)
      · exact Or.inl heq
    · rw [flushSubscriptions, if_neg hquiet]
      split
      · rename_i hnone
        rw [hnone] at hcid
        cases hcid
      · rename_i cid hsome
        simp [hsome]

/-- What the log of a run says of the machine it is kept beside. -/
structure SubscriptionsRecorded (m : SessionMachine) (log : SubscribeLog) : Prop where
  bound : m.RoomBound
  /-- In a room the machine wants what was last declared since the join. -/
  wanted : m.inRoom = true → m.wanted = sortDedup log.wanted
  /-- In a room it remembers the last 610 since the join, as none or as what it said. -/
  subscribed : m.inRoom = true →
    (log.sent.getLast? = none → m.subscribed = []) ∧
    ∀ body, log.sent.getLast? = some body →
      body = encodeCidPlusStreams (m.activeCid.getD 0) m.subscribed
  /-- Only a refusal newer than every join and 610 makes the next 610 unconditional. -/
  stale : m.subscribedStale = true → log.marks.getLast? = some .refused
  /-- A 610 newer than every join and refusal carries the set the machine remembers. -/
  newest : ∀ body, m.inRoom = true → log.marks.getLast? = some (.sent body) →
    body = encodeCidPlusStreams (m.activeCid.getD 0) m.subscribed
  /-- No two 610s in a row say the same. -/
  differ : log.marks.IsChain SubscribeMark.Differs

/-- Between steps, in voice, the server has been told as well. -/
structure SubscriptionsTold (m : SessionMachine) (log : SubscribeLog) : Prop extends
    SubscriptionsRecorded m log where
  told : m.inVoice = true → m.wanted = m.subscribed

private theorem note_quiet {log : SubscribeLog} {m : SessionMachine} {e : Event}
    {acts : List Action} (hwanted : ∀ streams, e ≠ .videoSubscriptionsWanted streams)
    (hevent : SubscribeMark.ofEvent e = [])
    (hacts : acts.filterMap SubscribeMark.ofAction = []) : log.note m e acts = log := by
  cases e with
  | videoSubscriptionsWanted streams => exact absurd rfl (hwanted streams)
  | _ => simp_all [SubscribeLog.note, declared]

private theorem note_joined {log : SubscribeLog} {m : SessionMachine} {cid : UInt32}
    {acts : List Action} (hacts : acts.filterMap SubscribeMark.ofAction = [.joined]) :
    log.note m (.joinRequested cid) acts = { marks := log.marks ++ [.joined] } := by
  simp [SubscribeLog.note, hacts, declared, SubscribeMark.ofEvent, SubscribeMark.body]

/-- A step that keeps the receive sets, and stays in the room and in voice, keeps the
log. -/
private theorem SubscriptionsTold.congr {m m' : SessionMachine} {log : SubscribeLog}
    (h : SubscriptionsTold m log) (hbound : m'.RoomBound) (hroom : m'.inRoom = m.inRoom)
    (hvoice : m'.inVoice = m.inVoice) (hcid : m'.activeCid = m.activeCid)
    (hwanted : m'.wanted = m.wanted) (hsubscribed : m'.subscribed = m.subscribed)
    (hstale : m'.subscribedStale = m.subscribedStale) : SubscriptionsTold m' log where
  bound := hbound
  wanted := by simpa only [hroom, hwanted] using h.wanted
  subscribed := by simpa only [hroom, hcid, hsubscribed] using h.subscribed
  stale := by simpa only [hstale] using h.stale
  newest := by simpa only [hroom, hcid, hsubscribed] using h.newest
  differ := h.differ
  told := by simpa only [hvoice, hwanted, hsubscribed] using h.told

/-- Leaving the room by any way leaves nothing to compare. -/
private theorem SubscriptionsTold.left {m m' : SessionMachine} {log : SubscribeLog}
    (h : SubscriptionsTold m log) (hbound : m'.RoomBound) (hout : m'.inRoom = false)
    (hstale : m'.subscribedStale = false) : SubscriptionsTold m' log where
  bound := hbound
  wanted := by simp [hout]
  subscribed := by simp [hout]
  stale := by simp [hstale]
  newest := by simp [hout]
  differ := h.differ
  told := by
    intro hvoice
    simp [SessionMachine.inRoom_of_inVoice hvoice] at hout

/-- A join starts afresh. -/
private theorem SubscriptionsTold.joined {m m' : SessionMachine} {log : SubscribeLog}
    (h : SubscriptionsTold m log) (hbound : m'.RoomBound) (hwanted : m'.wanted = [])
    (hsubscribed : m'.subscribed = []) (hstale : m'.subscribedStale = false) :
    SubscriptionsTold m' { marks := log.marks ++ [.joined] } where
  bound := hbound
  wanted := fun _ => hwanted
  subscribed := fun _ => ⟨fun _ => hsubscribed, by simp⟩
  stale := by simp [hstale]
  newest := by simp
  differ := by
    refine List.isChain_append.mpr ⟨h.differ, List.isChain_singleton _, ?_⟩
    intro a _ b hb body body' _ hsent
    simp [hsent] at hb
  told := fun _ => by rw [hwanted, hsubscribed]

/-- A flush brings the server up to date, and repeats nothing it need not. -/
private theorem SubscriptionsRecorded.flushed {m : SessionMachine} {log : SubscribeLog}
    (h : SubscriptionsRecorded m log) (hbound : m.flushSubscriptions.1.RoomBound) :
    SubscriptionsTold m.flushSubscriptions.1
      { wanted := log.wanted
        sent := log.sent ++ (m.flushSubscriptions.2.filterMap
          SubscribeMark.ofAction).filterMap SubscribeMark.body
        marks := log.marks ++ m.flushSubscriptions.2.filterMap SubscribeMark.ofAction } := by
  rcases SessionMachine.flushSubscriptions_cases h.bound with
    ⟨hflush, htold⟩ | ⟨cid, hcid, hvoice, hnew, hflush⟩
  · simp only [hflush, List.filterMap_nil, List.append_nil]
    exact { h with told := fun hvoice => (htold hvoice).1 }
  · rw [hflush] at hbound ⊢
    have hroom := SessionMachine.inRoom_of_inVoice hvoice
    have hmark : [Action.sendWireFrame htlcHdrVideoSubscribe
        (encodeCidPlusStreams cid m.wanted)].filterMap SubscribeMark.ofAction =
        [.sent (encodeCidPlusStreams cid m.wanted)] := rfl
    have hbody : [SubscribeMark.sent (encodeCidPlusStreams cid m.wanted)].filterMap
        SubscribeMark.body = [encodeCidPlusStreams cid m.wanted] := rfl
    rw [hmark, hbody]
    refine ⟨⟨hbound, h.wanted, fun _ => ?_, by simp, by simp [hcid], ?_⟩, fun _ => rfl⟩
    · simp [hcid]
    · refine List.isChain_append.mpr ⟨h.differ, List.isChain_singleton _, ?_⟩
      intro a ha b hb body body' hsent hsent'
      subst hsent
      have hlast : log.marks.getLast? = some (.sent body) := by simpa using ha
      have hold := h.newest body hroom hlast
      have hbody' : body' = encodeCidPlusStreams cid m.wanted := by
        simpa [hsent', eq_comm] using hb
      rcases hnew with hne | hstale
      · simpa [hold, hbody', eq_comm] using hne
      · simp [h.stale hstale] at hlast

private theorem marks_of_forall {acts : List Action}
    (h : ∀ a ∈ acts, SubscribeMark.ofAction a = none) :
    acts.filterMap SubscribeMark.ofAction = [] :=
  List.filterMap_eq_nil_iff.mpr h

private theorem marks_applyOffer (sdp : String) :
    (SessionMachine.applyOffer sdp).filterMap SubscribeMark.ofAction = [] := by
  refine marks_of_forall (fun a ha => ?_)
  simp only [SessionMachine.applyOffer, List.mem_append, List.mem_map, List.mem_cons,
    List.not_mem_nil, or_false] at ha
  rcases ha with ⟨mid, _, rfl⟩ | rfl | rfl <;> rfl

private theorem joined_notMem_flush (m : SessionMachine) :
    .joined ∉ m.flushSubscriptions.2.filterMap SubscribeMark.ofAction := by
  intro h
  obtain ⟨a, ha, hmark⟩ := List.mem_filterMap.mp h
  obtain ⟨_, cid, _, rfl⟩ := SessionMachine.mem_flushSubscriptions_snd ha
  cases hmark

private theorem note_flushed {log : SubscribeLog} {m m₀ : SessionMachine} {e : Event}
    {acts : List Action} {wanted : List Stream}
    (hacts : acts.filterMap SubscribeMark.ofAction =
      m₀.flushSubscriptions.2.filterMap SubscribeMark.ofAction)
    (hevent : SubscribeMark.ofEvent e = [])
    (hwanted : declared log.wanted e = wanted) :
    log.note m e acts =
      { wanted := wanted
        sent := log.sent ++ (m₀.flushSubscriptions.2.filterMap
          SubscribeMark.ofAction).filterMap SubscribeMark.body
        marks := log.marks ++ m₀.flushSubscriptions.2.filterMap SubscribeMark.ofAction } := by
  simp only [SubscribeLog.note, hacts, if_neg (joined_notMem_flush m₀), hevent,
    List.append_nil, hwanted]

private theorem marks_fail (m : SessionMachine) (text : String) :
    (m.fail text).2.filterMap SubscribeMark.ofAction = [] := by
  cases hcid : m.activeCid <;> cases hstate : m.state <;>
    simp only [SessionMachine.fail, hcid, hstate] <;> rfl

/-- One step keeps the log true. -/
theorem SubscriptionsTold.step {m : SessionMachine} {log : SubscribeLog}
    (h : SubscriptionsTold m log) (e : Event) :
    SubscriptionsTold (m.step e).1 (log.note m e (m.step e).2) := by
  have hbound := h.bound.step e
  have ht := m.step_transition e
  generalize (m.step e).1 = m', (m.step e).2 = acts at ht hbound
  cases ht with
  | ignored hign =>
    cases e with
    | videoSubscriptionsWanted => exact hign.elim
    | serverTaskError => exact hign.elim
    | _ =>
      rw [note_quiet (by simp) rfl rfl]
      exact h
  | notice text hnot =>
    cases e with
    | videoSubscriptionsWanted => exact hnot.elim
    | serverTaskError err =>
      have hevent : SubscribeMark.ofEvent (.serverTaskError err) = [] := if_neg hnot.2.2
      rw [note_quiet (by simp) hevent rfl]
      exact h
    | _ =>
      rw [note_quiet (by simp) rfl rfl]
      exact h
  | join cid hstate | roomSwitch cid hstate hother =>
    rw [note_joined rfl]
    exact h.joined hbound rfl rfl rfl
  | leave cid hroom hcid =>
    rw [note_quiet (by simp) rfl rfl]
    exact h.left hbound rfl rfl
  | firstOffer cid sdp hstate hcid =>
    have hroom : m.inRoom = true := by simp [SessionMachine.inRoom, hstate]
    have hnone := h.bound.queuedOffer_eq_none (by simp [hstate])
    have hrec : SubscriptionsRecorded
        { m with midToUser := offerMids sdp, state := .offerPending } log :=
      ⟨⟨by simp [hcid, SessionMachine.inRoom], by simp [hnone], by simp [SessionMachine.inRoom],
          by simp⟩,
        fun _ => h.wanted hroom, fun _ => h.subscribed hroom, h.stale,
        fun body _ => h.newest body hroom, h.differ⟩
    have hmarks : (.cancelTimer .joinReply :: SessionMachine.applyOffer sdp ++
        [stateChangedSignal .offerPending] ++ { m with
          midToUser := offerMids sdp, state := .offerPending }.flushSubscriptions.2).filterMap
        SubscribeMark.ofAction = { m with
          midToUser := offerMids sdp, state := .offerPending }.flushSubscriptions.2.filterMap
        SubscribeMark.ofAction := by
      rw [List.filterMap_append, List.filterMap_append, List.filterMap_cons_none rfl,
        marks_applyOffer]
      rfl
    rw [note_flushed hmarks rfl rfl]
    exact hrec.flushed hbound
  | renegotiate cid sdp hstate hcid =>
    rw [note_quiet (by simp) rfl (by rw [List.filterMap_append, marks_applyOffer]; rfl)]
    rcases hstate with hs | hs <;>
      exact h.congr hbound (by simp [SessionMachine.inRoom, hs])
        (by simp [SessionMachine.inVoice, hs]) rfl rfl rfl rfl
  | drain sdp cid queuedSdp hstate hqueued hcid =>
    rw [note_quiet (by simp) rfl (by rw [List.filterMap_append, marks_applyOffer]; rfl)]
    exact h.congr hbound rfl rfl rfl rfl rfl rfl
  | answer sdp hstate hqueued =>
    rw [note_quiet (by simp) rfl rfl]
    exact h.congr hbound (by simp [SessionMachine.inRoom, hstate])
      (by simp [SessionMachine.inVoice, hstate]) rfl rfl rfl rfl
  | connect hstate =>
    rw [note_quiet (by simp) rfl rfl]
    exact h.congr hbound (by simp [SessionMachine.inRoom, hstate])
      (by simp [SessionMachine.inVoice, hstate]) rfl rfl rfl rfl
  | videoStatus cid publications selfUid hroom hcid =>
    obtain ⟨ps, video, listed, hv⟩ := m.videoStatusReceived_fst cid publications selfUid
    rw [note_quiet (by simp) rfl (marks_of_forall (fun a ha => by
      rcases SessionMachine.mem_videoStatusReceived_snd ha with ⟨_, rfl⟩ | ⟨_, _, rfl⟩ <;> rfl))]
    rw [hv] at hbound ⊢
    exact h.congr hbound rfl rfl rfl rfl rfl rfl
  | subscriptions streams =>
    have hrec : SubscriptionsRecorded { m with wanted := sortDedup streams }
        { log with wanted := streams } :=
      ⟨⟨h.bound.active_iff, h.bound.queued, h.bound.outside, h.bound.idle⟩, fun _ => rfl,
        h.subscribed, h.stale, h.newest, h.differ⟩
    rw [note_flushed rfl rfl rfl]
    exact hrec.flushed hbound
  | captureFailed kind text hsome =>
    rw [note_quiet (by simp) rfl (by cases m.inVoice <;> cases m.activeCid <;> rfl)]
    exact h.congr hbound rfl rfl rfl rfl rfl rfl
  | subscribeRefused err hop =>
    have hnote : log.note m (.serverTaskError err) [errorSignal err.text] =
        { log with marks := log.marks ++ [.refused] } := by
      simp [SubscribeLog.note, declared, SubscribeMark.ofEvent, hop, errorSignal,
        SubscribeMark.ofAction]
    rw [hnote]
    refine ⟨⟨hbound, h.wanted, h.subscribed, by simp, by simp, ?_⟩, h.told⟩
    refine List.isChain_append.mpr ⟨h.differ, List.isChain_singleton _, ?_⟩
    intro a _ b hb body body' _ hsent
    simp [hsent] at hb
  | failed text hfail =>
    rw [note_quiet (by rintro streams rfl; cases hfail) ?_ (marks_fail m text)]
    · exact h.left hbound rfl rfl
    · cases e with
      | serverTaskError err =>
        refine if_neg (fun hop => ?_)
        have hother : ¬(err.originOpcode = htlcHdrVoiceJoin ∨
            err.originOpcode = htlcHdrVoiceSdpAnswer) := by
          rw [hop]
          decide
        simp only [SessionMachine.failText, if_neg hother] at hfail
        cases hfail
      | _ => rfl
  | _ =>
    rw [note_quiet (by simp) rfl rfl]
    exact h.congr hbound rfl rfl rfl rfl rfl rfl

/-- The log of every run is true. -/
theorem subscriptionsTold (es : List Event) :
    SubscriptionsTold (session.after es) (subscribeLog es) :=
  Reactive.Machine.record_invariant
    ⟨⟨SessionMachine.roomBound_new, by decide, by simp [SessionMachine.inRoom,
      SessionMachine.new], by decide, by simp, List.isChain_nil⟩, by decide⟩
    (fun _ _ e h => h.step e) es

/-- A step that sends a 610 ends in voice, and the 610 names the active room and the
wanted set. -/
private theorem sent_in_voice {m : SessionMachine} {e : Event} {body : List UInt8}
    (hsent : .sendWireFrame htlcHdrVideoSubscribe body ∈ (m.step e).2) :
    (m.step e).1.inVoice = true ∧ ∃ cid, (m.step e).1.activeCid = some cid ∧
      decodeStreams body = some (cid, (m.step e).1.wanted) := by
  have hflush {m₀ : SessionMachine}
      (hmem : .sendWireFrame htlcHdrVideoSubscribe body ∈ m₀.flushSubscriptions.2) :
      m₀.flushSubscriptions.1.inVoice = true ∧ ∃ cid,
        m₀.flushSubscriptions.1.activeCid = some cid ∧
        decodeStreams body = some (cid, m₀.flushSubscriptions.1.wanted) := by
    obtain ⟨hvoice, cid, hcid, heq⟩ := SessionMachine.mem_flushSubscriptions_snd hmem
    obtain ⟨subscribed, stale, hf⟩ := m₀.flushSubscriptions_fst
    injection heq with _ hbody
    rw [hf, hbody]
    exact ⟨hvoice, cid, hcid, decodeStreams_encode cid m₀.wanted⟩
  have hmark : .sent body ∈ (m.step e).2.filterMap SubscribeMark.ofAction :=
    List.mem_filterMap.mpr ⟨_, hsent, rfl⟩
  have ht := m.step_transition e
  generalize (m.step e).1 = m', (m.step e).2 = acts at ht hsent hmark
  cases ht with
  | firstOffer cid sdp hstate hcid => exact hflush (by simpa [SessionMachine.applyOffer,
      stateChangedSignal] using hsent)
  | subscriptions streams => exact hflush hsent
  | renegotiate cid sdp hstate hcid =>
    rw [List.filterMap_append, marks_applyOffer] at hmark
    cases hmark
  | drain sdp cid queuedSdp hstate hqueued hcid =>
    rw [List.filterMap_append, marks_applyOffer] at hmark
    cases hmark
  | videoStatus cid publications selfUid hroom hcid =>
    rcases SessionMachine.mem_videoStatusReceived_snd hsent with ⟨_, h⟩ | ⟨_, _, h⟩ <;> cases h
  | captureFailed kind text hsome =>
    revert hmark
    cases m.inVoice <;> cases m.activeCid <;> exact fun hmark => by cases hmark
  | failed text hfail =>
    rw [marks_fail] at hmark
    cases hmark
  | join cid hstate | roomSwitch cid hstate hother =>
    have hjoined : .sent body ∈ [SubscribeMark.joined] := hmark
    simp at hjoined
  | _ => cases hmark

/-- **The server has the receive set the user wants.** In voice, the last 610 since the
join names the active room and the sorted, duplicate-free form of the streams last
declared since the join, and where none was sent that form is empty. Two 610s with no
join, no refused 610 and no other 610 between them name different sets. Every 610 is
sent in voice, to the active room, and carries the wanted set. -/
theorem subscriptions_faithful (es : List Event) :
    let m := session.after es
    let log := subscribeLog es
    (m.state = .offerPending ∨ m.state = .connecting ∨ m.state = .connected →
      (log.sent.getLast? = none → receiveSet log.wanted = []) ∧
      ∃ cid, m.activeCid = some cid ∧ ∀ body, log.sent.getLast? = some body →
        decodeStreams body = some (cid, receiveSet log.wanted)) ∧
    (∀ front body body' rest, log.marks = front ++ .sent body :: .sent body' :: rest →
      (decodeStreams body).map Prod.snd ≠ (decodeStreams body').map Prod.snd) ∧
    (∀ e body, .sendWireFrame htlcHdrVideoSubscribe body ∈ (m.step e).2 →
      (m.step e).1.inVoice = true ∧ ∃ cid, (m.step e).1.activeCid = some cid ∧
        decodeStreams body = some (cid, (m.step e).1.wanted)) := by
  have hlog := subscriptionsTold es
  refine ⟨fun hstate => ?_, fun front body body' rest hmarks => ?_,
    fun e body => sent_in_voice⟩
  · have hvoice : (session.after es).inVoice = true := by
      rcases hstate with h | h | h <;> simp [SessionMachine.inVoice, h]
    have hroom := SessionMachine.inRoom_of_inVoice hvoice
    have hsame : (session.after es).subscribed = receiveSet (subscribeLog es).wanted := by
      rw [← hlog.told hvoice, hlog.wanted hroom, sortDedup_eq_receiveSet]
    obtain ⟨hnone, hlast⟩ := hlog.subscribed hroom
    refine ⟨fun hsent => by rw [← hsame, hnone hsent], _, hlog.bound.activeCid_getD hroom, ?_⟩
    intro body hbody
    rw [hlast body hbody, hsame, decodeStreams_encode]
  · have hchain := hlog.differ
    rw [hmarks] at hchain
    obtain ⟨_, hpair, _⟩ := List.isChain_append.mp hchain
    exact (List.isChain_cons_cons.mp hpair).1 body body' rfl rfl

/-- Without counting joins the last part fails: a room left and joined again is told the
same set twice. -/
theorem rejoin_repeats_subscription :
    ¬∀ es front body body' rest,
      (subscribeLog es).marks.filter (· ≠ .joined) = front ++ .sent body :: .sent body' :: rest →
      decodeStreams body ≠ decodeStreams body' := by
  intro h
  refine h [.joinRequested 1, .videoSubscriptionsWanted [⟨5, .camera⟩], .sdpOfferReceived 1 "",
    .leaveRequested 1, .joinRequested 1, .videoSubscriptionsWanted [⟨5, .camera⟩],
    .sdpOfferReceived 1 ""] [] (encodeCidPlusStreams 1 [⟨5, .camera⟩])
    (encodeCidPlusStreams 1 [⟨5, .camera⟩]) [] ?_ rfl
  decide

end Gtkhx.Voice
