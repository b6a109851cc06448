import Gtkhx.Voice.RoomBinding

/-!
# One offer at a time, and the newest last

The peer connection takes one `SetRemoteDescription` and its answer at a time. The
definitions here read that off the stream of emitted actions: how many offers are
unanswered since the last teardown, which offers the machine took since the join, and
which of them it applied.
-/

namespace Gtkhx.Voice

/-- The offer an action applies, if it applies one. -/
def remoteSdp : Action → Option String
  | .setRemoteDescription sdp => some sdp
  | _ => none

/-- Whether an action applies an answer. -/
def isLocalDescription : Action → Bool
  | .setLocalDescription _ => true
  | _ => false

/-- The offers applied by a list of actions, in order. -/
def remoteSdps (acts : List Action) : List String := acts.filterMap remoteSdp

/-- The actions after the last teardown, or all of them if there was none. -/
def sinceTearDown (acts : List Action) : List Action := acts.rtakeWhile (· ≠ .tearDown)

/-- Offers applied minus answers applied since the last teardown. -/
def outstanding (acts : List Action) : ℤ :=
  ((remoteSdps (sinceTearDown acts)).length : ℤ) -
    ((sinceTearDown acts).countP isLocalDescription : ℤ)

/-- Whether a step sent the request that starts a join. -/
def startsJoin (acts : List Action) : Bool :=
  acts.any fun
    | .sendWireFrame opcode _ => opcode = htlcHdrVoiceJoin
    | _ => false

/-- The offers of the current room: those the machine took, dispatched or queued, and
those it applied, each in the order it happened. -/
structure OfferLog where
  taken : List String := []
  applied : List String := []

/-- The offers of one step. A join starts the log afresh. -/
def OfferLog.note (log : OfferLog) (m : SessionMachine) (e : Event) (acts : List Action) :
    OfferLog :=
  let log := if startsJoin acts then {} else log
  { taken := log.taken ++
      (match e with
        | .sdpOfferReceived cid sdp => if m.acceptsOffer cid then [sdp] else []
        | _ => [])
    applied := log.applied ++ remoteSdps acts }

/-- The offers since the join, after a sequence of events. -/
def offerLog (es : List Event) : OfferLog := session.record OfferLog.note {} es

/-- The running form of `outstanding`. -/
def tally (n : ℤ) : Action → ℤ
  | .tearDown => 0
  | .setRemoteDescription _ => n + 1
  | .setLocalDescription _ => n - 1
  | _ => n

private theorem outstanding_snoc (acts : List Action) (a : Action) :
    outstanding (acts ++ [a]) = tally (outstanding acts) a := by
  by_cases ha : a = .tearDown
  · subst ha
    simp [outstanding, sinceTearDown, tally, remoteSdps]
  · have hkeep : sinceTearDown (acts ++ [a]) = sinceTearDown acts ++ [a] := by
      simp [sinceTearDown, ha]
    simp only [outstanding, hkeep, remoteSdps, List.filterMap_append, List.countP_append,
      List.length_append, List.filterMap_cons, List.filterMap_nil]
    cases a with
    | tearDown => exact absurd rfl ha
    | setRemoteDescription sdp => simp [tally, remoteSdp, isLocalDescription]; omega
    | setLocalDescription sdp => simp [tally, remoteSdp, isLocalDescription]; omega
    | _ => simp [tally, remoteSdp, isLocalDescription]

/-- Counting on from a beginning needs only its count. -/
theorem outstanding_append (acts more : List Action) :
    outstanding (acts ++ more) = more.foldl tally (outstanding acts) := by
  induction more using List.reverseRecOn with
  | nil => simp
  | append_singleton more a ih =>
    rw [← List.append_assoc, outstanding_snoc, ih, List.foldl_append]
    rfl

/-- Actions that neither apply a description nor tear down leave the count alone. -/
private theorem foldl_tally_of_forall {acts : List Action} (n : ℤ)
    (h : ∀ a ∈ acts, ∀ k, tally k a = k) : acts.foldl tally n = n := by
  induction acts with
  | nil => rfl
  | cons a acts ih =>
    rw [List.foldl_cons, h a (by simp)]
    exact ih (fun b hb => h b (by simp [hb]))

private theorem remoteSdps_of_forall {acts : List Action} (h : ∀ a ∈ acts, remoteSdp a = none) :
    remoteSdps acts = [] :=
  List.filterMap_eq_nil_iff.mpr h

@[simp] private theorem remoteSdps_append (acts more : List Action) :
    remoteSdps (acts ++ more) = remoteSdps acts ++ remoteSdps more :=
  List.filterMap_append

namespace SessionMachine

/-- Applying an offer counts one. -/
@[simp] theorem foldl_tally_applyOffer (n : ℤ) (sdp : String) :
    (applyOffer sdp).foldl tally n = n + 1 := by
  have hstops : ((inactiveRecvMids sdp).map Action.stopReceivePipeline).foldl tally n = n :=
    foldl_tally_of_forall n (by simp [tally])
  rw [applyOffer, List.foldl_append, hstops]
  simp [tally]

/-- Applying an offer applies just that offer. -/
@[simp] theorem remoteSdps_applyOffer (sdp : String) : remoteSdps (applyOffer sdp) = [sdp] := by
  have hstops : remoteSdps ((inactiveRecvMids sdp).map .stopReceivePipeline) = [] :=
    remoteSdps_of_forall (by simp [remoteSdp])
  rw [applyOffer, remoteSdps_append, hstops]
  rfl

private theorem flush_neutral {m : SessionMachine} {a : Action}
    (ha : a ∈ m.flushSubscriptions.2) : remoteSdp a = none ∧ ∀ k, tally k a = k := by
  obtain ⟨_, cid, _, rfl⟩ := mem_flushSubscriptions_snd ha
  exact ⟨rfl, fun _ => rfl⟩

private theorem videoStatus_neutral {m : SessionMachine} {cid : UInt32} {ps : List Publication}
    {selfUid : Option UInt16} {a : Action} (ha : a ∈ (m.videoStatusReceived cid ps selfUid).2) :
    remoteSdp a = none ∧ ∀ k, tally k a = k := by
  rcases mem_videoStatusReceived_snd ha with ⟨kind, rfl⟩ | ⟨kind, payload, rfl⟩ <;>
    exact ⟨rfl, fun _ => rfl⟩

/-- A collapse ends with the teardown. -/
theorem fail_snd (m : SessionMachine) (text : String) :
    ∃ front, (m.fail text).2 = front ++ [.tearDown] ∧ remoteSdps front = [] := by
  refine ⟨_, rfl, ?_⟩
  split_ifs <;> cases m.activeCid <;> rfl

/-- The unanswered offers of a state. -/
def pendingOffers (m : SessionMachine) : ℤ := if m.state = .offerPending then 1 else 0

/-- One step moves the count to that of its next state. -/
theorem foldl_tally_step (m : SessionMachine) (e : Event) :
    (m.step e).2.foldl tally m.pendingOffers = (m.step e).1.pendingOffers := by
  have ht := m.step_transition e
  generalize (m.step e).1 = m', (m.step e).2 = acts at ht
  cases ht with
  | join cid hstate | roomSwitch cid hstate =>
    simp [cancelAllTimers, tally, pendingOffers, stateChangedSignal, hstate]
  | leave => simp [cancelAllTimers, tally, pendingOffers, stateChangedSignal]
  | firstOffer cid sdp hstate hcid =>
    obtain ⟨subscribed, stale, hf⟩ := flushSubscriptions_fst
      { m with midToUser := offerMids sdp, state := .offerPending }
    simp only [List.foldl_append, List.cons_append, List.foldl_cons, foldl_tally_applyOffer]
    rw [foldl_tally_of_forall _ (fun a ha => (flush_neutral ha).2), hf]
    simp [tally, pendingOffers, stateChangedSignal, hstate]
  | renegotiate cid sdp hstate hcid =>
    have hzero : m.pendingOffers = 0 := by rcases hstate with h | h <;> simp [pendingOffers, h]
    simp only [List.foldl_append, foldl_tally_applyOffer, hzero]
    simp [tally, pendingOffers, stateChangedSignal]
  | queueOffer cid sdp hstate hcid => simp [pendingOffers]
  | drain sdp cid queuedSdp hstate hqueued hcid =>
    simp only [List.foldl_append, foldl_tally_applyOffer]
    simp [tally, pendingOffers, hstate, answerActions]
  | answer sdp hstate hqueued =>
    simp [tally, pendingOffers, hstate, answerActions, stateChangedSignal]
  | videoStatus cid publications selfUid hroom hcid =>
    obtain ⟨ps, video, listed, hv⟩ := m.videoStatusReceived_fst cid publications selfUid
    rw [foldl_tally_of_forall _ (fun a ha => (videoStatus_neutral ha).2), hv]
    rfl
  | subscriptions streams =>
    obtain ⟨subscribed, stale, hf⟩ := flushSubscriptions_fst { m with wanted := sortDedup streams }
    rw [foldl_tally_of_forall _ (fun a ha => (flush_neutral ha).2), hf]
    rfl
  | captureFailed kind text hsome =>
    cases m.inVoice <;> cases m.activeCid <;>
      simp [tally, pendingOffers, localChanged, errorSignal]
  | connect hstate => simp [tally, pendingOffers, stateChangedSignal, hstate]
  | failed text hfail =>
    obtain ⟨front, hfront, _⟩ := m.fail_snd text
    rw [hfront, List.foldl_append]
    simp [tally, pendingOffers, fail]
  | _ => simp [tally, pendingOffers, localChanged, errorSignal]

/-- How a step applies an offer: once, with its answer asked for right after it, and
with nothing unanswered at that point. A step that starts in `OfferPending` flushes the
answer of the earlier offer first. -/
theorem step_remote (m : SessionMachine) (e : Event) :
    remoteSdps (m.step e).2 = [] ∨
    ∃ front sdp rest, (m.step e).2 = front ++ .setRemoteDescription sdp :: .createAnswer :: rest ∧
      remoteSdps front = [] ∧ remoteSdps rest = [] ∧ front.foldl tally m.pendingOffers = 0 ∧
      (m.state = .offerPending → ∃ cid answer, ∃ stops : List String,
        e = .webrtcAnswerCreated answer ∧
        m.activeCid = some cid ∧
        front = answerActions cid answer ++ stops.map .stopReceivePipeline) := by
  have hstops (sdp : String) (n : ℤ) :
      ((inactiveRecvMids sdp).map Action.stopReceivePipeline).foldl tally n = n :=
    foldl_tally_of_forall n (by simp [tally])
  have hquiet (sdp : String) :
      remoteSdps ((inactiveRecvMids sdp).map Action.stopReceivePipeline) = [] :=
    remoteSdps_of_forall (by simp [remoteSdp])
  have ht := m.step_transition e
  generalize (m.step e).1 = m', (m.step e).2 = acts at ht
  cases ht with
  | firstOffer cid sdp hstate hcid =>
    right
    refine ⟨.cancelTimer .joinReply :: (inactiveRecvMids sdp).map .stopReceivePipeline, sdp,
      stateChangedSignal .offerPending ::
        { m with midToUser := offerMids sdp, state := .offerPending }.flushSubscriptions.2,
      by simp [applyOffer], ?_, ?_, ?_, by simp [hstate]⟩
    · simp [remoteSdps, remoteSdp]
    · exact remoteSdps_of_forall (by
        rintro a (_ | ⟨_, ha⟩)
        · rfl
        · exact (flush_neutral ha).1)
    · simp [List.foldl_cons, tally, hstops, pendingOffers, hstate]
  | renegotiate cid sdp hstate hcid =>
    right
    refine ⟨(inactiveRecvMids sdp).map .stopReceivePipeline, sdp,
      [stateChangedSignal .offerPending], by simp [applyOffer], hquiet sdp, rfl, ?_, ?_⟩
    · rw [hstops]
      rcases hstate with h | h <;> simp [pendingOffers, h]
    · intro hpending
      rcases hstate with h | h <;> simp [h] at hpending
  | drain sdp cid queuedSdp hstate hqueued hcid =>
    right
    refine ⟨answerActions cid sdp ++ (inactiveRecvMids queuedSdp).map .stopReceivePipeline,
      queuedSdp, [], by simp [applyOffer], ?_, rfl, ?_,
      fun _ => ⟨cid, sdp, _, rfl, hcid, rfl⟩⟩
    · rw [remoteSdps_append, hquiet]
      rfl
    · rw [List.foldl_append, hstops]
      simp [answerActions, tally, pendingOffers, hstate]
  | videoStatus cid publications selfUid hroom hcid =>
    exact Or.inl (remoteSdps_of_forall (fun a ha => (videoStatus_neutral ha).1))
  | subscriptions streams =>
    exact Or.inl (remoteSdps_of_forall (fun a ha => (flush_neutral ha).1))
  | captureFailed kind text hsome =>
    left
    cases m.inVoice <;> cases m.activeCid <;> rfl
  | failed text hfail =>
    obtain ⟨front, hfront, hnone⟩ := m.fail_snd text
    left
    rw [hfront, remoteSdps_append, hnone]
    rfl
  | _ => exact Or.inl rfl

end SessionMachine

private theorem mem_remoteSdps {acts : List Action} {sdp : String}
    (h : .setRemoteDescription sdp ∈ acts) : sdp ∈ remoteSdps acts :=
  List.mem_filterMap.mpr ⟨_, h, rfl⟩

/-- Where a step applies an offer, the split of its actions there is unique. -/
private theorem step_remote_split {m : SessionMachine} {e : Event} {front rest : List Action}
    {sdp : String} (hacts : (m.step e).2 = front ++ .setRemoteDescription sdp :: rest) :
    front.foldl tally m.pendingOffers = 0 ∧ ∃ rest', rest = .createAnswer :: rest' := by
  rcases m.step_remote e with hnone | ⟨front', sdp', rest', heq, hfront, hrest, hzero, _⟩
  · have hmem : sdp ∈ remoteSdps (m.step e).2 := mem_remoteSdps (by simp [hacts])
    simp [hnone] at hmem
  · rw [heq] at hacts
    have hx : Action.setRemoteDescription sdp ∉ front' := fun h => by
      simpa [hfront] using mem_remoteSdps h
    have hz : Action.setRemoteDescription sdp ∉ Action.createAnswer :: rest' := fun h => by
      have hmem : Action.setRemoteDescription sdp ∈ rest' := by simpa using h
      simpa [hrest] using mem_remoteSdps hmem
    obtain ⟨hfe, _, hre⟩ := (List.append_cons_inj_of_notMem hx hz).mp hacts
    exact ⟨hfe ▸ hzero, rest', hre.symm⟩

/-- After every run the count is that of the state. -/
theorem outstanding_emitted (es : List Event) :
    outstanding (session.emitted es) = (session.after es).pendingOffers := by
  induction es using List.reverseRecOn with
  | nil => rfl
  | append_singleton es e ih =>
    rw [Reactive.Machine.emitted_snoc, outstanding_append, ih, Reactive.Machine.after_snoc]
    exact SessionMachine.foldl_tally_step _ e

/-- In the stream of a run every offer is applied with nothing unanswered, and its answer
is asked for next. -/
theorem emitted_remote_split (es : List Event) {front rest : List Action} {sdp : String}
    (hsplit : session.emitted es = front ++ .setRemoteDescription sdp :: rest) :
    outstanding front = 0 ∧ ∃ rest', rest = .createAnswer :: rest' := by
  induction es using List.reverseRecOn generalizing front rest with
  | nil => simp at hsplit
  | append_singleton es e ih =>
    rw [Reactive.Machine.emitted_snoc] at hsplit
    rcases List.append_eq_append_iff.mp hsplit with ⟨new, hfront, hacts⟩ | ⟨old, hold, hrest⟩
    · obtain ⟨hzero, hanswer⟩ := step_remote_split hacts
      refine ⟨?_, hanswer⟩
      rw [hfront, outstanding_append, outstanding_emitted]
      exact hzero
    · cases old with
      | nil =>
        have hacts : ((session.after es).step e).2 = [] ++ .setRemoteDescription sdp :: rest := by
          simpa using hrest.symm
        obtain ⟨hzero, hanswer⟩ := step_remote_split hacts
        refine ⟨?_, hanswer⟩
        have hfront : session.emitted es = front := by simpa using hold
        rw [← hfront, outstanding_emitted]
        exact hzero
      | cons a old =>
        obtain ⟨rfl, hrest'⟩ := List.cons.inj hrest
        obtain ⟨hzero, rest', hanswer⟩ := ih hold
        exact ⟨hzero, rest' ++ (session.step (session.after es) e).2, by simp [hrest', hanswer]⟩

/-- The offer that waits, as a list. -/
private def waiting (m : SessionMachine) : List String := (m.queuedOffer.map Prod.snd).toList

/-- The record of a room's offers: what was applied, and then what waits, is a part of
what was taken, in the same order, and ends with the newest. -/
private structure OffersInOrder (m : SessionMachine) (log : OfferLog) : Prop where
  bound : m.RoomBound
  order : (log.applied ++ waiting m).Sublist log.taken
  newest : m.inRoom = true → (log.applied ++ waiting m).getLast? = log.taken.getLast?
  applied : m.inVoice = true → log.applied ≠ []

private theorem startsJoin_append (acts more : List Action) :
    startsJoin (acts ++ more) = (startsJoin acts || startsJoin more) :=
  List.any_append

private theorem startsJoin_of_forall {acts : List Action}
    (h : ∀ a ∈ acts, ∀ body, a ≠ .sendWireFrame htlcHdrVoiceJoin body) :
    startsJoin acts = false := by
  simp only [startsJoin, List.any_eq_false]
  intro a ha
  cases a with
  | sendWireFrame opcode body =>
    simp only [decide_eq_true_eq]
    rintro rfl
    exact h _ ha body rfl
  | _ => simp

/-- Only an accepted join request sends a 600. -/
private theorem startsJoin_step {m : SessionMachine} (hm : m.RoomBound) {e : Event}
    (h : ∀ cid, e ≠ .joinRequested cid) : startsJoin (m.step e).2 = false := by
  refine startsJoin_of_forall (fun a ha body heq => ?_)
  subst heq
  obtain ⟨cid, rest, _, hcid⟩ := hm.frameAddressed ha
  exact h cid (by simpa using hcid)

private theorem note_applied (log : OfferLog) (m : SessionMachine) (e : Event)
    (acts : List Action) : (log.note m e acts).applied =
      (if startsJoin acts then [] else log.applied) ++ remoteSdps acts := by
  unfold OfferLog.note
  split_ifs <;> rfl

private theorem note_of_quiet {log : OfferLog} {m : SessionMachine} {e : Event}
    {acts : List Action} (hjoin : startsJoin acts = false)
    (htaken : ∀ cid sdp, e = .sdpOfferReceived cid sdp → m.acceptsOffer cid = false)
    (hremote : remoteSdps acts = []) : log.note m e acts = log := by
  unfold OfferLog.note
  simp only [hjoin, Bool.false_eq_true, if_false, hremote, List.append_nil]
  cases e with
  | sdpOfferReceived cid sdp => simp [htaken cid sdp rfl]
  | _ => simp

private theorem note_of_offer {log : OfferLog} {m : SessionMachine} {cid : UInt32}
    {sdp : String} {acts : List Action} (hjoin : startsJoin acts = false)
    (haccepts : m.acceptsOffer cid = true) :
    log.note m (.sdpOfferReceived cid sdp) acts =
      { taken := log.taken ++ [sdp], applied := log.applied ++ remoteSdps acts } := by
  simp [OfferLog.note, hjoin, haccepts]

private theorem OffersInOrder.congr {m m' : SessionMachine} {log : OfferLog}
    (h : OffersInOrder m log) (hbound : m'.RoomBound) (hstate : m'.state = m.state)
    (hqueued : m'.queuedOffer = m.queuedOffer) : OffersInOrder m' log where
  bound := hbound
  order := by simpa only [waiting, hqueued] using h.order
  newest := by simpa only [waiting, hqueued, SessionMachine.inRoom, hstate] using h.newest
  applied := by simpa only [SessionMachine.inVoice, hstate] using h.applied

/-- Leaving the room by any way drops the offer that waits. -/
private theorem OffersInOrder.left {m m' : SessionMachine} {log : OfferLog}
    (h : OffersInOrder m log) (hbound : m'.RoomBound) (hout : m'.inRoom = false)
    (hqueued : m'.queuedOffer = none) : OffersInOrder m' log where
  bound := hbound
  order := by
    have hsub : log.applied.Sublist (log.applied ++ waiting m) := List.sublist_append_left _ _
    simpa [waiting, hqueued] using hsub.trans h.order
  newest := by simp [hout]
  applied := by
    intro hvoice
    simp [SessionMachine.inRoom_of_inVoice hvoice] at hout

/-- An offer applied at once goes to the end of both lists. -/
private theorem OffersInOrder.dispatched {m m' : SessionMachine} {log : OfferLog}
    (h : OffersInOrder m log) (hbound : m'.RoomBound) (hnone : m.queuedOffer = none)
    (hqueued : m'.queuedOffer = none) (sdp : String) :
    OffersInOrder m' { taken := log.taken ++ [sdp], applied := log.applied ++ [sdp] } where
  bound := hbound
  order := by
    have hsub : log.applied.Sublist log.taken := by simpa [waiting, hnone] using h.order
    simpa [waiting, hqueued] using hsub.append_right [sdp]
  newest := by simp [waiting, hqueued]
  applied := by simp

private theorem OffersInOrder.step {m : SessionMachine} {log : OfferLog}
    (h : OffersInOrder m log) (e : Event) :
    OffersInOrder (m.step e).1 (log.note m e (m.step e).2) := by
  have hbound := h.bound.step e
  have hjoin := startsJoin_step h.bound (e := e)
  have ht := m.step_transition e
  generalize (m.step e).1 = m', (m.step e).2 = acts at ht hbound hjoin
  cases ht with
  | ignored hign =>
    rw [note_of_quiet rfl (by rintro cid sdp rfl; exact hign) rfl]
    exact h
  | notice text hnot =>
    rw [note_of_quiet rfl (by rintro cid sdp rfl; exact hnot.elim) rfl]
    exact h
  | join cid hstate | roomSwitch cid hstate hother =>
    exact ⟨hbound, by simp [OfferLog.note, waiting, SessionMachine.enterRoom, startsJoin,
      SessionMachine.cancelAllTimers, remoteSdps, remoteSdp, stateChangedSignal],
      fun _ => rfl, by simp [SessionMachine.inVoice]⟩
  | leave cid hroom hcid =>
    rw [note_of_quiet (hjoin (by simp)) (by simp) rfl]
    exact h.left hbound rfl rfl
  | firstOffer cid sdp hstate hcid =>
    obtain ⟨subscribed, stale, hf⟩ := SessionMachine.flushSubscriptions_fst
      { m with midToUser := offerMids sdp, state := .offerPending }
    have hnone := h.bound.queuedOffer_eq_none (by simp [hstate])
    have hacts : remoteSdps
        (.cancelTimer .joinReply :: SessionMachine.applyOffer sdp ++
          [stateChangedSignal .offerPending] ++
          { m with midToUser := offerMids sdp, state := .offerPending }.flushSubscriptions.2) =
        [sdp] := by
      have hflush : remoteSdps { m with
          midToUser := offerMids sdp, state := .offerPending }.flushSubscriptions.2 = [] :=
        remoteSdps_of_forall (fun a ha => (SessionMachine.flush_neutral ha).1)
      rw [remoteSdps_append, hflush, ← List.singleton_append, List.append_assoc,
        remoteSdps_append, remoteSdps_append, SessionMachine.remoteSdps_applyOffer]
      rfl
    rw [note_of_offer (hjoin (by simp)) (by simp [SessionMachine.acceptsOffer,
      SessionMachine.inRoom, hstate, hcid]), hacts]
    exact h.dispatched hbound hnone (by rw [hf]; exact hnone) sdp
  | renegotiate cid sdp hstate hcid =>
    have hnone := h.bound.queuedOffer_eq_none (by rcases hstate with hs | hs <;> simp [hs])
    have hacts : remoteSdps
        (SessionMachine.applyOffer sdp ++ [stateChangedSignal .offerPending]) = [sdp] := by
      rw [remoteSdps_append, SessionMachine.remoteSdps_applyOffer]
      rfl
    rw [note_of_offer (hjoin (by simp)) (by
      rcases hstate with hs | hs <;>
        simp [SessionMachine.acceptsOffer, SessionMachine.inRoom, hs, hcid]), hacts]
    exact h.dispatched hbound hnone hnone sdp
  | queueOffer cid sdp hstate hcid =>
    rw [note_of_offer (hjoin (by simp)) (by simp [SessionMachine.acceptsOffer,
      SessionMachine.inRoom, hstate, hcid])]
    have hsub : log.applied.Sublist log.taken :=
      (List.sublist_append_left _ _).trans h.order
    refine ⟨hbound, ?_, by simp [waiting, remoteSdps], fun hvoice => ?_⟩
    · simpa [waiting, remoteSdps] using hsub.append_right [sdp]
    · simpa [remoteSdps] using h.applied hvoice
  | drain sdp cid queuedSdp hstate hqueued hcid =>
    have hacts : remoteSdps (SessionMachine.answerActions cid sdp ++
        SessionMachine.applyOffer queuedSdp) = [queuedSdp] := by
      rw [remoteSdps_append, SessionMachine.remoteSdps_applyOffer]
      rfl
    have hjoin' := hjoin (by simp)
    refine ⟨hbound, ?_, ?_, ?_⟩
    · simpa [OfferLog.note, hjoin', hacts, waiting, hqueued] using h.order
    · intro _
      simpa [OfferLog.note, hjoin', hacts, waiting, hqueued] using
        h.newest (by simp [SessionMachine.inRoom, hstate])
    · simp [OfferLog.note, hjoin', hacts]
  | answer sdp hstate hqueued =>
    have hnone : m.queuedOffer = none := by
      cases hq : m.queuedOffer with
      | none => rfl
      | some q => exact absurd (h.bound.queued q.1 q.2 hq).2 (hqueued q hq)
    rw [note_of_quiet (hjoin (by simp)) (by simp) rfl]
    refine ⟨hbound, ?_, ?_, ?_⟩
    · simpa [waiting, hnone] using h.order
    · intro _
      simpa [waiting, hnone] using h.newest (by simp [SessionMachine.inRoom, hstate])
    · intro _
      exact h.applied (by simp [SessionMachine.inVoice, hstate])
  | connect hstate =>
    rw [note_of_quiet (hjoin (by simp)) (by simp) rfl]
    exact ⟨hbound, h.order, fun _ => h.newest (by simp [SessionMachine.inRoom, hstate]),
      fun _ => h.applied (by simp [SessionMachine.inVoice, hstate])⟩
  | videoStatus cid publications selfUid hroom hcid =>
    obtain ⟨ps, video, listed, hv⟩ := m.videoStatusReceived_fst cid publications selfUid
    rw [note_of_quiet (hjoin (by simp)) (by simp)
      (remoteSdps_of_forall (fun a ha => (SessionMachine.videoStatus_neutral ha).1))]
    exact h.congr hbound (by rw [hv]) (by rw [hv])
  | subscriptions streams =>
    obtain ⟨subscribed, stale, hf⟩ := SessionMachine.flushSubscriptions_fst
      { m with wanted := sortDedup streams }
    rw [note_of_quiet (hjoin (by simp)) (by simp)
      (remoteSdps_of_forall (fun a ha => (SessionMachine.flush_neutral ha).1))]
    exact h.congr hbound (by rw [hf]) (by rw [hf])
  | captureFailed kind text hsome =>
    rw [note_of_quiet (hjoin (by simp)) (by simp)
      (by cases m.inVoice <;> cases m.activeCid <;> rfl)]
    exact h.congr hbound rfl rfl
  | failed text hfail =>
    obtain ⟨front, hfront, hnone⟩ := m.fail_snd text
    rw [note_of_quiet (hjoin (by rintro cid rfl; simp [SessionMachine.failText] at hfail))
      (by rintro cid sdp rfl; simp [SessionMachine.failText] at hfail)
      (by rw [hfront, remoteSdps_append, hnone]; rfl)]
    exact h.left hbound rfl rfl
  | _ =>
    rw [note_of_quiet (hjoin (by simp)) (by simp) rfl]
    exact h.congr hbound rfl rfl

/-- The offers of every run are in order. -/
private theorem offersInOrder (es : List Event) :
    OffersInOrder (session.after es) (offerLog es) :=
  Reactive.Machine.record_invariant
    ⟨SessionMachine.roomBound_new, List.Sublist.refl _, fun _ => rfl, by decide⟩
    (fun _ _ e h => h.step e) es

/-- What was applied in the current room is the end of what was applied at all. -/
private theorem applied_suffix (es : List Event) :
    (offerLog es).applied <:+ remoteSdps (session.emitted es) := by
  induction es using List.reverseRecOn with
  | nil => exact List.suffix_refl _
  | append_singleton es e ih =>
    rw [offerLog, Reactive.Machine.record_snoc, Reactive.Machine.emitted_snoc, remoteSdps_append,
      note_applied, ← offerLog]
    obtain ⟨front, hfront⟩ := ih
    split_ifs
    · exact ⟨remoteSdps (session.emitted es), by simp⟩
    · exact ⟨front, by rw [← List.append_assoc, hfront]⟩

/-- An offer is taken exactly when the machine accepts it, and dropped whole otherwise. -/
theorem SessionMachine.RoomBound.offer_taken_iff {m : SessionMachine} (hm : m.RoomBound)
    (cid : UInt32) (sdp : String) :
    (m.acceptsOffer cid = true ↔
      .setRemoteDescription sdp ∈ (m.step (.sdpOfferReceived cid sdp)).2 ∨
        (m.step (.sdpOfferReceived cid sdp)).1.queuedOffer = some (cid, sdp)) ∧
    (m.acceptsOffer cid = false → m.step (.sdpOfferReceived cid sdp) = (m, [])) := by
  have ht := m.step_transition (.sdpOfferReceived cid sdp)
  rw [← Prod.mk.eta (p := m.step (.sdpOfferReceived cid sdp))]
  generalize (m.step (.sdpOfferReceived cid sdp)).1 = m',
    (m.step (.sdpOfferReceived cid sdp)).2 = acts at ht
  cases ht with
  | ignored hign =>
    have hdropped : m.acceptsOffer cid = false := hign
    refine ⟨⟨fun h => by simp [hdropped] at h, ?_⟩, fun _ => rfl⟩
    rintro (h | h)
    · simp at h
    · obtain ⟨hstate, hcid⟩ := hm.queued cid sdp h
      simp [SessionMachine.acceptsOffer, SessionMachine.inRoom, hstate, hcid]
  | notice text hnot => exact hnot.elim
  | failed text hfail => simp [SessionMachine.failText] at hfail
  | firstOffer _ _ hstate hcid =>
    have haccepts : m.acceptsOffer cid = true := by
      simp [SessionMachine.acceptsOffer, SessionMachine.inRoom, hstate, hcid]
    exact ⟨⟨fun _ => Or.inl (by simp [SessionMachine.applyOffer]), fun _ => haccepts⟩,
      fun h => by simp [haccepts] at h⟩
  | renegotiate _ _ hstate hcid =>
    have haccepts : m.acceptsOffer cid = true := by
      rcases hstate with h | h <;>
        simp [SessionMachine.acceptsOffer, SessionMachine.inRoom, h, hcid]
    exact ⟨⟨fun _ => Or.inl (by simp [SessionMachine.applyOffer]), fun _ => haccepts⟩,
      fun h => by simp [haccepts] at h⟩
  | queueOffer _ _ hstate hcid =>
    have haccepts : m.acceptsOffer cid = true := by
      simp [SessionMachine.acceptsOffer, SessionMachine.inRoom, hstate, hcid]
    exact ⟨⟨fun _ => Or.inr rfl, fun _ => haccepts⟩, fun h => by simp [haccepts] at h⟩

/-- **One offer at a time, newest last.** After every sequence of events: one offer is
unanswered in `OfferPending` and none elsewhere; every offer is applied with nothing
unanswered and its answer asked for next, after the answer of an earlier offer has gone
out; an offer is taken exactly when the machine accepts it, and otherwise nothing
happens; and once connecting or connected, the offer applied last is the one taken last
since the join, all of them applied in the order they were taken. -/
theorem negotiation_serialised (es : List Event) :
    let m := session.after es
    let out := session.emitted es
    outstanding out = (if m.state = .offerPending then 1 else 0) ∧
    (∀ front sdp rest, out = front ++ .setRemoteDescription sdp :: rest →
      outstanding front = 0 ∧ ∃ rest', rest = .createAnswer :: rest') ∧
    (∀ e sdp, m.state = .offerPending → .setRemoteDescription sdp ∈ (m.step e).2 →
      ∃ cid answer rest, e = .webrtcAnswerCreated answer ∧ m.activeCid = some cid ∧
        (m.step e).2 = .setLocalDescription answer ::
          .sendWireFrame htlcHdrVoiceSdpAnswer (encodeCidPlusSdp cid answer) :: rest) ∧
    (∀ cid sdp, (m.acceptsOffer cid = true ↔
        .setRemoteDescription sdp ∈ (m.step (.sdpOfferReceived cid sdp)).2 ∨
          (m.step (.sdpOfferReceived cid sdp)).1.queuedOffer = some (cid, sdp)) ∧
      (m.acceptsOffer cid = false → m.step (.sdpOfferReceived cid sdp) = (m, []))) ∧
    (offerLog es).applied.Sublist (offerLog es).taken ∧
    (m.state = .connecting ∨ m.state = .connected →
      ∃ sdp, (remoteSdps out).getLast? = some sdp ∧ (offerLog es).taken.getLast? = some sdp) := by
  have hlog := offersInOrder es
  refine ⟨outstanding_emitted es, fun front sdp rest => emitted_remote_split es, ?_,
    hlog.bound.offer_taken_iff, (List.sublist_append_left _ _).trans hlog.order, ?_⟩
  · intro e sdp hstate hmem
    rcases (session.after es).step_remote e with hnone | ⟨front, _, rest, hacts, _, _, _, hdrain⟩
    · simpa [hnone] using mem_remoteSdps hmem
    · obtain ⟨cid, answer, stops, he, hcid, hfront⟩ := hdrain hstate
      exact ⟨cid, answer, _, he, hcid, by rw [hacts, hfront]; rfl⟩
  · intro hstate
    have hvoice : (session.after es).inVoice = true := by
      rcases hstate with h | h <;> simp [SessionMachine.inVoice, h]
    have hnone := hlog.bound.queuedOffer_eq_none (by rcases hstate with h | h <;> simp [h])
    have hlast : (offerLog es).applied.getLast? = (offerLog es).taken.getLast? := by
      simpa [waiting, hnone] using hlog.newest (SessionMachine.inRoom_of_inVoice hvoice)
    obtain ⟨front, hfront⟩ := applied_suffix es
    obtain ⟨sdp, hsdp⟩ := Option.isSome_iff_exists.mp
      (List.getLast?_isSome.mpr (hlog.applied hvoice))
    exact ⟨sdp, by rw [← hfront]; simp [hsdp], by rw [← hlast, hsdp]⟩

end Gtkhx.Voice
