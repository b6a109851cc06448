import Gtkhx.Voice.Runtime

/-!
# The wedge watchdog

The watchdog is for a session that never connects: it is armed when `Connecting` is first
entered, and its tick, with no media received, ends the session. The runtime is followed with
its ticks, its queue and its nested calls.
-/

namespace Gtkhx.Voice

/-- The runtime with its watchdog. -/
structure Watched where
  runtime : Runtime Empty := {}
  /-- The session has been `Connected` since it was last joined. -/
  reached : Bool := false

/-- What happens next. -/
inductive WatchInput
  /-- The main loop hands over an event. -/
  | turn (e : Event)
  /-- A call from inside a dispatch. -/
  | reenter (e : Event)
  /-- The watchdog fires, and media has been received since it was armed, or has not. -/
  | tick (received : Bool)
  /-- The running call goes on. -/
  | advance

/-- The watchdog's deadline, which nothing but its tick reports. -/
def Event.isWedge (e : Event) : Bool := e = .timeout .wedgeDeadline

/-- No step is being dispatched. -/
def Phase.settled : Phase → Bool
  | .acting _ _ => false
  | _ => true

/-- The events that take a session out of `Connecting`: a join of another room, a leave and an
offer of this one, the refusal of its join or answer, an outcome of the connection, and the
deadline. -/
def SessionMachine.MovesOn (m : SessionMachine) : Event → Prop
  | .joinRequested cid => m.activeCid ≠ some cid
  | .leaveRequested cid => m.activeCid = some cid
  | .sdpOfferReceived cid _ => m.activeCid = some cid
  | .serverTaskError err => err.originOpcode = htlcHdrVoiceJoin ∨
      err.originOpcode = htlcHdrVoiceSdpAnswer
  | .webrtcConnectionStateChanged state => state = .connected ∨ state = .failed
  | .timeout kind => kind = .wedgeDeadline
  | _ => False

namespace Watched

/-- Whether a session has been connected since its join, once it has come to a state. -/
def reachedIn (w : Watched) : SessionState → Bool
  | .connected => true
  | .joinSent => false
  | _ => w.reached

/-- The next piece of the running call. -/
def advance (w : Watched) : Option Watched :=
  match w.runtime.phase, w.runtime.pending with
  | .idle, _ => none
  | .draining, [] => some { w with runtime := { w.runtime with phase := .idle } }
  | .draining, p :: pending =>
    some ⟨w.runtime.take p pending, w.reachedIn (w.runtime.take p pending).machine.state⟩
  | .acting before [], _ => some { w with runtime := w.runtime.settle before }
  | .acting before (a :: rest), _ => some { w with runtime := w.runtime.act before a rest }

/-- One input. The watchdog fires only while it is armed. -/
def step (w : Watched) : WatchInput → Option Watched
  | .turn e =>
    if w.runtime.phase = .idle ∧ ¬e.isWedge then
      some { w with runtime := w.runtime.handleEvent { event := e } }
    else none
  | .reenter e =>
    if ¬w.runtime.phase.settled ∧ ¬e.isWedge then
      some { w with runtime := w.runtime.post { event := e } }
    else none
  | .tick received =>
    if w.runtime.phase = .idle ∧ w.runtime.wedgeWatchdogArmedFlag then
      if w.runtime.machine.state ≠ .connecting then some w
      else if received then
        some { w with runtime := { w.runtime with wedgeWatchdogArmedFlag := true } }
      else some { w with runtime := w.runtime.handleEvent { event := .timeout .wedgeDeadline } }
    else none
  | .advance => w.advance

/-- The event taken next takes the session out of `Connecting`, if the watchdog is armed. -/
def OnlyMoves (w : Watched) (i : WatchInput) : Prop :=
  i = .advance → w.runtime.phase = .draining → w.runtime.wedgeWatchdogArmedFlag = true →
    ∀ p pending, w.runtime.pending = p :: pending → w.runtime.machine.MovesOn p.event

end Watched

/-- The watched runtime, started afresh. -/
def watching : Reactive.Process Watched WatchInput where
  start := {}
  step := Watched.step

namespace SessionMachine

/-- An event leaves a session in `Connecting` there unless it moves it on. -/
theorem step_connecting_iff {m : SessionMachine} (h : m.state = .connecting) (e : Event) :
    (m.step e).1.state = .connecting ↔ ¬m.MovesOn e := by
  have hroom : m.inRoom = true := by simp [inRoom, h]
  have ht := m.step_transition e
  generalize (m.step e).1 = m', (m.step e).2 = acts at ht
  cases ht with
  | ignored hign =>
    refine iff_of_true h ?_
    cases e with
    | webrtcConnectionStateChanged state =>
      rintro (rfl | rfl)
      · exact hign.1 rfl h
      · simp [inVoice, h, Ignores] at hign
    | timeout kind =>
      rintro rfl
      simp [Ignores, failText, h] at hign
    | joinRequested cid => exact fun hne => hne hign.2.2
    | leaveRequested cid =>
      intro heq
      rcases hign with hout | hne
      · exact absurd hroom (Bool.eq_false_iff.mp hout)
      · exact hne heq
    | sdpOfferReceived cid sdp =>
      intro heq
      have heq : m.activeCid = some cid := heq
      simp [Ignores, acceptsOffer, hroom, heq] at hign
    | serverTaskError err => exact hign.elim
    | _ => exact id
  | notice text hnot =>
    refine iff_of_true h ?_
    cases e with
    | serverTaskError err => exact fun hmoves => hmoves.elim hnot.1 hnot.2.1
    | timeout kind =>
      rintro rfl
      simp [Notices, failText, h] at hnot
    | videoStartFailed | videoPauseFailed => exact id
    | _ => exact hnot.elim
  | join cid hstate => simp [hstate] at h
  | roomSwitch cid hstate hother =>
    refine iff_of_false (by simp) (not_not_intro (hother ?_))
    rw [h]
    decide
  | leave cid _ hcid => exact iff_of_false (by simp) (not_not_intro hcid)
  | firstOffer cid sdp hstate => simp [hstate] at h
  | renegotiate cid sdp _ hcid => exact iff_of_false (by simp) (not_not_intro hcid)
  | queueOffer cid sdp hstate => simp [hstate] at h
  | drain sdp cid queuedSdp hstate => simp [hstate] at h
  | answer sdp hstate => simp [hstate] at h
  | videoStatus cid publications selfUid =>
    obtain ⟨ps, video, listed, hv⟩ := m.videoStatusReceived_fst cid publications selfUid
    exact iff_of_true (by rw [hv]; exact h) id
  | subscriptions streams =>
    obtain ⟨subscribed, stale, hf⟩ := flushSubscriptions_fst { m with wanted := sortDedup streams }
    exact iff_of_true (by rw [hf]; exact h) id
  | connect => exact iff_of_false (by simp) (not_not_intro (.inl rfl))
  | subscribeRefused err hop =>
    refine iff_of_true h fun hmoves => ?_
    rcases hmoves with heq | heq
    · rw [hop] at heq
      exact absurd heq (by decide)
    · rw [hop] at heq
      exact absurd heq (by decide)
  | failed text hfail =>
    refine iff_of_false (by simp [fail]) (not_not_intro ?_)
    cases e with
    | webrtcConnectionStateChanged state =>
      cases state with
      | failed => exact .inr rfl
      | _ => cases hfail
    | serverTaskError err =>
      simp only [failText] at hfail
      split at hfail
      · assumption
      · cases hfail
    | timeout kind => cases kind <;> simp_all [failText, MovesOn]
    | _ => cases hfail
  | _ => exact iff_of_true h id

/-- The course one step takes: the session stays where it is, is joined afresh, ends, or goes one
stage on. Only a join and an end tear the pipeline down. -/
inductive Course (m m' : SessionMachine) (acts : List Action) : Prop
  | stays (hstate : m'.state = m.state) (hkeeps : .tearDown ∉ acts)
  | joins (hstate : m'.state = .joinSent) (htears : m.state = .idle ∨ .tearDown ∈ acts)
  | ends (hroom : m'.inRoom = false) (htears : .tearDown ∈ acts)
  | offers (hfrom : m.state = .joinSent ∨ m.state = .connecting ∨ m.state = .connected)
      (hstate : m'.state = .offerPending) (hkeeps : .tearDown ∉ acts)
  | answers (hfrom : m.state = .offerPending) (hstate : m'.state = .connecting)
      (hkeeps : .tearDown ∉ acts)
  | connects (hfrom : m.state = .connecting) (hstate : m'.state = .connected)
      (hkeeps : .tearDown ∉ acts)

private theorem tearDown_notMem_applyOffer (sdp : String) : .tearDown ∉ applyOffer sdp := by
  simp [applyOffer]

private theorem tearDown_notMem_flush (m : SessionMachine) :
    .tearDown ∉ m.flushSubscriptions.2 := by
  intro hmem
  obtain ⟨_, _, _, heq⟩ := mem_flushSubscriptions_snd hmem
  cases heq

/-- Every step takes one of these courses. -/
theorem step_course (m : SessionMachine) (e : Event) : Course m (m.step e).1 (m.step e).2 := by
  have ht := m.step_transition e
  generalize (m.step e).1 = m', (m.step e).2 = acts at ht
  cases ht with
  | join cid hstate => exact .joins rfl (.inl hstate)
  | roomSwitch cid _ _ => exact .joins rfl (.inr (by simp))
  | leave cid _ _ => exact .ends rfl (by simp)
  | firstOffer cid sdp hstate _ =>
    obtain ⟨subscribed, stale, hf⟩ := flushSubscriptions_fst
      { m with midToUser := offerMids sdp, state := .offerPending }
    refine .offers (.inl hstate) (by rw [hf]) ?_
    simp [tearDown_notMem_applyOffer, tearDown_notMem_flush, stateChangedSignal]
  | renegotiate cid sdp hstate _ =>
    refine .offers (.inr hstate) rfl ?_
    simp [tearDown_notMem_applyOffer, stateChangedSignal]
  | drain sdp cid queuedSdp _ _ _ =>
    refine .stays rfl ?_
    simp [tearDown_notMem_applyOffer, answerActions]
  | answer sdp hstate _ => exact .answers hstate rfl (by simp [answerActions, stateChangedSignal])
  | connect hstate => exact .connects hstate rfl (by simp [stateChangedSignal])
  | videoStatus cid publications selfUid _ _ =>
    obtain ⟨ps, video, listed, hv⟩ := m.videoStatusReceived_fst cid publications selfUid
    refine .stays (by rw [hv]) fun hmem => ?_
    rcases mem_videoStatusReceived_snd hmem with ⟨_, heq⟩ | ⟨_, _, heq⟩
    · cases heq
    · cases heq
  | subscriptions streams =>
    obtain ⟨subscribed, stale, hf⟩ := flushSubscriptions_fst { m with wanted := sortDedup streams }
    exact .stays (by rw [hf]) (tearDown_notMem_flush _)
  | captureFailed kind text _ =>
    refine .stays rfl ?_
    cases m.inVoice <;> cases m.activeCid <;> simp [localChanged, errorSignal]
  | failed text _ => exact .ends rfl (by simp [fail])
  | _ => exact .stays rfl (by simp [errorSignal, localChanged])

end SessionMachine

namespace Watched

/-- What holds of the runtime between steps: an armed watchdog watches a session that is in
`Connecting` and never was connected, and the record of that is right while it is in a room. -/
structure Settled (r : Runtime Empty) (reached : Bool) : Prop where
  armed : r.wedgeWatchdogArmedFlag = true →
    r.machine.state = .connecting ∧ r.hasBeenConnectedSinceJoin = false
  since : r.machine.inRoom = true → r.hasBeenConnectedSinceJoin = reached
  joined : r.machine.state = .joinSent → r.hasBeenConnectedSinceJoin = false
  connected : r.machine.state = .connected → reached = true

/-- What holds while the rest of a step's actions is dispatched: the comparison that ends the
step will put the record and the watchdog right. -/
structure Acting (r : Runtime Empty) (reached : Bool) (before : SessionState) (rest : List Action) :
    Prop where
  armed : r.wedgeWatchdogArmedFlag = true → before = .connecting ∧
    r.hasBeenConnectedSinceJoin = false ∧ (r.machine.state = .joinSent → .tearDown ∈ rest)
  joined : r.machine.state = .joinSent → reached = false ∧
    (before = .joinSent → r.hasBeenConnectedSinceJoin = false)
  connected : r.machine.state = .connected → reached = true
  voice : r.machine.inVoice = true → .tearDown ∉ rest ∧
    (¬(before = .connecting ∧ r.machine.state = .connected) →
      r.hasBeenConnectedSinceJoin = reached)

/-- Handing an event over changes nothing that is compared. -/
theorem Settled.congr {r r' : Runtime Empty} {reached : Bool} (h : Settled r reached)
    (hmachine : r'.machine = r.machine)
    (hsince : r'.hasBeenConnectedSinceJoin = r.hasBeenConnectedSinceJoin)
    (harmed : r'.wedgeWatchdogArmedFlag = r.wedgeWatchdogArmedFlag) : Settled r' reached where
  armed hflag := by
    rw [hmachine, hsince]
    exact h.armed (harmed ▸ hflag)
  since hroom := by
    rw [hsince]
    exact h.since (hmachine ▸ hroom)
  joined hstate := by
    rw [hsince]
    exact h.joined (hmachine ▸ hstate)
  connected hstate := h.connected (hmachine ▸ hstate)

theorem Acting.congr {r r' : Runtime Empty} {reached : Bool} {before : SessionState}
    {rest : List Action} (h : Acting r reached before rest) (hmachine : r'.machine = r.machine)
    (hsince : r'.hasBeenConnectedSinceJoin = r.hasBeenConnectedSinceJoin)
    (harmed : r'.wedgeWatchdogArmedFlag = r.wedgeWatchdogArmedFlag) :
    Acting r' reached before rest where
  armed hflag := by
    rw [hmachine, hsince]
    exact h.armed (harmed ▸ hflag)
  joined hstate := by
    rw [hsince]
    exact h.joined (hmachine ▸ hstate)
  connected hstate := h.connected (hmachine ▸ hstate)
  voice hvoice := by
    rw [hmachine, hsince]
    exact h.voice (hmachine ▸ hvoice)

@[simp] theorem observe_since (r : Runtime Empty) (e : Event) :
    (r.observe e).hasBeenConnectedSinceJoin = r.hasBeenConnectedSinceJoin := by
  cases e <;> rfl

@[simp] theorem observe_armed (r : Runtime Empty) (e : Event) :
    (r.observe e).wedgeWatchdogArmedFlag = r.wedgeWatchdogArmedFlag := by
  cases e <;> rfl

/-- A step is taken. -/
theorem Settled.take {w : Watched} (h : Settled w.runtime w.reached) (p : Posted Empty)
    (pending : List (Posted Empty)) :
    Acting (w.runtime.take p pending) (w.reachedIn (w.runtime.take p pending).machine.state)
      w.runtime.machine.state (w.runtime.machine.step p.event).2 := by
  have hcourse := w.runtime.machine.step_course p.event
  change Acting { w.runtime.observe p.event with
    machine := (w.runtime.machine.step p.event).1, pending := pending, phase := _ }
    (w.reachedIn (w.runtime.machine.step p.event).1.state) _ _
  generalize (w.runtime.machine.step p.event).1 = m', (w.runtime.machine.step p.event).2 = acts
    at hcourse
  refine ⟨fun hflag => ?_, fun hstate => ?_, fun hstate => ?_, fun hvoice => ?_⟩
  · have harmed : w.runtime.wedgeWatchdogArmedFlag = true := by simpa using hflag
    obtain ⟨hconnecting, hsince⟩ := h.armed harmed
    refine ⟨hconnecting, by simpa using hsince, fun hjoined => ?_⟩
    have hjoined : m'.state = .joinSent := hjoined
    cases hcourse with
    | joins _ htears =>
      refine htears.resolve_left fun hidle => ?_
      rw [hconnecting] at hidle
      cases hidle
    | ends _ htears => exact htears
    | stays hstate => simp [hstate, hconnecting] at hjoined
    | offers _ hstate => simp [hstate] at hjoined
    | answers _ hstate => simp [hstate] at hjoined
    | connects _ hstate => simp [hstate] at hjoined
  · have hstate : m'.state = .joinSent := hstate
    refine ⟨by rw [hstate]; rfl, fun hbefore => ?_⟩
    simpa using h.joined hbefore
  · have hstate : m'.state = .connected := hstate
    rw [hstate]
    rfl
  · have hvoice : m'.inVoice = true := hvoice
    have hkept (hroom : w.runtime.machine.inRoom = true) (hother : m'.state ≠ .connected) :
        w.runtime.hasBeenConnectedSinceJoin = w.reachedIn m'.state := by
      rw [h.since hroom]
      cases hstate : m'.state with
      | connected => exact absurd hstate hother
      | joinSent => simp [SessionMachine.inVoice, hstate] at hvoice
      | _ => rfl
    cases hcourse with
    | stays hstate hkeeps =>
      have hwas : w.runtime.machine.inVoice = true := by
        simpa [SessionMachine.inVoice, hstate] using hvoice
      have hroom := SessionMachine.inRoom_of_inVoice hwas
      refine ⟨hkeeps, fun _ => ?_⟩
      simp only [observe_since]
      by_cases hconnected : m'.state = .connected
      · rw [h.since hroom, h.connected (hstate ▸ hconnected), hconnected]
        rfl
      · exact hkept hroom hconnected
    | joins hstate => simp [SessionMachine.inVoice, hstate] at hvoice
    | ends hroom => simp [SessionMachine.inRoom_of_inVoice hvoice] at hroom
    | offers hfrom hstate hkeeps =>
      refine ⟨hkeeps, fun _ => ?_⟩
      simp only [observe_since]
      refine hkept ?_ (by simp [hstate])
      rcases hfrom with hwas | hwas | hwas <;> simp [SessionMachine.inRoom, hwas]
    | answers hfrom hstate hkeeps =>
      refine ⟨hkeeps, fun _ => ?_⟩
      simp only [observe_since]
      exact hkept (by simp [SessionMachine.inRoom, hfrom]) (by simp [hstate])
    | connects hfrom hstate hkeeps => exact ⟨hkeeps, fun hnot => absurd ⟨hfrom, hstate⟩ hnot⟩

/-- An action is dispatched. -/
theorem Acting.act {r : Runtime Empty} {reached : Bool} {before : SessionState} {a : Action}
    {rest : List Action} (h : Acting r reached before (a :: rest)) :
    Acting (r.act before a rest) reached before rest := by
  by_cases ha : a = .tearDown
  · subst ha
    refine ⟨fun hflag => (by cases hflag), fun hstate => ⟨(h.joined hstate).1, fun _ => rfl⟩,
      h.connected, fun hvoice => ?_⟩
    exact absurd List.mem_cons_self (h.voice hvoice).1
  · have hrest : Acting r reached before rest := by
      refine ⟨fun hflag => ?_, h.joined, h.connected, fun hvoice => ?_⟩
      · obtain ⟨hbefore, hsince, htears⟩ := h.armed hflag
        refine ⟨hbefore, hsince, fun hstate => ?_⟩
        exact (List.mem_cons.mp (htears hstate)).resolve_left (Ne.symm ha)
      · obtain ⟨hkeeps, hsame⟩ := h.voice hvoice
        exact ⟨fun hmem => hkeeps (List.mem_cons_of_mem _ hmem), hsame⟩
    refine hrest.congr (by simp) ?_ ?_
    · cases a <;> first | rfl | exact absurd rfl ha
    · cases a <;> first | rfl | exact absurd rfl ha

/-- The comparison that ends a step. -/
theorem Acting.settle {r : Runtime Empty} {reached : Bool} {before : SessionState}
    (h : Acting r reached before []) : Settled (r.settle before) reached := by
  have hdisarmed (hne : before ≠ .connecting) : r.wedgeWatchdogArmedFlag = false := by
    by_contra hflag
    exact hne (h.armed (by simpa using hflag)).1
  have hsame (hvoice : r.machine.inVoice = true)
      (hnot : ¬(before = .connecting ∧ r.machine.state = .connected)) := (h.voice hvoice).2 hnot
  unfold Runtime.settle
  dsimp only
  by_cases hjoins : before ≠ .joinSent ∧ r.machine.state = .joinSent
  · rw [if_pos hjoins]
    refine ⟨fun hflag => ?_, fun _ => (h.joined hjoins.2).1.symm, fun _ => rfl, h.connected⟩
    exact absurd ((h.armed hflag).2.2 hjoins.2) List.not_mem_nil
  rw [if_neg hjoins]
  by_cases hconnecting : before ≠ .connecting ∧ r.machine.state = .connecting
  · rw [if_pos hconnecting]
    have hvoice : r.machine.inVoice = true := by
      simp [SessionMachine.inVoice, hconnecting.2]
    have hsince := hsame hvoice fun hboth => hconnecting.1 hboth.1
    have hflag := hdisarmed hconnecting.1
    have hnever (hstate : r.machine.state = .joinSent) : r.hasBeenConnectedSinceJoin = false := by
      rw [hconnecting.2] at hstate
      cases hstate
    split
    · exact ⟨fun harmed => absurd (hflag.symm.trans harmed) Bool.false_ne_true, fun _ => hsince,
        hnever, h.connected⟩
    · split
      · exact ⟨fun harmed => absurd (hflag.symm.trans harmed) Bool.false_ne_true, fun _ => hsince,
          hnever, h.connected⟩
      · rename_i hfirst
        exact ⟨fun _ => ⟨hconnecting.2, Bool.eq_false_iff.mpr hfirst⟩, fun _ => hsince, hnever,
          h.connected⟩
  rw [if_neg hconnecting]
  by_cases hconnects : before = .connecting ∧ r.machine.state = .connected
  · rw [if_pos hconnects]
    refine ⟨fun hflag => (by cases hflag), fun _ => (h.connected hconnects.2).symm,
      fun hstate => ?_, h.connected⟩
    have hstate : r.machine.state = .joinSent := hstate
    rw [hconnects.2] at hstate
    cases hstate
  rw [if_neg hconnects]
  have hjoined (hstate : r.machine.state = .joinSent) :
      before = .joinSent ∧ reached = false ∧ r.hasBeenConnectedSinceJoin = false := by
    have hbefore : before = .joinSent := by
      by_contra hne
      exact hjoins ⟨hne, hstate⟩
    exact ⟨hbefore, (h.joined hstate).1, (h.joined hstate).2 hbefore⟩
  have hsince (hroom : r.machine.inRoom = true) : r.hasBeenConnectedSinceJoin = reached := by
    cases hstate : r.machine.state with
    | joinSent => rw [(hjoined hstate).2.1, (hjoined hstate).2.2]
    | idle => simp [SessionMachine.inRoom, hstate] at hroom
    | leaving => simp [SessionMachine.inRoom, hstate] at hroom
    | _ => exact hsame (by simp [SessionMachine.inVoice, hstate]) hconnects
  by_cases hbefore : before = .connecting
  · rw [if_pos hbefore]
    exact ⟨fun hflag => (by cases hflag), hsince, fun hstate => (hjoined hstate).2.2, h.connected⟩
  · rw [if_neg hbefore]
    exact ⟨fun harmed => absurd ((hdisarmed hbefore).symm.trans harmed) Bool.false_ne_true, hsince,
      fun hstate => (hjoined hstate).2.2, h.connected⟩

/-- What every run keeps. -/
structure Guarded (w : Watched) : Prop where
  idle : w.runtime.phase = .idle → w.runtime.pending = []
  settled : w.runtime.phase.settled = true → Settled w.runtime w.reached
  acting : ∀ before rest, w.runtime.phase = .acting before rest →
    Acting w.runtime w.reached before rest
  deadline : ∀ p ∈ w.runtime.pending, p.event.isWedge = true →
    w.runtime.phase = .draining ∧ w.runtime.pending = [p] ∧
      w.runtime.wedgeWatchdogArmedFlag = true

/-- The main loop hands over an event. -/
theorem Guarded.handleEvent {w : Watched} (h : w.Guarded) (hidle : w.runtime.phase = .idle)
    {e : Event} (hwedge : e.isWedge = true → w.runtime.wedgeWatchdogArmedFlag = true) :
    Guarded { w with runtime := w.runtime.handleEvent { event := e } } := by
  have hpending := h.idle hidle
  have hsettled := h.settled (by rw [hidle]; rfl)
  refine ⟨fun hphase => (by cases hphase), fun _ => ?_, fun before rest hphase => (by cases hphase),
    fun p hp hdeadline => ⟨rfl, ?_, ?_⟩⟩
  · exact hsettled.congr (by simp [Runtime.handleEvent, Runtime.post])
      (by simp [Runtime.handleEvent, Runtime.post]) (by simp [Runtime.handleEvent, Runtime.post])
  · simp only [Runtime.handleEvent, Runtime.post, hpending, List.nil_append,
      List.mem_singleton] at hp ⊢
    rw [hp]
  · simp only [Runtime.handleEvent, Runtime.post, hpending, List.nil_append,
      List.mem_singleton] at hp
    rw [hp] at hdeadline
    simpa [Runtime.handleEvent, Runtime.post] using hwedge hdeadline

theorem Guarded.advance {w w' : Watched} (h : w.Guarded) (hstep : w.advance = some w') :
    w'.Guarded := by
  unfold Watched.advance at hstep
  split at hstep
  · cases hstep
  · rename_i hphase hpending
    obtain rfl := Option.some.inj hstep
    have hsettled := h.settled (by rw [hphase]; rfl)
    refine ⟨fun _ => hpending, fun _ => hsettled.congr rfl rfl rfl,
      fun before rest hacting => (by cases hacting), fun p hp => ?_⟩
    rw [show w.runtime.pending = [] from hpending] at hp
    cases hp
  · rename_i p pending hphase hpending
    obtain rfl := Option.some.inj hstep
    have hsettled := h.settled (by rw [hphase]; rfl)
    refine ⟨fun hidle => (by cases hidle), fun hnot => (by cases hnot),
      fun before rest hacting => ?_, fun q hq hdeadline => ?_⟩
    · obtain ⟨rfl, rfl⟩ := Phase.acting.inj hacting
      exact hsettled.take p pending
    · have hq : q ∈ pending := hq
      obtain ⟨-, hall, -⟩ := h.deadline q (hpending ▸ List.mem_cons_of_mem _ hq) hdeadline
      rw [hpending] at hall
      rw [(List.cons.inj hall).2] at hq
      cases hq
  · rename_i before hphase
    obtain rfl := Option.some.inj hstep
    have hnone : ∀ q ∈ (w.runtime.settle before).pending, q.event.isWedge = false := by
      intro q hq
      by_contra hdeadline
      have hdeadline : q.event.isWedge = true := by simpa using hdeadline
      have hold : q ∈ w.runtime.pending := by
        unfold Runtime.settle at hq
        dsimp only at hq
        split_ifs at hq
        · exact hq
        · rcases List.mem_append.mp hq with hold | hnew
          · exact hold
          · rw [List.mem_singleton.mp hnew] at hdeadline
            simp [Event.isWedge] at hdeadline
        all_goals exact hq
      have hdraining := (h.deadline q hold hdeadline).1
      rw [hphase] at hdraining
      cases hdraining
    refine ⟨fun hidle => ?_, fun _ => (h.acting before [] hphase).settle,
      fun before' rest hacting => ?_, fun q hq hdeadline => ?_⟩
    · simp at hidle
    · simp at hacting
    · rw [hnone q hq] at hdeadline
      cases hdeadline
  · rename_i before a rest hphase
    obtain rfl := Option.some.inj hstep
    refine ⟨fun hidle => (by cases hidle), fun hnot => (by cases hnot),
      fun before' rest' hacting => ?_, fun q hq hdeadline => ?_⟩
    · obtain ⟨rfl, rfl⟩ := Phase.acting.inj hacting
      exact (h.acting _ _ hphase).act
    · have hdraining := (h.deadline q (by simpa using hq) hdeadline).1
      rw [hphase] at hdraining
      cases hdraining

theorem Guarded.step {w w' : Watched} (h : w.Guarded) {i : WatchInput}
    (hstep : w.step i = some w') : w'.Guarded := by
  cases i with
  | turn e =>
    obtain ⟨⟨hidle, hwedge⟩, rfl⟩ := Option.ite_some_none_eq_some.mp hstep
    exact h.handleEvent hidle fun hdeadline => absurd hdeadline hwedge
  | reenter e =>
    obtain ⟨⟨hacting, hwedge⟩, rfl⟩ := Option.ite_some_none_eq_some.mp hstep
    refine ⟨fun hidle => ?_,
      fun hsettled => absurd hsettled (by simpa [Runtime.post] using hacting),
      fun before rest hphase => ?_, fun p hp hdeadline => ?_⟩
    · have hidle : w.runtime.phase = .idle := by simpa [Runtime.post] using hidle
      rw [hidle] at hacting
      exact absurd rfl hacting
    · have hphase : w.runtime.phase = .acting before rest := by
        simpa [Runtime.post] using hphase
      exact (h.acting before rest hphase).congr (by simp [Runtime.post]) (by simp [Runtime.post])
        (by simp [Runtime.post])
    · rcases List.mem_append.mp hp with hold | hnew
      · have hdraining := (h.deadline p hold hdeadline).1
        rw [hdraining] at hacting
        exact absurd rfl hacting
      · rw [List.mem_singleton.mp hnew] at hdeadline
        exact absurd hdeadline hwedge
  | tick received =>
    simp only [Watched.step] at hstep
    split at hstep
    · rename_i hfires
      split at hstep
      · exact Option.some.inj hstep ▸ h
      · split at hstep
        · obtain rfl := Option.some.inj hstep
          have hflag : w.runtime.wedgeWatchdogArmedFlag = true := hfires.2
          have hsettled := h.settled (by rw [hfires.1]; rfl)
          refine ⟨h.idle, fun _ => hsettled.congr rfl rfl hflag.symm, fun before rest hphase => ?_,
            fun p hp hdeadline => ?_⟩
          · have hphase : w.runtime.phase = .acting before rest := hphase
            rw [hfires.1] at hphase
            cases hphase
          · obtain ⟨hdraining, hone, -⟩ := h.deadline p hp hdeadline
            exact ⟨hdraining, hone, rfl⟩
        · exact Option.some.inj hstep ▸ h.handleEvent hfires.1 fun _ => hfires.2
    · cases hstep
  | advance => exact h.advance hstep

theorem guarded_of_run {inputs : List WatchInput} {w : Watched}
    (hrun : watching.run inputs = some w) : w.Guarded := by
  refine Reactive.Process.invariant (P := watching) (Q := Guarded) ?_
    (fun _ _ _ h hstep => h.step hstep) hrun
  refine ⟨fun _ => rfl, fun _ => ⟨fun hflag => (by cases hflag), fun _ => rfl, fun _ => rfl,
    fun hstate => (by cases hstate)⟩, fun before rest hphase => (by cases hphase),
    fun p hp => (by cases hp)⟩

/-- The peer connection's `Connected` is on its way to the machine. -/
def Announced (r : Runtime Empty) : Prop :=
  ∃ p ∈ r.pending, p.event = .webrtcConnectionStateChanged .connected

/-- A session in its first `Connecting` is watched, or about to be told that it is connected. -/
structure Attended (w : Watched) : Prop where
  settled : w.runtime.phase.settled = true → w.runtime.machine.state = .connecting →
    w.runtime.hasBeenConnectedSinceJoin = false →
    w.runtime.wedgeWatchdogArmedFlag = true ∨ Announced w.runtime
  acting : ∀ rest, w.runtime.phase = .acting .connecting rest →
    w.runtime.machine.state = .connecting → w.runtime.hasBeenConnectedSinceJoin = false →
    Announced w.runtime

/-- Nothing that is queued takes an announcement off the queue. -/
theorem Announced.post {r : Runtime Empty} (h : Announced r) (p : Posted Empty) :
    Announced (r.post p) := by
  obtain ⟨q, hq, hevent⟩ := h
  exact ⟨q, List.mem_append_left _ hq, hevent⟩

theorem Attended.handleEvent {w : Watched} (h : w.Attended) (hidle : w.runtime.phase = .idle)
    (e : Event) : Attended { w with runtime := w.runtime.handleEvent { event := e } } := by
  refine ⟨fun _ hstate hsince => ?_, fun rest hphase => (by cases hphase)⟩
  rcases h.settled (by rw [hidle]; rfl) (by simpa [Runtime.handleEvent, Runtime.post] using hstate)
    (by simpa [Runtime.handleEvent, Runtime.post] using hsince) with hflag | hannounced
  · exact .inl (by simpa [Runtime.handleEvent, Runtime.post] using hflag)
  · exact .inr (hannounced.post _)

theorem Attended.settle {w : Watched} (hguarded : w.Guarded) (h : w.Attended)
    {before : SessionState} (hphase : w.runtime.phase = .acting before []) :
    Attended { w with runtime := w.runtime.settle before } := by
  have hacting := hguarded.acting before [] hphase
  refine ⟨fun _ => ?_, fun rest hacting => by simp at hacting⟩
  change (w.runtime.settle before).machine.state = .connecting →
    (w.runtime.settle before).hasBeenConnectedSinceJoin = false →
    (w.runtime.settle before).wedgeWatchdogArmedFlag = true ∨ Announced (w.runtime.settle before)
  have hsame : (w.runtime.settle before).machine = w.runtime.machine := by
    unfold Runtime.settle
    dsimp only
    split_ifs <;> rfl
  rw [hsame]
  intro hstate
  unfold Runtime.settle
  dsimp only
  rw [if_neg (by simp [hstate])]
  by_cases hbefore : before = .connecting
  · have hnot : ¬(before = .connecting ∧ w.runtime.machine.state = .connected) := by
      simp [hstate]
    rw [if_neg (fun hboth => hboth.1 hbefore), if_neg hnot, if_pos hbefore]
    exact fun hsince => .inr (h.acting [] (hbefore ▸ hphase) hstate hsince)
  · rw [if_pos ⟨hbefore, hstate⟩]
    split_ifs with hseen hsince
    · exact fun _ => .inr ⟨_, List.mem_append_right _ (List.mem_singleton_self _), rfl⟩
    · exact fun hnever => absurd (hnever.symm.trans hsince) Bool.false_ne_true
    · exact fun _ => .inl rfl

theorem Attended.step {w w' : Watched} (hguarded : w.Guarded) (h : w.Attended) {i : WatchInput}
    (hmoves : w.OnlyMoves i) (hstep : w.step i = some w') : w'.Attended := by
  cases i with
  | turn e =>
    obtain ⟨⟨hidle, -⟩, rfl⟩ := Option.ite_some_none_eq_some.mp hstep
    exact h.handleEvent hidle e
  | reenter e =>
    obtain ⟨⟨hacting, -⟩, rfl⟩ := Option.ite_some_none_eq_some.mp hstep
    refine ⟨fun hsettled => absurd hsettled (by simpa [Runtime.post] using hacting),
      fun rest hphase hstate hsince => ?_⟩
    exact (h.acting rest (by simpa [Runtime.post] using hphase)
      (by simpa [Runtime.post] using hstate) (by simpa [Runtime.post] using hsince)).post _
  | tick received =>
    simp only [Watched.step] at hstep
    split at hstep
    · rename_i hfires
      split at hstep
      · exact Option.some.inj hstep ▸ h
      · split at hstep
        · obtain rfl := Option.some.inj hstep
          exact ⟨fun _ _ _ => .inl rfl, fun rest hphase => h.acting rest hphase⟩
        · exact Option.some.inj hstep ▸ h.handleEvent hfires.1 _
    · cases hstep
  | advance =>
    simp only [Watched.step, Watched.advance] at hstep
    split at hstep
    · cases hstep
    · rename_i hphase hpending
      obtain rfl := Option.some.inj hstep
      exact ⟨fun _ => h.settled (by rw [hphase]; rfl), fun rest hacting => (by cases hacting)⟩
    · rename_i p pending hphase hpending
      obtain rfl := Option.some.inj hstep
      refine ⟨fun hnot => (by cases hnot), fun rest hacting hstate hsince => ?_⟩
      have hbefore : w.runtime.machine.state = .connecting := (Phase.acting.inj hacting).1
      have hstays := (SessionMachine.step_connecting_iff hbefore p.event).mp hstate
      rcases h.settled (by rw [hphase]; rfl) hbefore
        (by simpa [Runtime.take] using hsince) with hflag | ⟨q, hq, hevent⟩
      · exact absurd (hmoves rfl hphase hflag p pending hpending) hstays
      · rw [hpending] at hq
        rcases List.mem_cons.mp hq with rfl | hrest
        · rw [hevent] at hstays
          exact absurd (.inl rfl) hstays
        · exact ⟨q, hrest, hevent⟩
    · rename_i before hphase
      obtain rfl := Option.some.inj hstep
      exact Attended.settle hguarded h hphase
    · rename_i before a rest hphase
      obtain rfl := Option.some.inj hstep
      refine ⟨fun hnot => (by cases hnot), fun rest' hacting hstate hsince => ?_⟩
      obtain ⟨rfl, rfl⟩ := Phase.acting.inj hacting
      have hstate : w.runtime.machine.state = .connecting := by simpa using hstate
      have hkeeps := ((hguarded.acting _ _ hphase).voice
        (by simp [SessionMachine.inVoice, hstate])).1
      have hsince' : w.runtime.hasBeenConnectedSinceJoin = false := by
        cases a <;> first | exact hsince | exact absurd List.mem_cons_self hkeeps
      obtain ⟨q, hq, hevent⟩ := h.acting _ hphase hstate hsince'
      exact ⟨q, by simpa using hq, hevent⟩

end Watched

/-- **When the watchdog watches.** Between steps an armed watchdog watches a session in
`Connecting` that was never connected, and its deadline is taken only by such a session. And
where no event is taken in `Connecting` that leaves an armed session there, a session in its
first `Connecting` has its watchdog whenever the queue is empty. -/
theorem watchdog_watches (inputs : List WatchInput) (w : Watched)
    (hrun : watching.run inputs = some w) :
    (w.runtime.phase.settled = true → w.runtime.wedgeWatchdogArmedFlag = true →
      w.runtime.machine.state = .connecting ∧ w.runtime.hasBeenConnectedSinceJoin = false) ∧
    (∀ p pending, w.runtime.phase = .draining → w.runtime.pending = p :: pending →
      p.event.isWedge = true → w.runtime.machine.state = .connecting ∧ w.reached = false) ∧
    (watching.Along Watched.OnlyMoves inputs → w.runtime.phase.settled = true →
      w.runtime.pending = [] → w.runtime.machine.state = .connecting →
      w.runtime.hasBeenConnectedSinceJoin = false → w.runtime.wedgeWatchdogArmedFlag = true) := by
  have h := Watched.guarded_of_run hrun
  refine ⟨fun hsettled => (h.settled hsettled).armed,
    fun p pending hphase hpending hdeadline => ?_, fun hmoves hsettled hpending hstate hsince => ?_⟩
  · have hsettled := h.settled (by rw [hphase]; rfl)
    have hmem : p ∈ w.runtime.pending := hpending ▸ List.mem_cons_self
    obtain ⟨hstate, hsince⟩ := hsettled.armed (h.deadline p hmem hdeadline).2.2
    refine ⟨hstate, ?_⟩
    rw [← hsettled.since (by simp [SessionMachine.inRoom, hstate]), hsince]
  · have hboth : w.Guarded ∧ w.Attended := by
      refine Reactive.Process.invariant_along (P := watching)
        (Q := fun w => w.Guarded ∧ w.Attended) ?_ ?_ hrun hmoves
      · exact ⟨Watched.guarded_of_run (Reactive.Process.run_nil watching),
          fun _ hstate => (by cases hstate), fun rest hphase => (by cases hphase)⟩
      · exact fun w i w' hw hmove hstep => ⟨hw.1.step hstep, hw.2.step hw.1 hmove hstep⟩
    refine (hboth.2.settled hsettled hstate hsince).resolve_right ?_
    rintro ⟨p, hp, -⟩
    rw [hpending] at hp
    cases hp

/-- A join of room 1, its offer and the answer. -/
def firstConnecting : List WatchInput :=
  [.turn (.joinRequested 1)] ++ List.replicate 6 .advance ++
    [.turn (.sdpOfferReceived 1 "")] ++ List.replicate 7 .advance ++
    [.turn (.webrtcAnswerCreated "")] ++ List.replicate 8 .advance

theorem first_connecting_watched : ∃ w, watching.run firstConnecting = some w ∧
    w.runtime.machine.state = .connecting ∧ w.runtime.phase = .idle ∧
    w.runtime.wedgeWatchdogArmedFlag = true ∧ w.runtime.hasBeenConnectedSinceJoin = false := by
  refine ⟨_, rfl, rfl, rfl, rfl, ?_⟩
  exact ((watchdog_watches firstConnecting _ rfl).1 rfl rfl).2

/-- One candidate of the server's, handled while connecting, disarms it. -/
theorem candidate_disarms : ∃ w, watching.run (firstConnecting ++
      [.turn (.iceCandidateReceived 1 "")] ++ List.replicate 4 .advance) = some w ∧
    w.runtime.machine.state = .connecting ∧ w.runtime.phase = .idle ∧ w.runtime.pending = [] ∧
    w.runtime.hasBeenConnectedSinceJoin = false ∧ w.runtime.wedgeWatchdogArmedFlag = false := by
  refine ⟨_, rfl, ?_⟩
  decide

end Gtkhx.Voice
