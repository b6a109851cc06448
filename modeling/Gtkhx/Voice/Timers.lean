import Gtkhx.Voice.RoomBinding
import Mathlib.Data.Finset.Insert
import Mathlib.Data.Finset.Card

/-!
# The session's timers

`ArmTimer` puts a kind into a set, `CancelTimer` takes it out, and a `Timeout` is
delivered only for a kind in the set, which it takes out as well. The set is followed
over whole runs: which timers a state can still have, and which of them end a session
that waits for nothing else.
-/

namespace Gtkhx.Voice

/-- The machine together with the timers that are armed. -/
structure Timed where
  machine : SessionMachine
  armed : Finset TimerKind

/-- What an action does to the armed timers. -/
def applyTimer (armed : Finset TimerKind) : Action → Finset TimerKind
  | .armTimer kind _ => insert kind armed
  | .cancelTimer kind => armed.erase kind
  | _ => armed

/-- The timers after a list of actions. -/
def applyTimers (armed : Finset TimerKind) (acts : List Action) : Finset TimerKind :=
  acts.foldl applyTimer armed

namespace Timed

/-- The timers left to an event: a timeout uses its own up. -/
def deliver (s : Timed) : Event → Finset TimerKind
  | .timeout kind => s.armed.erase kind
  | _ => s.armed

/-- Whether an event can happen: a timeout only while its timer is armed. -/
def deliverable (s : Timed) : Event → Bool
  | .timeout kind => kind ∈ s.armed
  | _ => true

/-- One event of a timed session. -/
def step (s : Timed) (e : Event) : Option Timed :=
  if s.deliverable e then
    some ⟨(s.machine.step e).1, applyTimers (s.deliver e) (s.machine.step e).2⟩
  else none

/-- No session timer outlives the session: none is armed outside a room, and only the
join's own while the join is unanswered. -/
def TimersBounded (s : Timed) : Prop :=
  (s.machine.state = .idle ∨ s.machine.state = .leaving → s.armed = ∅) ∧
  (s.machine.state = .joinSent → s.armed ⊆ {.joinReply})

/-- A collapse that forgets a timer: one in `OfferPending` cancels only the join's timer,
and one in `Connecting` leaves the media timer, though a renegotiation can have brought
either along. -/
def Strands (s : Timed) (e : Event) : Prop :=
  (s.machine.failText e).isSome = true ∧
  ((s.machine.state = .offerPending ∧
      (.dtls ∈ s.armed ∨ .iceConnectivity ∈ s.armed ∨ .media ∈ s.armed)) ∨
    (s.machine.state = .connecting ∧ .media ∈ s.armed))

/-- A timer whose expiry ends the session: it goes to `Leaving`, leaves the room on the
wire and tears the pipeline down. -/
def Rescues (s : Timed) (kind : TimerKind) : Prop :=
  (s.machine.step (.timeout kind)).1.state = .leaving ∧
  (∃ cid, s.machine.activeCid = some cid ∧
    .sendWireFrame htlcHdrVoiceLeave (encodeCidOnly cid) ∈
      (s.machine.step (.timeout kind)).2) ∧
  .tearDown ∈ (s.machine.step (.timeout kind)).2

end Timed

/-- The timed session, started afresh with no timer armed. -/
def timers : Reactive.Process Timed Event where
  start := ⟨.new, ∅⟩
  step := Timed.step

@[simp] theorem applyTimers_nil (armed : Finset TimerKind) : applyTimers armed [] = armed := rfl

@[simp] theorem applyTimers_cons (armed : Finset TimerKind) (a : Action) (acts : List Action) :
    applyTimers armed (a :: acts) = applyTimers (applyTimer armed a) acts := rfl

@[simp] theorem applyTimers_append (armed : Finset TimerKind) (acts more : List Action) :
    applyTimers armed (acts ++ more) = applyTimers (applyTimers armed acts) more :=
  List.foldl_append

/-- Actions that arm and cancel nothing leave the timers alone. -/
theorem applyTimers_of_forall {armed : Finset TimerKind} {acts : List Action}
    (h : ∀ a ∈ acts, applyTimer armed a = armed) : applyTimers armed acts = armed := by
  induction acts with
  | nil => rfl
  | cons a acts ih =>
    rw [applyTimers_cons, h a (by simp)]
    exact ih (fun b hb => h b (by simp [hb]))

@[simp] theorem applyTimers_applyOffer (armed : Finset TimerKind) (sdp : String) :
    applyTimers armed (SessionMachine.applyOffer sdp) = armed := by
  refine applyTimers_of_forall (fun a ha => ?_)
  simp only [SessionMachine.applyOffer, List.mem_append, List.mem_map, List.mem_cons,
    List.not_mem_nil, or_false] at ha
  rcases ha with ⟨mid, _, rfl⟩ | rfl | rfl <;> rfl

@[simp] theorem applyTimers_answerActions (armed : Finset TimerKind) (cid : UInt32)
    (sdp : String) : applyTimers armed (SessionMachine.answerActions cid sdp) = armed := rfl

@[simp] theorem applyTimers_flush (armed : Finset TimerKind) (m : SessionMachine) :
    applyTimers armed m.flushSubscriptions.2 = armed := by
  refine applyTimers_of_forall (fun a ha => ?_)
  obtain ⟨_, cid, _, rfl⟩ := SessionMachine.mem_flushSubscriptions_snd ha
  rfl

/-- Cancelling every kind a session arms leaves only what it never arms. -/
theorem applyTimers_cancelAll {armed : Finset TimerKind} (hwedge : .wedgeDeadline ∉ armed) :
    applyTimers armed SessionMachine.cancelAllTimers = ∅ := by
  ext kind
  cases kind <;> simp [SessionMachine.cancelAllTimers, applyTimer, hwedge]

/-- What a collapse leaves of the timers. -/
theorem mem_applyTimers_fail {m : SessionMachine} {text : String} {armed : Finset TimerKind}
    {kind : TimerKind} : kind ∈ applyTimers armed (m.fail text).2 ↔
      kind ∈ armed ∧ kind ≠ .joinReply ∧
      (m.state = .connecting ∨ m.state = .connected → kind ≠ .dtls ∧ kind ≠ .iceConnectivity) ∧
      (m.state = .connected → kind ≠ .media) := by
  cases hcid : m.activeCid <;> cases hstate : m.state <;>
    simp [SessionMachine.fail, hcid, hstate, applyTimer, errorSignal, stateChangedSignal] <;>
    tauto

namespace Timed

/-- What holds of the armed timers in every run: nothing arms the wedge deadline, an idle
session has none, an unanswered join has exactly its own, and an answered one no longer
has it. -/
structure TimersKept (s : Timed) : Prop where
  wedge : .wedgeDeadline ∉ s.armed
  idle : s.machine.state = .idle → s.armed = ∅
  joining : s.machine.state = .joinSent → s.armed = {.joinReply}
  joined : s.machine.inVoice = true → .joinReply ∉ s.armed

theorem deliver_subset (s : Timed) (e : Event) : s.deliver e ⊆ s.armed := by
  cases e with
  | timeout kind => exact Finset.erase_subset _ _
  | _ => exact Finset.Subset.refl _

/-- A step happens when its event can, and then runs the machine and its timer actions. -/
theorem step_eq_some {s s' : Timed} {e : Event} (h : s.step e = some s') :
    s.deliverable e = true ∧
      s' = ⟨(s.machine.step e).1, applyTimers (s.deliver e) (s.machine.step e).2⟩ := by
  unfold step at h
  split_ifs at h with hd
  exact ⟨hd, by simpa using h.symm⟩

/-- A step that stays in its state and arms nothing keeps what holds of the timers. -/
private theorem TimersKept.mono {s s' : Timed} (h : s.TimersKept)
    (hstate : s'.machine.state = s.machine.state) (hsub : s'.armed ⊆ s.armed)
    (hjoin : s.machine.state = .joinSent → s'.armed = s.armed) : s'.TimersKept where
  wedge := fun hmem => h.wedge (hsub hmem)
  idle := by
    intro hidle
    have hnone := h.idle (hstate ▸ hidle)
    rw [hnone] at hsub
    exact Finset.subset_empty.mp hsub
  joining := by
    intro hjoining
    have hs := hstate ▸ hjoining
    rw [hjoin hs]
    exact h.joining hs
  joined := by
    intro hvoice hmem
    exact h.joined (by simpa [SessionMachine.inVoice, hstate] using hvoice) (hsub hmem)

/-- The join's own timer is the only one that can run out before the first offer, and that
ends the session. -/
private theorem TimersKept.deliver_joining {s : Timed} (h : s.TimersKept) {e : Event}
    (hd : s.deliverable e = true) (hstay : s.machine.failText e = none)
    (hstate : s.machine.state = .joinSent) : s.deliver e = s.armed := by
  cases e with
  | timeout kind =>
    have hkind : kind = .joinReply := by simpa [deliverable, h.joining hstate] using hd
    simp [hkind, SessionMachine.failText, hstate] at hstay
  | _ => rfl

/-- One step keeps what holds of the timers. -/
theorem TimersKept.step {s : Timed} (h : s.TimersKept) {e : Event}
    (hd : s.deliverable e = true) :
    TimersKept ⟨(s.machine.step e).1, applyTimers (s.deliver e) (s.machine.step e).2⟩ := by
  have hcancel : applyTimers (s.deliver e) SessionMachine.cancelAllTimers = ∅ :=
    applyTimers_cancelAll (fun hmem => h.wedge (s.deliver_subset e hmem))
  have ht := s.machine.step_transition e
  generalize (s.machine.step e).1 = m', (s.machine.step e).2 = acts at ht
  cases ht with
  | ignored hign =>
    exact h.mono rfl (s.deliver_subset e)
      (h.deliver_joining hd (SessionMachine.failText_of_ignores hign))
  | notice text hnot =>
    exact h.mono rfl (s.deliver_subset e)
      (h.deliver_joining hd (SessionMachine.failText_of_notices hnot))
  | join cid hstate =>
    have hnone : applyTimers (s.deliver (.joinRequested cid))
        [.sendWireFrame htlcHdrVoiceJoin (encodeCidOnly cid),
          .armTimer .joinReply joinReplyTimeoutMs, stateChangedSignal .joinSent] =
        {.joinReply} := by
      simp [applyTimer, stateChangedSignal, deliver, h.idle hstate]
    rw [hnone]
    exact ⟨by simp, by simp, fun _ => rfl, by simp [SessionMachine.inVoice]⟩
  | roomSwitch cid hstate hother =>
    rw [applyTimers_append, hcancel]
    exact ⟨by simp [applyTimer, stateChangedSignal], by simp,
      by simp [applyTimer, stateChangedSignal], by simp [SessionMachine.inVoice]⟩
  | leave cid hroom hcid =>
    rw [applyTimers_append, hcancel]
    exact ⟨by simp [applyTimer, stateChangedSignal], fun _ => rfl, by simp,
      by simp [SessionMachine.inVoice]⟩
  | firstOffer cid sdp hstate hcid =>
    obtain ⟨subscribed, stale, hf⟩ := SessionMachine.flushSubscriptions_fst
      { s.machine with midToUser := offerMids sdp, state := .offerPending }
    have hnone : applyTimers (s.deliver (.sdpOfferReceived cid sdp))
        (.cancelTimer .joinReply :: SessionMachine.applyOffer sdp ++
          [stateChangedSignal .offerPending] ++ { s.machine with
            midToUser := offerMids sdp, state := .offerPending }.flushSubscriptions.2) = ∅ := by
      simp [applyTimer, stateChangedSignal, deliver, h.joining hstate]
    rw [hnone, hf]
    exact ⟨by simp, by simp, by simp, by simp⟩
  | renegotiate cid sdp hstate hcid =>
    have hvoice : s.machine.inVoice = true := by
      rcases hstate with hs | hs <;> simp [SessionMachine.inVoice, hs]
    rw [applyTimers_append, applyTimers_applyOffer]
    exact ⟨h.wedge, by simp, by simp, fun _ => h.joined hvoice⟩
  | drain sdp cid queuedSdp hstate hqueued hcid =>
    rw [applyTimers_append, applyTimers_applyOffer]
    exact h.mono rfl (Finset.Subset.refl _) (fun _ => rfl)
  | answer sdp hstate hqueued =>
    have hvoice : s.machine.inVoice = true := by simp [SessionMachine.inVoice, hstate]
    rw [applyTimers_append, applyTimers_answerActions]
    exact ⟨by simp [applyTimer, stateChangedSignal, deliver, h.wedge], by simp, by simp,
      by simp [applyTimer, stateChangedSignal, deliver, h.joined hvoice]⟩
  | connect hstate =>
    have hvoice : s.machine.inVoice = true := by simp [SessionMachine.inVoice, hstate]
    exact ⟨by simp [applyTimer, stateChangedSignal, deliver, h.wedge], by simp, by simp,
      by simp [applyTimer, stateChangedSignal, deliver, h.joined hvoice]⟩
  | videoStatus cid publications selfUid hroom hcid =>
    obtain ⟨ps, video, listed, hv⟩ := s.machine.videoStatusReceived_fst cid publications selfUid
    have hsame : applyTimers s.armed
        (s.machine.videoStatusReceived cid publications selfUid).2 = s.armed := by
      refine applyTimers_of_forall (fun a ha => ?_)
      rcases SessionMachine.mem_videoStatusReceived_snd ha with ⟨kind, rfl⟩ | ⟨_, _, rfl⟩ <;> rfl
    exact h.mono (by rw [hv]) hsame.subset (fun _ => hsame)
  | subscriptions streams =>
    obtain ⟨subscribed, stale, hf⟩ := SessionMachine.flushSubscriptions_fst
      { s.machine with wanted := sortDedup streams }
    rw [applyTimers_flush]
    exact h.mono (by rw [hf]) (Finset.Subset.refl _) (fun _ => rfl)
  | captureFailed kind text hsome =>
    refine h.mono rfl ?_ (fun _ => ?_)
    · cases s.machine.inVoice <;> cases s.machine.activeCid <;> exact Finset.Subset.refl _
    · cases s.machine.inVoice <;> cases s.machine.activeCid <;> rfl
  | failed text hfail =>
    refine ⟨fun hmem => ?_, by simp [SessionMachine.fail], by simp [SessionMachine.fail],
      by simp [SessionMachine.fail, SessionMachine.inVoice]⟩
    exact h.wedge (s.deliver_subset e (mem_applyTimers_fail.mp hmem).1)
  | _ => exact h.mono rfl (Finset.Subset.refl _) (fun _ => rfl)

end Timed

/-- A timed run drives the machine through its events. -/
theorem machine_of_run {es : List Event} {s : Timed} (hrun : timers.run es = some s) :
    s.machine = session.after es := by
  induction es using List.reverseRecOn generalizing s with
  | nil =>
    obtain rfl : timers.start = s := by simpa using hrun
    rfl
  | append_singleton es e ih =>
    obtain ⟨s₀, hrun₀, hstep⟩ := Reactive.Process.run_snoc.mp hrun
    obtain ⟨_, rfl⟩ := Timed.step_eq_some hstep
    rw [Reactive.Machine.after_snoc, ← ih hrun₀, session_step]

/-- What holds of the timers holds at the end of every run. -/
theorem timersKept_of_run {es : List Event} {s : Timed} (hrun : timers.run es = some s) :
    s.TimersKept :=
  Reactive.Process.invariant (P := timers) (Q := Timed.TimersKept)
    ⟨by simp [timers], fun _ => rfl, by simp [timers, SessionMachine.new],
      by simp [timers]⟩
    (fun s e s' hs hstep => by
      obtain ⟨hd, rfl⟩ := Timed.step_eq_some hstep
      exact hs.step hd) hrun

/-- A step that ends in `Leaving` is a collapse, or happened there and armed nothing. -/
private theorem step_leaving {m : SessionMachine} {e : Event}
    (h : (m.step e).1.state = .leaving) :
    (m.state = .leaving ∧ ∀ armed, applyTimers armed (m.step e).2 ⊆ armed) ∨
      ∃ text, m.failText e = some text ∧ (m.step e).2 = (m.fail text).2 := by
  have ht := m.step_transition e
  generalize (m.step e).1 = m', (m.step e).2 = acts at ht h
  cases ht with
  | join | roomSwitch | leave | renegotiate | answer | connect => simp at h
  | failed text hfail => exact Or.inr ⟨text, hfail, rfl⟩
  | firstOffer cid sdp hstate hcid =>
    obtain ⟨subscribed, stale, hf⟩ := SessionMachine.flushSubscriptions_fst
      { m with midToUser := offerMids sdp, state := .offerPending }
    simp [hf] at h
  | queueOffer | drain => simp_all
  | videoStatus cid publications selfUid hroom hcid =>
    obtain ⟨ps, video, listed, hv⟩ := m.videoStatusReceived_fst cid publications selfUid
    simp_all [SessionMachine.inRoom]
  | subscriptions streams =>
    obtain ⟨subscribed, stale, hf⟩ := SessionMachine.flushSubscriptions_fst
      { m with wanted := sortDedup streams }
    exact Or.inl ⟨by simpa [hf] using h, fun armed => by rw [applyTimers_flush]⟩
  | captureFailed kind text hsome =>
    refine Or.inl ⟨h, fun armed => ?_⟩
    cases m.inVoice <;> cases m.activeCid <;> exact Finset.Subset.refl _
  | _ => exact Or.inl ⟨h, fun armed => Finset.Subset.refl _⟩

namespace Timed

/-- A collapse that strands nothing leaves no timer armed. -/
private theorem applyTimers_fail_eq_empty {s : Timed} (h : s.TimersKept)
    (hleaving : s.machine.state = .leaving → s.armed = ∅) {e : Event} {text : String}
    (hfail : s.machine.failText e = some text) (hok : ¬s.Strands e) :
    applyTimers (s.deliver e) (s.machine.fail text).2 = ∅ := by
  refine Finset.eq_empty_of_forall_notMem (fun kind hmem => ?_)
  obtain ⟨hdeliver, hjoin, hconnecting, hconnected⟩ := mem_applyTimers_fail.mp hmem
  have harmed : kind ∈ s.armed := s.deliver_subset e hdeliver
  have hstays : ¬((s.machine.state = .offerPending ∧
      (.dtls ∈ s.armed ∨ .iceConnectivity ∈ s.armed ∨ .media ∈ s.armed)) ∨
      (s.machine.state = .connecting ∧ .media ∈ s.armed)) :=
    fun hs => hok ⟨by simp [hfail], hs⟩
  cases hstate : s.machine.state with
  | idle => simp [h.idle hstate] at harmed
  | joinSent => exact hjoin (by simpa [h.joining hstate] using harmed)
  | leaving => simp [hleaving hstate] at harmed
  | offerPending =>
    cases kind with
    | joinReply => exact hjoin rfl
    | wedgeDeadline => exact h.wedge harmed
    | _ => simp [hstate, harmed] at hstays
  | connecting =>
    cases kind with
    | joinReply => exact hjoin rfl
    | dtls | iceConnectivity => simp [hstate] at hconnecting
    | media => simp [hstate, harmed] at hstays
    | wedgeDeadline => exact h.wedge harmed
  | connected =>
    cases kind with
    | joinReply => exact hjoin rfl
    | dtls | iceConnectivity => simp [hstate] at hconnecting
    | media => exact hconnected hstate rfl
    | wedgeDeadline => exact h.wedge harmed

/-- A collapse that strands a timer leaves it armed in `Leaving`. -/
private theorem Strands.not_bounded {s s' : Timed} {e : Event} (h : s.Strands e)
    (hstep : s.step e = some s') : ¬s'.TimersBounded := by
  obtain ⟨hfails, hcase⟩ := h
  obtain ⟨text, hfail⟩ := Option.isSome_iff_exists.mp hfails
  obtain ⟨_, rfl⟩ := step_eq_some hstep
  rw [SessionMachine.step_of_failText hfail]
  intro hbounded
  have hnone : applyTimers (s.deliver e) (s.machine.fail text).2 = ∅ :=
    hbounded.1 (Or.inr rfl)
  have hgone (kind : TimerKind) (hkind : kind ∈ s.deliver e)
      (hjoin : kind ≠ .joinReply)
      (hconnecting : s.machine.state = .connecting ∨ s.machine.state = .connected →
        kind ≠ .dtls ∧ kind ≠ .iceConnectivity)
      (hconnected : s.machine.state = .connected → kind ≠ .media) : False := by
    have hmem : kind ∈ applyTimers (s.deliver e) (s.machine.fail text).2 :=
      mem_applyTimers_fail.mpr ⟨hkind, hjoin, hconnecting, hconnected⟩
    rw [hnone] at hmem
    exact Finset.notMem_empty kind hmem
  have hdeliver (kind : TimerKind) (harmed : kind ∈ s.armed) (hkind : kind ≠ .joinReply)
      (hwedge : kind ≠ .wedgeDeadline) : kind ∈ s.deliver e := by
    cases e with
    | timeout other =>
      refine Finset.mem_erase.mpr ⟨?_, harmed⟩
      rintro rfl
      cases kind <;> simp_all [SessionMachine.failText]
    | _ => exact harmed
  rcases hcase with ⟨hstate, hd | hi | hm⟩ | ⟨hstate, hm⟩
  · exact hgone _ (hdeliver _ hd (by simp) (by simp)) (by simp) (by simp [hstate])
      (by simp [hstate])
  · exact hgone _ (hdeliver _ hi (by simp) (by simp)) (by simp) (by simp [hstate])
      (by simp [hstate])
  · exact hgone _ (hdeliver _ hm (by simp) (by simp)) (by simp) (by simp [hstate])
      (by simp [hstate])
  · exact hgone _ (hdeliver _ hm (by simp) (by simp)) (by simp) (by simp)
      (by simp [hstate])

end Timed

/-- Along a run that strands nothing, `Leaving` has no timer armed. -/
private theorem leaving_empty {es : List Event} {s : Timed} (hrun : timers.run es = some s)
    (hok : timers.Along (fun s e => ¬s.Strands e) es) :
    s.machine.state = .leaving → s.armed = ∅ := by
  refine (Reactive.Process.invariant_along (P := timers) (C := fun s e => ¬s.Strands e)
    (Q := fun s => s.TimersKept ∧ (s.machine.state = .leaving → s.armed = ∅))
    ⟨timersKept_of_run (Reactive.Process.run_nil timers), fun _ => rfl⟩ ?_ hrun hok).2
  rintro s e s' ⟨hkept, hleaving⟩ hok hstep
  obtain ⟨hd, rfl⟩ := Timed.step_eq_some hstep
  refine ⟨hkept.step hd, fun hstate => ?_⟩
  rcases step_leaving hstate with ⟨hbefore, hsub⟩ | ⟨text, hfail, hacts⟩
  · have hdeliver := s.deliver_subset e
    rw [hleaving hbefore] at hdeliver
    exact Finset.subset_empty.mp ((hsub _).trans hdeliver)
  · simp only [hacts]
    exact Timed.applyTimers_fail_eq_empty hkept hleaving hfail hok

/-- **When no timer outlives its session.** The timers are bounded in every state of a run
exactly when no step of it collapses the session in `OfferPending` while a `Dtls`,
`IceConnectivity` or `Media` timer is armed, or in `Connecting` while a `Media` timer is. -/
theorem timers_bounded_iff {es : List Event} {s : Timed} (hrun : timers.run es = some s) :
    timers.Throughout Timed.TimersBounded es ↔ timers.Along (fun s e => ¬s.Strands e) es := by
  constructor
  · intro hbounded before e s₀ hbegin hrun₀ hstrands
    obtain ⟨s₁, hrun₁⟩ := Reactive.Process.run_of_begin hbegin hrun
    obtain ⟨s₀', hrun₀', hstep⟩ := Reactive.Process.run_snoc.mp hrun₁
    obtain rfl : s₀' = s₀ := by simpa [hrun₀'] using hrun₀
    exact hstrands.not_bounded hstep (hbounded _ s₁ hbegin hrun₁)
  · intro hok before s₀ hbegin hrun₀
    have hkept := timersKept_of_run hrun₀
    refine ⟨?_, fun hstate => (hkept.joining hstate).subset⟩
    rintro (hstate | hstate)
    · exact hkept.idle hstate
    · exact leaving_empty hrun₀ (hok.of_begin hbegin) hstate

/-- A join whose first offer fails to connect is such a run: it ends in `Leaving` with
nothing armed. -/
theorem timers_bounded_of_failed_first_offer :
    ∃ s, timers.run [.joinRequested 1, .sdpOfferReceived 1 "",
        .webrtcConnectionStateChanged .failed] = some s ∧
      s.machine.state = .leaving ∧ s.armed = ∅ ∧
      (timers.Throughout Timed.TimersBounded [.joinRequested 1, .sdpOfferReceived 1 "",
          .webrtcConnectionStateChanged .failed] ↔
        timers.Along (fun s e => ¬s.Strands e) [.joinRequested 1, .sdpOfferReceived 1 "",
          .webrtcConnectionStateChanged .failed]) :=
  ⟨_, rfl, by decide, by decide, timers_bounded_iff rfl⟩

/-- A renegotiation that fails before its answer leaves the first answer's timers armed in
`Leaving`. -/
theorem timers_outlive_failed_renegotiation :
    ¬∀ es s, timers.run es = some s → s.TimersBounded := by
  intro h
  have hbounded := h [.joinRequested 1, .sdpOfferReceived 1 "", .webrtcAnswerCreated "",
    .sdpOfferReceived 1 "", .webrtcConnectionStateChanged .failed] _ rfl
  exact absurd (hbounded.1 (Or.inr (by decide))) (by decide)

/-- **Which handshake states have a watchdog.** A session that waits for its first offer
always has a timer armed that would end it, and one that waits for an answer never has. -/
theorem watchdog_iff_joinSent {es : List Event} {s : Timed} (hrun : timers.run es = some s)
    (hwaiting : s.machine.state = .joinSent ∨ s.machine.state = .offerPending) :
    (∃ kind ∈ s.armed, s.Rescues kind) ↔ s.machine.state = .joinSent := by
  constructor
  · rintro ⟨kind, _, hrescue⟩
    rcases hwaiting with hstate | hstate
    · exact hstate
    · have hnone : s.machine.step (.timeout kind) = (s.machine, []) := by
        cases kind <;> simp [SessionMachine.step, SessionMachine.timeout, hstate]
      simp [Timed.Rescues, hnone] at hrescue
  · intro hstate
    have hbound : s.machine.RoomBound := machine_of_run hrun ▸ roomBound_after es
    obtain ⟨cid, hcid⟩ := Option.isSome_iff_exists.mp
      (hbound.active_iff.mpr (by simp [SessionMachine.inRoom, hstate]))
    have hstep : s.machine.step (.timeout .joinReply) =
        s.machine.fail "Server did not reply to voice join" :=
      SessionMachine.step_of_failText (by simp [SessionMachine.failText, hstate])
    refine ⟨.joinReply, by simp [(timersKept_of_run hrun).joining hstate], ?_⟩
    refine ⟨by rw [hstep]; rfl, ⟨cid, hcid, ?_⟩, ?_⟩
    · simp [hstep, SessionMachine.fail, hcid]
    · simp [hstep, SessionMachine.fail]

/-- A join nobody answers has its watchdog. -/
theorem watchdog_of_unanswered_join :
    ∃ s, timers.run [.joinRequested 1] = some s ∧ s.machine.state = .joinSent ∧
      ((∃ kind ∈ s.armed, s.Rescues kind) ↔ s.machine.state = .joinSent) :=
  have hrun : timers.run [.joinRequested 1] = timers.step timers.start (.joinRequested 1) := rfl
  ⟨_, rfl, by decide, watchdog_iff_joinSent hrun (by decide)⟩

/-- After the first offer nothing ends a session whose answer never comes. -/
theorem no_watchdog_after_first_offer :
    ¬∀ es s, timers.run es = some s →
      s.machine.state = .joinSent ∨ s.machine.state = .offerPending →
      ∃ kind ∈ s.armed, s.Rescues kind := by
  intro h
  obtain ⟨kind, hkind, _⟩ := h [.joinRequested 1, .sdpOfferReceived 1 ""] _ rfl
    (Or.inr (by decide))
  exact absurd hkind (by cases kind <;> decide)

end Gtkhx.Voice
