import Gtkhx.Voice.Runtime

/-!
# Callbacks of a discarded peer connection

The peer connection reports its state, its ICE candidates and its pads from threads of
its own, each report as a message to the main loop that names the runtime and not the
pipeline. A teardown replaces the pipeline under the same runtime, so a report may be
delivered after its pipeline is gone. The pipelines are numbered here, each message keeps
the number of the one that sent it, and every late delivery is judged by what it does to
the session it finds.
-/

namespace Gtkhx.Voice

/-- What a peer connection reports. -/
inductive Callback
  | connectionState (state : ConnectionState)
  | iceCandidate (candidateJson : String)
  | padAdded (mid : String)
  deriving DecidableEq

/-- The event a report is handed over as. -/
def Callback.event : Callback → Event
  | .connectionState state => .webrtcConnectionStateChanged state
  | .iceCandidate candidateJson => .webrtcLocalIceGathered candidateJson
  | .padAdded mid => .webrtcPadAdded mid

/-- The events only a peer connection reports. -/
def Event.isCallback : Event → Bool
  | .webrtcConnectionStateChanged _ => true
  | .webrtcLocalIceGathered _ => true
  | .webrtcPadAdded _ => true
  | _ => false

/-- A report on its way to the main loop. -/
structure Message where
  /-- The number of the pipeline that sent it. -/
  pipeline : ℕ
  callback : Callback
  deriving DecidableEq

/-- The runtime, the pipeline it has now, and the messages on their way. -/
structure Callbacks where
  runtime : Runtime Empty := {}
  /-- How many pipelines have been torn down, which is the number of the live one. -/
  pipeline : ℕ := 0
  inFlight : List Message := []

/-- What happens next. -/
inductive CallbackInput
  /-- A source of the main loop hands over an event that no peer connection reports. -/
  | turn (e : Event)
  /-- A call from inside a dispatch. -/
  | reenter (e : Event)
  /-- The live pipeline sends a message. -/
  | send (callback : Callback)
  /-- The main loop delivers one of the messages. -/
  | deliver (k : ℕ)
  /-- The running call goes on. -/
  | advance

namespace Callbacks

/-- The message an input delivers: only the main loop delivers, and only between calls. -/
def arrival (w : Callbacks) : CallbackInput → Option Message
  | .deliver k => if w.runtime.phase = .idle then w.inFlight[k]? else none
  | _ => none

/-- The next piece of the running call. A teardown replaces the pipeline. -/
def advance (w : Callbacks) : Option Callbacks :=
  match w.runtime.phase, w.runtime.pending with
  | .idle, _ => none
  | .draining, [] => some { w with runtime := { w.runtime with phase := .idle } }
  | .draining, p :: pending => some { w with runtime := w.runtime.take p pending }
  | .acting before [], _ => some { w with runtime := w.runtime.settle before }
  | .acting before (a :: rest), _ =>
    some { w with
      runtime := w.runtime.act before a rest
      pipeline := if a = .tearDown then w.pipeline + 1 else w.pipeline }

/-- One input. -/
def step (w : Callbacks) : CallbackInput → Option Callbacks
  | .turn e =>
    if w.runtime.phase = .idle ∧ ¬e.isCallback then
      some { w with runtime := w.runtime.handleEvent { event := e } }
    else none
  | .reenter e =>
    match w.runtime.phase with
    | .acting _ _ => some { w with runtime := w.runtime.post { event := e } }
    | _ => none
  | .send callback => some { w with inFlight := w.inFlight ++ [⟨w.pipeline, callback⟩] }
  | .deliver k => (w.arrival (.deliver k)).map fun message =>
    { w with
      runtime := w.runtime.handleEvent { event := message.callback.event }
      inFlight := w.inFlight.eraseIdx k }
  | .advance => w.advance

/-- A message of a pipeline that is gone, delivered now. -/
def Late (w : Callbacks) (i : CallbackInput) (callback : Callback) : Prop :=
  ∃ n < w.pipeline, w.arrival i = some ⟨n, callback⟩

/-- The runtime when a delivered report has been taken off the queue, which is empty
between calls, and stepped. -/
def delivered (w : Callbacks) (callback : Callback) : Runtime Empty :=
  (w.runtime.handleEvent { event := callback.event }).take { event := callback.event } []

/-- Whether an action reaches the server or the pipeline. -/
def reaches : Action → Bool
  | .sendWireFrame _ _ => true
  | .tearDown => true
  | _ => false

/-- A delivery does nothing to the session it finds: the machine stays as it is, a session
that has a room keeps the peer state it has seen, and nothing is sent or torn down. -/
def Leaves (w : Callbacks) (callback : Callback) : Prop :=
  (w.delivered callback).machine = w.runtime.machine ∧
  (w.runtime.machine.inRoom = true →
    (w.delivered callback).lastSeenPeerState = w.runtime.lastSeenPeerState) ∧
  ∀ before acts, (w.delivered callback).phase = .acting before acts →
    ∀ a ∈ acts, reaches a = false

/-- Every late delivery does nothing to the session it finds. -/
def Spared (w : Callbacks) (i : CallbackInput) : Prop :=
  ∀ callback, w.Late i callback → w.Leaves callback

/-- A report that finds nothing to act on: a pad; a candidate outside voice; a connection
state outside a room, or one seen before that neither completes nor fails the session. -/
def Inert (r : Runtime Empty) : Callback → Prop
  | .padAdded _ => True
  | .iceCandidate _ => r.machine.inVoice = false
  | .connectionState state =>
    r.machine.inRoom = false ∨
      (r.lastSeenPeerState = some state ∧ ¬(state = .failed ∧ r.machine.inVoice = true) ∧
        ¬(state = .connected ∧ r.machine.state = .connecting))

/-- Every late delivery finds nothing to act on. -/
def OnlyInert (w : Callbacks) (i : CallbackInput) : Prop :=
  ∀ callback, w.Late i callback → Inert w.runtime callback

end Callbacks

/-- The runtime with its peer connections, started afresh. -/
def callbacks : Reactive.Process Callbacks CallbackInput where
  start := {}
  step := Callbacks.step

namespace Callbacks

/-- Between calls the queue is empty. -/
theorem pending_of_idle {is : List CallbackInput} {w : Callbacks}
    (hrun : callbacks.run is = some w) : w.runtime.phase = .idle → w.runtime.pending = [] := by
  refine Reactive.Process.invariant (P := callbacks)
    (Q := fun w => w.runtime.phase = .idle → w.runtime.pending = []) (fun _ => rfl) ?_ hrun
  intro w i w' hw hstep
  cases i with
  | turn e =>
    simp only [callbacks, step] at hstep
    split_ifs at hstep
    obtain rfl := Option.some.inj hstep
    simp [Runtime.handleEvent]
  | reenter e =>
    simp only [callbacks, step] at hstep
    split at hstep
    · rename_i before acts hphase
      obtain rfl := Option.some.inj hstep
      simp [Runtime.post, hphase]
    · cases hstep
  | send callback =>
    obtain rfl := Option.some.inj hstep
    exact hw
  | deliver k =>
    obtain ⟨message, _, rfl⟩ := Option.map_eq_some_iff.mp hstep
    simp [Runtime.handleEvent]
  | advance =>
    simp only [callbacks, step, advance] at hstep
    split at hstep
    · cases hstep
    · rename_i _ hpending
      obtain rfl := Option.some.inj hstep
      exact fun _ => hpending
    all_goals
      obtain rfl := Option.some.inj hstep
      simp [Runtime.take, Runtime.settle_phase]

/-- A delivery and the step after it bring the runtime to the state it is judged by. -/
theorem delivered_of_arrival {is : List CallbackInput} {w : Callbacks} {i : CallbackInput}
    {message : Message} (hrun : callbacks.run is = some w) (hi : w.arrival i = some message) :
    ∃ w', callbacks.run (is ++ [i] ++ [.advance]) = some w' ∧
      w'.runtime = w.delivered message.callback := by
  cases i with
  | deliver k =>
    have hidle : w.runtime.phase = .idle := by
      by_contra hbusy
      simp [arrival, hbusy] at hi
    have hpending := pending_of_idle hrun hidle
    have hstep : callbacks.step w (.deliver k) = some
        { w with
          runtime := w.runtime.handleEvent { event := message.callback.event }
          inFlight := w.inFlight.eraseIdx k } := by
      simp only [callbacks, step, hi, Option.map_some]
    refine ⟨{ w with
        runtime := w.delivered message.callback
        inFlight := w.inFlight.eraseIdx k }, ?_, rfl⟩
    refine Reactive.Process.run_snoc.mpr
      ⟨_, Reactive.Process.run_snoc.mpr ⟨w, hrun, hstep⟩, ?_⟩
    simp [callbacks, step, advance, Runtime.handleEvent, Runtime.post, hpending, delivered]
  | _ => cases hi

@[simp] private theorem delivered_machine (w : Callbacks) (callback : Callback) :
    (w.delivered callback).machine = (w.runtime.machine.step callback.event).1 := by
  cases callback <;> rfl

@[simp] private theorem delivered_phase (w : Callbacks) (callback : Callback) :
    (w.delivered callback).phase =
      .acting w.runtime.machine.state (w.runtime.machine.step callback.event).2 := by
  cases callback <;> rfl

private theorem connectionState_inert {m : SessionMachine} {state : ConnectionState}
    (hfailed : ¬(state = .failed ∧ m.inVoice = true))
    (hconnected : ¬(state = .connected ∧ m.state = .connecting)) :
    m.step (.webrtcConnectionStateChanged state) = (m, []) := by
  cases hstate : m.state <;> cases state <;>
    simp_all [SessionMachine.step, SessionMachine.webrtcConnectionStateChanged,
      SessionMachine.inVoice]

private theorem inRoom_of_connecting {m : SessionMachine} (h : m.state = .connecting) :
    m.inRoom = true := by
  simp [SessionMachine.inRoom, h]

private theorem leaves_connectionState (w : Callbacks) (state : ConnectionState) :
    w.Leaves (.connectionState state) ↔ Inert w.runtime (.connectionState state) := by
  have hseen : (w.delivered (.connectionState state)).lastSeenPeerState = some state := rfl
  constructor
  · rintro ⟨hmachine, hkept, hacts⟩
    by_cases hroom : w.runtime.machine.inRoom = true
    · refine Or.inr ⟨by rw [← hkept hroom, hseen], ?_, ?_⟩
      · rintro ⟨rfl, hvoice⟩
        have hfail := SessionMachine.step_of_failText (m := w.runtime.machine)
          (e := .webrtcConnectionStateChanged .failed) (if_pos hvoice)
        have hall := hacts _ _ (w.delivered_phase _)
        simp only [Callback.event, hfail] at hall
        exact absurd (hall .tearDown (by simp [SessionMachine.fail])) (by decide)
      · rintro ⟨rfl, hconnecting⟩
        rw [delivered_machine] at hmachine
        have hstate := congrArg SessionMachine.state hmachine
        simp [Callback.event, SessionMachine.step, SessionMachine.webrtcConnectionStateChanged,
          hconnecting, SessionMachine.setState] at hstate
    · exact Or.inl (by simpa using hroom)
  · intro hinert
    have hstep : w.runtime.machine.step (.webrtcConnectionStateChanged state) =
        (w.runtime.machine, []) := by
      rcases hinert with hout | ⟨_, hfailed, hconnected⟩
      · refine connectionState_inert ?_ ?_
        · rintro ⟨_, hvoice⟩
          simp [SessionMachine.inRoom_of_inVoice hvoice] at hout
        · rintro ⟨_, hconnecting⟩
          simp [inRoom_of_connecting hconnecting] at hout
      · exact connectionState_inert hfailed hconnected
    refine ⟨by simp [Callback.event, hstep], fun hroom => ?_, ?_⟩
    · rcases hinert with hout | ⟨hlast, _, _⟩
      · simp [hroom] at hout
      · rw [hseen, hlast]
    · simp [Callback.event, hstep]

private theorem leaves_iceCandidate (w : Callbacks) (candidateJson : String) :
    w.Leaves (.iceCandidate candidateJson) ↔ Inert w.runtime (.iceCandidate candidateJson) := by
  have hseen : (w.delivered (.iceCandidate candidateJson)).lastSeenPeerState =
      w.runtime.lastSeenPeerState := rfl
  cases hvoice : w.runtime.machine.inVoice <;>
    simp [Leaves, Inert, hseen, hvoice, Callback.event, SessionMachine.step, reaches]

private theorem leaves_padAdded (w : Callbacks) (mid : String) :
    w.Leaves (.padAdded mid) := by
  have hseen : (w.delivered (.padAdded mid)).lastSeenPeerState = w.runtime.lastSeenPeerState :=
    rfl
  cases hvoice : w.runtime.machine.inVoice <;>
    simp [Leaves, hseen, hvoice, Callback.event, SessionMachine.step, reaches]

/-- A late delivery spares the session exactly when it finds nothing to act on. -/
private theorem spared_iff (w : Callbacks) (i : CallbackInput) :
    w.Spared i ↔ w.OnlyInert i := by
  have hone (callback : Callback) : w.Leaves callback ↔ Inert w.runtime callback := by
    cases callback with
    | connectionState state => exact w.leaves_connectionState state
    | iceCandidate candidateJson => exact w.leaves_iceCandidate candidateJson
    | padAdded mid => exact iff_of_true (w.leaves_padAdded mid) trivial
  exact forall₂_congr (fun callback _ => hone callback)

end Callbacks

/-- **When a discarded peer connection cannot act.** In every run, each report of a
discarded pipeline leaves the session it is delivered to alone, exactly when each of them
finds nothing to act on: it is a pad, or a candidate outside voice, or a connection state
outside a room or seen before that neither completes nor fails the session. -/
theorem callbacks_spare_iff (is : List CallbackInput) :
    callbacks.Along Callbacks.Spared is ↔ callbacks.Along Callbacks.OnlyInert is := by
  simp only [Reactive.Process.Along, Callbacks.spared_iff]

/-- A switch from room 1 to room 2 with a failure of the first connection on its way. -/
def lateFailure : List CallbackInput :=
  [.turn (.joinRequested 1)] ++ List.replicate 6 .advance ++ [.send (.connectionState .failed)] ++
    [.turn (.joinRequested 2)] ++ List.replicate 11 .advance ++
    [.turn (.sdpOfferReceived 2 "")] ++ List.replicate 7 .advance

/-- Delivered after the second room's offer, it fails the second room. -/
theorem late_failure_collapses : ¬∀ is, callbacks.Along Callbacks.Spared is := by
  intro h
  have hrun : callbacks.run lateFailure = some _ := rfl
  have hleaves := h (lateFailure ++ [.deliver 0]) lateFailure (.deliver 0) _
    (List.prefix_refl _) hrun (.connectionState .failed) ⟨0, by decide, by decide⟩
  exact absurd (congrArg SessionMachine.state hleaves.1) (by decide)

end Gtkhx.Voice
