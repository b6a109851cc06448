import Gtkhx.Voice.RoomBinding

/-!
# The voice runtime

A translation of `VoiceRuntime::handle_event` and of what its dispatch does to the
runtime's own fields. Events are queued and handled one at a time: an event is taken off
the queue and stepped, its actions are dispatched in order, and then the states before
and after are compared. A call made from inside a dispatch only queues its event, and
the outer call handles it later.

One step of the model is the smallest piece between two points where other code can
run, so a run of these steps is a run of the main loop with its nested calls.
-/

namespace Gtkhx.Voice

/-- An event in the queue, with the origin it is followed by, if it is followed at all. -/
structure Posted (α : Type*) where
  event : Event
  source : Option α := none

/-- How far the outer `handle_event` call has got. -/
inductive Phase
  /-- No call is running. -/
  | idle
  /-- The call is about to take the next event. -/
  | draining
  /-- The call is dispatching the rest of a step's actions; the step began in `before`. -/
  | acting (before : SessionState) (rest : List Action)
  deriving DecidableEq

/-- The runtime's fields that decide how events are handled. -/
structure Runtime (α : Type*) where
  machine : SessionMachine := .new
  /-- Events not handled yet, oldest first. -/
  pending : List (Posted α) := []
  phase : Phase := .idle
  /-- The number of the latest `SetRemoteDescription`. -/
  answerGeneration : UInt64 := 0
  /-- The peer-connection state the peer connection last reported. -/
  lastSeenPeerState : Option ConnectionState := none
  hasBeenConnectedSinceJoin : Bool := false
  wedgeWatchdogArmedFlag : Bool := false

namespace Runtime

variable {α : Type*}

/-- Remember the peer-connection state an event reports. -/
def observe (r : Runtime α) : Event → Runtime α
  | .webrtcConnectionStateChanged state => { r with lastSeenPeerState := some state }
  | _ => r

@[simp] theorem observe_machine (r : Runtime α) (e : Event) :
    (r.observe e).machine = r.machine := by
  cases e <;> rfl

@[simp] theorem observe_phase (r : Runtime α) (e : Event) :
    (r.observe e).phase = r.phase := by
  cases e <;> rfl

@[simp] theorem observe_answerGeneration (r : Runtime α) (e : Event) :
    (r.observe e).answerGeneration = r.answerGeneration := by
  cases e <;> rfl

/-- Queue an event. The peer connection's callback remembers its state first. -/
def post (r : Runtime α) (p : Posted α) : Runtime α :=
  { r.observe p.event with pending := r.pending ++ [p] }

/-- An outer `handle_event` call. -/
def handleEvent (r : Runtime α) (p : Posted α) : Runtime α :=
  { r.post p with phase := .draining }

/-- What dispatching an action does to the runtime: an offer starts a new generation of
answers, and a teardown forgets the peer connection but not the generation. -/
def dispatch (r : Runtime α) : Action → Runtime α
  | .setRemoteDescription _ => { r with answerGeneration := r.answerGeneration + 1 }
  | .tearDown =>
    { r with
      lastSeenPeerState := none
      hasBeenConnectedSinceJoin := false
      wedgeWatchdogArmedFlag := false }
  | _ => r

@[simp] theorem dispatch_machine (r : Runtime α) (a : Action) :
    (r.dispatch a).machine = r.machine := by
  cases a <;> rfl

@[simp] theorem dispatch_pending (r : Runtime α) (a : Action) :
    (r.dispatch a).pending = r.pending := by
  cases a <;> rfl

/-- Take an event off the queue and step the machine. -/
def take (r : Runtime α) (p : Posted α) (rest : List (Posted α)) : Runtime α :=
  { r.observe p.event with
    machine := (r.machine.step p.event).1
    pending := rest
    phase := .acting r.machine.state (r.machine.step p.event).2 }

/-- Dispatch the next action. -/
def act (r : Runtime α) (before : SessionState) (a : Action) (rest : List Action) : Runtime α :=
  { r.dispatch a with phase := .acting before rest }

@[simp] theorem act_machine (r : Runtime α) (before : SessionState) (a : Action)
    (rest : List Action) : (r.act before a rest).machine = r.machine := by
  simp [act]

@[simp] theorem act_pending (r : Runtime α) (before : SessionState) (a : Action)
    (rest : List Action) : (r.act before a rest).pending = r.pending := by
  simp [act]

@[simp] theorem act_phase (r : Runtime α) (before : SessionState) (a : Action)
    (rest : List Action) : (r.act before a rest).phase = .acting before rest := rfl

/-- Compare the states before and after a step. A join starts afresh; entering
`Connecting` over a connection already up queues the `Connected` that will not be
reported again, and otherwise arms the watchdog unless the session was connected before;
every later step from `Connecting` disarms it, also one that stays there. -/
def settle (r : Runtime α) (before : SessionState) : Runtime α :=
  let r := { r with phase := .draining }
  if before ≠ .joinSent ∧ r.machine.state = .joinSent then
    { r with hasBeenConnectedSinceJoin := false, lastSeenPeerState := none }
  else if before ≠ .connecting ∧ r.machine.state = .connecting then
    if r.lastSeenPeerState = some .connected then
      { r with pending := r.pending ++ [{ event := .webrtcConnectionStateChanged .connected }] }
    else if r.hasBeenConnectedSinceJoin then r
    else { r with wedgeWatchdogArmedFlag := true }
  else if before = .connecting ∧ r.machine.state = .connected then
    { r with hasBeenConnectedSinceJoin := true, wedgeWatchdogArmedFlag := false }
  else if before = .connecting then { r with wedgeWatchdogArmedFlag := false }
  else r

@[simp] theorem settle_phase (r : Runtime α) (before : SessionState) :
    (r.settle before).phase = .draining := by
  unfold settle
  dsimp only
  split_ifs <;> rfl

end Runtime

end Gtkhx.Voice
