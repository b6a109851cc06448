import Gtkhx.Voice.Event

/-!
# Outbound effects of the voice session

The definitions of `hxvoice::action`, together with the session states that signals
carry. A step of the machine returns a list of actions, and the runtime dispatches
them in order.
-/

namespace Gtkhx.Voice

/-- What the machine is currently doing. -/
inductive SessionState
  | idle
  | joinSent
  | offerPending
  | connecting
  | connected
  | leaving
  deriving DecidableEq, Repr

/-- Which timer is armed, cancelled or fired. -/
abbrev TimerKind := Timeout

/-- The session signals the machine asks the runtime to emit. -/
inductive SignalKind
  | roomStatus
  | stateChanged
  | error
  | muteChanged
  | speakerChanged
  | videoStatus
  | videoLocalChanged
  deriving DecidableEq, Repr

/-- What a signal carries. -/
inductive SignalPayload
  | roomStatus (cid : UInt32) (connectionState : ConnectionState)
  | stateChanged (newState : SessionState)
  | error (text : String)
  | muteChanged (muted : Bool)
  | speakerChanged (uid : UInt16) (isSpeaking : Bool)
  | videoStatus (cid : UInt32)
  | videoLocalChanged (kind : VideoKind) (publishing paused : Bool)
  deriving DecidableEq, Repr

/-- What the machine wants done in response to an event. -/
inductive Action
  | sendWireFrame (opcode : UInt32) (body : List UInt8)
  | setRemoteDescription (sdp : String)
  | createAnswer
  | setLocalDescription (sdp : String)
  | addRemoteIce (candidateJson : String)
  | startReceivePipeline (mid : String) (userId : UInt16)
  | stopReceivePipeline (mid : String)
  | setSendPipelineMute (muted : Bool)
  | setVideoPublishing (kind : VideoKind) (publishing : Bool)
  | setVideoPaused (kind : VideoKind) (paused : Bool)
  | emitSignal (kind : SignalKind) (payload : SignalPayload)
  | armTimer (kind : TimerKind) (ms : UInt32)
  | cancelTimer (kind : TimerKind)
  | tearDown
  deriving DecidableEq, Repr

/-- The error toast. -/
def errorSignal (text : String) : Action := .emitSignal .error (.error text)

/-- The signal of a changed session state. -/
def stateChangedSignal (newState : SessionState) : Action :=
  .emitSignal .stateChanged (.stateChanged newState)

/-- The signal of a changed local publication: `none` not publishing, `some paused`
otherwise. -/
def localChanged (kind : VideoKind) (state : Option Bool) : Action :=
  .emitSignal .videoLocalChanged (.videoLocalChanged kind state.isSome (state.getD false))

end Gtkhx.Voice
