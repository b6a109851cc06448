import Gtkhx.Voice.RoomBinding

/-!
# Who owns the microphone

The token of `voice_arbiter`, the sessions with their runtimes, and the handlers of the voice
panel that ask for the token, take it and give it up. A handler is one step: the main loop runs
nothing else meanwhile, but for what the pipeline reports while a runtime dispatches.
-/

namespace Gtkhx.Voice

/-- A connection's serial. Zero is no connection's. -/
abbrev ConnKey := UInt16

/-- Who holds the microphone. -/
structure Holder where
  conn : ConnKey
  cid : UInt32
  deriving DecidableEq

/-- What acquiring the token requires of the caller. -/
inductive Acquire
  | free
  | preempts (h : Holder)
  deriving DecidableEq

/-- A voice panel: the connection it is for, and its room there. -/
structure Panel where
  conn : ConnKey
  cid : UInt32
  deriving DecidableEq

/-- A session, with what voice uses of it and of its connection. -/
structure Session where
  /-- The connection is up, and the login was answered. -/
  connected : Bool := false
  /-- The server agreed to voice. -/
  voiceCap : Bool := false
  voiceRuntime : Option SessionMachine := none

/-- The token, the live sessions by serial, and the panels whose question is open. -/
structure Arbiter where
  sessions : ConnKey → Option Session := fun _ => none
  holder : Option Holder := none
  dialogs : List Panel := []

/-- Anything past `Idle`, except `Leaving`, reads as in voice. -/
def stateIsJoined : SessionState → Bool
  | .joinSent | .offerPending | .connecting | .connected => true
  | .idle | .leaving => false

/-- What a runtime's pipeline reports, which it can do while the runtime dispatches. -/
def Event.ofPipeline : Event → Bool
  | .webrtcPadAdded _ | .webrtcPadRemoved _ | .webrtcAnswerCreated _
  | .webrtcLocalIceGathered _ | .webrtcConnectionStateChanged _ | .videoCaptureFailed _ _ => true
  | _ => false

/-- What only a voice panel asks of a runtime. -/
def Event.ofPanel : Event → Bool
  | .joinRequested _ | .leaveRequested _ => true
  | _ => false

namespace Arbiter

/-- The live session of a serial, named by that serial; `none` is NULL. -/
def sessionWithSerial (a : Arbiter) (serial : ConnKey) : Option ConnKey :=
  if serial ≠ 0 ∧ (a.sessions serial).isSome then some serial else none

/-- The serial of a session. NULL reads as zero. -/
def keyForSession (sess : Option ConnKey) : ConnKey := sess.getD 0

/-- Ask what joining a room would cost. -/
def acquire (a : Arbiter) (sess : Option ConnKey) (cid : UInt32) : Acquire :=
  match a.holder with
  | some h => if h.conn = keyForSession sess ∧ h.cid = cid then .free else .preempts h
  | none => .free

/-- Record the holder. -/
def take (a : Arbiter) (sess : Option ConnKey) (cid : UInt32) : Arbiter :=
  { a with holder := some ⟨keyForSession sess, cid⟩ }

/-- Give the token up, if this pair is holding it. -/
def releaseConn (a : Arbiter) (conn : ConnKey) (cid : UInt32) : Arbiter :=
  { a with holder := if a.holder = some ⟨conn, cid⟩ then none else a.holder }

/-- Give the token up if the session holds it, whichever room. -/
def releaseSession (a : Arbiter) (sess : Option ConnKey) : Arbiter :=
  if keyForSession sess = 0 then a
  else
    { a with
      holder := if a.holder.map Holder.conn = some (keyForSession sess) then none else a.holder }

/-- The runtime of a connection, if it has one. -/
def runtime (a : Arbiter) (conn : ConnKey) : Option SessionMachine :=
  (a.sessions conn).bind Session.voiceRuntime

/-- The room a connection's machine is in. -/
def activeCid (a : Arbiter) (conn : ConnKey) : Option UInt32 :=
  (a.runtime conn).bind SessionMachine.activeCid

/-- A connection's runtime, replaced. -/
def setRuntime (a : Arbiter) (conn : ConnKey) (m : SessionMachine) : Arbiter :=
  { a with
    sessions := Function.update a.sessions conn
      ((a.sessions conn).map fun s => { s with voiceRuntime := some m }) }

/-- The panel's callback for a changed state: out of the room by any route, the token goes. -/
def stateChangedCb (a : Arbiter) (conn : ConnKey) (state : SessionState) : Arbiter :=
  if stateIsJoined state then a else a.releaseSession (a.sessionWithSerial conn)

/-- What a runtime's action does to the token. -/
def dispatch (conn : ConnKey) (a : Arbiter) : Action → Arbiter
  | .emitSignal .stateChanged (.stateChanged state) => a.stateChangedCb conn state
  | _ => a

/-- A runtime steps its machine and dispatches the actions. -/
def stepRuntime (conn : ConnKey) (a : Arbiter) (e : Event) : Arbiter :=
  match a.runtime conn with
  | some m => (m.step e).2.foldl (dispatch conn) (a.setRuntime conn (m.step e).1)
  | none => a

/-- `handle_event`: the event, and then what was queued while its actions were dispatched. -/
def handleEvent (a : Arbiter) (conn : ConnKey) (e : Event) (queued : List Event) : Arbiter :=
  match a.runtime conn with
  | some m =>
    (if (m.step e).2.isEmpty then [] else queued).foldl (stepRuntime conn) (stepRuntime conn a e)
  | none => a

/-- Free the microphone that `held` has. A room of the joiner's own connection is left by the
join that follows, so nothing is sent for it. -/
def leaveHolder (a : Arbiter) (held : Holder) (joiner : ConnKey) (queued : List Event) : Arbiter :=
  let a := if held.conn ≠ joiner then
      a.handleEvent held.conn (.leaveRequested held.cid) queued
    else a
  a.releaseConn held.conn held.cid

/-- Leave the room a panel is in. -/
def leaveNow (a : Arbiter) (p : Panel) (queued : List Event) : Arbiter :=
  (a.handleEvent p.conn (.leaveRequested p.cid) queued).releaseConn p.conn p.cid

/-- A 600 goes only where the server agreed to voice. -/
def sendVoiceJoin (a : Arbiter) (conn : ConnKey) : Bool :=
  match a.sessionWithSerial conn, a.sessions conn with
  | some _, some s => s.voiceCap
  | _, _ => false

/-- The runtime of a connection, built if there is none and it can be built. -/
def ensureVoiceRuntime (a : Arbiter) (conn : ConnKey) (built : Bool) : Option Arbiter :=
  match a.runtime conn with
  | some _ => some a
  | none => if built then some (a.setRuntime conn .new) else none

/-- Join the room a panel is in, and take the token once the join has gone out. -/
def joinNow (a : Arbiter) (p : Panel) (built : Bool) (queued : List Event) : Arbiter :=
  if a.sendVoiceJoin p.conn then
    match a.ensureVoiceRuntime p.conn built with
    | some a' =>
      ((a'.handleEvent p.conn (.joinRequested p.cid) queued).handleEvent p.conn
        (.muteToggleRequested true) []).take (a.sessionWithSerial p.conn) p.cid
    | none => a
  else a

/-- The join button of a panel is pressed: in, or out. Where the token is someone else's the
question is asked, and nothing else is done. -/
def onJoinToggled (a : Arbiter) (p : Panel) (wantJoined built : Bool) (queued : List Event) :
    Arbiter :=
  match a.sessionWithSerial p.conn with
  | none => a
  | some sess =>
    if wantJoined then
      match a.acquire (some sess) p.cid with
      | .free => a.joinNow p built queued
      | .preempts _ => { a with dialogs := p :: a.dialogs }
    else a.leaveNow p queued

/-- The question was answered with `switch`: who holds the token is asked again. -/
def switched (a : Arbiter) (p : Panel) (built : Bool) (left joined : List Event) : Arbiter :=
  match a.acquire (a.sessionWithSerial p.conn) p.cid with
  | .free => a.joinNow p built joined
  | .preempts now => (a.leaveHolder now p.conn left).joinNow p built joined

/-- `hx_htlc_close`: the runtime is freed, and the token given up. -/
def htlcClose (a : Arbiter) (conn : ConnKey) : Arbiter :=
  { a with sessions := Function.update a.sessions conn ((a.sessions conn).map fun _ => {}) }
    |>.releaseSession (a.sessionWithSerial conn)

/-- `hx_session_close`: a connection that is up is closed, and then its session goes. -/
def sessionClose (a : Arbiter) (conn : ConnKey) : Arbiter :=
  let a := if (a.sessions conn).any Session.connected then a.htlcClose conn else a
  { a with sessions := Function.update a.sessions conn none }

end Arbiter

/-- What happens next. -/
inductive ArbiterInput
  /-- A tab is opened. -/
  | opened (conn : ConnKey)
  /-- A login is answered, with voice or without. -/
  | loggedIn (conn : ConnKey) (voiceCap : Bool)
  /-- A panel's join button is pressed. -/
  | toggled (p : Panel) (wantJoined built : Bool) (queued : List Event)
  /-- A panel's question is answered. -/
  | answered (p : Panel) (switch built : Bool) (left joined : List Event)
  /-- Something happens to a runtime that no panel asked for. -/
  | event (conn : ConnKey) (e : Event) (queued : List Event)
  /-- A connection is closed, by either side. -/
  | closed (conn : ConnKey)
  /-- A tab is closed. -/
  | removed (conn : ConnKey)

namespace Arbiter

/-- One handler, from the main loop. -/
def step (a : Arbiter) : ArbiterInput → Option Arbiter
  | .opened conn =>
    if conn ≠ 0 ∧ (a.sessions conn).isNone then
      some { a with sessions := Function.update a.sessions conn (some {}) }
    else none
  | .loggedIn conn voiceCap =>
    match a.sessions conn with
    | some s =>
      if s.connected then none
      else
        some { a with
          sessions := Function.update a.sessions conn
            (some { s with connected := true, voiceCap := voiceCap }) }
    | none => none
  | .toggled p wantJoined built queued =>
    if queued.all Event.ofPipeline then some (a.onJoinToggled p wantJoined built queued) else none
  | .answered p switch built left joined =>
    if p ∈ a.dialogs ∧ left.all Event.ofPipeline ∧ joined.all Event.ofPipeline then
      let a := { a with dialogs := a.dialogs.erase p }
      if switch then some (a.switched p built left joined) else some a
    else none
  | .event conn e queued =>
    if ¬e.ofPanel ∧ queued.all Event.ofPipeline then some (a.handleEvent conn e queued) else none
  | .closed conn =>
    if (a.sessions conn).any Session.connected then some (a.htlcClose conn) else none
  | .removed conn => some (a.sessionClose conn)

end Arbiter

/-- The voice chats of a client, with no tab open yet. -/
def arbitration : Reactive.Process Arbiter ArbiterInput where
  start := {}
  step := Arbiter.step

end Gtkhx.Voice
