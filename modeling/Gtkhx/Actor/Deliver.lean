import Mathlib.Data.Finset.Basic
import Mathlib.Data.List.Infix

/-!
# What the session says

The connection actor is the input and output of a session outside the repository, which is
a parameter here: what it is fed, what it has to write and the events it has to say.
`deliver` hands each event on to the consumer; which of them go on as the session's own
depends on the messaging requests in flight and on what the server agreed to.
-/

namespace Gtkhx.Actor

/-- `Closed`: why a session closed. -/
inductive Closed
  | badMagic (got : List UInt8)
  | loginRefused (reason : Option String)
  | timeout
  | protocol (what : String)
  | tooLarge (wireLen : UInt32)
  | hangup
  deriving DecidableEq, Repr

/-- A session's events: what a login reply said, and what the others carry, are of any
types. -/
inductive SessionEvent (ι ο : Type*)
  | reply (trans : UInt32) (frame : List UInt8)
  | unhandled (opcode : UInt32) (frame : List UInt8)
  | loggedIn (info : ι)
  | ready
  | closed (why : Closed)
  | agreement (text : List UInt8)
  | other (said : ο)
  deriving DecidableEq, Repr

/-- Why the actor stopped. -/
inductive ShutdownReason
  | eof
  | streamError (what : String)
  | frameTooLarge (wireLen : UInt32)
  | handleDropped
  deriving DecidableEq, Repr

/-- The states the actor puts a connection in. -/
inductive ConnectionState
  | loginSending
  | loginReplyWait
  | handshakeDone
  | loginReady
  deriving DecidableEq, Repr

/-- What the consumer is sent. -/
inductive Event (ι ο φ : Type*)
  | session (event : SessionEvent ι ο)
  | frame (frame : φ)
  | state (state : ConnectionState)
  | shutdown (reason : ShutdownReason)
  deriving DecidableEq, Repr

/-- The session, and the parsers the actor reads frames with. The session keeps the events
it has to say in the order it came to them: what is done to it adds to them at the end,
and a poll takes the first. -/
structure Parts (σ ι ο φ : Type*) where
  /-- `Session::feed`, at a time. -/
  feed : σ → List UInt8 → ℕ → σ
  /-- `Session::tick`. -/
  tick : σ → ℕ → σ
  /-- `Session::send_raw`: whether it took the frame. -/
  sendRaw : σ → List UInt8 → Bool × σ
  /-- `Session::set_identity` and `Session::agree`. -/
  agree : σ → List UInt8 → UInt16 → σ
  /-- `Session::poll_event`. -/
  pollEvent : σ → Option (SessionEvent ι ο × σ)
  /-- `Session::take_outgoing`. -/
  takeOutgoing : σ → List UInt8 × σ
  /-- `Session::server`: the capabilities agreed to, once logged in. -/
  server : σ → Option UInt64
  /-- `Session::mid_transaction`. -/
  midTransaction : σ → Bool
  /-- What the connection's handle does to the session, such as taking a number from it. -/
  handle : σ → ℕ → σ
  /-- `CAP_MESSAGING`. -/
  capMessaging : UInt64
  /-- The type and the number in a frame's header. -/
  header : List UInt8 → Option (UInt32 × UInt32)
  /-- `Frame::from_raw`. -/
  fromRaw : List UInt8 → Option φ
  /-- The events the session has to say. -/
  pending : σ → List (SessionEvent ι ο)
  poll_none : ∀ s, pending s = [] → pollEvent s = none
  poll_some : ∀ s e rest, pending s = e :: rest →
    ∃ s', pollEvent s = some (e, s') ∧ pending s' = rest
  feed_pending : ∀ s bytes now, pending s <+: pending (feed s bytes now)
  tick_pending : ∀ s now, pending s <+: pending (tick s now)
  sendRaw_pending : ∀ s bytes, pending s <+: pending (sendRaw s bytes).2
  agree_pending : ∀ s nick icon, pending s <+: pending (agree s nick icon)
  takeOutgoing_pending : ∀ s, pending (takeOutgoing s).2 = pending s
  handle_pending : ∀ s n, pending (handle s n) = pending s

/-- The messaging extension's transactions, both ways. -/
def isMessaging (opcode : UInt32) : Bool := 800 ≤ opcode && opcode ≤ 834

/-- The seconds a handshake may take. -/
def HANDSHAKE_TIMEOUT_SECS : ℕ := 30

/-- A byte as two hexadecimal digits. -/
def hex2 (b : UInt8) : String :=
  let digits := Nat.toDigits 16 b.toNat
  String.ofList (List.replicate (2 - digits.length) '0' ++ digits)

/-- `closed`: a session's end as the actor's. -/
def closed : Closed → ShutdownReason
  | .badMagic got =>
    .streamError ("magic: the server answered [" ++ ", ".intercalate (got.map hex2) ++ "]")
  | .loginRefused (some reason) => .streamError ("login rejected: " ++ reason)
  | .loginRefused none => .streamError "login rejected"
  | .timeout =>
    .streamError ("login: no reply within " ++ toString HANDSHAKE_TIMEOUT_SECS ++ "s")
  | .protocol what => .streamError what
  | .tooLarge wireLen => .frameTooLarge wireLen
  | .hangup => .streamError "hung up"

/-- What an event is handed on as: what is sent for it, in order, and the end it brings. -/
structure Handed (ι ο φ : Type*) where
  sends : List (Event ι ο φ)
  ends : Option ShutdownReason := none
  deriving DecidableEq, Repr

section
variable {σ ι ο φ : Type*}

/-- `Shared::agreed`, of the messaging extension. -/
def Parts.agreed (P : Parts σ ι ο φ) (s : σ) : Bool :=
  (P.server s).any fun caps => caps &&& P.capMessaging != 0

/-- A transaction as a frame of its own. -/
def asFrame (P : Parts σ ι ο φ) (frame : List UInt8) : Handed ι ο φ :=
  match P.fromRaw frame with
  | some f => { sends := [.frame f] }
  | none =>
    { sends := [],
      ends := some (.streamError "a transaction the session passed does not decode") }

/-- One round of `deliver`: an event, whether a reply is to a messaging request in flight,
and whether the server agreed to the extension. -/
def handOn (P : Parts σ ι ο φ) (asked agreed : Bool) : SessionEvent ι ο → Handed ι ο φ
  | .reply number frame =>
    if asked then { sends := [.session (.reply number frame)] } else asFrame P frame
  | .unhandled opcode frame =>
    if isMessaging opcode && agreed then { sends := [.session (.unhandled opcode frame)] }
    else asFrame P frame
  | .loggedIn info => { sends := [.session (.loggedIn info), .state .handshakeDone] }
  | .ready => { sends := [.state .loginReady] }
  | .closed (.loginRefused reason) =>
    { sends := [.session (.closed (.loginRefused reason))],
      ends := some (closed (.loginRefused reason)) }
  | .closed why => { sends := [], ends := some (closed why) }
  | .agreement _ => { sends := [] }
  | .other said => { sends := [.session (.other said)] }

/-- What is noted of a run: a messaging request the consumer sent, and an event that was
polled with whether the server had agreed to the extension. -/
inductive Mark (ι ο : Type*)
  | asked (trans : UInt32)
  | polled (event : SessionEvent ι ο) (agreed : Bool)
  deriving DecidableEq, Repr

/-- The number of a reply. -/
def SessionEvent.replyTo? : SessionEvent ι ο → Option UInt32
  | .reply number _ => some number
  | _ => none

/-- The messaging requests in flight after a mark. -/
def Mark.inFlight (requests : Finset UInt32) : Mark ι ο → Finset UInt32
  | .asked number => insert number requests
  | .polled event _ => event.replyTo?.elim requests requests.erase

/-- The messaging requests in flight: those sent that no reply was polled for since. -/
def inFlight (log : List (Mark ι ο)) : Finset UInt32 := log.foldl Mark.inFlight ∅

/-- What a mark is handed on as, with the requests in flight before it. -/
def Mark.handed (P : Parts σ ι ο φ) (requests : Finset UInt32) : Mark ι ο → Handed ι ο φ
  | .asked _ => { sends := [] }
  | .polled event agreed =>
    handOn P (event.replyTo?.any fun trans => trans ∈ requests) agreed event

/-- The images of the events of a log, in order. -/
def images (P : Parts σ ι ο φ) (log : List (Mark ι ο)) : List (Event ι ο φ) :=
  (log.foldl (fun (p : Finset UInt32 × List (Event ι ο φ)) mark =>
    (mark.inFlight p.1, p.2 ++ (mark.handed P p.1).sends)) (∅, [])).2

/-- The events polled in a log. -/
def polledOf (log : List (Mark ι ο)) : List (SessionEvent ι ο) :=
  log.filterMap fun mark =>
    match mark with
    | .asked _ => none
    | .polled event _ => some event

/-- An event the consumer is sent for what the session says, not for what the actor does. -/
def Event.isImage : Event ι ο φ → Bool
  | .state .loginSending | .state .loginReplyWait | .shutdown _ => false
  | .session _ | .frame _ | .state .handshakeDone | .state .loginReady => true

end

end Gtkhx.Actor
