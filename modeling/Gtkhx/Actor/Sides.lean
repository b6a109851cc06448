import Gtkhx.Actor.Deliver
import Gtkhx.Library.Reactive

/-!
# The three sides of the actor

`run` waits for the first of three sides to end: one reads the stream into the session, one
writes what the session queues, one hands on what the session says. They run in one task,
so a side runs without the others from one await to the next: each such stretch is a step
here, and any side whose wait is over may take the next. Sides that hand events on take
turns under a lock; a full event channel makes a send wait.

Which deadline has passed is left open: the session may be ticked whenever the write side
waits.
-/

namespace Gtkhx.Actor

/-- The most bytes read at once. -/
def READ_CHUNK : ℕ := 16 * 1024

/-- What the consumer asks. -/
inductive Command
  | writeFrame (bytes : List UInt8)
  | agree (nick : List UInt8) (icon : UInt16)
  | shutdown
  deriving DecidableEq, Repr

section
variable (ι ο φ : Type*)

/-- Where a side is in `deliver`. -/
inductive Turn
  /-- Waiting for its turn. -/
  | waiting
  /-- Its turn: about to poll. -/
  | polling
  /-- Its turn: sending, with what is sent after and the end that follows. -/
  | sending (event : Event ι ο φ) (rest : List (Event ι ο φ)) (ends : Option ShutdownReason)
  /-- It ended, and this was not sent. -/
  | cut (events : List (Event ι ο φ))
  deriving DecidableEq, Repr

/-- Where the read side is. -/
inductive ReadSide
  /-- Waiting for the stream. -/
  | reading
  /-- Waiting for its turn to say a state, and others after it. -/
  | stateTurn (state : ConnectionState) (rest : List ConnectionState)
  /-- Its turn: saying a state. -/
  | stateSending (state : ConnectionState) (rest : List ConnectionState)
  /-- Handing on what was read. -/
  | delivering (turn : Turn ι ο φ)
  deriving DecidableEq, Repr

/-- Where the delivery side is. -/
inductive DeliverSide
  /-- Waiting to be notified. -/
  | idle
  /-- Handing on what the session says. -/
  | delivering (turn : Turn ι ο φ)
  deriving DecidableEq, Repr

end

/-- Where the write side is. -/
inductive WriteSide
  /-- Waiting for a command, if the login was answered, a notification or a deadline. -/
  | selecting (loggedIn : Bool)
  /-- Writing. -/
  | writing (bytes : List UInt8)
  /-- Flushing what was written. -/
  | flushing
  /-- Writing the last bytes before it ends. -/
  | leaving (bytes : List UInt8)
  deriving DecidableEq, Repr

/-- What the sides share, where each is, and what the run did. -/
structure Shared (σ ι ο φ : Type*) where
  session : σ
  /-- What the session queued that the write side has not taken. -/
  out : List UInt8 := []
  /-- The login has gone out. -/
  loginSent : Bool := false
  /-- The write side is notified. -/
  toWrite : Bool := false
  /-- The delivery side is notified. -/
  toDeliver : Bool := false
  /-- The messaging requests in flight. -/
  messaging : Finset UInt32 := ∅
  read : ReadSide ι ο φ := .reading
  write : WriteSide
  deliver : DeliverSide ι ο φ := .idle
  /-- How many events the channel holds. -/
  queued : ℕ := 0
  /-- The consumer is gone. -/
  gone : Bool := false
  /-- The actor ended. -/
  ended : Option ShutdownReason := none
  /-- And said so. -/
  announced : Bool := false
  /-- What `take_outgoing` returned so far. -/
  taken : List UInt8 := []
  /-- What was written to the stream. -/
  written : List UInt8 := []
  /-- The messaging requests sent and the events polled. -/
  log : List (Mark ι ο) := []
  /-- What the consumer was sent. -/
  sent : List (Event ι ο φ) := []
  /-- How many events the session had come to when it was last fed. -/
  fed : ℕ := 0

/-- What can happen. -/
inductive Action
  /-- The stream has bytes. -/
  | received (bytes : List UInt8) (now : ℕ)
  /-- The stream ends. -/
  | eof
  /-- Reading fails. -/
  | readError (what : String)
  /-- The read side gets its turn, polls or sends. -/
  | readStep
  /-- The delivery side is notified, gets its turn, polls or sends. -/
  | deliverStep
  /-- A command arrives; none once the channel is closed. -/
  | command (command : Option Command) (now : ℕ)
  /-- The write side is notified. -/
  | wake
  /-- A deadline passes. -/
  | tick (now : ℕ)
  /-- The stream takes bytes. -/
  | wrote (n : ℕ)
  /-- Writing or flushing fails. -/
  | writeError (what : String)
  /-- The stream is flushed. -/
  | flushed
  /-- The connection's handle does something to the session. -/
  | handle (n : ℕ)
  /-- The consumer takes an event. -/
  | consume
  /-- The consumer goes. -/
  | consumerGone
  /-- The end is said. -/
  | announce
  deriving DecidableEq, Repr

section
variable {σ ι ο φ : Type*}

/-- Its turn is a side's. -/
def Turn.holds : Turn ι ο φ → Bool
  | .waiting => false
  | .polling | .sending _ _ _ | .cut _ => true

/-- The read side waits for the stream. -/
def ReadSide.isReading : ReadSide ι ο φ → Bool
  | .reading => true
  | .stateTurn _ _ | .stateSending _ _ | .delivering _ => false

/-- The read side has the turn. -/
def ReadSide.holds : ReadSide ι ο φ → Bool
  | .reading | .stateTurn _ _ => false
  | .stateSending _ _ => true
  | .delivering turn => turn.holds

/-- The delivery side has the turn. -/
def DeliverSide.holds : DeliverSide ι ο φ → Bool
  | .idle => false
  | .delivering turn => turn.holds

/-- `Shared::queue_out`; whether there was anything. -/
def Shared.queueOut (P : Parts σ ι ο φ) (a : Shared σ ι ο φ) : Bool × Shared σ ι ο φ :=
  let bytes := (P.takeOutgoing a.session).1
  let a := { a with session := (P.takeOutgoing a.session).2 }
  if bytes = [] then (false, a)
  else (true, { a with out := a.out ++ bytes, taken := a.taken ++ bytes, toWrite := true })

/-- The actor before any side runs. -/
def Shared.start (P : Parts σ ι ο φ) (session : σ) : Shared σ ι ο φ :=
  let a := (Shared.queueOut P { session := session, write := .flushing }).2
  { a with write := .selecting (P.server a.session).isSome }

/-- What a step of `deliver` comes to. -/
inductive Delivered (ι ο φ : Type*)
  /-- It goes on. -/
  | goesOn (turn : Turn ι ο φ)
  /-- The session has nothing more to say. -/
  | returns
  /-- The actor ends, this unsent. -/
  | ends (reason : ShutdownReason) (cut : List (Event ι ο φ))
  deriving DecidableEq, Repr

/-- What follows what was sent. -/
def Delivered.next (sends : List (Event ι ο φ)) (ends : Option ShutdownReason) :
    Delivered ι ο φ :=
  match sends, ends with
  | event :: rest, ends => .goesOn (.sending event rest ends)
  | [], none => .goesOn .polling
  | [], some reason => .ends reason []

/-- The event channel takes an event, if it has room. -/
def Shared.send (cap : ℕ) (a : Shared σ ι ο φ) (event : Event ι ο φ) : Option (Shared σ ι ο φ) :=
  if a.queued < cap then some { a with queued := a.queued + 1, sent := a.sent ++ [event] }
  else none

/-- A step of `deliver`, by a side whose turn it can be. -/
def Shared.deliverOn (P : Parts σ ι ο φ) (cap : ℕ) (a : Shared σ ι ο φ) (free : Bool) :
    Turn ι ο φ → Option (Shared σ ι ο φ × Delivered ι ο φ)
  | .waiting => if free then some (a, .goesOn .polling) else none
  | .polling =>
    match P.pollEvent a.session with
    | none => some (a, .returns)
    | some (event, session) =>
      let mark := Mark.polled event (P.agreed session)
      let handed := mark.handed P a.messaging
      some ({ a with session := session, messaging := mark.inFlight a.messaging,
                     log := a.log ++ [mark] }, .next handed.sends handed.ends)
  | .sending event rest ends =>
    if a.gone then some (a, .ends (ends.getD .handleDropped) (event :: rest))
    else (a.send cap event).map fun a => (a, .next rest ends)
  | .cut _ => none

/-- Bytes are fed to the session, and what that queues is taken. -/
def Shared.feed (P : Parts σ ι ο φ) (a : Shared σ ι ο φ) (bytes : List UInt8) (now : ℕ) :
    Shared σ ι ο φ :=
  let session := P.feed a.session bytes now
  let (wrote, a) := Shared.queueOut P { a with
    session := session, fed := (polledOf a.log).length + (P.pending session).length }
  let a := { a with toWrite := true }
  if wrote ∧ a.loginSent = false then
    { a with loginSent := true, read := .stateTurn .loginSending [.loginReplyWait] }
  else { a with read := .delivering .waiting }

/-- The end of the stream: cut off part way through a transaction, the server's, or one
during the login. -/
def endOfStream (P : Parts σ ι ο φ) (session : σ) : ShutdownReason :=
  if P.midTransaction session then .streamError "EOF mid-frame"
  else if (P.server session).isSome then .eof
  else .streamError "the server closed the connection during login"

/-- A step of the read side that does not read. -/
def Shared.readOn (P : Parts σ ι ο φ) (cap : ℕ) (a : Shared σ ι ο φ) :
    Option (Shared σ ι ο φ) :=
  match a.read with
  | .reading => none
  | .stateTurn state rest =>
    if a.deliver.holds then none else some { a with read := .stateSending state rest }
  | .stateSending state rest =>
    if a.gone then some { a with ended := some .handleDropped }
    else (a.send cap (.state state)).map fun a =>
      match rest with
      | next :: rest => { a with read := .stateTurn next rest }
      | [] => { a with read := .delivering .waiting }
  | .delivering turn =>
    (a.deliverOn P cap (!a.deliver.holds) turn).map fun (a, done) =>
      match done with
      | .goesOn turn => { a with read := .delivering turn }
      | .returns => { a with read := .reading }
      | .ends reason cut => { a with read := .delivering (.cut cut), ended := some reason }

/-- A step of the delivery side. -/
def Shared.deliverSideOn (P : Parts σ ι ο φ) (cap : ℕ) (a : Shared σ ι ο φ) :
    Option (Shared σ ι ο φ) :=
  match a.deliver with
  | .idle =>
    if a.toDeliver then some { a with toDeliver := false, deliver := .delivering .waiting }
    else none
  | .delivering turn =>
    (a.deliverOn P cap (!a.read.holds) turn).map fun (a, done) =>
      match done with
      | .goesOn turn => { a with deliver := .delivering turn }
      | .returns => { a with deliver := .idle }
      | .ends reason cut => { a with deliver := .delivering (.cut cut), ended := some reason }

/-- The bottom of the write side's loop: what is queued is written, or it waits again. -/
def Shared.writeOut (P : Parts σ ι ο φ) (a : Shared σ ι ο φ) : Shared σ ι ο φ :=
  if a.out = [] then { a with write := .selecting (P.server a.session).isSome }
  else { a with out := [], write := .writing a.out }

/-- The session's clock is read, and what that queues is taken. -/
def Shared.tickNow (P : Parts σ ι ο φ) (a : Shared σ ι ο φ) (now : ℕ) : Shared σ ι ο φ :=
  { (Shared.queueOut P { a with session := P.tick a.session now }).2 with toDeliver := true }

/-- A messaging request that is answered, of the consumer's, is noted. -/
def Shared.noteRequest (P : Parts σ ι ο φ) (a : Shared σ ι ο φ) (bytes : List UInt8) :
    Shared σ ι ο φ :=
  match P.header bytes with
  | some (type, number) =>
    if isMessaging type && type != 813 then
      { a with messaging := insert number a.messaging, log := a.log ++ [.asked number] }
    else a
  | none => a

/-- A frame of the consumer's goes to the session. -/
def Shared.writeFrame (P : Parts σ ι ο φ) (a : Shared σ ι ο φ) (bytes : List UInt8) :
    Shared σ ι ο φ :=
  let a := a.noteRequest P bytes
  let (accepted, session) := P.sendRaw a.session bytes
  if accepted then
    let (queued, session) := P.takeOutgoing session
    { a with session := session, out := a.out ++ queued, taken := a.taken ++ queued }
  else { a with session := session }

/-- A command of the consumer's. -/
def Shared.command (P : Parts σ ι ο φ) (a : Shared σ ι ο φ) (now : ℕ) :
    Option Command → Shared σ ι ο φ
  | some (.writeFrame bytes) => ((a.writeFrame P bytes).tickNow P now).writeOut P
  | some (.agree nick icon) =>
    Shared.writeOut P { (Shared.queueOut P { a with session := P.agree a.session nick icon }).2
      with toDeliver := true }
  | some .shutdown | none => { a with out := [], write := .leaving a.out }

/-- The stream takes `n` bytes. -/
def Shared.wrote (a : Shared σ ι ο φ) (n : ℕ) : Option (Shared σ ι ο φ) :=
  match a.write with
  | .writing bytes =>
    if 0 < n ∧ n ≤ bytes.length then
      some { a with written := a.written ++ bytes.take n,
                    write := if n = bytes.length then .flushing else .writing (bytes.drop n) }
    else none
  | .leaving bytes =>
    if 0 < n ∧ n ≤ bytes.length then
      some { a with written := a.written ++ bytes.take n, write := .leaving (bytes.drop n) }
    else none
  | .selecting _ | .flushing => none

/-- One step of an actor that has not ended, if it can happen. -/
def Shared.running (P : Parts σ ι ο φ) (cap : ℕ) (a : Shared σ ι ο φ) :
    Action → Option (Shared σ ι ο φ)
  | .received bytes now =>
    if a.read.isReading ∧ 0 < bytes.length ∧ bytes.length ≤ READ_CHUNK then
      some (a.feed P bytes now)
    else none
  | .eof =>
    if a.read.isReading then some { a with ended := some (endOfStream P a.session) } else none
  | .readError what =>
    if a.read.isReading then some { a with ended := some (.streamError what) } else none
  | .readStep => a.readOn P cap
  | .deliverStep => a.deliverSideOn P cap
  | .command command now =>
    if a.write = .selecting true then some (a.command P now command) else none
  | .wake =>
    match a.write with
    | .selecting _ =>
      if a.toWrite then some (Shared.writeOut P { a with toWrite := false }) else none
    | _ => none
  | .tick now =>
    match a.write with
    | .selecting _ => some ((a.tickNow P now).writeOut P)
    | _ => none
  | .wrote n => a.wrote n
  | .writeError what =>
    match a.write with
    | .writing _ | .flushing => some { a with ended := some (.streamError what) }
    | .leaving [] => some { a with ended := some .handleDropped }
    | .leaving (_ :: _) => some { a with write := .leaving [] }
    | .selecting _ => none
  | .flushed =>
    match a.write with
    | .flushing => some { a with write := .selecting (P.server a.session).isSome }
    | .leaving [] => some { a with ended := some .handleDropped }
    | _ => none
  | .handle n => some { a with session := P.handle a.session n }
  | .consume => if 0 < a.queued then some { a with queued := a.queued - 1 } else none
  | .consumerGone => some { a with gone := true }
  | .announce => none

/-- One step, if it can happen: once the actor ended it says so, and nothing else. -/
def Shared.step (P : Parts σ ι ο φ) (cap : ℕ) (a : Shared σ ι ο φ) (action : Action) :
    Option (Shared σ ι ο φ) :=
  match a.ended, action with
  | none, action => a.running P cap action
  | some _, .consume => if 0 < a.queued then some { a with queued := a.queued - 1 } else none
  | some _, .consumerGone => some { a with gone := true }
  | some reason, .announce =>
    if a.announced then none
    else if a.gone then some { a with announced := true }
    else (a.send cap (.shutdown reason)).map fun a => { a with announced := true }
  | some _, _ => none

/-- `run`, over a stream, with an event channel of a capacity. -/
def running (P : Parts σ ι ο φ) (cap : ℕ) (session : σ) :
    Reactive.Process (Shared σ ι ο φ) Action where
  start := Shared.start P session
  step := Shared.step P cap

end

end Gtkhx.Actor
