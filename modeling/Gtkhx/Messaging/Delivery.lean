import Gtkhx.Library.Reactive
import Gtkhx.Messaging.Requests

/-!
# Instant messages

How far each message we sent has got, on one connection: what the roster holds of it, which
request its answer will name, and what the view has been told.
-/

namespace Gtkhx.Messaging

open Reactive

/-- How far an instant message we sent has got. -/
inductive Delivery
  /-- Sent, and not yet answered. -/
  | sending
  /-- Taken by a session of theirs. -/
  | sent
  /-- Held for them until they are back. -/
  | queued
  /-- Held as a request until they approve it. -/
  | requested
  /-- Their client has it. -/
  | delivered
  /-- They have seen it. -/
  | read
  /-- Refused, or lost with the connection. -/
  | failed
  deriving DecidableEq, Repr

/-- A reason code in an IM Send's success. -/
inductive ReasonCode
  /-- They are offline, and it waits for them. -/
  | offlineQueued
  /-- It waits for their approval. -/
  | requested
  /-- Another. -/
  | other
  deriving DecidableEq, Repr

/-- What a receipt is for. -/
inductive AckType
  /-- Their client has it. -/
  | delivered
  /-- They have seen it. -/
  | read
  deriving DecidableEq, Repr

namespace Delivery

/-- What an IM Send's success says. -/
def sentFor : Option ReasonCode → Delivery
  | some .offlineQueued => queued
  | some .requested => requested
  | _ => sent

/-- What a receipt says. -/
def acked : AckType → Delivery
  | .read => read
  | .delivered => delivered

/-- Where it stands among the others. -/
def rank : Delivery → ℕ
  | sending => 0
  | sent | queued | requested => 1
  | delivered => 2
  | read => 3
  | failed => 4

/-- It can go no further. -/
def final (d : Delivery) : Bool := d = read ∨ d = failed

end Delivery

/-- A message we sent, and how far it has got. -/
structure Message where
  /-- Its id. -/
  guid : Guid
  /-- Whom it went to. -/
  recipient : Login
  /-- How far it has got. -/
  delivery : Delivery
  deriving DecidableEq

/-- A message has gone out. -/
def sending (held : List Message) (guid : Guid) (recipient : Login) : List Message :=
  ⟨guid, recipient, .sending⟩ :: held.filter (·.guid ≠ guid)

/-- How far a message has got, where that moves it forward; a receipt counts only from whom it
went to. -/
def delivered (held : List Message) (guid : Guid) (sender : Option Login) (now : Delivery) :
    Option Message × List Message :=
  match held.find? (·.guid = guid) with
  | none => (none, held)
  | some m =>
    if sender.any (· ≠ m.recipient) ∨ now.rank ≤ m.delivery.rank then (none, held)
    else (some ⟨guid, m.recipient, now⟩,
      if now.final then held.filter (·.guid ≠ guid)
      else held.map fun h => if h.guid = guid then { h with delivery := now } else h)

/-- The messages never answered, lost with the connection. -/
def unanswered (held : List Message) : List (Guid × Login) :=
  (held.filter (·.delivery = .sending)).map fun m => (m.guid, m.recipient)

/-- A connection's messages. -/
structure Messages where
  /-- The connection negotiated the extension; a closed one has not. -/
  negotiated : Bool := false
  /-- What the roster holds of the messages sent. -/
  held : List Message := []
  /-- The requests in flight by their trans, and the message each sends, if one. -/
  asked : List (ℕ × Option Guid) := []
  /-- What the view was told of deliveries, in order. -/
  told : List Message := []
  /-- The messages `im` returned an id for, and whom each went to. -/
  made : List (Guid × Login) := []
  /-- Those whose send was answered, or that a receipt of whom they went to reached, before
  their connection was forgotten. -/
  answered : List Guid := []
  /-- Those whose connection was forgotten. -/
  forgotten : List Guid := []
  deriving DecidableEq

/-- What happens. What is lost with a connection is told in an order of its own. -/
inductive Happening
  /-- A login is accepted. -/
  | login (lost : List (Guid × Login)) (negotiates : Bool)
  /-- `im` is called; its request can be built, or not, and sending it may close the
  connection. -/
  | im (guid : Guid) (recipient : Login) (trans : ℕ) (built : Bool)
      (closes : Option (List (Guid × Login)))
  /-- Another request goes out. -/
  | ask (trans : ℕ)
  /-- A request succeeded. -/
  | success (trans : ℕ) (reason : Option ReasonCode)
  /-- One was refused. -/
  | refusal (trans : ℕ)
  /-- A receipt for a message. -/
  | receipt (guid : Guid) (sender : Login) (ack : AckType)
  /-- The connection closes. -/
  | close (lost : List (Guid × Login))

namespace Messages

/-- What the connection holds and asked is let go of, and the messages never answered are told
to have failed. -/
def forget (x : Messages) (lost : List (Guid × Login)) : Messages :=
  { x with
    held := []
    asked := []
    told := x.told ++ lost.map fun p => ⟨p.1, p.2, .failed⟩
    forgotten := x.made.map Prod.fst }

/-- A message moves on, and the view is told. -/
def deliver (x : Messages) (guid : Guid) (sender : Option Login) (now : Delivery) : Messages :=
  { x with
    held := (delivered x.held guid sender now).2
    told := x.told ++ (delivered x.held guid sender now).1.toList }

/-- The reply to a request. -/
def reply (x : Messages) (trans : ℕ) (now : Delivery) : Messages :=
  match x.asked.find? (·.1 = trans) with
  | none => x
  | some (_, what) =>
    let x := { x with asked := x.asked.filter (·.1 ≠ trans) }
    match what with
    | some guid => { x.deliver guid none now with answered := x.answered ++ [guid] }
    | none => x

/-- A request goes out on `trans`. -/
def ask (x : Messages) (trans : ℕ) (what : Option Guid) : Messages :=
  { x with asked := (trans, what) :: x.asked.filter (·.1 ≠ trans) }

/-- The message has gone out: it is recorded, and `im` returns its id. -/
def record (x : Messages) (guid : Guid) (recipient : Login) : Messages :=
  { x with held := sending x.held guid recipient, made := x.made ++ [(guid, recipient)] }

/-- One step, unless it cannot happen now. A new id is one never used. -/
def step (x : Messages) : Happening → Option Messages
  | .login lost negotiates =>
    if lost.Perm (unanswered x.held) then some { x.forget lost with negotiated := negotiates }
    else none
  | .im guid recipient t built closes =>
    if guid ∈ x.made.map Prod.fst then none
    else if x.negotiated ∧ built then
      match closes with
      | none => some ((x.ask t (some guid)).record guid recipient)
      | some lost =>
        if lost.Perm (unanswered x.held) then
          let x := { (x.ask t (some guid)).forget lost with negotiated := false }
          some { x.record guid recipient with forgotten := x.forgotten ++ [guid] }
        else none
    else if closes.isNone then some x else none
  | .ask t => if x.negotiated then some (x.ask t none) else some x
  | .success t reason => some (x.reply t (.sentFor reason))
  | .refusal t => some (x.reply t .failed)
  | .receipt guid sender ack =>
    if x.negotiated then
      let counts := x.held.any fun m => m.guid = guid ∧ m.recipient = sender
      some { x.deliver guid (some sender) (.acked ack) with
        answered := if counts then x.answered ++ [guid] else x.answered }
    else some x
  | .close lost =>
    if lost.Perm (unanswered x.held) then some { x.forget lost with negotiated := false }
    else none

end Messages

/-- A connection that has sent nothing. -/
def messaging : Process Messages Happening := ⟨{}, Messages.step⟩

end Gtkhx.Messaging
