import Gtkhx.Library.Reactive
import Mathlib.Data.List.Perm.Basic
import Mathlib.Data.List.Range
import Mathlib.Logic.Function.Basic

/-!
# Requests in flight

`ASKED` holds what each file request in flight is answered into, by the address of its
connection and its transaction number. A reply takes its entry out; a connection that
closes takes all of its entries, and tells the readers of ranges among them that they get
nothing. `get_range` sends its request first and makes its entry after: when the send
itself closes the connection, the entry is made for a closed one.

The addresses of connections and the transfers a server grants are parameters. The
session that numbers the requests of a connection gives each one a number of its own; a
new session on the same address starts over.
-/

namespace Gtkhx.Requests

/-- The reason of a failure when the server's reply was cut short. -/
def CUT_SHORT : String := "the server's reply was cut short"

/-- What a request in flight is answered into. A provider and the callback of a range are
numbers here: the callback's counts the calls of `get_range`. -/
inductive Asked
  | listing (provider : ℕ)
  | info
  | download
  | upload
  | rename
  | banner
  | range (done : ℕ)
  deriving DecidableEq, Repr

variable {κ τ : Type*}

/-- A request of `get_range`: its connection, the session it was made in and its number. -/
structure RangeCall (κ : Type*) where
  conn : κ
  session : ℕ
  trans : UInt32
  deriving DecidableEq, Repr

/-- What a range's callback was told, and the request that the reply it was told is to,
if it was a reply. -/
structure Told (κ τ : Type*) where
  done : ℕ
  reply : Option (RangeCall κ)
  answer : Except (Option String) τ

/-- An entry of `ASKED`. -/
abbrev Entry (κ : Type*) := (κ × UInt32) × Asked

/-- A connection: whether it is live, how many sessions it has had, and the numbers its
session has given. -/
structure Session where
  live : Bool := false
  session : ℕ := 0
  used : List UInt32 := []
  deriving DecidableEq, Repr

/-- `ASKED`, the connections, and what the run did: the ranges asked for and what their
callbacks were told. -/
structure InFlight (κ τ : Type*) where
  asked : List (Entry κ) := []
  conns : κ → Session := fun _ => {}
  calls : List (RangeCall κ) := []
  told : List (Told κ τ) := []

/-- What happens. -/
inductive FileAction (κ τ : Type*)
  /-- `get_range` for a request that can be made; its number, and whether its send closes
  the connection. -/
  | getRange (c : κ) (trans : UInt32) (closes : Bool)
  /-- Another request, whose entry is made before its send or after. -/
  | request (c : κ) (trans : UInt32) (what : Asked) (before closes : Bool)
  /-- The reply to a transfer's request: granted, or refused or cut short with a reason. -/
  | reply (c : κ) (trans : UInt32) (answer : Except (Option String) τ)
  /-- The reply to another request. -/
  | otherReply (c : κ) (trans : UInt32)
  /-- The server accepted the login. -/
  | loggedIn (c : κ)
  /-- The connection closes. -/
  | close (c : κ)
  /-- The connection opens again. -/
  | connect (c : κ)

/-- The callback of a range. -/
def Asked.done? : Asked → Option ℕ
  | .range done => some done
  | _ => none

/-- The callbacks among entries. -/
def dones (entries : List (Entry κ)) : List ℕ := entries.filterMap fun entry => entry.2.done?

/-- Another request's entry replaces a listing of the same provider. -/
def Asked.replaces : Asked → Asked → Bool
  | .listing provider, .listing provider' => provider = provider'
  | _, _ => false

section
variable [DecidableEq κ]

/-- `asked`: an entry is made. -/
def InFlight.ask (s : InFlight κ τ) (c : κ) (trans : UInt32) (what : Asked) : InFlight κ τ :=
  { s with asked := ((s.asked.filter fun entry => !what.replaces entry.2).eraseP
      fun entry => entry.1 = (c, trans)) ++ [((c, trans), what)] }

/-- `answered`: the entry of a number is taken out. -/
def InFlight.answered (s : InFlight κ τ) (c : κ) (trans : UInt32) :
    Option Asked × InFlight κ τ :=
  ((s.asked.find? fun entry => entry.1 = (c, trans)).map Prod.snd,
    { s with asked := s.asked.eraseP fun entry => entry.1 = (c, trans) })

/-- An entry of a connection, other than the banner's if that is kept. -/
def goes (c : κ) (keepBanner : Bool) (entry : Entry κ) : Bool :=
  entry.1.1 = c && !(keepBanner && entry.2 = .banner)

/-- `forget`: the entries of a connection go, and the readers of ranges hear that they get
nothing. -/
def InFlight.forget (s : InFlight κ τ) (c : κ) (keepBanner : Bool) : InFlight κ τ :=
  { s with
    asked := s.asked.filter fun entry => !goes c keepBanner entry
    told := s.told ++ (dones (s.asked.filter (goes c keepBanner))).map (⟨·, none, .error none⟩) }

/-- A connection changes. -/
def InFlight.setConn (s : InFlight κ τ) (c : κ) (conn : Session) : InFlight κ τ :=
  { s with conns := Function.update s.conns c conn }

/-- `hx_htlc_close`. -/
def InFlight.close (s : InFlight κ τ) (c : κ) : InFlight κ τ :=
  (s.forget c false).setConn c { s.conns c with live := false }

/-- `hlwrite_chunks`, which may close the connection. -/
def InFlight.send (s : InFlight κ τ) (c : κ) (closes : Bool) : InFlight κ τ :=
  if closes then s.close c else s

/-- A request gets a number of its own. -/
def InFlight.number (s : InFlight κ τ) (c : κ) (trans : UInt32) : InFlight κ τ :=
  s.setConn c { s.conns c with used := trans :: (s.conns c).used }

/-- `get_range`: the request goes out, then its entry is made. -/
def InFlight.getRange (s : InFlight κ τ) (c : κ) (trans : UInt32) (closes : Bool) :
    InFlight κ τ :=
  let call : RangeCall κ := ⟨c, (s.conns c).session, trans⟩
  let sent := (s.number c trans).send c closes
  { sent.ask c trans (.range s.calls.length) with calls := s.calls ++ [call] }

/-- What a failure's reason tells the reader of a range. -/
def rangeAnswer : Except (Option String) τ → Except (Option String) τ
  | .ok transfer => .ok transfer
  | .error (some reason) =>
    if reason = CUT_SHORT then .error none else .error (some reason)
  | .error none => .error (some "")

/-- `transfer` and `failed`: the reply goes to what asked. -/
def InFlight.reply (s : InFlight κ τ) (c : κ) (trans : UInt32)
    (answer : Except (Option String) τ) : InFlight κ τ :=
  match s.answered c trans with
  | (some (.range done), s) =>
    { s with told := s.told ++
        [⟨done, some ⟨c, (s.conns c).session, trans⟩, rangeAnswer answer⟩] }
  | (_, s) => s

/-- A request can be made: the connection is live and its session gives another number. -/
def InFlight.CanAsk (s : InFlight κ τ) (c : κ) (trans : UInt32) : Prop :=
  (s.conns c).live = true ∧ trans ∉ (s.conns c).used

instance (s : InFlight κ τ) (c : κ) (trans : UInt32) : Decidable (s.CanAsk c trans) := by
  unfold InFlight.CanAsk
  infer_instance

/-- One step, if it can happen. -/
def InFlight.step (s : InFlight κ τ) : FileAction κ τ → Option (InFlight κ τ)
  | .getRange c number closes =>
    if s.CanAsk c number then some (s.getRange c number closes) else none
  | .request c number what before closes =>
    if s.CanAsk c number ∧ what.done? = none then
      if before then some (((s.number c number).ask c number what).send c closes)
      else some (((s.number c number).send c closes).ask c number what)
    else none
  | .reply c number answer =>
    if (s.conns c).live then some (s.reply c number answer) else none
  -- the session turns a reply into what was expected of its request
  | .otherReply c number =>
    if (s.conns c).live ∧ ((s.answered c number).1.bind Asked.done?) = none then
      some (s.answered c number).2
    else none
  | .loggedIn c => if (s.conns c).live then some (s.forget c true) else none
  | .close c => if (s.conns c).live then some (s.close c) else none
  | .connect c =>
    if (s.conns c).live then none
    else some (s.setConn c ⟨true, (s.conns c).session + 1, []⟩)

/-- The requests of a program. -/
def asking (κ τ : Type*) [DecidableEq κ] : Reactive.Process (InFlight κ τ) (FileAction κ τ) where
  start := {}
  step := InFlight.step

/-- Every range reader is answered once: its callback is told once at most, a reply only if
it is the one to its own request, and has been told when its connection closed; and no
callback is left in `ASKED` for a closed connection. -/
structure InFlight.AnsweredOnce (s : InFlight κ τ) : Prop where
  once : (s.told.map Told.done).Nodup
  own : ∀ told ∈ s.told, told.done < s.calls.length ∧
    (told.reply = none ∧ told.answer = .error none ∨ told.reply = s.calls[told.done]?)
  closed : ∀ done call, s.calls[done]? = some call →
    ((s.conns call.conn).live = false ∨ call.session ≠ (s.conns call.conn).session) →
    done ∈ s.told.map Told.done
  left : ∀ c trans done, ((c, trans), Asked.range done) ∈ s.asked →
    (s.conns c).live = true ∧ s.calls[done]? = some ⟨c, (s.conns c).session, trans⟩

end

end Gtkhx.Requests
