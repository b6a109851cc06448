import Mathlib.Algebra.Group.Nat.Defs
import Mathlib.Data.Finset.Basic

/-!
# Message requests

What a connection holds of the message requests waiting for us: who waits, whom we
approved, and the listing that reads them page by page. Every call is told the time, in
nanoseconds.
-/

namespace Gtkhx.Messaging

/-- A login, as the wire carries it. -/
abbrev Login := List UInt8

/-- A message's id. -/
abbrev Guid := Vector UInt8 16

/-- How long after a page arrives the next is asked for: a second. -/
def PAGE_GAP : ℕ := 1000000000

/-- How far apart two listings begin: five seconds. -/
def LISTING_GAP : ℕ := 5000000000

/-- The pages a listing is read to. -/
def PAGE_BOUND : ℕ := 16

/-- One message a request holds. -/
structure Waiting where
  /-- Its id. -/
  guid : Guid
  /-- Its text. -/
  body : String
  /-- When it was sent, in Unix seconds. -/
  sentAt : ℕ
  deriving DecidableEq, Repr

/-- Someone who is not a friend, with what they sent us. -/
structure Sender where
  /-- Who. -/
  login : Login
  /-- What, oldest first. -/
  messages : List Waiting
  deriving DecidableEq, Repr

/-- One page of the listing. -/
structure Page where
  /-- Our account's setting, on the first page. -/
  takes : Option Bool
  /-- Dropped since the listing before, on the first page. -/
  dropped : Option ℕ
  /-- Where there is another page. -/
  cursor : Option (List UInt8)
  /-- The senders on it. -/
  senders : List Sender
  /-- The logins we approved on it. -/
  approvals : List Login
  deriving DecidableEq, Repr

/-- A listing being gathered. -/
structure Listing where
  /-- The senders so far. -/
  senders : List Sender
  /-- The approvals so far. -/
  approvals : Finset Login
  /-- Our account's setting, once the first page is here. -/
  takes : Option Bool
  /-- The pages that have arrived. -/
  pages : ℕ
  /-- When the last of them did. -/
  answered : ℕ
  /-- The next page's cursor, until it is asked for. -/
  next : Option (List UInt8)
  /-- Read past its first page. -/
  follow : Bool
  /-- Message Requests Changed arrived while it was under way. -/
  changed : Bool
  deriving DecidableEq

/-- What the connection holds of message requests. -/
structure Requests where
  /-- Senders waiting, as the last listing or Message Requests Changed said. -/
  count : ℕ := 0
  /-- Who they are, oldest first. -/
  senders : List Sender := []
  /-- Logins we approved. -/
  approvals : Finset Login := ∅
  /-- Dropped since this connection first listed them. -/
  dropped : ℕ := 0
  /-- Our account's setting, from the last listing. -/
  takes : Option Bool := none
  /-- The listing under way. -/
  listing : Option Listing := none
  /-- When the last listing began. -/
  began : Option ℕ := none
  /-- A listing was asked for that has not begun, and whether it is to be read past its
  first page. -/
  owed : Option Bool := none
  deriving DecidableEq

namespace Requests

/-- Ask for a listing. -/
def want (r : Requests) : Requests :=
  match r.listing with
  | some l =>
    if l.follow then { r with owed := some true }
    else if l.next.isNone then { r with listing := some { l with follow := true } }
    else { r with listing := none, owed := some true }
  | none => { r with owed := some true }

/-- Message Requests Changed said how many wait. -/
def changed (r : Requests) (count : ℕ) : Requests :=
  match r.listing with
  | some l =>
    { r with
      count
      listing := some { l with changed := true }
      owed := if l.follow then some true else r.owed }
  | none => { r with count }

theorem changed_of_none {r : Requests} (h : r.listing = none) (count : ℕ) :
    r.changed count = { r with count } := by
  simp only [changed, h]

theorem changed_of_some {r : Requests} {l : Listing} (h : r.listing = some l) (count : ℕ) :
    r.changed count = { r with
      count
      listing := some { l with changed := true }
      owed := if l.follow then some true else r.owed } := by
  simp only [changed, h]

/-- Ask for a listing's first page alone. -/
def look (r : Requests) : Requests :=
  if r.listing.isNone ∧ r.owed.isNone then { r with owed := some false } else r

/-- When the next page may be asked for, where one waits to be. -/
def due (r : Requests) (now : ℕ) : Option ℕ :=
  match r.listing with
  | some l => if l.next.isSome ∧ l.follow then some (l.answered + PAGE_GAP) else none
  | none => r.owed.map fun _ => r.began.elim now (· + LISTING_GAP)

/-- A listing that begins. -/
def begin (follow : Bool) (now : ℕ) : Listing where
  senders := []
  approvals := ∅
  takes := none
  pages := 0
  answered := now
  next := none
  follow := follow
  changed := false

/-- The page to ask for, where one is due: `some none` for a listing's first. -/
def next (r : Requests) (now : ℕ) : Option (Option (List UInt8)) × Requests :=
  match r.due now with
  | none => (none, r)
  | some instant =>
    if now < instant then (none, r)
    else
      match r.listing with
      | some l => (l.next.map some, { r with listing := some { l with next := none } })
      | none =>
        (some none,
          { r with
            began := some now, owed := none, listing := some (begin (r.owed.getD true) now) })

/-- What is due asks for a listing's first page, or the next of one that is followed. -/
theorem next_cases (r : Requests) (now : ℕ) :
    (r.next now = (none, r)) ∨
    (r.listing = none ∧ (∀ b, r.began = some b → b + LISTING_GAP ≤ now) ∧
      r.next now = (some none, { r with
        began := some now, owed := none,
        listing := some (begin (r.owed.getD true) now) })) ∨
    ∃ l cursor, r.listing = some l ∧ l.next = some cursor ∧ l.follow = true ∧
      l.answered + PAGE_GAP ≤ now ∧
      r.next now = (some (some cursor), { r with listing := some { l with next := none } }) := by
  unfold next due
  cases hl : r.listing with
  | none =>
    cases howed : r.owed with
    | none => exact .inl rfl
    | some follow =>
      by_cases hearly : now < r.began.elim now (· + LISTING_GAP)
      · exact .inl (by simp only [Option.map_some, if_pos hearly])
      · refine .inr (.inl ⟨rfl, ?_, by simp only [Option.map_some, if_neg hearly]⟩)
        rintro b hb
        rw [hb] at hearly
        exact Nat.le_of_not_lt hearly
  | some l =>
    by_cases hready : l.next.isSome ∧ l.follow = true
    · obtain ⟨cursor, hcursor⟩ := Option.isSome_iff_exists.mp hready.1
      simp only [if_pos hready]
      by_cases hearly : now < l.answered + PAGE_GAP
      · exact .inl (if_pos hearly)
      · refine .inr (.inr ⟨l, cursor, rfl, hcursor, hready.2, Nat.le_of_not_lt hearly, ?_⟩)
        rw [if_neg hearly, hcursor, Option.map_some]
    · exact .inl (by simp only [if_neg hready])

end Requests

/-- Add messages to those held, each once. -/
def addMessages (held messages : List Waiting) : List Waiting :=
  messages.foldl (fun held m => if held.any (·.guid == m.guid) then held else held ++ [m]) held

/-- Add a sender to those listed, or their messages to what is listed of theirs. -/
def addSender : List Sender → Sender → List Sender
  | [], s => [s]
  | h :: senders, s =>
    if h.login = s.login then { h with messages := addMessages h.messages s.messages } :: senders
    else h :: addSender senders s

/-- A page that arrived, merged into the listing by login: the later page says whether a
login is a sender or an approval. -/
def Listing.add (l : Listing) (p : Page) (now : ℕ) : Listing where
  senders := (p.senders.foldl addSender l.senders).filter fun s => s.login ∉ p.approvals
  approvals := p.senders.foldl (fun held s => held.erase s.login) l.approvals ∪ p.approvals.toFinset
  takes := if l.pages = 0 then p.takes else l.takes
  pages := l.pages + 1
  answered := now
  next := p.cursor
  follow := l.follow
  changed := l.changed

namespace Requests

/-- A listing that was read to its end replaces what was held. -/
def finish (r : Requests) (l : Listing) : Requests :=
  { r with
    listing := none
    count := if l.changed then r.count else min l.senders.length (2 ^ 32 - 1)
    senders := l.senders
    approvals := l.approvals
    takes := l.takes }

/-- A page arrived. Whether it was the last. -/
def page (r : Requests) (p : Page) (now : ℕ) : Bool × Requests :=
  match r.listing with
  | none => (false, r)
  | some l =>
    let dropped :=
      if l.pages = 0 then min (r.dropped + p.dropped.getD 0) (2 ^ 32 - 1) else r.dropped
    if p.cursor.isSome ∧ l.pages + 1 < PAGE_BOUND then
      (false, { r with dropped, listing := some (l.add p now) })
    else (true, { r with dropped }.finish (l.add p now))

/-- A listing goes on with the next page, below the bound. -/
theorem page_of_more {r : Requests} {l : Listing} (h : r.listing = some l) {p : Page} {now : ℕ}
    (hmore : p.cursor.isSome ∧ l.pages + 1 < PAGE_BOUND) :
    r.page p now = (false, { r with
      dropped := if l.pages = 0 then min (r.dropped + p.dropped.getD 0) (2 ^ 32 - 1) else r.dropped
      listing := some (l.add p now) }) := by
  simp only [page, h, if_pos hmore]

/-- The last page replaces what was held. -/
theorem page_of_last {r : Requests} {l : Listing} (h : r.listing = some l) {p : Page} {now : ℕ}
    (hlast : ¬(p.cursor.isSome ∧ l.pages + 1 < PAGE_BOUND)) :
    r.page p now = (true, { r with
      dropped := if l.pages = 0 then min (r.dropped + p.dropped.getD 0) (2 ^ 32 - 1) else r.dropped
      listing := none
      count := if l.changed then r.count else min (l.add p now).senders.length (2 ^ 32 - 1)
      senders := (l.add p now).senders
      approvals := (l.add p now).approvals
      takes := (l.add p now).takes }) := by
  simp only [page, h, if_neg hlast, finish]
  rfl

/-- A login's request no longer waits. Whether it was held. -/
def released (r : Requests) (login : Login) : Bool × Requests :=
  let senders := r.senders.filter fun s => s.login ≠ login
  if senders.length < r.senders.length then (true, { r with senders, count := r.count - 1 })
  else (false, { r with senders })

/-- The listing was refused, or a page could not be read. -/
def failed (r : Requests) : Requests := { r with listing := none }

end Requests

/-- A page that was asked for. -/
structure Ask where
  /-- When. -/
  time : ℕ
  /-- From where; `none` for a listing's first. -/
  cursor : Option (List UInt8)
  /-- For which listing. -/
  listing : ℕ
  /-- When the last page arrived before it. -/
  arrived : Option ℕ
  deriving DecidableEq, Repr

/-- A listing's first page. -/
def Ask.first (a : Ask) : Bool := a.cursor.isNone

/-- The calls made of the requests. -/
inductive Call
  /-- A listing is wanted. -/
  | want
  /-- A first page is. -/
  | look
  /-- Message Requests Changed. -/
  | changed (count : ℕ)
  /-- A request no longer waits. -/
  | released (login : Login)
  /-- Whatever is due is asked for. -/
  | next
  /-- A page that was asked for arrived. -/
  | page (p : Page)
  /-- One was refused, or could not be read. -/
  | failed
  deriving DecidableEq

/-- The requests in time, with what has been asked for. -/
structure Asking where
  /-- What is held. -/
  requests : Requests := {}
  /-- What time it is. -/
  clock : ℕ := 0
  /-- The pages asked for and not yet answered. -/
  awaiting : ℕ := 0
  /-- Every page asked for, in order. -/
  asks : List Ask := []
  /-- The listings begun. -/
  listings : ℕ := 0
  /-- When the last page arrived. -/
  arrived : Option ℕ := none

namespace Asking

/-- What is due is asked for. -/
def poll (s : Asking) (now : ℕ) : Asking :=
  match (s.requests.next now).1 with
  | none => { s with requests := (s.requests.next now).2 }
  | some cursor =>
    let listings := if cursor.isNone then s.listings + 1 else s.listings
    { s with
      requests := (s.requests.next now).2
      awaiting := s.awaiting + 1
      asks := s.asks ++ [⟨now, cursor, listings, s.arrived⟩]
      listings }

/-- A call at a time no earlier than the last, a page or a failure only for a page that was
asked for and not yet answered. -/
def step (s : Asking) (input : ℕ × Call) : Option Asking :=
  if input.1 < s.clock then none
  else
    let s := { s with clock := input.1 }
    match input.2 with
    | .want => some { s with requests := s.requests.want }
    | .look => some { s with requests := s.requests.look }
    | .changed count => some { s with requests := s.requests.changed count }
    | .released login => some { s with requests := (s.requests.released login).2 }
    | .next => some (s.poll input.1)
    | .page p =>
      if s.awaiting = 0 then none
      else some { s with
        requests := (s.requests.page p input.1).2
        awaiting := s.awaiting - 1
        arrived := some input.1 }
    | .failed =>
      if s.awaiting = 0 then none
      else some { s with requests := s.requests.failed, awaiting := s.awaiting - 1 }

end Asking

end Gtkhx.Messaging
