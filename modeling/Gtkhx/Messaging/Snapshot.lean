import Gtkhx.Library.Reactive
import Gtkhx.Messaging.Merged

/-!
# A listing is a snapshot

The requests against a server whose waiting senders change while it is being listed. What
the server sent, and what it said then of its senders, is kept with each message, so that
what the listing holds can be compared with it.
-/

namespace Gtkhx.Messaging

open Reactive

/-- What a server has: who waits, oldest first and each once, and whom we approved, who do
not wait. -/
structure Server where
  /-- Who waits. -/
  senders : List Sender
  /-- Whom we approved. -/
  approvals : List Login
  /-- A login waits once. -/
  distinct : (senders.map Sender.login).Nodup
  /-- Whom we approved does not wait. -/
  apart : ∀ s ∈ senders, s.login ∉ approvals

/-- How a server marks a place in the order of its senders. -/
structure Cursors where
  /-- The mark of a place. -/
  mark : List Sender → ℕ → List UInt8
  /-- The place that a mark names, among senders that may have changed. -/
  place : List Sender → List UInt8 → ℕ
  /-- A mark names its place while the senders stay. -/
  place_mark : ∀ senders k, k ≤ senders.length → place senders (mark senders k) = k

/-- A message of the server, with its senders as they were then. -/
inductive Told
  /-- A page, for a request from a cursor. -/
  | page (p : Page) (request : Option (List UInt8)) (senders : List Sender)
  /-- Message Requests Changed. -/
  | changed (count : ℕ) (senders : List Sender)

/-- The client, the server and what is under way between them. -/
structure Exchange where
  /-- What the client holds. -/
  client : Requests
  /-- What the server has. -/
  server : Server
  /-- The pages asked for that the server has not got to. -/
  asked : List (Option (List UInt8)) := []
  /-- What it sent that has not arrived. -/
  told : List Told := []
  /-- The server's senders as it said they were when it answered the last page, where that
  completed a listing of fewer pages than the bound and no other was owed; and whether
  Message Requests Changed has arrived since. -/
  held : Option (List Sender × Bool) := none

/-- What happens. -/
inductive Move
  /-- A listing is wanted. -/
  | want
  /-- A first page is. -/
  | look
  /-- Whatever is due is asked for. -/
  | next (now : ℕ)
  /-- The server's senders change. -/
  | change (server : Server)
  /-- Our approvals change, and its senders do not. -/
  | approve (server : Server)
  /-- The server answers a page of `n` senders, with a cursor when there are more, or it
  takes there to be. -/
  | answer (n : ℕ) (more : Bool) (approvals : List Login) (takes : Option Bool)
      (dropped : Option ℕ)
  /-- The first message under way arrives. -/
  | deliver (now : ℕ)

/-- A count, as a message carries it. -/
def countOf (senders : List Sender) : ℕ := min senders.length (2 ^ 32 - 1)

/-- The page a server answers a request with. -/
def Cursors.answer (C : Cursors) (senders : List Sender) (request : Option (List UInt8)) (n : ℕ)
    (more : Bool) (approvals : List Login) (takes : Option Bool) (dropped : Option ℕ) : Page :=
  let start := request.elim 0 (C.place senders)
  { takes, dropped, approvals
    cursor := if start + n < senders.length ∨ more then
      some (C.mark senders (min (start + n) senders.length)) else none
    senders := (senders.drop start).take n }

namespace Exchange

/-- What arrives is taken. -/
def arrive (x : Exchange) (now : ℕ) : Told → Exchange
  | .changed count _ =>
    { x with client := x.client.changed count, held := x.held.map fun h => (h.1, true) }
  | .page p _ senders =>
    let whole := (x.client.page p now).1 ∧ (x.client.page p now).2.owed = none ∧
      ∀ l, x.client.listing = some l → l.pages + 1 < PAGE_BOUND
    { x with
      client := (x.client.page p now).2
      held := if (x.client.page p now).1 then (if whole then some (senders, false) else none)
        else x.held }

/-- One move, unless it cannot happen now. -/
def step (C : Cursors) (x : Exchange) : Move → Option Exchange
  | .want => some { x with client := x.client.want }
  | .look => some { x with client := x.client.look }
  | .next now => some { x with
      client := (x.client.next now).2
      asked := x.asked ++ (x.client.next now).1.toList }
  | .change server => some { x with
      server
      told := x.told ++ [.changed (countOf server.senders) server.senders] }
  | .approve server =>
    if server.senders = x.server.senders then some { x with server } else none
  | .answer n more approvals takes dropped =>
    match x.asked with
    | request :: asked =>
      if approvals ⊆ x.server.approvals then
        some { x with
          asked
          told := x.told ++
            [.page (C.answer x.server.senders request n more approvals takes dropped) request
              x.server.senders] }
      else none
    | [] => none
  | .deliver now =>
    match x.told with
    | m :: told => some ({ x with told }.arrive now m)
    | [] => none

end Exchange

/-- A connection that holds nothing yet, to a server. -/
def listing (C : Cursors) (server : Server) : Process Exchange Move :=
  ⟨{ client := {}, server }, Exchange.step C⟩

/-- The request a message answers, if it is a page. -/
def Told.request : Told → Option (Option (List UInt8))
  | .page _ request _ => some request
  | .changed _ _ => none

/-- The pages asked for that have not arrived. -/
def Exchange.outstanding (x : Exchange) : List (Option (List UInt8)) :=
  x.told.filterMap Told.request ++ x.asked

/-- What is under way takes the senders the client was last told of to the server's: each page
is read from the senders as they are at that point, and each change says what they become. -/
def Consistent (C : Cursors) : List Sender → List Told → List Sender → Prop
  | senders, [], last => last = senders
  | senders, .page p request then_ :: told, last =>
    then_ = senders ∧
    (∃ n more approvals takes dropped, (∀ s ∈ senders, s.login ∉ approvals) ∧
      p = C.answer senders request n more approvals takes dropped) ∧
    Consistent C senders told last
  | _, .changed count then_ :: told, last =>
    count = countOf then_ ∧ (then_.map Sender.login).Nodup ∧ Consistent C then_ told last

/-- A listing under way, against the senders the client was last told of. -/
structure Gathers (C : Cursors) (senders : List Sender) (r : Requests)
    (outstanding : List (Option (List UInt8))) (l : Listing) : Prop where
  awaits : l.next = none → ∃ request, outstanding = [request] ∧ (request = none ↔ l.pages = 0)
  rests : l.next ≠ none → outstanding = [] ∧ l.pages ≠ 0
  looks : l.next = none → l.follow = false → l.pages = 0
  blank : l.pages = 0 → l.senders = [] ∧ l.approvals = ∅
  apart : Apart l.senders l.approvals
  counted : l.changed = true → r.count = countOf senders
  gathered : l.follow = true → r.owed = none → l.pages ≠ 0 → ∃ k ≤ senders.length,
    l.senders = senders.take k ∧ (∀ m, l.next = some m → m = C.mark senders k) ∧
    (l.next = none → outstanding = [some (C.mark senders k)])

/-- What a run keeps, for the senders the client was last told of. -/
structure Follows (C : Cursors) (senders : List Sender) (x : Exchange) : Prop where
  distinct : (senders.map Sender.login).Nodup
  consistent : Consistent C senders x.told x.server.senders
  idle : x.client.listing = none → x.outstanding = []
  listing : ∀ l, x.client.listing = some l → Gathers C senders x.client x.outstanding l
  apart : Apart x.client.senders x.client.approvals
  held : ∀ then_ changed, x.held = some (then_, changed) →
    x.client.senders = then_ ∧ (changed = false → x.client.count = countOf then_)

/-- A change goes after what is under way. -/
theorem Consistent.changed {C : Cursors} {senders last : List Sender} {told : List Told}
    (h : Consistent C senders told last) (server : Server) :
    Consistent C senders (told ++ [.changed (countOf server.senders) server.senders])
      server.senders := by
  induction told generalizing senders with
  | nil => exact ⟨rfl, server.distinct, rfl⟩
  | cons m told ih =>
    cases m with
    | page p request then_ => exact ⟨h.1, h.2.1, ih h.2.2⟩
    | changed count then_ => exact ⟨h.1, h.2.1, ih h.2.2⟩

/-- So does a page read from the server's senders. -/
theorem Consistent.page {C : Cursors} {senders last : List Sender} {told : List Told}
    (h : Consistent C senders told last) {request : Option (List UInt8)} {n : ℕ} {more : Bool}
    {approvals : List Login} {takes : Option Bool} {dropped : Option ℕ}
    (hapart : ∀ s ∈ last, s.login ∉ approvals) :
    Consistent C senders
      (told ++ [.page (C.answer last request n more approvals takes dropped) request last])
      last := by
  induction told generalizing senders with
  | nil =>
    obtain rfl : last = senders := h
    exact ⟨rfl, ⟨n, more, approvals, takes, dropped, hapart, rfl⟩, rfl⟩
  | cons m told ih =>
    cases m with
    | page p request then_ => exact ⟨h.1, h.2.1, ih h.2.2⟩
    | changed count then_ => exact ⟨h.1, h.2.1, ih h.2.2⟩

section Steps

variable {C : Cursors} {senders : List Sender} {x : Exchange}

theorem Follows.want (h : Follows C senders x) :
    Follows C senders { x with client := x.client.want } := by
  unfold Requests.want
  cases hl : x.client.listing with
  | none => exact ⟨h.distinct, h.consistent, fun _ => h.idle hl, fun l hl' => by simp_all,
      h.apart, h.held⟩
  | some l =>
    have hgathers := h.listing l hl
    by_cases hfollow : l.follow = true
    · simp only [hfollow, if_true]
      refine ⟨h.distinct, h.consistent, fun hnone => (by cases hnone), fun l' hl' => ?_,
        h.apart, h.held⟩
      obtain rfl := Option.some.inj hl'
      exact ⟨hgathers.awaits, hgathers.rests, hgathers.looks, hgathers.blank, hgathers.apart,
        hgathers.counted, fun _ howed => by cases howed⟩
    · simp only [hfollow, if_false, Bool.false_eq_true]
      by_cases hnext : l.next = none
      · have hpages := hgathers.looks hnext (Bool.eq_false_iff.mpr hfollow)
        simp only [hnext, Option.isNone_none, if_true]
        refine ⟨h.distinct, h.consistent, fun hnone => (by cases hnone), fun l' hl' => ?_,
          h.apart, h.held⟩
        obtain rfl := Option.some.inj hl'
        exact ⟨fun _ => hgathers.awaits hnext, fun hsome => absurd rfl hsome, fun _ _ => hpages,
          hgathers.blank, hgathers.apart, hgathers.counted, fun _ _ hne => absurd hpages hne⟩
      · simp only [Option.isNone_iff_eq_none, hnext, if_false]
        exact ⟨h.distinct, h.consistent, fun _ => (hgathers.rests hnext).1,
          fun l' hl' => (by cases hl'), h.apart, h.held⟩

theorem Follows.look (h : Follows C senders x) :
    Follows C senders { x with client := x.client.look } := by
  unfold Requests.look
  by_cases hidle : x.client.listing.isNone ∧ x.client.owed.isNone
  · rw [if_pos hidle]
    have hnone := Option.isNone_iff_eq_none.mp hidle.1
    refine ⟨h.distinct, h.consistent, fun _ => h.idle hnone, fun l hl => ?_, h.apart, h.held⟩
    rw [show x.client.listing = some l from hl] at hnone
    cases hnone
  · rwa [if_neg hidle]

theorem Follows.next (h : Follows C senders x) (now : ℕ) :
    Follows C senders { x with
      client := (x.client.next now).2
      asked := x.asked ++ (x.client.next now).1.toList } := by
  rcases x.client.next_cases now with hnext | ⟨hl, -, hnext⟩ |
    ⟨l, cursor, hl, hcursor, hfollow, -, hnext⟩
  · rw [hnext]
    simpa using h
  · rw [hnext]
    have hnone := h.idle hl
    refine ⟨h.distinct, h.consistent, fun hlisting => (by cases hlisting), fun l' hl' => ?_,
      h.apart, h.held⟩
    obtain rfl := Option.some.inj hl'
    refine ⟨fun _ => ⟨none, ?_, ?_⟩, fun hsome => absurd rfl hsome, fun _ _ => rfl,
      fun _ => ⟨rfl, rfl⟩, ⟨List.nodup_nil, fun s hs => (by cases hs)⟩,
      fun hchanged => (by cases hchanged), fun _ _ hne => absurd rfl hne⟩
    · change x.told.filterMap Told.request ++ (x.asked ++ [none]) = [none]
      rw [← List.append_assoc, show x.told.filterMap Told.request ++ x.asked = [] from hnone,
        List.nil_append]
    · exact ⟨fun _ => rfl, fun _ => rfl⟩
  · rw [hnext]
    have hgathers := h.listing l hl
    have hsome : l.next ≠ none := by
      rw [hcursor]
      exact Option.some_ne_none _
    obtain ⟨hnone, hpages⟩ := hgathers.rests hsome
    have hone : x.told.filterMap Told.request ++ (x.asked ++ [some cursor]) = [some cursor] := by
      rw [← List.append_assoc, show x.told.filterMap Told.request ++ x.asked = [] from hnone,
        List.nil_append]
    refine ⟨h.distinct, h.consistent, fun hlisting => (by cases hlisting), fun l' hl' => ?_,
      h.apart, h.held⟩
    obtain rfl := Option.some.inj hl'
    refine ⟨fun _ => ⟨some cursor, hone, ?_⟩, fun hsome => absurd rfl hsome,
      fun _ hlook => (by cases hfollow.symm.trans hlook), hgathers.blank,
      hgathers.apart, hgathers.counted, fun _ howed _ => ?_⟩
    · exact ⟨fun hnone => (by cases hnone), fun hzero => absurd hzero hpages⟩
    · obtain ⟨k, hk, hsenders, hmark, -⟩ := hgathers.gathered hfollow howed hpages
      refine ⟨k, hk, hsenders, fun m hm => (by cases hm), fun _ => ?_⟩
      rw [← hmark cursor hcursor]
      exact hone

theorem Follows.change (h : Follows C senders x) (server : Server) :
    Follows C senders { x with
      server
      told := x.told ++ [.changed (countOf server.senders) server.senders] } := by
  have hout : ({ x with
      server
      told := x.told ++ [.changed (countOf server.senders) server.senders] } : Exchange).outstanding
      = x.outstanding := by
    simp [Exchange.outstanding, Told.request]
  refine ⟨h.distinct, h.consistent.changed server, ?_, ?_, h.apart, h.held⟩
  · rw [hout]
    exact h.idle
  · rw [hout]
    exact h.listing

theorem Follows.approve (h : Follows C senders x) {server : Server}
    (hsame : server.senders = x.server.senders) : Follows C senders { x with server } where
  distinct := h.distinct
  consistent := by
    rw [hsame]
    exact h.consistent
  idle := h.idle
  listing := h.listing
  apart := h.apart
  held := h.held

theorem Follows.answer (h : Follows C senders x) {request : Option (List UInt8)}
    {asked : List (Option (List UInt8))} (hasked : x.asked = request :: asked) {n : ℕ} {more : Bool}
    {approvals : List Login} {takes : Option Bool} {dropped : Option ℕ}
    (happroved : approvals ⊆ x.server.approvals) :
    Follows C senders { x with
      asked
      told := x.told ++ [.page (C.answer x.server.senders request n more approvals takes dropped)
        request x.server.senders] } := by
  have hout : ({ x with
      asked
      told := x.told ++ [.page (C.answer x.server.senders request n more approvals takes dropped)
        request x.server.senders] } : Exchange).outstanding = x.outstanding := by
    simp [Exchange.outstanding, Told.request, hasked]
  refine ⟨h.distinct, h.consistent.page ?_, ?_, ?_, h.apart, h.held⟩
  · exact fun s hs hmem => x.server.apart s hs (happroved hmem)
  · rw [hout]
    exact h.idle
  · rw [hout]
    exact h.listing

/-- Message Requests Changed arrives: the senders are what it said they are. -/
theorem Follows.changed {count : ℕ} {then_ : List Sender} {told : List Told}
    (h : Follows C senders x) (htold : x.told = .changed count then_ :: told) (now : ℕ) :
    Follows C then_ ({ x with told }.arrive now (.changed count then_)) := by
  obtain ⟨hcount, hdistinct, hconsistent⟩ :
      count = countOf then_ ∧ (then_.map Sender.login).Nodup ∧
        Consistent C then_ told x.server.senders := by
    have hall := h.consistent
    rwa [htold] at hall
  have hout : x.outstanding = told.filterMap Told.request ++ x.asked := by
    rw [Exchange.outstanding, htold]
    rfl
  have hheld : ∀ snap changed, (x.held.map fun h => (h.1, true)) = some (snap, changed) →
      x.client.senders = snap ∧ changed = true := by
    intro snap changed hmap
    obtain ⟨⟨snap', changed'⟩, hsome, heq⟩ := Option.map_eq_some_iff.mp hmap
    obtain ⟨rfl, rfl⟩ := Prod.mk.inj heq
    exact ⟨(h.held _ _ hsome).1, rfl⟩
  cases hl : x.client.listing with
  | none =>
    simp only [Exchange.arrive, Requests.changed_of_none hl]
    refine ⟨hdistinct, hconsistent, fun _ => ?_, fun l hl' => (by cases hl.symm.trans hl'),
      h.apart, ?_⟩
    · exact hout.symm.trans (h.idle hl)
    · intro snap changed hmap
      obtain ⟨hsnap, rfl⟩ := hheld snap changed hmap
      exact ⟨hsnap, fun hfalse => by cases hfalse⟩
  | some l =>
    have hgathers := h.listing l hl
    simp only [Exchange.arrive, Requests.changed_of_some hl]
    refine ⟨hdistinct, hconsistent, fun hnone => (by cases hnone), fun l' hl' => ?_, h.apart, ?_⟩
    · obtain rfl := Option.some.inj hl'
      refine ⟨fun hnext => ?_, fun hnext => ?_, hgathers.looks, hgathers.blank, hgathers.apart,
        fun _ => hcount, fun hfollow howed => ?_⟩
      · obtain ⟨request, hone, hfirst⟩ := hgathers.awaits hnext
        exact ⟨request, hout.symm.trans hone, hfirst⟩
      · exact ⟨hout.symm.trans (hgathers.rests hnext).1, (hgathers.rests hnext).2⟩
      · have hfollow : l.follow = true := hfollow
        simp [hfollow] at howed
    · intro snap changed hmap
      obtain ⟨hsnap, rfl⟩ := hheld snap changed hmap
      exact ⟨hsnap, fun hfalse => by cases hfalse⟩

/-- A page that is read where the listing stands takes it to the place the page marks. -/
theorem Gathers.add {r : Requests} {l : Listing} {request : Option (List UInt8)} {n : ℕ}
    {more : Bool} {approvals : List Login} {takes : Option Bool} {dropped : Option ℕ}
    (h : Gathers C senders r [request] l) (hnext : l.next = none)
    (hdistinct : (senders.map Sender.login).Nodup) (hapart : ∀ s ∈ senders, s.login ∉ approvals)
    (hwhole : l.pages = 0 ∨ (l.follow = true ∧ r.owed = none)) (now : ℕ) :
    ∃ k ≤ senders.length,
      (l.add (C.answer senders request n more approvals takes dropped) now).senders =
        senders.take k ∧
      (C.answer senders request n more approvals takes dropped).cursor =
        if k < senders.length ∨ more then some (C.mark senders k) else none := by
  obtain ⟨request', hone, hfirst⟩ := h.awaits hnext
  obtain rfl := List.singleton_inj.mp hone
  obtain ⟨k, hk, hsenders, hplace⟩ : ∃ k ≤ senders.length,
      l.senders = senders.take k ∧ request.elim 0 (C.place senders) = k := by
    by_cases hpages : l.pages = 0
    · refine ⟨0, Nat.zero_le _, (h.blank hpages).1, ?_⟩
      rw [hfirst.mpr hpages]
      rfl
    · obtain ⟨hfollow, howed⟩ := hwhole.resolve_left hpages
      obtain ⟨k, hk, hsenders, -, hmark⟩ := h.gathered hfollow howed hpages
      refine ⟨k, hk, hsenders, ?_⟩
      rw [List.singleton_inj.mp (hmark hnext)]
      exact C.place_mark senders k hk
  have hadd := l.add_senders hdistinct
    (p := C.answer senders request n more approvals takes dropped) hapart hsenders
    (by rw [← hplace]; rfl) now
  refine ⟨min (k + n) senders.length, Nat.min_le_right _ _, ?_, ?_⟩
  · rw [hadd, ← List.take_eq_take_min]
  · change (if request.elim 0 (C.place senders) + n < _ ∨ _ then some (C.mark _ (min
      (request.elim 0 (C.place senders) + n) _)) else none) = _
    rw [hplace]
    refine if_congr ?_ rfl rfl
    have hlt : k + n < senders.length ↔ min (k + n) senders.length < senders.length := by omega
    rw [hlt]

/-- A page arrives: it is the one that was asked for, and read from the senders the client was
last told of. -/
theorem Follows.page {p : Page} {request : Option (List UInt8)} {then_ : List Sender}
    {told : List Told} (h : Follows C senders x) (htold : x.told = .page p request then_ :: told)
    (now : ℕ) : Follows C senders ({ x with told }.arrive now (.page p request then_)) := by
  have hall := h.consistent
  rw [htold] at hall
  obtain ⟨rfl, ⟨n, more, approvals, takes, dropped, hapart, rfl⟩, hconsistent⟩ := hall
  have hout : x.outstanding = request :: (told.filterMap Told.request ++ x.asked) := by
    rw [Exchange.outstanding, htold]
    rfl
  cases hl : x.client.listing with
  | none =>
    have hnone := h.idle hl
    rw [hout] at hnone
    cases hnone
  | some l =>
    have hgathers := h.listing l hl
    have hnext : l.next = none := by
      by_contra hsome
      have hnone := (hgathers.rests hsome).1
      rw [hout] at hnone
      cases hnone
    obtain ⟨request', hone, -⟩ := hgathers.awaits hnext
    rw [hout] at hone hgathers
    obtain ⟨rfl, hrest⟩ := List.cons.inj hone
    rw [hrest] at hgathers
    have hadd : l.pages = 0 ∨ (l.follow = true ∧ x.client.owed = none) →
        ∃ k ≤ then_.length,
          (l.add (C.answer then_ request n more approvals takes dropped) now).senders =
            then_.take k ∧
          (C.answer then_ request n more approvals takes dropped).cursor =
            if k < then_.length ∨ more then some (C.mark then_ k) else none :=
      fun hwhole => hgathers.add hnext h.distinct hapart hwhole now
    generalize C.answer then_ request n more approvals takes dropped = p at hadd ⊢
    have hadd_apart := Listing.add_apart hgathers.apart p now
    by_cases hmore : p.cursor.isSome ∧ l.pages + 1 < PAGE_BOUND
    · simp only [Exchange.arrive, Requests.page_of_more hl hmore]
      refine ⟨h.distinct, hconsistent, fun hnone => (by cases hnone), fun l' hl' => ?_,
        h.apart, h.held⟩
      obtain rfl := Option.some.inj hl'
      refine ⟨fun hnone => ?_, fun _ => ⟨hrest, Nat.succ_ne_zero _⟩, fun hnone => ?_,
        fun hzero => absurd hzero (Nat.succ_ne_zero _), hadd_apart, hgathers.counted,
        fun hfollow howed _ => ?_⟩
      · rw [show p.cursor = none from hnone] at hmore
        cases hmore.1
      · rw [show p.cursor = none from hnone] at hmore
        cases hmore.1
      · obtain ⟨k, hk, hsenders, hcursor⟩ := hadd (.inr ⟨hfollow, howed⟩)
        refine ⟨k, hk, hsenders, fun m hm => ?_, fun hnone => ?_⟩
        · rw [show (l.add p now).next = p.cursor from rfl, hcursor] at hm
          exact ((Option.ite_some_none_eq_some).mp hm).2.symm
        · rw [show p.cursor = none from hnone] at hmore
          cases hmore.1
    · simp only [Exchange.arrive, Requests.page_of_last hl hmore]
      refine ⟨h.distinct, hconsistent, fun _ => hrest, fun l' hl' => (by cases hl'), hadd_apart,
        fun snap changed hheld => ?_⟩
      simp only [if_true, Option.ite_some_none_eq_some] at hheld
      obtain ⟨⟨-, howed, hbound⟩, heq⟩ := hheld
      obtain ⟨rfl, rfl⟩ := Prod.mk.inj heq
      have hcursor_none : p.cursor = none := by
        by_contra hsome
        exact hmore ⟨Option.isSome_iff_ne_none.mpr hsome, hbound l hl⟩
      obtain ⟨k, hk, hsenders, hcursor⟩ := hadd <| by
        by_cases hpages : l.pages = 0
        · exact .inl hpages
        · refine .inr ⟨?_, howed⟩
          by_contra hlook
          exact hpages (hgathers.looks hnext (Bool.eq_false_iff.mpr hlook))
      have hend : (l.add p now).senders = then_ := by
        rw [hcursor_none] at hcursor
        have hnot : ¬(k < then_.length ∨ more = true) := fun hcond => by
          rw [if_pos hcond] at hcursor
          cases hcursor
        rw [hsenders, List.take_of_length_le (Nat.le_of_not_lt fun hlt => hnot (.inl hlt))]
      refine ⟨hend, fun _ => ?_⟩
      change (if l.changed = true then _ else _) = _
      by_cases hchanged : l.changed = true
      · rw [if_pos hchanged]
        exact hgathers.counted hchanged
      · rw [if_neg hchanged, hend]
        rfl

/-- One move keeps it. -/
theorem Follows.step {y : Exchange} (h : Follows C senders x) {move : Move}
    (hstep : x.step C move = some y) : ∃ senders', Follows C senders' y := by
  cases move with
  | want => exact ⟨senders, Option.some.inj hstep ▸ h.want⟩
  | look => exact ⟨senders, Option.some.inj hstep ▸ h.look⟩
  | next now => exact ⟨senders, Option.some.inj hstep ▸ h.next now⟩
  | change server => exact ⟨senders, Option.some.inj hstep ▸ h.change server⟩
  | approve server =>
    obtain ⟨hsame, heq⟩ := Option.ite_some_none_eq_some.mp hstep
    exact ⟨senders, heq ▸ h.approve hsame⟩
  | answer n more approvals takes dropped =>
    cases hasked : x.asked with
    | nil => simp [Exchange.step, hasked] at hstep
    | cons request asked =>
      simp only [Exchange.step, hasked, Option.ite_some_none_eq_some] at hstep
      exact ⟨senders, hstep.2 ▸ h.answer hasked hstep.1⟩
  | deliver now =>
    cases htold : x.told with
    | nil => simp [Exchange.step, htold] at hstep
    | cons m told =>
      simp only [Exchange.step, htold, Option.some.injEq] at hstep
      cases m with
      | page p request then_ => exact ⟨senders, hstep ▸ h.page htold now⟩
      | changed count then_ => exact ⟨then_, hstep ▸ h.changed htold now⟩

end Steps

/-- Every run keeps it, for some senders. -/
theorem follows_of_run {C : Cursors} {server : Server} {moves : List Move} {x : Exchange}
    (hrun : (listing C server).run moves = some x) : ∃ senders, Follows C senders x := by
  refine Process.invariant (P := listing C server)
    (Q := fun x => ∃ senders, Follows C senders x) ?_ ?_ hrun
  · exact ⟨server.senders, server.distinct, rfl, fun _ => rfl, fun l hl => (by cases hl),
      ⟨List.nodup_nil, fun s hs => (by cases hs)⟩, fun _ _ hheld => (by cases hheld)⟩
  · rintro x move y ⟨senders, h⟩ hstep
    exact h.step hstep

/-- When a page completes a listing of fewer pages than the bound and no other is owed, the
senders held are the server's when it answered that page, and the count is theirs, until
Message Requests Changed sets it again. And the senders held have different logins always, none
of which we approved. -/
theorem listing_is_snapshot (C : Cursors) (server : Server) (moves : List Move) (x : Exchange)
    (hrun : (listing C server).run moves = some x) :
    (∀ p request then_ told now, x.told = .page p request then_ :: told →
      (x.client.page p now).1 = true →
      (∀ l, x.client.listing = some l → l.pages + 1 < PAGE_BOUND) →
      (x.client.page p now).2.owed = none →
      (x.client.page p now).2.senders = then_ ∧ (x.client.page p now).2.count = countOf then_) ∧
    (∀ then_ changed, x.held = some (then_, changed) →
      x.client.senders = then_ ∧ (changed = false → x.client.count = countOf then_)) ∧
    (x.client.senders.map Sender.login).Nodup ∧
    ∀ s ∈ x.client.senders, s.login ∉ x.client.approvals := by
  obtain ⟨senders, h⟩ := follows_of_run hrun
  refine ⟨fun p request then_ told now htold hlast hbound howed => ?_, h.held,
    h.apart.distinct, h.apart.apart⟩
  have harrived := (h.page htold now).held then_ false <| by
    simp only [Exchange.arrive, hlast, howed, true_and, if_true, if_pos hbound]
  exact ⟨harrived.1, harrived.2 rfl⟩

/-- Cursors that count the senders before them. -/
private def counting : Cursors where
  mark _ k := List.replicate k 0
  place _ mark := mark.length
  place_mark _ _ _ := List.length_replicate

/-- A server where two wait. -/
private def twoWaiting : Server where
  senders := [⟨[1], []⟩, ⟨[2], []⟩]
  approvals := []
  distinct := by decide
  apart := fun s _ hmem => by cases hmem

/-- Two who wait are listed, a page each. -/
private def twoPages : List Move :=
  [.want, .next 0, .answer 1 false [] none none, .deliver 0, .next PAGE_GAP,
    .answer 1 false [] none none]

theorem two_pages_snapshot : ∃ x, (listing counting twoWaiting).run twoPages = some x ∧
    (x.client.page ⟨none, none, none, [⟨[2], []⟩], []⟩ PAGE_GAP).2.senders =
      twoWaiting.senders ∧ (x.client.senders.map Sender.login).Nodup := by
  refine ⟨_, rfl, ?_, ?_⟩
  · exact ((listing_is_snapshot counting twoWaiting twoPages _ rfl).1 _ _ _ _ PAGE_GAP rfl rfl
      (fun l hl => by cases hl; decide) rfl).1
  · exact (listing_is_snapshot counting twoWaiting twoPages _ rfl).2.2.1

end Gtkhx.Messaging
