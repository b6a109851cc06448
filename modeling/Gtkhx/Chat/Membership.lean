import Gtkhx.Library.Reactive
import Mathlib.Data.Finset.Insert
import Mathlib.Data.Finset.Erase

/-!
# Who is in which private chat

The private chats of one connection: the registry of the chats there are, the joins in flight,
and the handlers that make a chat or take it away. The server handles the requests in the order
sent and grants every join; both ways deliver in order. Which chats there are, and which the server
holds this client in, is all that is followed of a room.
-/

namespace Gtkhx.Chat

/-- A join in flight: its chat, and whether the user has left that chat since asking. -/
structure Join where
  cid : UInt32
  parted : Bool
  deriving DecidableEq

/-- What the client sends about private chats. -/
inductive Request
  | chatJoin (trans cid : UInt32)
  | chatPart (cid : UInt32)
  deriving DecidableEq

/-- What the server sends about them. -/
inductive Message
  | chatJoined (trans cid : UInt32)
  | userChanged (cid : UInt32)
  deriving DecidableEq

/-- The registry of chats, with the public one from the start, and the joins in flight by trans,
oldest first. -/
structure Client where
  chats : Finset UInt32 := {0}
  joins : List (UInt32 × Join) := []

namespace Client

/-- Make a chat, and put it in the registry. -/
def chatNew (c : Client) (cid : UInt32) : Client := { c with chats := insert cid c.chats }

/-- A user arrives in a chat or changes there. -/
def changed (c : Client) (cid : UInt32) : Client :=
  if cid ∈ c.chats then c else c.chatNew cid

/-- A join goes out. -/
def joinRequested (c : Client) (trans cid : UInt32) : Client :=
  { c with joins := c.joins ++ [(trans, ⟨cid, false⟩)] }

/-- The user leaves a chat: a join of it still in flight is answered for a chat that is gone. -/
def joinParted (c : Client) (cid : UInt32) : Client :=
  { c with
    joins := c.joins.map fun j => if j.2.cid = cid then (j.1, { j.2 with parted := true }) else j }

/-- The join a reply answers, which is in flight no more. -/
def joinAnswered (c : Client) (trans : UInt32) : Option Join × Client :=
  (c.joins.lookup trans, { c with joins := c.joins.eraseP (·.1 = trans) })

/-- The reply to a join: the chat, unless the user left it while the join was on its way. -/
def joined (c : Client) (trans cid : UInt32) : Client :=
  let r := c.joinAnswered trans
  if r.1.any Join.parted then r.2
  else if cid ∈ r.2.chats then r.2
  else r.2.chatNew cid

/-- Join a chat. -/
def hxChatJoin (c : Client) (trans cid : UInt32) : Client × List Request :=
  (c.joinRequested trans cid, [.chatJoin trans cid])

/-- Leave a chat, if there is one of this number. -/
def hxPartChat (c : Client) (cid : UInt32) : Client × List Request :=
  let c := c.joinParted cid
  if cid ∉ c.chats then (c, []) else (c, [.chatPart cid])

/-- The chat goes from the registry. -/
def chatDelete (c : Client) (cid : UInt32) : Client := { c with chats := c.chats.erase cid }

/-- What the session hands over. -/
def receive (c : Client) : Message → Client
  | .chatJoined t cid => c.joined t cid
  | .userChanged cid => c.changed cid

end Client

/-- The rooms the server holds this client in after a request. -/
def serve (member : Finset UInt32) : Request → Finset UInt32
  | .chatJoin _ cid => insert cid member
  | .chatPart cid => member.erase cid

/-- The server's answer to a request. -/
def answer : Request → List Message
  | .chatJoin t cid => [.chatJoined t cid]
  | .chatPart _ => []

/-- Both ends, and what is under way between them, oldest first. -/
structure Exchange where
  client : Client := {}
  up : List Request := []
  member : Finset UInt32 := ∅
  down : List Message := []

/-- What happens next. -/
inductive ExchangeInput
  /-- The user joins a room; the session numbers the request. -/
  | joins (trans cid : UInt32)
  /-- The user leaves a room. -/
  | leaves (cid : UInt32)
  /-- Another member of a room joins it or changes. -/
  | changes (cid : UInt32)
  /-- The server handles the oldest request. -/
  | serves
  /-- The oldest message reaches the client. -/
  | delivers

namespace Exchange

/-- One input. A number is not given to a join while another join in flight has it. -/
def step (s : Exchange) : ExchangeInput → Option Exchange
  | .joins t cid =>
    if cid ≠ 0 ∧ t ∉ s.client.joins.map Prod.fst then
      let r := s.client.hxChatJoin t cid
      some { s with client := r.1, up := s.up ++ r.2 }
    else none
  | .leaves cid =>
    if cid ≠ 0 ∧ cid ∈ s.client.chats then
      let r := s.client.hxPartChat cid
      some { s with client := r.1.chatDelete cid, up := s.up ++ r.2 }
    else none
  | .changes cid =>
    if cid ≠ 0 ∧ cid ∈ s.member then some { s with down := s.down ++ [.userChanged cid] } else none
  | .serves =>
    match s.up with
    | [] => none
    | r :: up => some { s with up := up, member := serve s.member r, down := s.down ++ answer r }
  | .delivers =>
    match s.down with
    | [] => none
    | d :: down => some { s with client := s.client.receive d, down := down }

/-- With nothing in flight either way, the registry has the chats of the rooms the server holds
this client in. -/
def Agrees (s : Exchange) : Prop :=
  s.up = [] → s.down = [] → ∀ cid, cid ≠ 0 → (cid ∈ s.client.chats ↔ cid ∈ s.member)

/-- A room is known to the client: there is a chat for it, or a join of it is in flight that the
user has not left since asking. -/
def Known (s : Exchange) (cid : UInt32) : Prop :=
  cid ∈ s.client.chats ∨ ∃ trans, (trans, Join.mk cid false) ∈ s.client.joins

/-- A user-change that is delivered is about a room the client knows. -/
def OnlyKnown (s : Exchange) (i : ExchangeInput) : Prop :=
  i = .delivers → ∀ cid down, s.down = .userChanged cid :: down → s.Known cid

end Exchange

/-- A client with no private chat, and a server that holds it in none. -/
def chatting : Reactive.Process Exchange ExchangeInput where
  start := {}
  step := Exchange.step

/-- The join a message answers. -/
def Message.answers : Message → Option (UInt32 × UInt32)
  | .chatJoined t cid => some (t, cid)
  | .userChanged _ => none

/-- The join a request asks for. -/
def Request.asks : Request → Option (UInt32 × UInt32)
  | .chatJoin t cid => some (t, cid)
  | .chatPart _ => none

theorem filterMap_answer (r : Request) : (answer r).filterMap Message.answers = r.asks.toList := by
  cases r <;> rfl

namespace Exchange

variable {s s' : Exchange}

/-- The rooms the server will hold this client in once it has handled all that was sent. -/
def settled (s : Exchange) : Finset UInt32 := s.up.foldl serve s.member

/-- What holds while the condition does: the joins in flight are those the client remembers, in
the order sent, and the client knows the rooms the server will hold it in. -/
structure Tracked (s : Exchange) : Prop where
  inFlight : s.client.joins.map (fun j => (j.1, j.2.cid)) =
    s.down.filterMap Message.answers ++ s.up.filterMap Request.asks
  known_iff : ∀ cid, cid ≠ 0 → (s.Known cid ↔ cid ∈ s.settled)

theorem tracked_start : Tracked {} := by
  refine ⟨rfl, fun cid hcid => ?_⟩
  simp [Known, settled, hcid]

/-- With nothing in flight no join is remembered, so the rooms known are those with a chat. -/
theorem Tracked.agrees (hs : s.Tracked) : s.Agrees := by
  intro hup hdown cid hcid
  have hjoins : s.client.joins = [] := by
    have h := hs.inFlight
    rwa [hup, hdown, List.filterMap_nil, List.filterMap_nil, List.append_nil,
      List.map_eq_nil_iff] at h
  have h := hs.known_iff cid hcid
  rw [settled, hup, List.foldl_nil] at h
  rw [← h]
  simp [Known, hjoins]

/-- A join makes its room known, and the server will hold the client in it. -/
theorem Tracked.joins (hs : s.Tracked) (t cid : UInt32) :
    Tracked { s with
      client := (s.client.hxChatJoin t cid).1
      up := s.up ++ (s.client.hxChatJoin t cid).2 } where
  inFlight := by
    simp [Client.hxChatJoin, Client.joinRequested, hs.inFlight, Request.asks]
  known_iff c hc := by
    have hknown := hs.known_iff c hc
    simp only [Known, settled] at hknown
    simp only [Known, settled, Client.hxChatJoin, Client.joinRequested, List.foldl_append,
      List.foldl_cons, List.foldl_nil, serve, Finset.mem_insert, List.mem_append,
      List.mem_singleton, Prod.mk.injEq, Join.mk.injEq, and_true, ← hknown, exists_or,
      exists_eq_left]
    constructor
    · rintro (h | h | rfl)
      · exact .inr (.inl h)
      · exact .inr (.inr h)
      · exact .inl rfl
    · rintro (rfl | h | h)
      · exact .inr (.inr rfl)
      · exact .inl h
      · exact .inr (.inl h)

/-- Leaving a room makes it unknown, and the server will hold the client in it no more. -/
theorem Tracked.leaves (hs : s.Tracked) {cid : UInt32} (hchat : cid ∈ s.client.chats) :
    Tracked { s with
      client := (s.client.hxPartChat cid).1.chatDelete cid
      up := s.up ++ (s.client.hxPartChat cid).2 } where
  inFlight := by
    have hmap : (s.client.joinParted cid).joins.map (fun j => (j.1, j.2.cid)) =
        s.client.joins.map (fun j => (j.1, j.2.cid)) := by
      simp only [Client.joinParted, List.map_map]
      refine List.map_congr_left fun j _ => ?_
      simp only [Function.comp_apply]
      split_ifs <;> rfl
    have hpart : s.client.hxPartChat cid = (s.client.joinParted cid, [.chatPart cid]) := by
      simp [Client.hxPartChat, Client.joinParted, hchat]
    rw [hpart]
    simp only [Client.chatDelete, hmap, hs.inFlight, List.filterMap_append, Request.asks,
      List.filterMap_cons, List.filterMap_nil, List.append_nil]
  known_iff c hc := by
    have hpart : s.client.hxPartChat cid = (s.client.joinParted cid, [.chatPart cid]) := by
      simp [Client.hxPartChat, Client.joinParted, hchat]
    have hwaits : (∃ t, (t, Join.mk c false) ∈ (s.client.joinParted cid).joins) ↔
        c ≠ cid ∧ ∃ t, (t, Join.mk c false) ∈ s.client.joins := by
      simp only [Client.joinParted, List.mem_map]
      constructor
      · rintro ⟨t, ⟨t', ⟨cid', parted⟩⟩, hmem, heq⟩
        split_ifs at heq with hsame
        · simp at heq
        · obtain ⟨rfl, rfl, rfl⟩ : t' = t ∧ cid' = c ∧ parted = false := by simpa using heq
          exact ⟨hsame, t', hmem⟩
      · rintro ⟨hne, t, hmem⟩
        exact ⟨t, (t, ⟨c, false⟩), hmem, by simp [hne]⟩
    have hknown := hs.known_iff c hc
    simp only [Known, settled] at hknown
    rw [hpart]
    simp only [Known, settled, Client.chatDelete, hwaits, List.foldl_append, List.foldl_cons,
      List.foldl_nil, serve, Finset.mem_erase, ← hknown, and_or_left]
    rfl

/-- What the server handles is the same before and after. -/
theorem Tracked.serves (hs : s.Tracked) {r : Request} {up : List Request} (h : s.up = r :: up) :
    Tracked { s with
      up := up
      member := serve s.member r
      down := s.down ++ answer r } where
  inFlight := by
    rw [List.filterMap_append, filterMap_answer, hs.inFlight, h]
    cases r <;> simp [List.filterMap_cons, Request.asks]
  known_iff c hc := by
    have hknown := hs.known_iff c hc
    rw [settled, h, List.foldl_cons] at hknown
    exact hknown

/-- The reply at the head answers the oldest join remembered. -/
theorem Tracked.head (hs : s.Tracked) {t cid : UInt32} {down : List Message}
    (h : s.down = .chatJoined t cid :: down) :
    ∃ parted joins, s.client.joins = (t, ⟨cid, parted⟩) :: joins ∧
      joins.map (fun j => (j.1, j.2.cid)) =
        down.filterMap Message.answers ++ s.up.filterMap Request.asks := by
  have hjoins := hs.inFlight
  rw [h] at hjoins
  cases hj : s.client.joins with
  | nil => simp [hj, Message.answers] at hjoins
  | cons j joins =>
    obtain ⟨t', cid', parted⟩ := j
    simp only [hj, List.map_cons, List.filterMap_cons, Message.answers, List.cons_append,
      List.cons.injEq, Prod.mk.injEq] at hjoins
    obtain ⟨⟨rfl, rfl⟩, hrest⟩ := hjoins
    exact ⟨parted, joins, rfl, hrest⟩

/-- A reply brings the chat of a join, unless the user has left it since, and the rooms known
stay what they were. -/
theorem Tracked.joined (hs : s.Tracked) {t cid : UInt32} {down : List Message}
    (h : s.down = .chatJoined t cid :: down) :
    Tracked { s with client := s.client.joined t cid, down := down } := by
  obtain ⟨parted, joins, hjoins, hrest⟩ := hs.head h
  have hanswered : s.client.joinAnswered t =
      (some ⟨cid, parted⟩, { s.client with joins := joins }) := by
    simp [Client.joinAnswered, hjoins]
  have hclient : (s.client.joined t cid).joins = joins ∧
      ∀ c, c ∈ (s.client.joined t cid).chats ↔ c ∈ s.client.chats ∨ parted = false ∧ c = cid := by
    simp only [Client.joined, hanswered, Option.any_some]
    cases parted with
    | true => simp
    | false =>
      by_cases hchat : cid ∈ s.client.chats
      · refine ⟨by simp [hchat], fun c => ?_⟩
        simp only [Bool.false_eq_true, if_false, if_pos hchat, true_and]
        exact ⟨.inl, fun hc => hc.elim id fun heq => heq ▸ hchat⟩
      · simp [hchat, Client.chatNew, or_comm]
  refine ⟨by rw [hclient.1]; exact hrest, fun c hc => ?_⟩
  have hknown := hs.known_iff c hc
  rw [← show ({ s with client := s.client.joined t cid, down := down } : Exchange).settled =
    s.settled from rfl] at hknown
  rw [← hknown]
  simp only [Known, hclient.1, hclient.2, hjoins, List.mem_cons, Prod.mk.injEq, Join.mk.injEq]
  constructor
  · rintro ((hchat | ⟨rfl, rfl⟩) | ⟨t', hmem⟩)
    · exact .inl hchat
    · exact .inr ⟨t, .inl ⟨rfl, rfl, rfl⟩⟩
    · exact .inr ⟨t', .inr hmem⟩
  · rintro (hchat | ⟨t', ⟨_, rfl, hparted⟩ | hmem⟩)
    · exact .inl (.inl hchat)
    · exact .inl (.inr ⟨hparted.symm, rfl⟩)
    · exact .inr ⟨t', hmem⟩

/-- A user-change about a room the client knows leaves the rooms known what they were. -/
theorem Tracked.changed (hs : s.Tracked) {cid : UInt32} {down : List Message}
    (h : s.down = .userChanged cid :: down) (hcid : s.Known cid) :
    Tracked { s with client := s.client.changed cid, down := down } := by
  have hclient : (s.client.changed cid).joins = s.client.joins ∧
      ∀ c, c ∈ (s.client.changed cid).chats ↔ c ∈ s.client.chats ∨ c = cid := by
    unfold Client.changed
    split_ifs with hchat
    · exact ⟨rfl, fun c => ⟨.inl, fun hc => hc.elim id fun heq => heq ▸ hchat⟩⟩
    · simp [Client.chatNew, or_comm]
  refine ⟨?_, fun c hc => ?_⟩
  · have hjoins := hs.inFlight
    rw [h] at hjoins
    simpa [hclient.1, List.filterMap_cons, Message.answers] using hjoins
  · have hknown := hs.known_iff c hc
    rw [← show ({ s with client := s.client.changed cid, down := down } : Exchange).settled =
      s.settled from rfl] at hknown
    rw [← hknown]
    simp only [Known, hclient.1, hclient.2]
    constructor
    · rintro ((hchat | rfl) | hwaits)
      · exact .inl hchat
      · exact hcid
      · exact .inr hwaits
    · rintro (hchat | hwaits)
      · exact .inl (.inl hchat)
      · exact .inr hwaits

/-- One step that meets the condition keeps what is tracked. -/
theorem Tracked.step (hs : s.Tracked) {i : ExchangeInput} (hok : s.OnlyKnown i)
    (hstep : s.step i = some s') : s'.Tracked := by
  cases i with
  | joins t cid =>
    obtain ⟨_, hstep⟩ := Option.ite_none_right_eq_some.mp hstep
    obtain rfl := Option.some.inj hstep
    exact hs.joins t cid
  | leaves cid =>
    obtain ⟨⟨_, hchat⟩, hstep⟩ := Option.ite_none_right_eq_some.mp hstep
    obtain rfl := Option.some.inj hstep
    exact hs.leaves hchat
  | changes cid =>
    obtain ⟨_, hstep⟩ := Option.ite_none_right_eq_some.mp hstep
    obtain rfl := Option.some.inj hstep
    exact ⟨by simpa [List.filterMap_cons, Message.answers] using hs.inFlight, hs.known_iff⟩
  | serves =>
    simp only [Exchange.step] at hstep
    cases h : s.up with
    | nil => simp [h] at hstep
    | cons r up =>
      simp only [h, Option.some.injEq] at hstep
      obtain rfl := hstep
      exact hs.serves h
  | delivers =>
    simp only [Exchange.step] at hstep
    cases h : s.down with
    | nil => simp [h] at hstep
    | cons d down =>
      simp only [h, Option.some.injEq] at hstep
      obtain rfl := hstep
      cases d with
      | chatJoined t cid => exact hs.joined h
      | userChanged cid => exact hs.changed h (hok rfl cid down h)

/-- A user-change about a room the client does not know makes a chat for a room that the server
will not hold the client in. -/
theorem Tracked.unknown_change (hs : s.Tracked) {cid : UInt32} (hcid : cid ≠ 0)
    (hunknown : ¬s.Known cid) :
    cid ∈ (s.client.changed cid).chats ∧ cid ∉ s.settled := by
  refine ⟨?_, fun hmem => hunknown ((hs.known_iff cid hcid).mpr hmem)⟩
  unfold Client.changed
  split_ifs with hchat
  · exact hchat
  · exact Finset.mem_insert_self cid _

end Exchange

/-- What is tracked holds at the end of every run that meets the condition. -/
theorem tracked_of_run {inputs : List ExchangeInput} {s : Exchange}
    (hrun : chatting.run inputs = some s)
    (hok : chatting.Along Exchange.OnlyKnown inputs) : s.Tracked := by
  refine Reactive.Process.invariant_along Exchange.tracked_start ?_ hrun hok
  intro s₀ i s₁ hs hknown hstep
  exact hs.step hknown hstep

/-- **Private chats agree with the server.** In every run in which the user-changes that reach
the client are about rooms it has a chat for, or waits to join and has not left since, the chats
are those of the rooms the server holds the client in whenever nothing is in flight. -/
theorem membership_agrees {inputs : List ExchangeInput} {s : Exchange}
    (hrun : chatting.run inputs = some s)
    (hok : chatting.Along Exchange.OnlyKnown inputs) : s.Agrees :=
  (tracked_of_run hrun hok).agrees

namespace Exchange

/-- What is received never takes a chat away. -/
theorem mem_chats_receive {c : Client} {cid : UInt32} (h : cid ∈ c.chats) (d : Message) :
    cid ∈ (c.receive d).chats := by
  cases d with
  | chatJoined t cid' =>
    simp only [Client.receive, Client.joined]
    split_ifs
    · exact h
    · exact h
    · exact Finset.mem_insert_of_mem h
  | userChanged cid' =>
    simp only [Client.receive, Client.changed]
    split_ifs
    · exact h
    · exact Finset.mem_insert_of_mem h

/-- All that is under way can be handled, and what is wrong by then stays wrong. -/
theorem drained_disagrees {s : Exchange} {cid : UInt32} (hcid : cid ≠ 0)
    (hchat : cid ∈ s.client.chats) (hout : cid ∉ s.settled) :
    ∃ (rest : List ExchangeInput) (s' : Exchange),
      rest.foldlM Exchange.step s = some s' ∧ ¬s'.Agrees := by
  obtain ⟨c, up, member, down⟩ := s
  induction up generalizing member down with
  | cons r up ih =>
    obtain ⟨rest, s', hrun, hdis⟩ := ih (serve member r) (down ++ answer r) hchat hout
    exact ⟨.serves :: rest, s', hrun, hdis⟩
  | nil =>
    induction down generalizing c with
    | cons d down ih =>
      obtain ⟨rest, s', hrun, hdis⟩ := ih (c.receive d) (mem_chats_receive hchat d) hout
      exact ⟨.delivers :: rest, s', hrun, hdis⟩
    | nil => exact ⟨[], _, rfl, fun hagrees => hout ((hagrees rfl rfl cid hcid).mp hchat)⟩

end Exchange

/-- The condition leaves out nothing but the defect: the first user-change that breaks it leads to
a disagreement when all that is under way has been handled and the user does nothing more. -/
theorem unknown_change_disagrees {inputs : List ExchangeInput} {s : Exchange}
    (hrun : chatting.run inputs = some s)
    (hok : chatting.Along Exchange.OnlyKnown inputs) {cid : UInt32} {down : List Message}
    (hdown : s.down = .userChanged cid :: down) (hcid : cid ≠ 0) (hunknown : ¬s.Known cid) :
    ∃ rest s', chatting.run (inputs ++ .delivers :: rest) = some s' ∧ ¬s'.Agrees := by
  obtain ⟨hchat, hout⟩ := (tracked_of_run hrun hok).unknown_change hcid hunknown
  obtain ⟨rest, s', hrest, hdis⟩ := Exchange.drained_disagrees
    (s := { s with client := s.client.changed cid, down := down }) hcid hchat hout
  have hstep : chatting.step s .delivers =
      some { s with client := s.client.changed cid, down := down } := by
    simp only [chatting, Exchange.step, hdown]
    rfl
  refine ⟨rest, s', ?_, hdis⟩
  rw [Reactive.Process.run] at hrun ⊢
  rw [List.foldlM_append, hrun, Option.bind_eq_bind, Option.bind_some, List.foldlM_cons, hstep]
  exact hrest

/-- Room 5 is joined, another member of it changes, and the user leaves while that is told. -/
def leftMeanwhile : List ExchangeInput :=
  [.joins 1 5, .serves, .delivers, .changes 5, .leaves 5, .serves, .delivers]

/-- The chat is back, and the server does not hold the client in its room. -/
theorem leftMeanwhile_disagrees :
    ¬ ∀ s, chatting.run leftMeanwhile = some s → s.Agrees := by
  intro h
  have hagrees := h _ rfl rfl rfl 5 (by decide)
  revert hagrees
  decide

/-- A change that is told before the user leaves. -/
def toldFirst : List ExchangeInput :=
  [.joins 1 5, .serves, .delivers, .changes 5, .delivers, .leaves 5, .serves]

theorem toldFirst_agrees : ∃ s, chatting.run toldFirst = some s ∧ s.Agrees := by
  refine ⟨_, rfl, @membership_agrees toldFirst _ rfl ?_⟩
  have hother : ∀ (s : Exchange) (i : ExchangeInput), i ≠ .delivers → s.OnlyKnown i :=
    fun s i hne heq => absurd heq hne
  apply Reactive.Process.AlongFrom.along
  refine .cons (hother _ _ (by simp)) rfl (.cons (hother _ _ (by simp)) rfl (.cons ?_ rfl
    (.cons (hother _ _ (by simp)) rfl (.cons ?_ rfl (.cons (hother _ _ (by simp)) rfl
      (.cons (hother _ _ (by simp)) rfl trivial))))))
  · intro _ cid down h
    cases h
  · intro _ cid down h
    cases h
    exact .inl (by decide)

end Gtkhx.Chat
