import Gtkhx.Actor.Sides

/-!
# Nothing reordered, dropped or invented

What the consumer was sent and what the holder of the turn has in hand are together the
images of the events polled, in order (`Said`). Only the side whose turn it is adds to
either (`Said.deliverOn`), so this holds over every interleaving of the three sides, and a
run that ends by the server's end of the stream has handed on all that was fed
(`session_handed_on`).
-/

namespace Gtkhx.Actor

variable {σ ι ο φ : Type*}

/-- What a turn has in hand to send. -/
def Turn.inHand : Turn ι ο φ → List (Event ι ο φ)
  | .waiting | .polling => []
  | .sending event rest _ => event :: rest
  | .cut events => events

/-- What the read side has in hand to send of the session's. -/
def ReadSide.inHand : ReadSide ι ο φ → List (Event ι ο φ)
  | .reading | .stateTurn _ _ | .stateSending _ _ => []
  | .delivering turn => turn.inHand

/-- What the delivery side has in hand to send. -/
def DeliverSide.inHand : DeliverSide ι ο φ → List (Event ι ο φ)
  | .idle => []
  | .delivering turn => turn.inHand

/-- The states the read side has left to say. -/
def ReadSide.states : ReadSide ι ο φ → List ConnectionState
  | .stateTurn state rest | .stateSending state rest => state :: rest
  | .reading | .delivering _ => []

/-- What a step of `deliver` leaves in hand. -/
def Delivered.inHand : Delivered ι ο φ → List (Event ι ο φ)
  | .goesOn turn => turn.inHand
  | .returns => []
  | .ends _ cut => cut

/-- What the write side is writing. -/
def WriteSide.bytes : WriteSide → List UInt8
  | .selecting _ | .flushing => []
  | .writing bytes | .leaving bytes => bytes

/-- What the consumer was sent of the session's. -/
def Shared.delivered (a : Shared σ ι ο φ) : List (Event ι ο φ) := a.sent.filter Event.isImage

theorem Turn.inHand_eq_nil {turn : Turn ι ο φ} (h : turn.holds = false) : turn.inHand = [] := by
  cases turn with
  | waiting => rfl
  | polling | sending | cut => simp [Turn.holds] at h

theorem ReadSide.inHand_eq_nil {read : ReadSide ι ο φ} (h : read.holds = false) :
    read.inHand = [] := by
  cases read with
  | delivering turn => exact Turn.inHand_eq_nil h
  | reading | stateTurn | stateSending => rfl

theorem DeliverSide.inHand_eq_nil {deliver : DeliverSide ι ο φ} (h : deliver.holds = false) :
    deliver.inHand = [] := by
  cases deliver with
  | delivering turn => exact Turn.inHand_eq_nil h
  | idle => rfl

@[simp] theorem Delivered.next_inHand (sends : List (Event ι ο φ))
    (ends : Option ShutdownReason) : (Delivered.next sends ends).inHand = sends := by
  cases sends with
  | nil => cases ends <;> rfl
  | cons => rfl

/-- `deliver` does not return on an event. -/
theorem Delivered.next_ne_returns (sends : List (Event ι ο φ)) (ends : Option ShutdownReason) :
    Delivered.next sends ends ≠ .returns := by
  cases sends with
  | nil => cases ends <;> nofun
  | cons => nofun

/-- What is sent in a session's name is an image. -/
theorem handOn_isImage (P : Parts σ ι ο φ) (asked agreed : Bool) (event : SessionEvent ι ο) :
    ∀ e ∈ (handOn P asked agreed event).sends, e.isImage = true := by
  have hframe : ∀ frame, ∀ e ∈ (asFrame P frame).sends, e.isImage = true := by
    intro frame e he
    unfold asFrame at he
    split at he <;> simp_all [Event.isImage]
  cases event with
  | reply number frame =>
    simp only [handOn]
    split
    · simp [Event.isImage]
    · exact hframe frame
  | unhandled opcode frame =>
    simp only [handOn]
    split
    · simp [Event.isImage]
    · exact hframe frame
  | closed why => cases why <;> simp [handOn, Event.isImage]
  | loggedIn | ready | agreement | other => simp [handOn, Event.isImage]

@[simp] theorem inFlight_nil : inFlight ([] : List (Mark ι ο)) = ∅ := rfl

@[simp] theorem inFlight_snoc (log : List (Mark ι ο)) (mark : Mark ι ο) :
    inFlight (log ++ [mark]) = mark.inFlight (inFlight log) := by
  simp [inFlight]

@[simp] theorem images_nil (P : Parts σ ι ο φ) : images P [] = [] := rfl

/-- The images of one more mark follow those before it. -/
theorem images_snoc (P : Parts σ ι ο φ) (log : List (Mark ι ο)) (mark : Mark ι ο) :
    images P (log ++ [mark]) = images P log ++ (mark.handed P (inFlight log)).sends := by
  have hfst : (log.foldl (fun (p : Finset UInt32 × List (Event ι ο φ)) mark =>
      (mark.inFlight p.1, p.2 ++ (mark.handed P p.1).sends)) (∅, [])).1 = inFlight log := by
    induction log using List.reverseRecOn with
    | nil => rfl
    | append_singleton log last ih => simp [List.foldl_append, ih]
  simp [images, List.foldl_append, hfst]

/-- Noting a request says nothing. -/
@[simp] theorem images_snoc_asked (P : Parts σ ι ο φ) (log : List (Mark ι ο)) (trans : UInt32) :
    images P (log ++ [.asked trans]) = images P log := by
  simp [images_snoc, Mark.handed]

theorem images_isImage (P : Parts σ ι ο φ) (log : List (Mark ι ο)) :
    ∀ e ∈ images P log, e.isImage = true := by
  induction log using List.reverseRecOn with
  | nil => simp
  | append_singleton log mark ih =>
    intro e he
    rw [images_snoc, List.mem_append] at he
    rcases he with he | he
    · exact ih e he
    · cases mark with
      | asked => simp [Mark.handed] at he
      | polled event agreed => exact handOn_isImage _ _ _ _ e he

@[simp] theorem polledOf_append (log log' : List (Mark ι ο)) :
    polledOf (log ++ log') = polledOf log ++ polledOf log' := by
  simp [polledOf]

@[simp] theorem polledOf_asked (trans : UInt32) :
    polledOf [(.asked trans : Mark ι ο)] = [] := rfl

@[simp] theorem polledOf_polled (event : SessionEvent ι ο) (agreed : Bool) :
    polledOf [(.polled event agreed : Mark ι ο)] = [event] := rfl

/-- What was said and what is in hand are what the session said. Once `settled`, all that
the session had come to when it was fed was said. -/
structure Said (P : Parts σ ι ο φ) (a : Shared σ ι ο φ) (hand : List (Event ι ο φ))
    (settled : Prop) : Prop where
  requests : a.messaging = inFlight a.log
  said : images P a.log = a.delivered ++ hand
  counted : a.fed ≤ (polledOf a.log).length + (P.pending a.session).length
  begun : ∃ before after, a.log = before ++ after ∧ (polledOf after).length ≤ 1 ∧
    images P before <+: a.delivered ∧ (settled → a.fed ≤ (polledOf before).length)

/-- With nothing in hand, all of the log was said. -/
theorem Said.whole {P : Parts σ ι ο φ} {a : Shared σ ι ο φ} {settled settled' : Prop}
    (h : Said P a [] settled) (hsettled : settled' → a.fed ≤ (polledOf a.log).length) :
    Said P a [] settled' where
  requests := h.requests
  said := h.said
  counted := h.counted
  begun := by
    refine ⟨a.log, [], by simp, by simp [polledOf], ?_, hsettled⟩
    rw [h.said, List.append_nil]

/-- What was settled is no more than what was polled. -/
theorem Said.settled_le {P : Parts σ ι ο φ} {a : Shared σ ι ο φ} {hand : List (Event ι ο φ)}
    {settled : Prop} (h : Said P a hand settled) (hsettled : settled) :
    a.fed ≤ (polledOf a.log).length := by
  obtain ⟨before, after, hlog, -, -, hfed⟩ := h.begun
  have := hfed hsettled
  rw [hlog, polledOf_append, List.length_append]
  omega

/-- It depends on no more than whether it is settled. -/
theorem Said.congr_settled {P : Parts σ ι ο φ} {a : Shared σ ι ο φ}
    {hand : List (Event ι ο φ)} {settled settled' : Prop} (h : Said P a hand settled)
    (hsettled : settled' → settled) : Said P a hand settled' where
  requests := h.requests
  said := h.said
  counted := h.counted
  begun := by
    obtain ⟨before, after, hlog, hafter, hbefore, hfed⟩ := h.begun
    exact ⟨before, after, hlog, hafter, hbefore, fun hs => hfed (hsettled hs)⟩

/-- A side in `deliver` keeps what was said in order. -/
theorem Said.deliverOn {P : Parts σ ι ο φ} {cap : ℕ} {a a' : Shared σ ι ο φ} {free : Bool}
    {turn : Turn ι ο φ} {done : Delivered ι ο φ} {settled : Prop}
    (h : Said P a turn.inHand settled)
    (hstep : a.deliverOn P cap free turn = some (a', done)) :
    Said P a' done.inHand (settled ∨ done = .returns) := by
  cases turn with
  | waiting =>
    cases free with
    | true =>
      obtain ⟨rfl, rfl⟩ : a = a' ∧ Delivered.goesOn .polling = done := by
        simpa [Shared.deliverOn] using hstep
      exact h.whole fun hs => h.settled_le (by simpa using hs)
    | false => simp [Shared.deliverOn] at hstep
  | polling =>
    cases hpending : P.pending a.session with
    | nil =>
      simp only [Shared.deliverOn, P.poll_none _ hpending, Option.some.injEq,
        Prod.mk.injEq] at hstep
      obtain ⟨rfl, rfl⟩ := hstep
      have hcounted := h.counted
      rw [hpending, List.length_nil, Nat.add_zero] at hcounted
      exact h.whole fun _ => hcounted
    | cons event rest =>
      obtain ⟨s', hpoll, hrest⟩ := P.poll_some _ _ _ hpending
      simp only [Shared.deliverOn, hpoll, Option.some.injEq, Prod.mk.injEq] at hstep
      obtain ⟨rfl, rfl⟩ := hstep
      have hsaid : images P a.log = a.delivered := by simpa [Turn.inHand] using h.said
      have hcounted := h.counted
      rw [hpending, List.length_cons] at hcounted
      constructor
      · simp [h.requests]
      · rw [images_snoc, hsaid, h.requests, Delivered.next_inHand]
        rfl
      · simp only [hrest, polledOf_append, polledOf_polled, List.length_append,
          List.length_singleton]
        omega
      · refine ⟨a.log, [_], rfl, by simp, ?_, ?_⟩
        · rw [hsaid]
          exact List.prefix_refl _
        · rintro (hs | hreturns)
          · exact h.settled_le hs
          · exact absurd hreturns (Delivered.next_ne_returns _ _)
  | sending event rest ends =>
    simp only [Shared.deliverOn] at hstep
    split at hstep
    · simp only [Option.some.injEq, Prod.mk.injEq] at hstep
      obtain ⟨rfl, rfl⟩ := hstep
      exact h.congr_settled (by simp)
    · simp only [Shared.send, Option.map_eq_some_iff, Option.ite_none_right_eq_some,
        Option.some.injEq, Prod.mk.injEq] at hstep
      obtain ⟨_, ⟨-, rfl⟩, rfl, rfl⟩ := hstep
      have himage : event.isImage = true := by
        apply images_isImage P a.log
        simp [h.said, Turn.inHand]
      have hsent : Shared.delivered { a with queued := a.queued + 1, sent := a.sent ++ [event] } =
          a.delivered ++ [event] := by
        simp [Shared.delivered, himage]
      obtain ⟨before, after, hlog, hafter, hbefore, hfed⟩ := h.begun
      constructor
      · exact h.requests
      · rw [hsent, Delivered.next_inHand, List.append_assoc]
        exact h.said
      · exact h.counted
      · refine ⟨before, after, hlog, hafter, ?_, ?_⟩
        · rw [hsent]
          exact hbefore.trans (List.prefix_append _ _)
        · rintro (hs | hreturns)
          · exact hfed hs
          · exact absurd hreturns (Delivered.next_ne_returns _ _)
  | cut events => simp [Shared.deliverOn] at hstep

/-- What a step leaves when it neither hands anything on nor notes a request. -/
structure Apart (P : Parts σ ι ο φ) (a a' : Shared σ ι ο φ) : Prop where
  log : a'.log = a.log
  messaging : a'.messaging = a.messaging
  sent : a'.sent = a.sent
  fed : a'.fed = a.fed
  pending : P.pending a.session <+: P.pending a'.session

theorem Apart.refl (P : Parts σ ι ο φ) (a : Shared σ ι ο φ) : Apart P a a :=
  ⟨rfl, rfl, rfl, rfl, List.prefix_refl _⟩

theorem Apart.trans {P : Parts σ ι ο φ} {a b c : Shared σ ι ο φ} (hab : Apart P a b)
    (hbc : Apart P b c) : Apart P a c where
  log := hbc.log.trans hab.log
  messaging := hbc.messaging.trans hab.messaging
  sent := hbc.sent.trans hab.sent
  fed := hbc.fed.trans hab.fed
  pending := hab.pending.trans hbc.pending

/-- What was said stays said. -/
theorem Said.apart {P : Parts σ ι ο φ} {a a' : Shared σ ι ο φ} {hand : List (Event ι ο φ)}
    {settled : Prop} (h : Said P a hand settled) (happart : Apart P a a') :
    Said P a' hand settled where
  requests := by rw [happart.messaging, happart.log, h.requests]
  said := by rw [Shared.delivered, happart.log, happart.sent, h.said, Shared.delivered]
  counted := by
    have hpending := happart.pending.length_le
    have hcounted := h.counted
    rw [happart.log, happart.fed]
    omega
  begun := by
    rw [happart.log, happart.fed, Shared.delivered, happart.sent]
    exact h.begun

/-- A side that moves leaves what was said. -/
theorem Said.moved {P : Parts σ ι ο φ} {a a' : Shared σ ι ο φ} {hand : List (Event ι ο φ)}
    {settled settled' : Prop} (h : Said P a hand settled) (happart : Apart P a a')
    (hsettled : settled' → settled) : Said P a' hand settled' :=
  (h.apart happart).congr_settled hsettled

theorem Shared.queueOut_apart (P : Parts σ ι ο φ) (a : Shared σ ι ο φ) :
    Apart P a (a.queueOut P).2 := by
  have hpending : P.pending a.session <+: P.pending (P.takeOutgoing a.session).2 := by
    rw [P.takeOutgoing_pending]
  simp only [Shared.queueOut]
  split <;> exact ⟨rfl, rfl, rfl, rfl, hpending⟩

@[simp] theorem Shared.queueOut_read (P : Parts σ ι ο φ) (a : Shared σ ι ο φ) :
    (a.queueOut P).2.read = a.read := by
  simp only [Shared.queueOut]
  split <;> rfl

@[simp] theorem Shared.queueOut_deliver (P : Parts σ ι ο φ) (a : Shared σ ι ο φ) :
    (a.queueOut P).2.deliver = a.deliver := by
  simp only [Shared.queueOut]
  split <;> rfl

theorem Shared.writeOut_apart (P : Parts σ ι ο φ) (a : Shared σ ι ο φ) :
    Apart P a (a.writeOut P) := by
  unfold Shared.writeOut
  split <;> exact ⟨rfl, rfl, rfl, rfl, List.prefix_refl _⟩

@[simp] theorem Shared.writeOut_read (P : Parts σ ι ο φ) (a : Shared σ ι ο φ) :
    (a.writeOut P).read = a.read := by
  unfold Shared.writeOut
  split <;> rfl

@[simp] theorem Shared.writeOut_deliver (P : Parts σ ι ο φ) (a : Shared σ ι ο φ) :
    (a.writeOut P).deliver = a.deliver := by
  unfold Shared.writeOut
  split <;> rfl

theorem Shared.tickNow_apart (P : Parts σ ι ο φ) (a : Shared σ ι ο φ) (now : ℕ) :
    Apart P a (a.tickNow P now) := by
  have htick : Apart P a { a with session := P.tick a.session now } :=
    ⟨rfl, rfl, rfl, rfl, P.tick_pending _ _⟩
  have hqueue := htick.trans (Shared.queueOut_apart P _)
  exact ⟨hqueue.log, hqueue.messaging, hqueue.sent, hqueue.fed, hqueue.pending⟩

@[simp] theorem Shared.tickNow_read (P : Parts σ ι ο φ) (a : Shared σ ι ο φ) (now : ℕ) :
    (a.tickNow P now).read = a.read := Shared.queueOut_read P _

@[simp] theorem Shared.tickNow_deliver (P : Parts σ ι ο φ) (a : Shared σ ι ο φ) (now : ℕ) :
    (a.tickNow P now).deliver = a.deliver := Shared.queueOut_deliver P _

/-- Noting a request keeps what was said. -/
theorem Said.noteRequest {P : Parts σ ι ο φ} {a : Shared σ ι ο φ} {hand : List (Event ι ο φ)}
    {settled : Prop} (h : Said P a hand settled) (bytes : List UInt8) :
    Said P (a.noteRequest P bytes) hand settled := by
  unfold Shared.noteRequest
  split
  · rename_i type number _
    split
    · obtain ⟨before, after, hlog, hafter, hbefore, hfed⟩ := h.begun
      constructor
      · have hnoted : inFlight (a.log ++ [.asked number]) = insert number (inFlight a.log) :=
          inFlight_snoc _ _
        rw [hnoted, h.requests]
      · rw [images_snoc_asked]
        exact h.said
      · simpa using h.counted
      · exact ⟨before, after ++ [.asked number], by simp [hlog], by simpa using hafter, hbefore,
          hfed⟩
    · exact h
  · exact h

@[simp] theorem Shared.noteRequest_read (P : Parts σ ι ο φ) (a : Shared σ ι ο φ)
    (bytes : List UInt8) : (a.noteRequest P bytes).read = a.read := by
  unfold Shared.noteRequest
  split
  · split <;> rfl
  · rfl

@[simp] theorem Shared.noteRequest_deliver (P : Parts σ ι ο φ) (a : Shared σ ι ο φ)
    (bytes : List UInt8) : (a.noteRequest P bytes).deliver = a.deliver := by
  unfold Shared.noteRequest
  split
  · split <;> rfl
  · rfl

/-- A frame of the consumer's keeps what was said, and where the other sides are. -/
theorem Said.writeFrame {P : Parts σ ι ο φ} {a : Shared σ ι ο φ} {hand : List (Event ι ο φ)}
    {settled : Prop} (h : Said P a hand settled) (bytes : List UInt8) :
    Said P (a.writeFrame P bytes) hand settled ∧ (a.writeFrame P bytes).read = a.read ∧
      (a.writeFrame P bytes).deliver = a.deliver := by
  have hnoted := h.noteRequest bytes
  have hraw := P.sendRaw_pending (a.noteRequest P bytes).session bytes
  simp only [Shared.writeFrame]
  split
  · refine ⟨hnoted.apart ⟨rfl, rfl, rfl, rfl, ?_⟩, by simp, by simp⟩
    rwa [P.takeOutgoing_pending]
  · exact ⟨hnoted.apart ⟨rfl, rfl, rfl, rfl, hraw⟩, by simp, by simp⟩

/-- The sides take turns, the read side says only what is the actor's own, and what they
handed on is what the session said. -/
structure Sound (P : Parts σ ι ο φ) (a : Shared σ ι ο φ) : Prop where
  turns : a.read.holds = true → a.deliver.holds = false
  states : ∀ state ∈ a.read.states, state = .loginSending ∨ state = .loginReplyWait
  said : Said P a (a.read.inHand ++ a.deliver.inHand) (a.read.isReading = true)

/-- A step that hands nothing on keeps the sides in order. -/
theorem Sound.beside {P : Parts σ ι ο φ} {a a' : Shared σ ι ο φ} (h : Sound P a)
    (hread : a'.read = a.read) (hdeliver : a'.deliver = a.deliver)
    (hsaid : ∀ hand settled, Said P a hand settled → Said P a' hand settled) : Sound P a' where
  turns := by rw [hread, hdeliver]; exact h.turns
  states := by rw [hread]; exact h.states
  said := by rw [hread, hdeliver]; exact hsaid _ _ h.said

/-- The sides begin in order. -/
theorem Sound.start (P : Parts σ ι ο φ) (session : σ) : Sound P (Shared.start P session) := by
  have hfresh : Sound P ({ session := session, write := .flushing } : Shared σ ι ο φ) := by
    constructor
    · simp [ReadSide.holds]
    · simp [ReadSide.states]
    · constructor
      · rfl
      · rfl
      · exact Nat.zero_le _
      · exact ⟨[], [], rfl, Nat.zero_le _, List.prefix_refl _, fun _ => Nat.zero_le _⟩
  apply hfresh.beside
  · exact Shared.queueOut_read P _
  · exact Shared.queueOut_deliver P _
  · intro hand settled h
    have hqueue := h.apart (Shared.queueOut_apart P _)
    exact hqueue.apart ⟨rfl, rfl, rfl, rfl, List.prefix_refl _⟩

/-- A step that writes nothing: what is queued may grow. -/
def Queued (a a' : Shared σ ι ο φ) : Prop :=
  a'.write = a.write ∧ a'.written = a.written ∧
    ∃ bytes, a'.out = a.out ++ bytes ∧ a'.taken = a.taken ++ bytes

/-- A step that queues nothing either. -/
theorem Queued.none {a a' : Shared σ ι ο φ} (hwrite : a'.write = a.write)
    (hwritten : a'.written = a.written) (hout : a'.out = a.out) (htaken : a'.taken = a.taken) :
    Queued a a' :=
  ⟨hwrite, hwritten, [], by simp [hout], by simp [htaken]⟩

theorem Queued.trans {a b c : Shared σ ι ο φ} (hab : Queued a b) (hbc : Queued b c) :
    Queued a c := by
  obtain ⟨hwrite, hwritten, bytes, hout, htaken⟩ := hab
  obtain ⟨hwrite', hwritten', bytes', hout', htaken'⟩ := hbc
  refine ⟨hwrite'.trans hwrite, hwritten'.trans hwritten, bytes ++ bytes', ?_, ?_⟩
  · rw [hout', hout, List.append_assoc]
  · rw [htaken', htaken, List.append_assoc]

/-- `deliver` leaves the sides where they are, and what is queued. -/
theorem Shared.deliverOn_sides {P : Parts σ ι ο φ} {cap : ℕ} {a a' : Shared σ ι ο φ}
    {free : Bool} {turn : Turn ι ο φ} {done : Delivered ι ο φ}
    (hstep : a.deliverOn P cap free turn = some (a', done)) :
    a'.read = a.read ∧ a'.deliver = a.deliver ∧ Queued a a' := by
  cases turn with
  | waiting =>
    simp only [Shared.deliverOn, Option.ite_none_right_eq_some, Option.some.injEq,
      Prod.mk.injEq] at hstep
    obtain ⟨-, rfl, -⟩ := hstep
    exact ⟨rfl, rfl, .none rfl rfl rfl rfl⟩
  | polling =>
    simp only [Shared.deliverOn] at hstep
    split at hstep
    · simp only [Option.some.injEq, Prod.mk.injEq] at hstep
      obtain ⟨rfl, -⟩ := hstep
      exact ⟨rfl, rfl, .none rfl rfl rfl rfl⟩
    · simp only [Option.some.injEq, Prod.mk.injEq] at hstep
      obtain ⟨rfl, -⟩ := hstep
      exact ⟨rfl, rfl, .none rfl rfl rfl rfl⟩
  | sending event rest ends =>
    simp only [Shared.deliverOn] at hstep
    split at hstep
    · simp only [Option.some.injEq, Prod.mk.injEq] at hstep
      obtain ⟨rfl, -⟩ := hstep
      exact ⟨rfl, rfl, .none rfl rfl rfl rfl⟩
    · simp only [Shared.send, Option.map_eq_some_iff, Option.ite_none_right_eq_some,
        Option.some.injEq, Prod.mk.injEq] at hstep
      obtain ⟨_, ⟨-, rfl⟩, rfl, -⟩ := hstep
      exact ⟨rfl, rfl, .none rfl rfl rfl rfl⟩
  | cut events => simp [Shared.deliverOn] at hstep

/-- A side moves in `deliver` only on its turn, or when no other side has it. -/
theorem Shared.free_of_deliverOn {P : Parts σ ι ο φ} {cap : ℕ} {a a' : Shared σ ι ο φ}
    {other : Bool} {turn : Turn ι ο φ} {done : Delivered ι ο φ}
    (hstep : a.deliverOn P cap (!other) turn = some (a', done))
    (hturns : turn.holds = true → other = false) : other = false := by
  cases turn with
  | waiting => cases other <;> simp_all [Shared.deliverOn]
  | polling | sending | cut => exact hturns rfl

/-- What is the actor's own to say is no image. -/
theorem Said.stateSent {P : Parts σ ι ο φ} {cap : ℕ} {a a' : Shared σ ι ο φ}
    {hand : List (Event ι ο φ)} {settled : Prop} (h : Said P a hand settled)
    {event : Event ι ο φ} (hown : event.isImage = false) (hsend : a.send cap event = some a') :
    Said P a' hand settled ∧ a'.read = a.read ∧ a'.deliver = a.deliver := by
  simp only [Shared.send, Option.ite_none_right_eq_some, Option.some.injEq] at hsend
  obtain ⟨-, rfl⟩ := hsend
  have hsent : Shared.delivered { a with queued := a.queued + 1, sent := a.sent ++ [event] } =
      a.delivered := by
    simp [Shared.delivered, hown]
  refine ⟨⟨h.requests, ?_, h.counted, ?_⟩, rfl, rfl⟩
  · rw [hsent]
    exact h.said
  · rw [hsent]
    exact h.begun

/-- The read side keeps the sides in order. -/
theorem Sound.readOn {P : Parts σ ι ο φ} {cap : ℕ} {a a' : Shared σ ι ο φ} (h : Sound P a)
    (hstep : a.readOn P cap = some a') : Sound P a' := by
  have hturns := h.turns
  have hstates := h.states
  have hsaid := h.said
  cases hread : a.read with
  | reading => simp [Shared.readOn, hread] at hstep
  | stateTurn state rest =>
    simp only [Shared.readOn, hread, Option.ite_none_left_eq_some, Bool.not_eq_true,
      Option.some.injEq] at hstep
    obtain ⟨hfree, rfl⟩ := hstep
    rw [hread] at hstates hsaid
    exact ⟨fun _ => hfree, hstates, hsaid.moved ⟨rfl, rfl, rfl, rfl, List.prefix_refl _⟩ nofun⟩
  | stateSending state rest =>
    simp only [Shared.readOn, hread] at hstep
    have hfree : a.deliver.holds = false := hturns (by rw [hread]; rfl)
    rw [hread] at hstates hsaid
    split at hstep
    · obtain rfl := Option.some.inj hstep
      refine ⟨?_, ?_, ?_⟩
      · exact fun _ => hfree
      · simpa [hread] using hstates
      · exact hsaid.moved ⟨rfl, rfl, rfl, rfl, List.prefix_refl _⟩ id
    · obtain ⟨a₁, hsend, rfl⟩ := Option.map_eq_some_iff.mp hstep
      have hown : (Event.state state : Event ι ο φ).isImage = false := by
        rcases hstates state (by simp [ReadSide.states]) with rfl | rfl <;> rfl
      obtain ⟨hsaid, -, hdeliver⟩ := hsaid.stateSent hown hsend
      rw [← hdeliver] at hfree hsaid
      cases rest with
      | nil =>
        refine ⟨fun _ => hfree, ?_, hsaid.moved ⟨rfl, rfl, rfl, rfl, List.prefix_refl _⟩ nofun⟩
        simp [ReadSide.states]
      | cons next rest =>
        refine ⟨fun _ => hfree, ?_, hsaid.moved ⟨rfl, rfl, rfl, rfl, List.prefix_refl _⟩ nofun⟩
        exact fun other hother => hstates other (List.mem_cons_of_mem _ hother)
  | delivering turn =>
    simp only [Shared.readOn, hread] at hstep
    obtain ⟨⟨a₁, done⟩, hon, rfl⟩ := Option.map_eq_some_iff.mp hstep
    have hfree : a.deliver.holds = false := by
      apply Shared.free_of_deliverOn hon
      intro hholds
      exact hturns (by rw [hread]; exact hholds)
    have hhand := DeliverSide.inHand_eq_nil hfree
    obtain ⟨-, hdeliver, -⟩ := Shared.deliverOn_sides hon
    rw [hread, hhand, List.append_nil] at hsaid
    have hsaid₁ := hsaid.deliverOn hon
    rw [← hdeliver] at hfree hhand
    cases done with
    | goesOn turn =>
      refine ⟨fun _ => hfree, ?_, ?_⟩
      · simp [ReadSide.states]
      · change Said P _ (turn.inHand ++ a₁.deliver.inHand) _
        rw [hhand, List.append_nil]
        exact hsaid₁.moved ⟨rfl, rfl, rfl, rfl, List.prefix_refl _⟩ nofun
    | returns =>
      refine ⟨fun _ => hfree, ?_, ?_⟩
      · simp [ReadSide.states]
      · change Said P _ ([] ++ a₁.deliver.inHand) _
        rw [hhand, List.append_nil]
        exact hsaid₁.moved ⟨rfl, rfl, rfl, rfl, List.prefix_refl _⟩ fun _ => .inr rfl
    | ends reason cut =>
      refine ⟨fun _ => hfree, ?_, ?_⟩
      · simp [ReadSide.states]
      · change Said P _ (cut ++ a₁.deliver.inHand) _
        rw [hhand, List.append_nil]
        exact hsaid₁.moved ⟨rfl, rfl, rfl, rfl, List.prefix_refl _⟩ nofun

/-- The delivery side keeps the sides in order. -/
theorem Sound.deliverSideOn {P : Parts σ ι ο φ} {cap : ℕ} {a a' : Shared σ ι ο φ}
    (h : Sound P a) (hstep : a.deliverSideOn P cap = some a') : Sound P a' := by
  have hturns := h.turns
  have hstates := h.states
  have hsaid := h.said
  cases hside : a.deliver with
  | idle =>
    simp only [Shared.deliverSideOn, hside, Option.ite_none_right_eq_some,
      Option.some.injEq] at hstep
    obtain ⟨-, rfl⟩ := hstep
    rw [hside] at hsaid
    exact ⟨fun _ => rfl, hstates, hsaid.moved ⟨rfl, rfl, rfl, rfl, List.prefix_refl _⟩ id⟩
  | delivering turn =>
    simp only [Shared.deliverSideOn, hside] at hstep
    obtain ⟨⟨a₁, done⟩, hon, rfl⟩ := Option.map_eq_some_iff.mp hstep
    have hfree : a.read.holds = false := by
      apply Shared.free_of_deliverOn hon
      intro hholds
      by_contra hboth
      have hother := hturns (by simpa using hboth)
      rw [hside, DeliverSide.holds, hholds] at hother
      cases hother
    have hhand := ReadSide.inHand_eq_nil hfree
    obtain ⟨hread, -, -⟩ := Shared.deliverOn_sides hon
    rw [hside, hhand, List.nil_append] at hsaid
    have hsaid₁ := hsaid.deliverOn hon
    rw [← hread] at hfree hhand hstates hsaid₁
    have hnever : a₁.read.holds = true → ∀ b : Bool, b = false := by
      intro hholds
      rw [hfree] at hholds
      cases hholds
    cases done with
    | goesOn turn =>
      refine ⟨fun hholds => hnever hholds _, hstates, ?_⟩
      change Said P _ (a₁.read.inHand ++ turn.inHand) (a₁.read.isReading = true)
      rw [hhand, List.nil_append]
      exact hsaid₁.moved ⟨rfl, rfl, rfl, rfl, List.prefix_refl _⟩ .inl
    | returns =>
      refine ⟨fun hholds => hnever hholds _, hstates, ?_⟩
      change Said P _ (a₁.read.inHand ++ []) (a₁.read.isReading = true)
      rw [hhand, List.nil_append]
      exact hsaid₁.moved ⟨rfl, rfl, rfl, rfl, List.prefix_refl _⟩ .inl
    | ends reason cut =>
      refine ⟨fun hholds => hnever hholds _, hstates, ?_⟩
      change Said P _ (a₁.read.inHand ++ cut) (a₁.read.isReading = true)
      rw [hhand, List.nil_append]
      exact hsaid₁.moved ⟨rfl, rfl, rfl, rfl, List.prefix_refl _⟩ .inl

/-- Feeding the session says nothing, and unsettles what there is to say. -/
theorem Said.fed {P : Parts σ ι ο φ} {a : Shared σ ι ο φ} {hand : List (Event ι ο φ)}
    {settled : Prop} (h : Said P a hand settled) (bytes : List UInt8) (now : ℕ) :
    Said P { a with
      session := P.feed a.session bytes now
      fed := (polledOf a.log).length + (P.pending (P.feed a.session bytes now)).length }
      hand False where
  requests := h.requests
  said := h.said
  counted := le_refl _
  begun := by
    obtain ⟨before, after, hlog, hafter, hbefore, -⟩ := h.begun
    exact ⟨before, after, hlog, hafter, hbefore, False.elim⟩

/-- What is read keeps the sides in order. -/
theorem Sound.feed {P : Parts σ ι ο φ} {a : Shared σ ι ο φ} (h : Sound P a)
    (hreading : a.read.isReading = true) (bytes : List UInt8) (now : ℕ) :
    Sound P (a.feed P bytes now) := by
  have hread : a.read.inHand = [] := by
    cases hside : a.read with
    | reading => rfl
    | stateTurn | stateSending | delivering => simp [hside, ReadSide.isReading] at hreading
  have hsaid := h.said
  rw [hread, List.nil_append] at hsaid
  have hfed := hsaid.fed bytes now
  have hqueued := hfed.apart (Shared.queueOut_apart P _)
  simp only [Shared.feed]
  split <;> refine ⟨nofun, ?_, ?_⟩
  · simp [ReadSide.states]
  · change Said P _ ([] ++ (Shared.queueOut P _).2.deliver.inHand) _
    rw [Shared.queueOut_deliver]
    exact hqueued.moved ⟨rfl, rfl, rfl, rfl, List.prefix_refl _⟩ nofun
  · simp [ReadSide.states]
  · change Said P _ ([] ++ (Shared.queueOut P _).2.deliver.inHand) _
    rw [Shared.queueOut_deliver]
    exact hqueued.moved ⟨rfl, rfl, rfl, rfl, List.prefix_refl _⟩ nofun

/-- A command keeps the sides in order. -/
theorem Sound.command {P : Parts σ ι ο φ} {a : Shared σ ι ο φ} (h : Sound P a) (now : ℕ)
    (command : Option Command) : Sound P (a.command P now command) := by
  rcases command with _ | bytes | ⟨nick, icon⟩ | _
  · exact h.beside rfl rfl fun _ _ hs => hs.apart ⟨rfl, rfl, rfl, rfl, List.prefix_refl _⟩
  · have hwritten : Sound P (a.writeFrame P bytes) :=
      h.beside (h.said.writeFrame bytes).2.1 (h.said.writeFrame bytes).2.2
        fun _ _ hs => (hs.writeFrame bytes).1
    apply hwritten.beside
    · simp [Shared.command]
    · simp [Shared.command]
    · intro hand settled hs
      exact hs.apart ((Shared.tickNow_apart P _ now).trans (Shared.writeOut_apart P _))
  · apply h.beside
    · simp [Shared.command]
    · simp [Shared.command]
    · intro hand settled hs
      have hagreed : Said P { a with session := P.agree a.session nick icon } hand settled :=
        hs.apart ⟨rfl, rfl, rfl, rfl, P.agree_pending _ _ _⟩
      have hqueued := hagreed.apart (Shared.queueOut_apart P _)
      change Said P (Shared.writeOut P _) hand settled
      refine Said.apart ?_ (Shared.writeOut_apart P _)
      exact hqueued.apart ⟨rfl, rfl, rfl, rfl, List.prefix_refl _⟩
  · exact h.beside rfl rfl fun _ _ hs => hs.apart ⟨rfl, rfl, rfl, rfl, List.prefix_refl _⟩

/-- What the stream takes keeps the sides in order. -/
theorem Sound.wrote {P : Parts σ ι ο φ} {a a' : Shared σ ι ο φ} (h : Sound P a) {n : ℕ}
    (hstep : a.wrote n = some a') : Sound P a' := by
  unfold Shared.wrote at hstep
  split at hstep
  · simp only [Option.ite_none_right_eq_some, Option.some.injEq] at hstep
    obtain ⟨-, rfl⟩ := hstep
    exact h.beside rfl rfl fun _ _ hs => hs.apart ⟨rfl, rfl, rfl, rfl, List.prefix_refl _⟩
  · simp only [Option.ite_none_right_eq_some, Option.some.injEq] at hstep
    obtain ⟨-, rfl⟩ := hstep
    exact h.beside rfl rfl fun _ _ hs => hs.apart ⟨rfl, rfl, rfl, rfl, List.prefix_refl _⟩
  · simp at hstep
  · simp at hstep

/-- Every step of a run that goes on keeps the sides in order. -/
theorem Sound.running {P : Parts σ ι ο φ} {cap : ℕ} {a a' : Shared σ ι ο φ} (h : Sound P a)
    {action : Action} (hstep : a.running P cap action = some a') : Sound P a' := by
  have hsame : ∀ {b : Shared σ ι ο φ}, b.read = a.read → b.deliver = a.deliver →
      Apart P a b → Sound P b :=
    fun hread hdeliver happart => h.beside hread hdeliver fun _ _ hs => hs.apart happart
  cases action with
  | received bytes now =>
    simp only [Shared.running, Option.ite_none_right_eq_some, Option.some.injEq] at hstep
    obtain ⟨⟨hreading, -⟩, rfl⟩ := hstep
    exact h.feed hreading bytes now
  | eof | readError what =>
    simp only [Shared.running, Option.ite_none_right_eq_some, Option.some.injEq] at hstep
    obtain ⟨-, rfl⟩ := hstep
    exact hsame rfl rfl ⟨rfl, rfl, rfl, rfl, List.prefix_refl _⟩
  | readStep => exact h.readOn hstep
  | deliverStep => exact h.deliverSideOn hstep
  | command command now =>
    simp only [Shared.running, Option.ite_none_right_eq_some, Option.some.injEq] at hstep
    obtain ⟨-, rfl⟩ := hstep
    exact h.command now command
  | wake =>
    simp only [Shared.running] at hstep
    split at hstep
    · simp only [Option.ite_none_right_eq_some, Option.some.injEq] at hstep
      obtain ⟨-, rfl⟩ := hstep
      apply hsame
      · simp
      · simp
      · refine Apart.trans ?_ (Shared.writeOut_apart P _)
        exact ⟨rfl, rfl, rfl, rfl, List.prefix_refl _⟩
    · simp at hstep
  | tick now =>
    simp only [Shared.running] at hstep
    split at hstep
    · obtain rfl := Option.some.inj hstep
      apply hsame
      · simp
      · simp
      · exact (Shared.tickNow_apart P a now).trans (Shared.writeOut_apart P _)
    · simp at hstep
  | wrote n => exact h.wrote hstep
  | writeError what =>
    simp only [Shared.running] at hstep
    split at hstep
    all_goals first
      | simp at hstep
        done
      | obtain rfl := Option.some.inj hstep
        exact hsame rfl rfl ⟨rfl, rfl, rfl, rfl, List.prefix_refl _⟩
  | flushed =>
    simp only [Shared.running] at hstep
    split at hstep
    all_goals first
      | simp at hstep
        done
      | obtain rfl := Option.some.inj hstep
        exact hsame rfl rfl ⟨rfl, rfl, rfl, rfl, List.prefix_refl _⟩
  | handle n =>
    obtain rfl := Option.some.inj hstep
    have hpending := P.handle_pending a.session n
    refine hsame rfl rfl ⟨rfl, rfl, rfl, rfl, ?_⟩
    rw [hpending]
  | consume =>
    simp only [Shared.running, Option.ite_none_right_eq_some, Option.some.injEq] at hstep
    obtain ⟨-, rfl⟩ := hstep
    exact hsame rfl rfl ⟨rfl, rfl, rfl, rfl, List.prefix_refl _⟩
  | consumerGone =>
    obtain rfl := Option.some.inj hstep
    exact hsame rfl rfl ⟨rfl, rfl, rfl, rfl, List.prefix_refl _⟩
  | announce => simp [Shared.running] at hstep

/-- Once the actor ended, only its end is said. -/
theorem Shared.step_ended {P : Parts σ ι ο φ} {cap : ℕ} {a a' : Shared σ ι ο φ}
    {action : Action} {reason : ShutdownReason} (hended : a.ended = some reason)
    (hstep : a.step P cap action = some a') :
    action ≠ .eof ∧ ∃ queued gone announced sent,
      a' = { a with ended := some reason, queued := queued, gone := gone,
                    announced := announced, sent := sent } ∧
        sent.filter Event.isImage = a.delivered := by
  cases action with
  | consume =>
    simp only [Shared.step, hended, Option.ite_none_right_eq_some, Option.some.injEq] at hstep
    obtain ⟨-, rfl⟩ := hstep
    exact ⟨nofun, _, _, _, _, rfl, rfl⟩
  | consumerGone =>
    simp only [Shared.step, hended, Option.some.injEq] at hstep
    subst hstep
    exact ⟨nofun, _, _, _, _, rfl, rfl⟩
  | announce =>
    simp only [Shared.step, hended] at hstep
    split at hstep
    · simp at hstep
    · split at hstep
      · obtain rfl := Option.some.inj hstep
        exact ⟨nofun, _, _, _, _, rfl, rfl⟩
      · simp only [Shared.send, hended, Option.map_eq_some_iff, Option.ite_none_right_eq_some,
          Option.some.injEq] at hstep
        obtain ⟨_, ⟨-, rfl⟩, rfl⟩ := hstep
        refine ⟨nofun, _, _, _, _, rfl, ?_⟩
        simp [Shared.delivered, Event.isImage]
  | received | eof | readError | readStep | deliverStep | command | wake | tick | wrote
  | writeError | flushed | handle => simp [Shared.step, hended] at hstep

/-- Every step keeps the sides in order. -/
theorem Sound.step {P : Parts σ ι ο φ} {cap : ℕ} {a a' : Shared σ ι ο φ} (h : Sound P a)
    {action : Action} (hstep : a.step P cap action = some a') : Sound P a' := by
  cases hended : a.ended with
  | none =>
    simp only [Shared.step, hended] at hstep
    exact h.running hstep
  | some reason =>
    obtain ⟨-, queued, gone, announced, sent, rfl, hsent⟩ := Shared.step_ended hended hstep
    refine h.beside rfl rfl fun hand settled hs => ⟨hs.requests, ?_, hs.counted, ?_⟩
    · rw [Shared.delivered, hsent]
      exact hs.said
    · rw [Shared.delivered, hsent]
      exact hs.begun

theorem Shared.queueOut_queued (P : Parts σ ι ο φ) (a : Shared σ ι ο φ) :
    Queued a (a.queueOut P).2 := by
  simp only [Shared.queueOut]
  split
  · exact .none rfl rfl rfl rfl
  · exact ⟨rfl, rfl, _, rfl, rfl⟩

theorem Shared.tickNow_queued (P : Parts σ ι ο φ) (a : Shared σ ι ο φ) (now : ℕ) :
    Queued a (a.tickNow P now) :=
  Shared.queueOut_queued P { a with session := P.tick a.session now }

theorem Shared.writeFrame_queued (P : Parts σ ι ο φ) (a : Shared σ ι ο φ)
    (bytes : List UInt8) : Queued a (a.writeFrame P bytes) := by
  have hnoted : Queued a (a.noteRequest P bytes) := by
    unfold Shared.noteRequest
    split
    · split <;> exact .none rfl rfl rfl rfl
    · exact .none rfl rfl rfl rfl
  simp only [Shared.writeFrame]
  split
  · exact hnoted.trans ⟨rfl, rfl, _, rfl, rfl⟩
  · exact hnoted.trans (.none rfl rfl rfl rfl)

theorem Shared.feed_queued (P : Parts σ ι ο φ) (a : Shared σ ι ο φ) (bytes : List UInt8)
    (now : ℕ) : Queued a (a.feed P bytes now) := by
  have hqueue := Shared.queueOut_queued P { a with
    session := P.feed a.session bytes now
    fed := (polledOf a.log).length + (P.pending (P.feed a.session bytes now)).length }
  simp only [Shared.feed]
  split <;> exact hqueue

theorem Shared.readOn_queued {P : Parts σ ι ο φ} {cap : ℕ} {a a' : Shared σ ι ο φ}
    (hstep : a.readOn P cap = some a') : Queued a a' := by
  cases hread : a.read with
  | reading => simp [Shared.readOn, hread] at hstep
  | stateTurn state rest =>
    simp only [Shared.readOn, hread, Option.ite_none_left_eq_some, Option.some.injEq] at hstep
    obtain ⟨-, rfl⟩ := hstep
    exact .none rfl rfl rfl rfl
  | stateSending state rest =>
    simp only [Shared.readOn, hread] at hstep
    split at hstep
    · obtain rfl := Option.some.inj hstep
      exact .none rfl rfl rfl rfl
    · simp only [Shared.send, Option.map_eq_some_iff, Option.ite_none_right_eq_some,
        Option.some.injEq] at hstep
      obtain ⟨_, ⟨-, rfl⟩, rfl⟩ := hstep
      cases rest <;> exact .none rfl rfl rfl rfl
  | delivering turn =>
    simp only [Shared.readOn, hread] at hstep
    obtain ⟨⟨a₁, done⟩, hon, rfl⟩ := Option.map_eq_some_iff.mp hstep
    obtain ⟨-, -, hqueued⟩ := Shared.deliverOn_sides hon
    cases done <;> exact hqueued

theorem Shared.deliverSideOn_queued {P : Parts σ ι ο φ} {cap : ℕ} {a a' : Shared σ ι ο φ}
    (hstep : a.deliverSideOn P cap = some a') : Queued a a' := by
  cases hside : a.deliver with
  | idle =>
    simp only [Shared.deliverSideOn, hside, Option.ite_none_right_eq_some,
      Option.some.injEq] at hstep
    obtain ⟨-, rfl⟩ := hstep
    exact .none rfl rfl rfl rfl
  | delivering turn =>
    simp only [Shared.deliverSideOn, hside] at hstep
    obtain ⟨⟨a₁, done⟩, hon, rfl⟩ := Option.map_eq_some_iff.mp hstep
    obtain ⟨-, -, hqueued⟩ := Shared.deliverOn_sides hon
    cases done <;> exact hqueued

/-- What a step does to the write side. -/
inductive Wrote (P : Parts σ ι ο φ) (a : Shared σ ι ο φ) : Shared σ ι ο φ → Prop
  | stays {a'} (hqueued : Queued a a') : Wrote P a a'
  | turns {b} (loggedIn : Bool) (hwrite : a.write = .selecting loggedIn) (hqueued : Queued a b) :
    Wrote P a (b.writeOut P)
  | leaves (loggedIn : Bool) (hwrite : a.write = .selecting loggedIn) :
    Wrote P a { a with out := [], write := .leaving a.out }
  | writes {a'} (n : ℕ) (hwrote : a.wrote n = some a') : Wrote P a a'
  | fails (bytes : List UInt8) (hwrite : a.write = .leaving bytes) :
    Wrote P a { a with write := .leaving [] }
  | flushes (hwrite : a.write = .flushing) :
    Wrote P a { a with write := .selecting (P.server a.session).isSome }

/-- What a step of a run that goes on does to the write side. -/
theorem Wrote.running {P : Parts σ ι ο φ} {cap : ℕ} {a a' : Shared σ ι ο φ} {action : Action}
    (hstep : a.running P cap action = some a') : Wrote P a a' := by
  cases action with
  | received bytes now =>
    simp only [Shared.running, Option.ite_none_right_eq_some, Option.some.injEq] at hstep
    obtain ⟨-, rfl⟩ := hstep
    exact .stays (a.feed_queued P bytes now)
  | eof | readError what | consume =>
    simp only [Shared.running, Option.ite_none_right_eq_some, Option.some.injEq] at hstep
    obtain ⟨-, rfl⟩ := hstep
    exact .stays (.none rfl rfl rfl rfl)
  | readStep => exact .stays (Shared.readOn_queued hstep)
  | deliverStep => exact .stays (Shared.deliverSideOn_queued hstep)
  | command command now =>
    simp only [Shared.running, Option.ite_none_right_eq_some, Option.some.injEq] at hstep
    obtain ⟨hwrite, rfl⟩ := hstep
    rcases command with _ | bytes | ⟨nick, icon⟩ | _
    · exact .leaves true hwrite
    · exact .turns true hwrite ((a.writeFrame_queued P bytes).trans (Shared.tickNow_queued P _ now))
    · refine .turns true hwrite ?_
      exact Shared.queueOut_queued P { a with session := P.agree a.session nick icon }
    · exact .leaves true hwrite
  | wake =>
    simp only [Shared.running] at hstep
    split at hstep
    · rename_i loggedIn hwrite
      simp only [Option.ite_none_right_eq_some, Option.some.injEq] at hstep
      obtain ⟨-, rfl⟩ := hstep
      exact .turns loggedIn hwrite (.none rfl rfl rfl rfl)
    · simp at hstep
  | tick now =>
    simp only [Shared.running] at hstep
    split at hstep
    · rename_i loggedIn hwrite
      obtain rfl := Option.some.inj hstep
      exact .turns loggedIn hwrite (a.tickNow_queued P now)
    · simp at hstep
  | wrote n => exact .writes n hstep
  | writeError what =>
    simp only [Shared.running] at hstep
    split at hstep
    · obtain rfl := Option.some.inj hstep
      exact .stays (.none rfl rfl rfl rfl)
    · obtain rfl := Option.some.inj hstep
      exact .stays (.none rfl rfl rfl rfl)
    · obtain rfl := Option.some.inj hstep
      exact .stays (.none rfl rfl rfl rfl)
    · rename_i first rest hwrite
      obtain rfl := Option.some.inj hstep
      exact .fails (first :: rest) hwrite
    · simp at hstep
  | flushed =>
    simp only [Shared.running] at hstep
    split at hstep
    · rename_i hwrite
      obtain rfl := Option.some.inj hstep
      exact .flushes hwrite
    · obtain rfl := Option.some.inj hstep
      exact .stays (.none rfl rfl rfl rfl)
    · simp at hstep
  | handle n =>
    obtain rfl := Option.some.inj hstep
    exact .stays (.none rfl rfl rfl rfl)
  | consumerGone =>
    obtain rfl := Option.some.inj hstep
    exact .stays (.none rfl rfl rfl rfl)
  | announce => simp [Shared.running] at hstep

/-- What a step does to the write side, whether or not the run goes on. -/
theorem Wrote.step {P : Parts σ ι ο φ} {cap : ℕ} {a a' : Shared σ ι ο φ} {action : Action}
    (hstep : a.step P cap action = some a') : Wrote P a a' := by
  cases hended : a.ended with
  | none =>
    simp only [Shared.step, hended] at hstep
    exact Wrote.running hstep
  | some reason =>
    obtain ⟨-, queued, gone, announced, sent, rfl, -⟩ := Shared.step_ended hended hstep
    exact .stays (.none rfl rfl rfl rfl)

/-- What was written, what is being written and what is queued are what the session gave,
in order; on its way out the write side leaves the rest. -/
def Shared.Penned (a : Shared σ ι ο φ) : Prop :=
  match a.write with
  | .leaving bytes => a.written ++ bytes <+: a.taken
  | .writing bytes => a.written ++ bytes ++ a.out = a.taken
  | .selecting _ | .flushing => a.written ++ a.out = a.taken

/-- What was written is the beginning of what the session gave. -/
theorem Shared.Penned.written_prefix {a : Shared σ ι ο φ} (h : a.Penned) :
    a.written <+: a.taken := by
  unfold Shared.Penned at h
  split at h
  · exact (List.prefix_append _ _).trans h
  · rw [← h, List.append_assoc]
    exact List.prefix_append _ _
  · exact ⟨_, h⟩
  · exact ⟨_, h⟩

/-- What is queued comes last. -/
theorem Shared.Penned.queued {a a' : Shared σ ι ο φ} (h : a.Penned) (hqueued : Queued a a') :
    a'.Penned := by
  obtain ⟨hwrite, hwritten, bytes, hout, htaken⟩ := hqueued
  unfold Shared.Penned at h ⊢
  rw [hwrite, hwritten, hout, htaken]
  cases hside : a.write with
  | leaving left =>
    simp only [hside] at h ⊢
    exact h.trans (List.prefix_append _ _)
  | writing left | selecting loggedIn | flushing =>
    simp only [hside] at h ⊢
    rw [← h]
    simp

/-- The actor begins with its bytes in order. -/
theorem Shared.Penned.start (P : Parts σ ι ο φ) (session : σ) :
    (Shared.start P session).Penned := by
  have hfresh : Shared.Penned ({ session := session, write := .flushing } : Shared σ ι ο φ) :=
    rfl
  have hqueue := Shared.queueOut_queued P
    ({ session := session, write := .flushing } : Shared σ ι ο φ)
  have hqueued := hfresh.queued hqueue
  simp only [Shared.Penned, hqueue.1] at hqueued
  exact hqueued

/-- The loop's bottom writes what is queued. -/
theorem Shared.Penned.writeOut {P : Parts σ ι ο φ} {a : Shared σ ι ο φ} {loggedIn : Bool}
    (h : a.Penned) (hwrite : a.write = .selecting loggedIn) : (a.writeOut P).Penned := by
  simp only [Shared.Penned, hwrite] at h
  unfold Shared.writeOut
  split
  · exact h
  · simpa [Shared.Penned] using h

/-- Every step keeps the bytes in order. -/
theorem Shared.Penned.step {P : Parts σ ι ο φ} {a a' : Shared σ ι ο φ} (h : a.Penned)
    (hwrote : Wrote P a a') : a'.Penned := by
  cases hwrote with
  | stays hqueued => exact h.queued hqueued
  | turns loggedIn hwrite hqueued =>
    exact (h.queued hqueued).writeOut (hqueued.1.trans hwrite)
  | leaves loggedIn hwrite =>
    simp only [Shared.Penned, hwrite] at h
    simp only [Shared.Penned, h]
    exact List.prefix_refl _
  | writes n hwrote =>
    unfold Shared.wrote at hwrote
    split at hwrote
    · rename_i bytes hwrite
      simp only [Option.ite_none_right_eq_some, Option.some.injEq] at hwrote
      obtain ⟨⟨-, hn⟩, rfl⟩ := hwrote
      simp only [Shared.Penned, hwrite] at h
      unfold Shared.Penned
      split_ifs with hall
      · simpa [hall] using h
      · simpa [List.append_assoc] using h
    · rename_i bytes hwrite
      simp only [Option.ite_none_right_eq_some, Option.some.injEq] at hwrote
      obtain ⟨-, rfl⟩ := hwrote
      simp only [Shared.Penned, hwrite] at h
      simpa [Shared.Penned] using h
    · simp at hwrote
    · simp at hwrote
  | fails bytes hwrite =>
    have hbegin := h.written_prefix
    simpa [Shared.Penned] using hbegin
  | flushes hwrite =>
    simp only [Shared.Penned, hwrite] at h
    exact h

/-- The write side waits for commands only if it did, or the login is answered. -/
theorem Wrote.loggedIn {P : Parts σ ι ο φ} {a a' : Shared σ ι ο φ} (h : Wrote P a a')
    (hwrite' : a'.write = .selecting true) :
    a.write = .selecting true ∨ (P.server a'.session).isSome = true := by
  cases h with
  | stays hqueued => exact .inl (hqueued.1 ▸ hwrite')
  | @turns b loggedIn hwrite hqueued =>
    unfold Shared.writeOut at hwrite' ⊢
    split_ifs at hwrite' ⊢
    exact .inr (by simpa using hwrite')
  | leaves | fails => simp at hwrite'
  | writes n hwrote =>
    unfold Shared.wrote at hwrote
    split at hwrote
    · simp only [Option.ite_none_right_eq_some, Option.some.injEq] at hwrote
      obtain ⟨-, rfl⟩ := hwrote
      simp only at hwrite'
      split_ifs at hwrite'
    · simp only [Option.ite_none_right_eq_some, Option.some.injEq] at hwrote
      obtain ⟨-, rfl⟩ := hwrote
      simp at hwrite'
    · simp at hwrote
    · simp at hwrote
  | flushes hwrite => exact .inr (by simpa using hwrite')

/-- The write side waits for commands only once the login was answered. -/
theorem loggedIn_of_selecting {P : Parts σ ι ο φ} {cap : ℕ} {session : σ}
    {actions : List Action} {a : Shared σ ι ο φ}
    (hrun : (running P cap session).run actions = some a) (hwrite : a.write = .selecting true) :
    ∃ earlier s, earlier <+: actions ∧ (running P cap session).run earlier = some s ∧
      (P.server s.session).isSome = true := by
  induction actions using List.reverseRecOn generalizing a with
  | nil =>
    refine ⟨[], a, List.prefix_refl _, hrun, ?_⟩
    obtain rfl : Shared.start P session = a := by simpa [running] using hrun
    simpa [Shared.start] using hwrite
  | append_singleton actions action ih =>
    obtain ⟨a₀, hrun₀, hstep⟩ := Reactive.Process.run_snoc.mp hrun
    rcases (Wrote.step hstep).loggedIn hwrite with hwrite | hserver
    · obtain ⟨earlier, s, hearlier, hs, hserver⟩ := ih hrun₀ hwrite
      exact ⟨earlier, s, hearlier.trans (List.prefix_append _ _), hs, hserver⟩
    · exact ⟨_, a, List.prefix_refl _, hrun, hserver⟩

/-- The actor ends at the end of the stream, read to the end. -/
theorem isReading_of_eof {P : Parts σ ι ο φ} {cap : ℕ} {session : σ} {actions : List Action}
    {a : Shared σ ι ο φ} (hrun : (running P cap session).run actions = some a)
    (heof : Action.eof ∈ actions) : a.ended.isSome = true ∧ a.read.isReading = true := by
  induction actions using List.reverseRecOn generalizing a with
  | nil => simp at heof
  | append_singleton actions action ih =>
    obtain ⟨a₀, hrun₀, hstep⟩ := Reactive.Process.run_snoc.mp hrun
    change a₀.step P cap action = some a at hstep
    cases hended : a₀.ended with
    | none =>
      have hnot : Action.eof ∉ actions := by
        intro hbefore
        have hsome := (ih hrun₀ hbefore).1
        rw [hended] at hsome
        cases hsome
      obtain rfl : Action.eof = action := by simpa [hnot] using heof
      simp only [Shared.step, hended, Shared.running, Option.ite_none_right_eq_some,
        Option.some.injEq] at hstep
      obtain ⟨hreading, rfl⟩ := hstep
      exact ⟨rfl, hreading⟩
    | some reason =>
      obtain ⟨hnot, queued, gone, announced, sent, rfl, -⟩ := Shared.step_ended hended hstep
      have hbefore : Action.eof ∈ actions := by simpa [hnot.symm] using heof
      exact ⟨rfl, (ih hrun₀ hbefore).2⟩

/-- Over every interleaving of the three sides: what is written is the beginning of what the
session gave; a command goes to the session only once the login was answered; and what the
consumer was sent in the session's name is the images of the first events polled, in order,
the last cut off at most. When the server's end of the stream ends the run, every event the
session had come to when it was last fed is among them, whole. -/
theorem session_handed_on (P : Parts σ ι ο φ) {cap : ℕ} {session : σ} {actions : List Action}
    {a : Shared σ ι ο φ} (hrun : (running P cap session).run actions = some a) :
    a.written <+: a.taken ∧
      (∀ before bytes now, before ++ [.command (some (.writeFrame bytes)) now] <+: actions →
        ∃ earlier s, earlier <+: before ∧ (running P cap session).run earlier = some s ∧
          (P.server s.session).isSome = true) ∧
      a.messaging = inFlight a.log ∧
      ∃ before after, a.log = before ++ after ∧ (polledOf after).length ≤ 1 ∧
        images P before <+: a.delivered ∧ a.delivered <+: images P a.log ∧
        (Action.eof ∈ actions → a.fed ≤ (polledOf before).length) := by
  have hsound : Sound P a :=
    Reactive.Process.invariant (Sound.start P session) (fun _ _ _ h hstep => h.step hstep) hrun
  refine ⟨?_, ?_, hsound.said.requests, ?_⟩
  · have hpenned : a.Penned := by
      apply Reactive.Process.invariant _ _ hrun
      · exact Shared.Penned.start P session
      · exact fun _ _ _ h hstep => h.step (Wrote.step hstep)
    exact hpenned.written_prefix
  · intro before bytes now hbegin
    obtain ⟨s', hrun'⟩ := Reactive.Process.run_of_begin hbegin hrun
    obtain ⟨s, hs, hstep⟩ := Reactive.Process.run_snoc.mp hrun'
    apply loggedIn_of_selecting hs
    change s.step P cap _ = some s' at hstep
    cases hended : s.ended with
    | none =>
      simp only [Shared.step, hended, Shared.running, Option.ite_none_right_eq_some] at hstep
      exact hstep.1
    | some reason => simp [Shared.step, hended] at hstep
  · obtain ⟨before, after, hlog, hafter, hbefore, hfed⟩ := hsound.said.begun
    refine ⟨before, after, hlog, hafter, hbefore, ?_, ?_⟩
    · rw [hsound.said.said]
      exact List.prefix_append _ _
    · exact fun heof => hfed (isReading_of_eof hrun heof).2

/-- A session that is logged in by whatever it is fed, and answers it with the same. -/
def echo : Parts (List (SessionEvent Unit Unit) × List UInt8) Unit Unit (List UInt8) where
  feed s bytes _ := (s.1 ++ [.loggedIn ()], s.2 ++ bytes)
  tick s _ := s
  sendRaw s bytes := (true, (s.1, s.2 ++ bytes))
  agree s _ _ := s
  pollEvent s :=
    match s.1 with
    | [] => none
    | event :: rest => some (event, (rest, s.2))
  takeOutgoing s := (s.2, (s.1, []))
  server _ := some 0
  midTransaction _ := false
  handle s _ := s
  capMessaging := 1
  header _ := none
  fromRaw := some
  pending s := s.1
  poll_none s h := by rw [h]
  poll_some s event rest h := ⟨(rest, s.2), by rw [h], rfl⟩
  feed_pending _ _ _ := List.prefix_append _ _
  tick_pending _ _ := List.prefix_refl _
  sendRaw_pending _ _ := List.prefix_refl _
  agree_pending _ _ _ := List.prefix_refl _
  takeOutgoing_pending _ := rfl
  handle_pending _ _ := rfl

/-- The session is fed, its answer is written, and the server closes. -/
def echoed : List Action :=
  [.received [7] 0, .readStep, .readStep, .readStep, .readStep, .readStep, .readStep, .readStep,
    .readStep, .readStep, .wake, .wrote 1, .flushed, .command (some (.writeFrame [8])) 1, .eof]

/-- What it said is handed on, whole. -/
theorem echoed_handed_on : ∃ a, (running echo 4 ([], [])).run echoed = some a ∧
    a.sent = [.state .loginSending, .state .loginReplyWait, .session (.loggedIn ()),
      .state .handshakeDone] ∧
    a.written <+: a.taken ∧
    ∃ before after, a.log = before ++ after ∧ (polledOf after).length ≤ 1 ∧
      images echo before <+: a.delivered ∧ a.delivered <+: images echo a.log ∧
      a.fed ≤ (polledOf before).length := by
  have hsent : ((running echo 4 ([], [])).run echoed).map Shared.sent =
      some [.state .loginSending, .state .loginReplyWait, .session (.loggedIn ()),
        .state .handshakeDone] := by decide
  obtain ⟨a, hrun, hsent⟩ := Option.map_eq_some_iff.mp hsent
  obtain ⟨hwritten, -, -, before, after, hlog, hafter, hbefore, hdelivered, hfed⟩ :=
    session_handed_on echo hrun
  have heof : Action.eof ∈ echoed := by decide
  exact ⟨a, hrun, hsent, hwritten, before, after, hlog, hafter, hbefore, hdelivered, hfed heof⟩

end Gtkhx.Actor
