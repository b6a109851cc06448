import Gtkhx.Library.Rollback
import Gtkhx.Voice.Requests

/-!
# Pausing a publication

A pause is shown at once, sent as a 609, and undone when the server refuses it. The
machine is followed over the life of one publication, together with a server that takes
its 609s in order and answers them in order. What the machine shows and what the server
has are the two flags of `Rollback`.
-/

namespace Gtkhx.Voice

/-- A 609 in flight: the room and number its refusal brings back, and what it asks. -/
structure PauseRequest where
  cid : UInt32
  gen : UInt32
  paused : Bool
  deriving DecidableEq

/-- A request, if it is a 609 of the kind. -/
def VideoRequest.pauseOf (kind : VideoKind) : VideoRequest → Option PauseRequest
  | .pause cid k paused gen => if k = kind then some ⟨cid, gen, paused⟩ else none
  | _ => none

/-- The machine and the server over the life of one publication. -/
structure Pausing where
  machine : SessionMachine
  /-- The 609s the server has not taken yet, oldest first. -/
  sent : List PauseRequest := []
  /-- The answers on their way back, oldest first: whether the pause was applied. -/
  replies : List (PauseRequest × Bool) := []
  /-- What the server has. -/
  server : Bool := false
  /-- What the capture was last told; a start is not paused. -/
  told : Bool := false
  /-- The 609s refused since the last one applied, or since the first that found all others
  answered. -/
  refused : ℕ := 0
  /-- Whether one was applied since then. -/
  applied : Bool := false
  /-- Whether machine and server differed before then. -/
  behind : Bool := false

/-- What happens next. -/
inductive PauseInput
  /-- The user pauses or resumes. -/
  | request (paused : Bool)
  /-- The server takes the next 609, and applies or refuses it. -/
  | serve (apply : Bool)
  /-- The next answer arrives, a refusal with the server's text. -/
  | reply (text : String)
  /-- Any other event. -/
  | other (e : Event)

/-- An event that has nothing to do with this publication's pauses. A refusal of another
publication's 609 carries another number. -/
def SessionMachine.foreign (m : SessionMachine) (kind : VideoKind) : Event → Bool
  | .videoPauseRequested k _ => k ≠ kind
  | .videoPauseFailed _ k gen _ => k ≠ kind || gen ≠ m.pauseGen kind
  | _ => true

namespace Pausing

variable {kind : VideoKind}

/-- Every 609 has been answered. -/
def AtRest (w : Pausing) : Prop := w.sent = [] ∧ w.replies = []

instance (w : Pausing) : Decidable w.AtRest := inferInstanceAs (Decidable (_ ∧ _))

/-- The 609s that are not answered, oldest first. -/
def unanswered (w : Pausing) : List PauseRequest := w.replies.map Prod.fst ++ w.sent

/-- What the machine shows. -/
def shown (kind : VideoKind) (w : Pausing) : Bool := (w.machine.localVideo kind).getD false

/-- The count of refusals starts afresh when a 609 finds all others answered. -/
def begin (kind : VideoKind) (w : Pausing) : Pausing :=
  if w.AtRest then
    { w with refused := 0, applied := false, behind := w.shown kind ^^ w.server }
  else w

/-- The machine handles an event. -/
def handle (kind : VideoKind) (w : Pausing) (e : Event) : Pausing :=
  let acts := (w.machine.step e).2
  let new := (videoRequests acts).filterMap (·.pauseOf kind)
  let w' := if new = [] then w else w.begin kind
  { w' with
    machine := (w.machine.step e).1
    sent := w.sent ++ new
    told := acts.foldl (toldPaused kind) w.told }

/-- One input, as long as the publication lives. -/
def step (kind : VideoKind) (w : Pausing) : PauseInput → Option Pausing
  | .request paused => some (w.handle kind (.videoPauseRequested kind paused))
  | .serve apply =>
    match w.sent with
    | [] => none
    | r :: sent =>
      some { w with
        sent := sent
        replies := w.replies ++ [(r, apply)]
        server := if apply then r.paused else w.server
        refused := if apply then 0 else w.refused + 1
        applied := apply || w.applied }
  | .reply text =>
    match w.replies with
    | [] => none
    | (r, applied) :: replies =>
      let w := { w with replies := replies }
      some (if applied then w else w.handle kind (.videoPauseFailed r.cid kind r.gen text))
  | .other e =>
    if w.machine.foreign kind e ∧ ((w.machine.step e).1.localVideo kind).isSome then
      some (w.handle kind e)
    else none

/-- What the machine shows and what the capture was told last is what the server has,
whenever all 609s have been answered. -/
def Agrees (kind : VideoKind) (w : Pausing) : Prop :=
  w.AtRest → w.machine.localVideo kind = some w.server ∧ w.told = w.server

/-- Whenever all 609s have been answered, those refused after the last one applied are
none or odd in number. -/
def Recovered (w : Pausing) : Prop := w.AtRest → w.refused = 0 ∨ Odd w.refused

instance (w : Pausing) : Decidable w.Recovered := inferInstanceAs (Decidable (_ → _))

/-- The two flags. -/
def flag (kind : VideoKind) (w : Pausing) : Rollback.Flag where
  shown := w.shown kind
  held := w.server
  sent := w.sent.map PauseRequest.paused
  replies := w.replies.map Prod.snd
  refused := w.refused
  applied := w.applied
  behind := w.behind

end Pausing

/-- The life of a publication that a machine starts now. -/
def pausing (m : SessionMachine) (kind : VideoKind) : Reactive.Process Pausing PauseInput where
  start := { machine := (m.step (.videoStartRequested kind)).1 }
  step := Pausing.step kind

namespace Pausing

variable {kind : VideoKind}

/-- The requests are numbered one after the other, and the newest has number `gen`. -/
def Counted (gen : UInt32) (rs : List PauseRequest) : Prop :=
  ∀ (i : ℕ) r, rs[i]? = some r → r.gen + UInt32.ofNat (rs.length - 1 - i) = gen

private theorem Counted.snoc {gen : UInt32} {rs : List PauseRequest} (h : Counted gen rs)
    (r : PauseRequest) (hr : r.gen = gen + 1) : Counted (gen + 1) (rs ++ [r]) := by
  intro i r' hr'
  by_cases hi : i < rs.length
  · rw [List.getElem?_append_left hi] at hr'
    have hlen : (rs ++ [r]).length - 1 - i = rs.length - 1 - i + 1 := by
      simp only [List.length_append, List.length_singleton]
      omega
    rw [hlen, UInt32.ofNat_add, ← UInt32.add_assoc, h i r' hr']
    rfl
  · rw [List.getElem?_append_right (by omega)] at hr'
    obtain ⟨hlast, rfl⟩ := List.getElem?_eq_some_iff.mp hr'
    have hlen : (rs ++ [r]).length - 1 - i = 0 := by
      simp only [List.length_append, List.length_singleton]
      omega
    have hzero : i - rs.length = 0 := by simpa using hlast
    rw [hlen]
    simp [hzero, hr]

private theorem Counted.tail {gen : UInt32} {r : PauseRequest} {rs : List PauseRequest}
    (h : Counted gen (r :: rs)) : Counted gen rs := by
  intro i r' hr'
  have hnumber := h (i + 1) r' (by simpa using hr')
  have hlen : (r :: rs).length - 1 - (i + 1) = rs.length - 1 - i := by
    simp only [List.length_cons]
    omega
  rwa [hlen] at hnumber

/-- The oldest request has the newest number only if it is the only one. -/
private theorem Counted.head_iff {gen : UInt32} {r : PauseRequest} {rs : List PauseRequest}
    (h : Counted gen (r :: rs)) (hfew : rs.length + 1 < 2 ^ 32) : r.gen = gen ↔ rs = [] := by
  have hnumber : r.gen + UInt32.ofNat rs.length = gen := h 0 r (by simp)
  have hsize : rs.length < UInt32.size := by
    simp only [UInt32.size]
    omega
  have hzero : UInt32.ofNat rs.length = 0 ↔ rs.length = 0 := by
    rw [← UInt32.toNat_inj, UInt32.toNat_ofNat_of_lt' hsize]
    rfl
  rw [← hnumber, eq_comm, UInt32.add_eq_left, hzero, List.length_eq_zero_iff]

/-- The machine is reachable and publishes, the capture was told what it shows, and the
609s in flight are numbered in the order sent, up to the latest number. -/
structure Numbered (kind : VideoKind) (w : Pausing) : Prop where
  bound : w.machine.RoomBound
  voice : w.machine.VideoInVoice
  live : w.machine.localVideo kind = some w.told
  numbers : Counted (w.machine.pauseGen kind) w.unanswered
  room : ∀ r ∈ w.unanswered, w.machine.activeCid = some r.cid

private theorem atRest_iff {w : Pausing} : (w.flag kind).AtRest ↔ w.AtRest := by
  simp [flag, AtRest, Rollback.Flag.AtRest]

private theorem Numbered.shown {w : Pausing} (h : w.Numbered kind) : w.shown kind = w.told := by
  simp [Pausing.shown, h.live]

/-- The flags agree just when machine, capture and server do. -/
private theorem Numbered.agreement_iff {w : Pausing} (h : w.Numbered kind) :
    w.Agrees kind ↔ (w.flag kind).Agrees := by
  have hflag : (w.flag kind).shown = w.told := h.shown
  rw [Agrees, Rollback.Flag.Agrees, atRest_iff, h.live, hflag]
  simp [flag]

private theorem recovered_iff {w : Pausing} : w.Recovered ↔ (w.flag kind).Recovered := by
  rw [Recovered, Rollback.Flag.Recovered, atRest_iff]
  rfl

private theorem flag_begin (w : Pausing) : (w.begin kind).flag kind = (w.flag kind).begin := by
  by_cases hrest : w.AtRest
  · rw [Pausing.begin, if_pos hrest, Rollback.Flag.begin, if_pos (atRest_iff.mpr hrest)]
    rfl
  · rw [Pausing.begin, if_neg hrest, Rollback.Flag.begin, if_neg (fun h => hrest (atRest_iff.mp h))]

/-- What an event that sends no 609 of the kind and tells its capture nothing leaves of the
protocol. -/
private theorem handle_of_elsewhere {w : Pausing} {e : Event}
    (h : Elsewhere kind (w.machine.step e).2) :
    w.handle kind e = { w with machine := (w.machine.step e).1 } := by
  have hnew : (videoRequests (w.machine.step e).2).filterMap (·.pauseOf kind) = [] := by
    refine List.filterMap_eq_nil_iff.mpr (fun r hr => ?_)
    have hforeign := h.requests r hr
    cases r with
    | pause cid k paused gen => exact if_neg hforeign
    | _ => rfl
  simp [handle, hnew, h.told]

/-- The numbering holds on, and the flags stay or make one move. -/
private structure Moved (kind : VideoKind) (w w' : Pausing) : Prop where
  numbered : w'.Numbered kind
  follows : w'.flag kind = w.flag kind ∨
    ∃ move, (w.flag kind).step move = some (w'.flag kind)

/-- An event that has nothing to do with the pauses moves nothing. -/
private theorem Numbered.kept {w : Pausing} (h : w.Numbered kind) {e : Event}
    (hvideo : (w.machine.step e).1.localVideo kind = w.machine.localVideo kind)
    (hpauseGen : (w.machine.step e).1.pauseGen kind = w.machine.pauseGen kind)
    (hactive : (w.machine.step e).1.activeCid = w.machine.activeCid)
    (helse : Elsewhere kind (w.machine.step e).2) :
    (w.handle kind e).Numbered kind ∧ (w.handle kind e).flag kind = w.flag kind := by
  rw [handle_of_elsewhere helse]
  refine ⟨⟨h.bound.step e, h.voice.step e, hvideo.trans h.live, ?_, ?_⟩, ?_⟩
  · exact hpauseGen ▸ h.numbers
  · intro r hr
    exact hactive.trans (h.room r hr)
  · simp [flag, Pausing.shown, hvideo]

private theorem Numbered.request {w : Pausing} (h : w.Numbered kind) (paused : Bool) :
    Moved kind w (w.handle kind (.videoPauseRequested kind paused)) := by
  have hown := SessionMachine.step_own h.bound h.voice kind (.videoPauseRequested kind paused)
  cases hown with
  | kept _ hsame helse =>
    obtain ⟨hnumbered, hflag⟩ := h.kept hsame.video hsame.pauseGen hsame.active helse
    exact ⟨hnumbered, Or.inl hflag⟩
  | stopped he => rcases he with he | ⟨_, he⟩ <;> cases he
  | left he => rcases he with ⟨_, he⟩ | ⟨_, he⟩ <;> cases he
  | paused cid _ hcid hlocal hvideo _ _ hpauseGen hactive hrequests htold =>
    have hshown : w.shown kind = !paused := by simp [Pausing.shown, hlocal]
    have hhandle : w.handle kind (.videoPauseRequested kind paused) =
        { w.begin kind with
          machine := (w.machine.step (.videoPauseRequested kind paused)).1
          sent := w.sent ++ [⟨cid, w.machine.pauseGen kind + 1, paused⟩]
          told := paused } := by
      simp [handle, hrequests, htold, VideoRequest.pauseOf]
    have hbegin : (w.begin kind).replies = w.replies := by
      unfold Pausing.begin
      split_ifs <;> rfl
    rw [hhandle]
    refine ⟨⟨h.bound.step _, h.voice.step _, hvideo, ?_, ?_⟩, Or.inr ⟨.change, ?_⟩⟩
    · have hsnoc := h.numbers.snoc ⟨cid, w.machine.pauseGen kind + 1, paused⟩ rfl
      simpa [unanswered, hbegin, hpauseGen] using hsnoc
    · intro r hr
      have hr' : r ∈ w.unanswered ∨ r = ⟨cid, w.machine.pauseGen kind + 1, paused⟩ := by
        simpa [unanswered, hbegin, or_assoc] using hr
      rcases hr' with hr' | rfl
      · exact hactive.trans (h.room r hr')
      · exact hactive.trans hcid
    · have hflag : (w.flag kind).shown = !paused := hshown
      rw [Rollback.Flag.step, ← flag_begin, hflag, Bool.not_not]
      simp [flag, Pausing.shown, hvideo]

private theorem Numbered.serve {w : Pausing} (h : w.Numbered kind) {r : PauseRequest}
    {sent : List PauseRequest} (hsent : w.sent = r :: sent) (apply : Bool) :
    Moved kind w { w with
      sent := sent
      replies := w.replies ++ [(r, apply)]
      server := if apply then r.paused else w.server
      refused := if apply then 0 else w.refused + 1
      applied := apply || w.applied } := by
  have hsame : (w.replies ++ [(r, apply)]).map Prod.fst ++ sent = w.unanswered := by
    simp [unanswered, hsent]
  refine ⟨⟨h.bound, h.voice, h.live, ?_, ?_⟩, Or.inr ⟨if apply then .apply else .refuse, ?_⟩⟩
  · rw [unanswered, hsame]
    exact h.numbers
  · rw [unanswered, hsame]
    exact h.room
  · cases apply <;> simp [Rollback.Flag.step, flag, hsent, Pausing.shown]

private theorem Numbered.reply {w : Pausing} (h : w.Numbered kind) {r : PauseRequest}
    {applied : Bool} {replies : List (PauseRequest × Bool)}
    (hreplies : w.replies = (r, applied) :: replies) (hfew : w.unanswered.length < 2 ^ 32)
    (text : String) :
    Moved kind w (if applied then { w with replies := replies }
      else { w with replies := replies }.handle kind
        (.videoPauseFailed r.cid kind r.gen text)) := by
  have hall : w.unanswered = r :: (replies.map Prod.fst ++ w.sent) := by
    simp [unanswered, hreplies]
  have hlen : (replies.map Prod.fst ++ w.sent).length + 1 < 2 ^ 32 := by
    simpa [hall] using hfew
  have hcounted := hall ▸ h.numbers
  have hlatest := hcounted.head_iff hlen
  have hroom : w.machine.activeCid = some r.cid := h.room r (by simp [hall])
  have hrest : Numbered kind { w with replies := replies } :=
    ⟨h.bound, h.voice, h.live, hcounted.tail,
      fun r' hr' => h.room r' (by rw [hall]; exact List.mem_cons_of_mem _ hr')⟩
  cases applied with
  | true =>
    refine ⟨hrest, Or.inr ⟨.answer, ?_⟩⟩
    simp [Rollback.Flag.step, flag, hreplies, Pausing.shown]
  | false =>
    obtain ⟨cid, gen, paused⟩ := r
    have hown := SessionMachine.step_own h.bound h.voice kind (.videoPauseFailed cid kind gen text)
    rw [if_neg Bool.false_ne_true]
    cases hown with
    | kept hidle hsame helse =>
      obtain ⟨hnumbered, hflag⟩ := hrest.kept hsame.video hsame.pauseGen hsame.active helse
      have hmore : ¬(w.sent = [] ∧ replies = []) := by
        rintro ⟨hsent, rfl⟩
        exact hidle ⟨rfl, hroom, hlatest.mpr (by simp [hsent]), by simp [h.live]⟩
      refine ⟨hnumbered, Or.inr ⟨.answer, ?_⟩⟩
      rw [hflag]
      simp [Rollback.Flag.step, flag, hreplies, Pausing.shown, hmore]
    | stopped he => rcases he with he | ⟨_, he⟩ <;> cases he
    | left he => rcases he with ⟨_, he⟩ | ⟨_, he⟩ <;> cases he
    | pauseRefused _ _ shown hcid hlocal hvideo _ _ hpauseGen hactive hrequests htold =>
      obtain ⟨hnone, hsent⟩ : replies = [] ∧ w.sent = [] := by simpa using hlatest.mp rfl
      have hhandle : { w with replies := replies }.handle kind
          (.videoPauseFailed cid kind (w.machine.pauseGen kind) text) =
          { w with
            replies := replies
            machine := (w.machine.step
              (.videoPauseFailed cid kind (w.machine.pauseGen kind) text)).1
            told := !shown } := by
        simp [handle, hrequests, htold]
      rw [hhandle]
      refine ⟨⟨h.bound.step _, h.voice.step _, hvideo, ?_, ?_⟩, Or.inr ⟨.answer, ?_⟩⟩
      · rw [hpauseGen]
        exact hcounted.tail
      · simp [unanswered, hnone, hsent]
      · simp [Rollback.Flag.step, flag, hreplies, hnone, hsent, Pausing.shown, hvideo, hlocal]

private theorem Numbered.other {w : Pausing} (h : w.Numbered kind) {e : Event}
    (hforeign : w.machine.foreign kind e = true)
    (hlives : ((w.machine.step e).1.localVideo kind).isSome = true) :
    Moved kind w (w.handle kind e) := by
  have hown := SessionMachine.step_own h.bound h.voice kind e
  cases hown with
  | kept _ hsame helse =>
    obtain ⟨hnumbered, hflag⟩ := h.kept hsame.video hsame.pauseGen hsame.active helse
    exact ⟨hnumbered, Or.inl hflag⟩
  | started _ _ hnone => simp [h.live] at hnone
  | stopped _ _ hvideo | startRefused _ _ _ _ hvideo | entered _ hvideo | left _ hvideo =>
    simp [hvideo] at hlives
  | paused => simp [SessionMachine.foreign] at hforeign
  | pauseRefused => simp [SessionMachine.foreign] at hforeign
  | status cid ps uid hcid hvideo _ _ hpauseGen hactive helse =>
    have hsame : (w.machine.step (.videoStatusReceived cid ps (some uid))).1.localVideo kind =
        w.machine.localVideo kind := by
      rw [hvideo] at hlives ⊢
      split_ifs at hlives ⊢
      · simp at hlives
      · rfl
    obtain ⟨hnumbered, hflag⟩ := h.kept hsame hpauseGen hactive helse
    exact ⟨hnumbered, Or.inl hflag⟩

/-- Every step keeps the numbering while fewer than 2^32 requests are unanswered, and moves
the flags as `Rollback` does. -/
private theorem Numbered.step {w w' : Pausing} (h : w.Numbered kind)
    (hfew : w.unanswered.length < 2 ^ 32) {i : PauseInput} (hstep : w.step kind i = some w') :
    Moved kind w w' := by
  cases i with
  | request paused =>
    obtain rfl := Option.some.inj hstep
    exact h.request paused
  | serve apply =>
    simp only [Pausing.step] at hstep
    split at hstep
    · cases hstep
    · rename_i r sent hsent
      obtain rfl := Option.some.inj hstep
      exact h.serve hsent apply
  | reply text =>
    simp only [Pausing.step] at hstep
    split at hstep
    · cases hstep
    · rename_i r applied replies hreplies
      obtain rfl := Option.some.inj hstep
      exact h.reply hreplies hfew text
  | other e =>
    simp only [Pausing.step] at hstep
    split_ifs at hstep with hother
    obtain rfl := Option.some.inj hstep
    exact h.other hother.1 hother.2

section Runs

variable {m : SessionMachine} {is : List PauseInput}

private theorem numbered_start (hbound : m.RoomBound) (hvideo : m.VideoInVoice)
    (hvoice : m.inVoice = true) (hnone : m.localVideo kind = none) :
    (pausing m kind).start.Numbered kind where
  bound := hbound.step _
  voice := hvideo.step _
  live := by simp [pausing, SessionMachine.step, SessionMachine.videoStartRequested, hvoice, hnone]
  numbers := by simp [Counted, unanswered, pausing]
  room := by simp [unanswered, pausing]

private theorem numbered_of_run (hstart : (pausing m kind).start.Numbered kind)
    (hfew : (pausing m kind).Throughout (fun w => w.unanswered.length < 2 ^ 32) is)
    {before : List PauseInput} {w : Pausing} (hbegin : before <+: is)
    (hrun : (pausing m kind).run before = some w) : w.Numbered kind := by
  refine Reactive.Process.invariant_along (C := fun w _ => w.unanswered.length < 2 ^ 32) hstart
    (fun w i w' hw hshort hstep => (hw.step hshort hstep).numbered) hrun ?_
  intro earlier i w₀ hearlier hrun₀
  exact hfew earlier w₀ (((List.prefix_append _ _).trans hearlier).trans hbegin) hrun₀

/-- The machine and the server move the two flags of `Rollback`. -/
private theorem follows (hstart : (pausing m kind).start.Numbered kind)
    (hfew : (pausing m kind).Throughout (fun w => w.unanswered.length < 2 ^ 32) is) :
    Rollback.Follows (pausing m kind) (flag kind) is := by
  intro before i w w' hbegin hrun hstep
  have hbefore := (List.prefix_append before [i]).trans hbegin
  exact ((numbered_of_run hstart hfew hbefore hrun).step (hfew before w hbefore hrun) hstep).follows

end Runs

end Pausing

/-- **When a refused pause is undone.** Over the life of a publication with fewer than 2^32
609s unanswered, machine, capture and server agree whenever all 609s have been answered,
exactly when each time the 609s refused after the last one applied are none or odd in
number: the machine undoes the newest refusal by flipping its flag, and passes over those
of superseded requests. -/
theorem pausing_agrees_iff (es : List Event) (kind : VideoKind) (is : List PauseInput)
    (hvoice : (session.after es).inVoice = true) (hnone : (session.after es).localVideo kind = none)
    (hfew : (pausing (session.after es) kind).Throughout
      (fun w => w.unanswered.length < 2 ^ 32) is) :
    (pausing (session.after es) kind).Throughout (Pausing.Agrees kind) is ↔
      (pausing (session.after es) kind).Throughout Pausing.Recovered is := by
  have hstart := Pausing.numbered_start (roomBound_after es)
    (SessionMachine.videoInVoice_after es) hvoice hnone
  have hshown : (pausing (session.after es) kind).start.shown kind = false := hstart.shown
  have hflag : (pausing (session.after es) kind).start.flag kind =
      { shown := false, held := false } := by
    rw [Pausing.flag, hshown]
    rfl
  have hagrees := Rollback.throughout_agrees_iff hflag (Pausing.follows hstart hfew)
  constructor
  · intro h before w hbegin hrun
    refine Pausing.recovered_iff.mpr (hagrees.mp (fun b v hb hv => ?_) before w hbegin hrun)
    exact (Pausing.numbered_of_run hstart hfew hb hv).agreement_iff.mp (h b v hb hv)
  · intro h before w hbegin hrun
    refine (Pausing.numbered_of_run hstart hfew hbegin hrun).agreement_iff.mpr
      (hagrees.mpr (fun b v hb hv => ?_) before w hbegin hrun)
    exact Pausing.recovered_iff.mp (h b v hb hv)

/-- A pause that is refused, in room 1 after the first offer. -/
theorem pausing_agrees_single_refusal :
    (pausing (session.after [.joinRequested 1, .sdpOfferReceived 1 ""]) .camera).Throughout
      (Pausing.Agrees .camera) [.request true, .serve false, .reply "no"] := by
  have hbegins (before : List PauseInput)
      (h : before <+: [.request true, .serve false, .reply "no"]) :
      before = [] ∨ before = [.request true] ∨ before = [.request true, .serve false] ∨
        before = [.request true, .serve false, .reply "no"] := by
    simpa using (List.mem_inits before _).mpr h
  refine (pausing_agrees_iff _ _ _ (by decide) (by decide) ?_).mpr ?_
  · intro before w hbegin hrun
    rcases hbegins before hbegin with rfl | rfl | rfl | rfl
    all_goals
      obtain rfl := Option.some.inj hrun
      decide
  · intro before w hbegin hrun
    rcases hbegins before hbegin with rfl | rfl | rfl | rfl
    all_goals
      obtain rfl := Option.some.inj hrun
      decide

/-- A pause and its resumption within one round trip, both refused: undoing the second
leaves the machine paused, and the server is not. -/
theorem double_refusal_stays_paused :
    ¬∀ (es : List Event) (kind : VideoKind) (is : List PauseInput),
      (session.after es).inVoice = true → (session.after es).localVideo kind = none →
      (pausing (session.after es) kind).Throughout (Pausing.Agrees kind) is := by
  intro h
  have hagrees := h [.joinRequested 1, .sdpOfferReceived 1 ""] .camera
    [.request true, .request false, .serve false, .serve false, .reply "no", .reply "no"]
    (by decide) (by decide) _ _ (List.prefix_refl _) rfl ⟨by decide, by decide⟩
  exact absurd hagrees.2 (by decide)

end Gtkhx.Voice
