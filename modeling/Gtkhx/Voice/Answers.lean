import Gtkhx.Voice.Runtime

/-!
# Every answer is the answer to the offer last applied

Dispatching a `SetRemoteDescription` starts a chain of promises of the peer connection
that may yield one answer at any later time, also after a teardown has discarded the peer
connection. The answer carries the generation the chain was started under, and is handed
to the machine only while that is still the current one. The runtime is followed together
with its chains, and with the main loop that runs one source at a time: a source is an
event of its own, or the end of a chain. Frames and the ends of chains reach the runtime
from the main loop only, never from inside a dispatch.
-/

namespace Gtkhx.Voice

/-- Whether an event brings an offer. -/
def Event.isOffer : Event → Bool
  | .sdpOfferReceived _ _ => true
  | _ => false

/-- Whether an event brings an answer. -/
def Event.isAnswer : Event → Bool
  | .webrtcAnswerCreated _ => true
  | _ => false

/-- The actions a negotiation is made of: descriptions applied, answers sent, and
teardowns. -/
def negotiates : Action → Bool
  | .setRemoteDescription _ => true
  | .setLocalDescription _ => true
  | .sendWireFrame opcode _ => opcode = htlcHdrVoiceSdpAnswer
  | .tearDown => true
  | _ => false

/-- The actions that put an answer out: it is applied, or sent to the server. -/
def answers : Action → Bool
  | .setLocalDescription _ => true
  | .sendWireFrame opcode _ => opcode = htlcHdrVoiceSdpAnswer
  | _ => false

/-- The promise chain of one applied offer. -/
structure Chain where
  offer : String
  /-- The generation it was started under. -/
  generation : UInt64
  /-- How many sessions had ended by then. -/
  session : ℕ

/-- What a step of the machine put out for an answer, with the circumstances. -/
structure SentAnswer where
  /-- The chain the event came from. -/
  source : Option ℕ
  acts : List Action
  /-- How many offers had been dispatched. -/
  offers : ℕ
  /-- How many sessions had ended. -/
  session : ℕ

/-- The runtime, its main loop and its chains. -/
structure Answering where
  runtime : Runtime ℕ := {}
  /-- The `handle_event` calls that the running source has still to make. -/
  calls : List (Posted ℕ) := []
  /-- The chains started so far, in order; a chain is named by its place. -/
  chains : List Chain := []
  /-- How many sessions have ended. -/
  ended : ℕ := 0
  /-- The chains that have yielded their answer, with the answer. -/
  resolved : List (ℕ × String) := []
  sent : List SentAnswer := []

/-- What happens next in the main loop. -/
inductive LoopInput
  /-- A source hands an event to the runtime. -/
  | turn (e : Event)
  /-- The end of a chain. Sends that the answer describes without their stream are ended
  before the answer is handed over. -/
  | answer (chain : ℕ) (missing : List (VideoKind × String)) (sdp : String)
  /-- A call from inside a dispatch. -/
  | reenter (e : Event)
  /-- The running call goes on, or the running source makes its next call. -/
  | advance

namespace Answering

/-- No source is running. -/
def atRest (w : Answering) : Bool := w.runtime.phase = .idle && w.calls.isEmpty

/-- The actions still to be dispatched. -/
def rest (w : Answering) : List Action :=
  match w.runtime.phase with
  | .acting _ rest => rest
  | _ => []

/-- What the machine puts out for an answer when it takes an event. -/
def emit (w : Answering) (p : Posted ℕ) : List SentAnswer :=
  let acts := (w.runtime.machine.step p.event).2.filter answers
  if acts = [] then [] else [⟨p.source, acts, w.chains.length, w.ended⟩]

/-- What dispatching an action does to the chains: an offer starts one, and a teardown
ends the session. -/
def follow (w : Answering) : Action → Answering
  | .setRemoteDescription sdp =>
    { w with chains := w.chains ++ [⟨sdp, w.runtime.answerGeneration, w.ended⟩] }
  | .tearDown => { w with ended := w.ended + 1 }
  | _ => w

/-- The next piece of the running source. -/
def advance (w : Answering) : Option Answering :=
  match w.runtime.phase, w.calls, w.runtime.pending with
  | .idle, [], _ => none
  | .idle, p :: calls, _ => some { w with runtime := w.runtime.handleEvent p, calls := calls }
  | .draining, _, [] => some { w with runtime := { w.runtime with phase := .idle } }
  | .draining, _, p :: pending =>
    some { w with runtime := w.runtime.take p pending, sent := w.sent ++ w.emit p }
  | .acting before [], _, _ => some { w with runtime := w.runtime.settle before }
  | .acting before (a :: rest), _, _ =>
    some ({ w with runtime := w.runtime.act before a rest }.follow a)

/-- The end of a chain: dropped when its generation is over, and otherwise handed to the
machine after the sends it leaves out are ended. -/
def resolve (w : Answering) (n : ℕ) (chain : Chain) (missing : List (VideoKind × String))
    (sdp : String) : Answering :=
  let w := { w with resolved := w.resolved ++ [(n, sdp)] }
  if chain.generation ≠ w.runtime.answerGeneration then w
  else
    { w with calls := missing.map (fun m => { event := .videoCaptureFailed m.1 m.2 }) ++
        [{ event := .webrtcAnswerCreated sdp, source := some n }] }

/-- One input of the main loop. -/
def step (w : Answering) : LoopInput → Option Answering
  | .turn e =>
    if w.atRest ∧ ¬e.isAnswer then
      some { w with runtime := w.runtime.handleEvent { event := e } }
    else none
  | .answer n missing sdp =>
    match w.chains[n]? with
    | some chain =>
      if w.atRest ∧ n ∉ w.resolved.map Prod.fst then some (w.resolve n chain missing sdp)
      else none
    | none => none
  | .reenter e =>
    match w.runtime.phase with
    | .acting _ _ =>
      if ¬e.isOffer ∧ ¬e.isAnswer then
        some { w with runtime := w.runtime.post { event := e } }
      else none
    | _ => none
  | .advance => w.advance

/-- Every way an input can move the main loop. -/
inductive Move (w : Answering) : LoopInput → Answering → Prop
  | turn (e : Event) (hrest : w.atRest = true) (hanswer : e.isAnswer = false) :
      Move w (.turn e) { w with runtime := w.runtime.handleEvent { event := e } }
  | resolve (n : ℕ) (missing : List (VideoKind × String)) (sdp : String) (chain : Chain)
      (hchain : w.chains[n]? = some chain) (hrest : w.atRest = true)
      (hnew : n ∉ w.resolved.map Prod.fst) :
      Move w (.answer n missing sdp) (w.resolve n chain missing sdp)
  | reenter (e : Event) (before : SessionState) (acts : List Action)
      (hphase : w.runtime.phase = .acting before acts) (hoffer : e.isOffer = false)
      (hanswer : e.isAnswer = false) :
      Move w (.reenter e) { w with runtime := w.runtime.post { event := e } }
  | call (p : Posted ℕ) (calls : List (Posted ℕ)) (hphase : w.runtime.phase = .idle)
      (hcalls : w.calls = p :: calls) :
      Move w .advance { w with runtime := w.runtime.handleEvent p, calls := calls }
  | drained (hphase : w.runtime.phase = .draining) (hpending : w.runtime.pending = []) :
      Move w .advance { w with runtime := { w.runtime with phase := .idle } }
  | take (p : Posted ℕ) (pending : List (Posted ℕ)) (hphase : w.runtime.phase = .draining)
      (hpending : w.runtime.pending = p :: pending) :
      Move w .advance
        { w with runtime := w.runtime.take p pending, sent := w.sent ++ w.emit p }
  | settle (before : SessionState) (hphase : w.runtime.phase = .acting before []) :
      Move w .advance { w with runtime := w.runtime.settle before }
  | act (before : SessionState) (a : Action) (acts : List Action)
      (hphase : w.runtime.phase = .acting before (a :: acts)) :
      Move w .advance ({ w with runtime := w.runtime.act before a acts }.follow a)

/-- Every step is one of these moves. -/
theorem move_of_step {w w' : Answering} {i : LoopInput} (hstep : w.step i = some w') :
    w.Move i w' := by
  cases i with
  | turn e =>
    simp only [step] at hstep
    split_ifs at hstep with hturn
    obtain rfl := Option.some.inj hstep
    exact .turn e hturn.1 (by simpa using hturn.2)
  | answer n missing sdp =>
    simp only [step] at hstep
    split at hstep
    · rename_i chain hchain
      split_ifs at hstep with hnew
      obtain rfl := Option.some.inj hstep
      exact .resolve n missing sdp chain hchain hnew.1 hnew.2
    · cases hstep
  | reenter e =>
    simp only [step] at hstep
    split at hstep
    · rename_i before acts hphase
      split_ifs at hstep with hquiet
      obtain rfl := Option.some.inj hstep
      exact .reenter e before acts hphase (by simpa using hquiet.1) (by simpa using hquiet.2)
    · cases hstep
  | advance =>
    simp only [step, advance] at hstep
    split at hstep
    · cases hstep
    · rename_i _ p calls hphase hcalls
      obtain rfl := Option.some.inj hstep
      exact .call p calls hphase hcalls
    · rename_i hphase hpending
      obtain rfl := Option.some.inj hstep
      exact .drained hphase hpending
    · rename_i p pending hphase hpending
      obtain rfl := Option.some.inj hstep
      exact .take p pending hphase hpending
    · rename_i before hphase
      obtain rfl := Option.some.inj hstep
      exact .settle before hphase
    · rename_i before a acts hphase
      obtain rfl := Option.some.inj hstep
      exact .act before a acts hphase

/-- Whether the chain started last belongs to the current session. -/
def current (w : Answering) : Bool := w.chains.getLast?.map Chain.session = some w.ended

end Answering

/-- The runtime with its chains, started afresh. -/
def answering : Reactive.Process Answering LoopInput where
  start := {}
  step := Answering.step

/-- Whether the last chain is of the current session, after one more action. -/
def stillCurrent (b : Bool) : Action → Bool
  | .setRemoteDescription _ => true
  | .tearDown => false
  | _ => b

private theorem filter_of_forall {acts : List Action} (h : ∀ a ∈ acts, negotiates a = false) :
    acts.filter negotiates = [] :=
  List.filter_eq_nil_iff.mpr (fun a ha => by simp [h a ha])

private theorem filter_applyOffer (sdp : String) :
    (SessionMachine.applyOffer sdp).filter negotiates = [.setRemoteDescription sdp] := by
  have hstops : ((inactiveRecvMids sdp).map Action.stopReceivePipeline).filter negotiates = [] :=
    filter_of_forall (by simp [negotiates])
  rw [SessionMachine.applyOffer, List.filter_append, hstops]
  rfl

private theorem filter_flush (m : SessionMachine) :
    m.flushSubscriptions.2.filter negotiates = [] := by
  refine filter_of_forall (fun a ha => ?_)
  obtain ⟨_, cid, _, rfl⟩ := SessionMachine.mem_flushSubscriptions_snd ha
  rfl

private theorem filter_fail (m : SessionMachine) (text : String) :
    (m.fail text).2.filter negotiates = [.tearDown] := by
  cases hcid : m.activeCid <;> cases hstate : m.state <;>
    simp only [SessionMachine.fail, hcid, hstate] <;> rfl

/-- The negotiation of one step: none, the end of the session, an offer applied, an answer
put out, or an answer put out and the waiting offer applied. -/
inductive SessionMachine.Negotiation (m : SessionMachine) (e : Event) (m' : SessionMachine) :
    List Action → Prop
  | quiet (hstate : m'.state = .offerPending → m.state = .offerPending) : Negotiation m e m' []
  | ended (hstate : m'.state ≠ .offerPending) : Negotiation m e m' [.tearDown]
  | offer (cid : UInt32) (sdp : String) (hevent : e = .sdpOfferReceived cid sdp) :
      Negotiation m e m' [.setRemoteDescription sdp]
  | answer (cid : UInt32) (sdp : String) (hevent : e = .webrtcAnswerCreated sdp)
      (hbefore : m.state = .offerPending) (hstate : m'.state ≠ .offerPending) :
      Negotiation m e m' (answerActions cid sdp)
  | drain (cid : UInt32) (sdp queuedSdp : String) (hevent : e = .webrtcAnswerCreated sdp)
      (hbefore : m.state = .offerPending) :
      Negotiation m e m' (answerActions cid sdp ++ [.setRemoteDescription queuedSdp])

/-- Every step negotiates in one of these ways. -/
theorem SessionMachine.step_negotiation (m : SessionMachine) (e : Event) :
    m.Negotiation e (m.step e).1 ((m.step e).2.filter negotiates) := by
  have ht := m.step_transition e
  generalize (m.step e).1 = m', (m.step e).2 = acts at ht
  cases ht with
  | join cid hstate => exact .quiet (by simp)
  | roomSwitch cid hstate hother => exact .ended (by simp)
  | leave cid hroom hcid => exact .ended (by simp)
  | firstOffer cid sdp hstate hcid =>
    rw [List.filter_append, List.filter_append, filter_flush, ← List.singleton_append,
      List.filter_append, filter_applyOffer]
    exact .offer cid sdp rfl
  | renegotiate cid sdp hstate hcid =>
    rw [List.filter_append, filter_applyOffer]
    exact .offer cid sdp rfl
  | drain sdp cid queuedSdp hstate hqueued hcid =>
    rw [List.filter_append, filter_applyOffer]
    exact .drain cid sdp queuedSdp rfl hstate
  | answer sdp hstate hqueued => exact .answer _ sdp rfl hstate (by simp)
  | connect hstate => exact .quiet (by simp)
  | videoStatus cid publications selfUid hroom hcid =>
    obtain ⟨ps, video, listed, hv⟩ := m.videoStatusReceived_fst cid publications selfUid
    rw [filter_of_forall (fun a ha => by
      rcases mem_videoStatusReceived_snd ha with ⟨_, rfl⟩ | ⟨_, _, rfl⟩ <;> rfl)]
    exact .quiet (by simp [hv])
  | subscriptions streams =>
    obtain ⟨subscribed, stale, hf⟩ := flushSubscriptions_fst
      { m with wanted := sortDedup streams }
    rw [filter_flush]
    exact .quiet (by simp [hf])
  | captureFailed kind text hsome =>
    cases m.inVoice <;> cases m.activeCid <;> exact .quiet (by simp)
  | failed text hfail =>
    rw [filter_fail]
    exact .ended (by simp [fail])
  | _ => exact .quiet (fun h => h)

/-- Only the negotiation of a step can change which session the last chain is of. -/
private theorem foldl_stillCurrent (b : Bool) (acts : List Action) :
    acts.foldl stillCurrent b = (acts.filter negotiates).foldl stillCurrent b := by
  induction acts generalizing b with
  | nil => rfl
  | cons a acts ih =>
    have hneutral (h : negotiates a = false) : stillCurrent b a = b := by
      cases a <;> simp_all [negotiates, stillCurrent]
    cases ha : negotiates a with
    | true => rw [List.filter_cons_of_pos ha, List.foldl_cons, List.foldl_cons, ih]
    | false =>
      rw [List.filter_cons_of_neg (by simp [ha]), List.foldl_cons, hneutral ha, ih]

/-- In `OfferPending` the last chain is of the current session, once the step's actions
have been dispatched. -/
private theorem stillCurrent_step {m : SessionMachine} {e : Event} {b : Bool}
    (hb : m.state = .offerPending → b = true) (hstate : (m.step e).1.state = .offerPending) :
    (m.step e).2.foldl stillCurrent b = true := by
  have hneg := m.step_negotiation e
  rw [foldl_stillCurrent]
  generalize (m.step e).2.filter negotiates = acts at hneg
  cases hneg with
  | quiet hbefore => exact hb (hbefore hstate)
  | ended hover => exact absurd hstate hover
  | offer => rfl
  | answer cid sdp hevent hbefore hover => exact absurd hstate hover
  | drain => rfl

private theorem filter_answers (acts : List Action) :
    acts.filter answers = (acts.filter negotiates).filter answers := by
  rw [List.filter_filter]
  congr 1
  funext a
  cases a <;> simp [answers, negotiates]

/-- Only an answer taken in `OfferPending` is put out, and then both ways. -/
private theorem answers_step (m : SessionMachine) (e : Event) :
    (m.step e).2.filter answers = [] ∨ ∃ cid sdp, e = .webrtcAnswerCreated sdp ∧
      m.state = .offerPending ∧
      (m.step e).2.filter answers = SessionMachine.answerActions cid sdp := by
  have hneg := m.step_negotiation e
  rw [filter_answers]
  generalize (m.step e).2.filter negotiates = acts at hneg
  cases hneg with
  | quiet | ended | offer => exact Or.inl rfl
  | answer cid sdp hevent hbefore hstate => exact Or.inr ⟨cid, sdp, hevent, hbefore, rfl⟩
  | drain cid sdp queuedSdp hevent hbefore => exact Or.inr ⟨cid, sdp, hevent, hbefore, rfl⟩

/-- An event that brings neither an offer nor an answer applies no offer. -/
private theorem noRemote_step {m : SessionMachine} {e : Event} (hoffer : e.isOffer = false)
    (hanswer : e.isAnswer = false) (sdp : String) :
    .setRemoteDescription sdp ∉ (m.step e).2 := by
  intro hmem
  have hfilter : .setRemoteDescription sdp ∈ (m.step e).2.filter negotiates :=
    List.mem_filter.mpr ⟨hmem, rfl⟩
  have hneg := m.step_negotiation e
  generalize (m.step e).2.filter negotiates = acts at hneg hfilter
  cases hneg with
  | quiet | ended => simp at hfilter
  | offer cid sdp' hevent => simp [hevent, Event.isOffer] at hoffer
  | answer cid sdp' hevent => simp [hevent, Event.isAnswer] at hanswer
  | drain cid sdp' queuedSdp hevent => simp [hevent, Event.isAnswer] at hanswer

namespace Answering

/-- An answer put out is the one its chain yielded, the chain is that of the offer last
dispatched, and the offer is of the session then current. -/
def Fits (w : Answering) (s : SentAnswer) : Prop :=
  ∃ n sdp cid chain, s.source = some n ∧ s.acts = SessionMachine.answerActions cid sdp ∧
    (n, sdp) ∈ w.resolved ∧ s.offers = n + 1 ∧ w.chains[n]? = some chain ∧
    chain.session = s.session

/-- An answer that may still be put out: its chain is the last one started, and has
yielded this answer and nothing that was put out already. -/
structure Fresh (w : Answering) (n : ℕ) (sdp : String) : Prop where
  last : w.chains.length = n + 1
  yielded : (n, sdp) ∈ w.resolved
  unsent : ∀ s ∈ w.sent, s.source ≠ some n

end Answering

/-- An event that brings neither an offer nor an answer, and is not followed. -/
def Posted.Quiet (p : Posted ℕ) : Prop :=
  p.source = none ∧ p.event.isOffer = false ∧ p.event.isAnswer = false

namespace Answering

/-- Where an answer can be on its way from its chain to the machine. -/
inductive OnItsWay (w : Answering) : Prop
  /-- Nowhere. -/
  | nowhere (hcalls : w.calls = [])
      (hpending : ∀ p ∈ w.runtime.pending, p.source = none ∧ p.event.isAnswer = false)
  /-- Found current, with calls to be made before it that apply no offer. -/
  | checked (n : ℕ) (sdp : String) (front : List (Posted ℕ))
      (hcalls : w.calls = front ++ [{ event := .webrtcAnswerCreated sdp, source := some n }])
      (hfront : ∀ p ∈ front, p.Quiet) (hpending : ∀ p ∈ w.runtime.pending, p.Quiet)
      (hrest : ∀ offer, .setRemoteDescription offer ∉ w.rest) (hfresh : w.Fresh n sdp)
  /-- Next in the queue. -/
  | called (n : ℕ) (sdp : String) (hcalls : w.calls = [])
      (hpending : w.runtime.pending =
        [{ event := .webrtcAnswerCreated sdp, source := some n }])
      (hphase : w.runtime.phase = .draining) (hfresh : w.Fresh n sdp)

/-- What holds in every run of fewer than 2⁶⁴ offers. -/
structure Kept (w : Answering) : Prop where
  generation : w.runtime.answerGeneration = UInt64.ofNat w.chains.length
  captured : ∀ (n : ℕ) chain, w.chains[n]? = some chain →
    chain.generation = UInt64.ofNat (n + 1)
  idle : w.runtime.phase = .idle → w.runtime.pending = []
  session : w.runtime.machine.state = .offerPending →
    w.rest.foldl stillCurrent w.current = true
  way : w.OnItsWay
  fits : ∀ s ∈ w.sent, w.Fits s
  once : (w.sent.map SentAnswer.source).Nodup

/-- An answer found current is that of the last chain, as long as no generation was used
twice. -/
private theorem Kept.chain_last {w : Answering} (h : w.Kept) (hfew : w.chains.length < 2 ^ 64)
    {n : ℕ} {chain : Chain} (hchain : w.chains[n]? = some chain)
    (hgen : chain.generation = w.runtime.answerGeneration) : w.chains.length = n + 1 := by
  obtain ⟨hn, _⟩ := List.getElem?_eq_some_iff.mp hchain
  have heq : UInt64.ofNat (n + 1) = UInt64.ofNat w.chains.length := by
    rw [← h.captured n chain hchain, hgen, h.generation]
  have hnat := congrArg UInt64.toNat heq
  simp only [UInt64.toNat_ofNat'] at hnat
  omega

/-- Nothing is on its way while no source runs. -/
private theorem Kept.pending_of_atRest {w : Answering} (h : w.Kept) (hrest : w.atRest = true) :
    w.runtime.phase = .idle ∧ w.calls = [] ∧ w.runtime.pending = [] := by
  have hidle : w.runtime.phase = .idle ∧ w.calls = [] := by simpa [atRest] using hrest
  exact ⟨hidle.1, hidle.2, h.idle hidle.1⟩

/-- A chain that has not yielded anything has nothing put out. -/
private theorem Kept.unsent {w : Answering} (h : w.Kept) {n : ℕ}
    (hnew : n ∉ w.resolved.map Prod.fst) : ∀ s ∈ w.sent, s.source ≠ some n := by
  intro s hs hsource
  obtain ⟨n', sdp, cid, chain, hn', _, hyielded, _⟩ := h.fits s hs
  obtain rfl : n' = n := by simpa [hn'] using hsource
  exact hnew (List.mem_map.mpr ⟨(n', sdp), hyielded, rfl⟩)

/-- Later chains and later answers leave an answer fitting. -/
private theorem Fits.mono {w w' : Answering} {s : SentAnswer} (h : w.Fits s)
    (hresolved : ∀ x ∈ w.resolved, x ∈ w'.resolved)
    (hchains : ∀ (n : ℕ) chain, w.chains[n]? = some chain → w'.chains[n]? = some chain) :
    w'.Fits s := by
  obtain ⟨n, sdp, cid, chain, hsource, hacts, hyielded, hoffers, hchain, hsession⟩ := h
  exact ⟨n, sdp, cid, chain, hsource, hacts, hresolved _ hyielded, hoffers,
    hchains n chain hchain, hsession⟩

/-- A source that hands over an event starts with an empty queue. -/
private theorem Kept.turn {w : Answering} (h : w.Kept) {e : Event} (hrest : w.atRest = true)
    (hanswer : e.isAnswer = false) :
    Kept { w with runtime := w.runtime.handleEvent { event := e } } := by
  obtain ⟨hphase, hcalls, hpending⟩ := h.pending_of_atRest hrest
  refine ⟨by simpa [Runtime.handleEvent, Runtime.post] using h.generation, h.captured,
    by simp [Runtime.handleEvent], fun hstate => ?_, .nowhere hcalls ?_, h.fits, h.once⟩
  · have hsession := h.session (by simpa [Runtime.handleEvent, Runtime.post] using hstate)
    simpa [rest, hphase, current, Runtime.handleEvent] using hsession
  · simp [Runtime.handleEvent, Runtime.post, hpending, hanswer]

/-- The end of a chain, found current or dropped. -/
private theorem Kept.resolve {w : Answering} (h : w.Kept) (hfew : w.chains.length < 2 ^ 64)
    {n : ℕ} {chain : Chain} {missing : List (VideoKind × String)} {sdp : String}
    (hchain : w.chains[n]? = some chain) (hrest : w.atRest = true)
    (hnew : n ∉ w.resolved.map Prod.fst) : (w.resolve n chain missing sdp).Kept := by
  obtain ⟨hphase, hcalls, hpending⟩ := h.pending_of_atRest hrest
  have hfits : ∀ s ∈ w.sent, Fits { w with resolved := w.resolved ++ [(n, sdp)] } s :=
    fun s hs => (h.fits s hs).mono (fun _ hx => List.mem_append_left _ hx) (fun _ _ hc => hc)
  unfold Answering.resolve
  dsimp only
  split_ifs with hgen
  · exact ⟨h.generation, h.captured, h.idle, h.session,
      .nowhere hcalls (by simp [hpending]), hfits, h.once⟩
  · refine ⟨h.generation, h.captured, h.idle, h.session, ?_, hfits, h.once⟩
    refine .checked n sdp _ rfl (fun p hp => ?_) (by simp [hpending]) (by simp [rest, hphase])
      ⟨h.chain_last hfew hchain (not_not.mp hgen), by simp, h.unsent hnew⟩
    obtain ⟨m, _, rfl⟩ := List.mem_map.mp hp
    exact ⟨rfl, rfl, rfl⟩

/-- A call from inside a dispatch queues an event that applies no offer. -/
private theorem Kept.reenter {w : Answering} (h : w.Kept) {e : Event} {before : SessionState}
    {acts : List Action} (hphase : w.runtime.phase = .acting before acts)
    (hoffer : e.isOffer = false) (hanswer : e.isAnswer = false) :
    Kept { w with runtime := w.runtime.post { event := e } } := by
  refine ⟨by simpa [Runtime.post] using h.generation, h.captured, by simp [Runtime.post, hphase],
    fun hstate => ?_, ?_, h.fits, h.once⟩
  · have hsession := h.session (by simpa [Runtime.post] using hstate)
    simpa [rest, current, Runtime.post] using hsession
  · cases h.way with
    | nowhere hcalls hpending =>
      refine .nowhere hcalls (fun p hp => ?_)
      rcases List.mem_append.mp hp with hp | hp
      · exact hpending p hp
      · obtain rfl := List.mem_singleton.mp hp
        exact ⟨rfl, hanswer⟩
    | checked n sdp front hcalls hfront hpending hrest hfresh =>
      refine .checked n sdp front hcalls hfront (fun p hp => ?_) ?_
        ⟨hfresh.last, hfresh.yielded, hfresh.unsent⟩
      · rcases List.mem_append.mp hp with hp | hp
        · exact hpending p hp
        · obtain rfl := List.mem_singleton.mp hp
          exact ⟨rfl, hoffer, hanswer⟩
      · simpa [rest, Runtime.post] using hrest
    | called n sdp hcalls hpending hdraining => simp [hphase] at hdraining

/-- The running source makes its next call. -/
private theorem Kept.call {w : Answering} (h : w.Kept) {p : Posted ℕ}
    {calls : List (Posted ℕ)} (hphase : w.runtime.phase = .idle) (hcalls : w.calls = p :: calls) :
    Kept { w with runtime := w.runtime.handleEvent p, calls := calls } := by
  have hpending := h.idle hphase
  refine ⟨by simpa [Runtime.handleEvent, Runtime.post] using h.generation, h.captured,
    by simp [Runtime.handleEvent], fun hstate => ?_, ?_, h.fits, h.once⟩
  · have hsession := h.session (by simpa [Runtime.handleEvent, Runtime.post] using hstate)
    simpa [rest, hphase, current, Runtime.handleEvent] using hsession
  · cases h.way with
    | nowhere hnone | called n sdp hnone => simp [hnone] at hcalls
    | checked n sdp front hfront hquiet _ _ hfresh =>
      have hfresh' : Fresh { w with runtime := w.runtime.handleEvent p, calls := calls } n sdp :=
        ⟨hfresh.last, hfresh.yielded, hfresh.unsent⟩
      rw [hfront] at hcalls
      cases front with
      | nil =>
        obtain ⟨rfl, rfl⟩ := List.cons.inj hcalls
        exact .called n sdp rfl (by simp [Runtime.handleEvent, Runtime.post, hpending]) rfl
          hfresh'
      | cons q front =>
        obtain ⟨rfl, rfl⟩ := List.cons.inj hcalls
        refine .checked n sdp front rfl (fun r hr => hquiet r (by simp [hr])) ?_
          (by simp [rest, Runtime.handleEvent]) hfresh'
        simpa [Runtime.handleEvent, Runtime.post, hpending] using hquiet q (by simp)

/-- The running call ends when the queue is empty. -/
private theorem Kept.drained {w : Answering} (h : w.Kept) (hphase : w.runtime.phase = .draining)
    (hpending : w.runtime.pending = []) :
    Kept { w with runtime := { w.runtime with phase := .idle } } := by
  refine ⟨h.generation, h.captured, fun _ => hpending, fun hstate => ?_, ?_, h.fits, h.once⟩
  · simpa [rest, hphase, current] using h.session hstate
  · cases h.way with
    | nowhere hcalls hnone => exact .nowhere hcalls hnone
    | checked n sdp front hcalls hfront hquiet hrest hfresh =>
      exact .checked n sdp front hcalls hfront hquiet (by simp [rest])
        ⟨hfresh.last, hfresh.yielded, hfresh.unsent⟩
    | called n sdp hcalls hnext => simp [hpending] at hnext

/-- The comparison after a step queues at most an event that applies no offer. -/
private theorem settle_pending (r : Runtime ℕ) (before : SessionState) :
    ∃ more, (r.settle before).pending = r.pending ++ more ∧ (∀ p ∈ more, p.Quiet) ∧
      (r.settle before).machine = r.machine ∧
      (r.settle before).answerGeneration = r.answerGeneration := by
  unfold Runtime.settle
  dsimp only
  split_ifs
  on_goal 2 => exact ⟨[_], rfl, by simp [Posted.Quiet, Event.isOffer, Event.isAnswer], rfl, rfl⟩
  all_goals exact ⟨[], by simp, by simp, rfl, rfl⟩

/-- The comparison after a step. -/
private theorem Kept.settle {w : Answering} (h : w.Kept) {before : SessionState}
    (hphase : w.runtime.phase = .acting before []) :
    Kept { w with runtime := w.runtime.settle before } := by
  obtain ⟨more, hmore, hquiet, hmachine, hgen⟩ := settle_pending w.runtime before
  refine ⟨hgen ▸ h.generation, h.captured, by simp, fun hstate => ?_, ?_, h.fits, h.once⟩
  · have hsession := h.session (by simpa [hmachine] using hstate)
    simpa [rest, hphase, current] using hsession
  · cases h.way with
    | nowhere hcalls hpending =>
      refine .nowhere hcalls (fun p hp => ?_)
      rcases List.mem_append.mp (hmore ▸ hp) with hp | hp
      · exact hpending p hp
      · exact ⟨(hquiet p hp).1, (hquiet p hp).2.2⟩
    | checked n sdp front hcalls hfront hpending hrest hfresh =>
      refine .checked n sdp front hcalls hfront (fun p hp => ?_) (by simp [rest])
        ⟨hfresh.last, hfresh.yielded, hfresh.unsent⟩
      rcases List.mem_append.mp (hmore ▸ hp) with hp | hp
      · exact hpending p hp
      · exact hquiet p hp
    | called n sdp hcalls hpending hcalled => simp [hphase] at hcalled

private theorem foldl_stillCurrent_mono {b b' : Bool} (hb : b = true → b' = true)
    (acts : List Action) (h : acts.foldl stillCurrent b = true) :
    acts.foldl stillCurrent b' = true := by
  induction acts generalizing b b' with
  | nil => exact hb h
  | cons a acts ih =>
    refine ih (b := stillCurrent b a) (fun hcurrent => ?_) h
    cases a with
    | setRemoteDescription | tearDown => exact hcurrent
    | _ => exact hb hcurrent

private theorem current_follow {w : Answering} {a : Action}
    (h : stillCurrent w.current a = true) : (w.follow a).current = true := by
  cases a with
  | setRemoteDescription sdp => simp [follow, current]
  | tearDown => cases h
  | _ => exact h

@[simp] private theorem follow_runtime (w : Answering) (a : Action) :
    (w.follow a).runtime = w.runtime := by
  cases a <;> rfl

@[simp] private theorem follow_calls (w : Answering) (a : Action) :
    (w.follow a).calls = w.calls := by
  cases a <;> rfl

@[simp] private theorem follow_resolved (w : Answering) (a : Action) :
    (w.follow a).resolved = w.resolved := by
  cases a <;> rfl

@[simp] private theorem follow_sent (w : Answering) (a : Action) :
    (w.follow a).sent = w.sent := by
  cases a <;> rfl

private theorem follow_chains (w : Answering) (a : Action) :
    ∃ more, (w.follow a).chains = w.chains ++ more ∧
      ((∀ offer, a ≠ .setRemoteDescription offer) → more = []) := by
  cases a with
  | setRemoteDescription sdp => exact ⟨[_], rfl, fun h => absurd rfl (h sdp)⟩
  | _ => exact ⟨[], by simp [follow], fun _ => rfl⟩

/-- The generation counts the chains. -/
private theorem generation_follow {w : Answering} (h : w.Kept) (before : SessionState)
    (a : Action) (acts : List Action) :
    let w' := { w with runtime := w.runtime.act before a acts }.follow a
    w'.runtime.answerGeneration = UInt64.ofNat w'.chains.length ∧
      ∀ (n : ℕ) chain, w'.chains[n]? = some chain → chain.generation = UInt64.ofNat (n + 1) := by
  cases a with
  | setRemoteDescription sdp =>
    have hnext : w.runtime.answerGeneration + 1 = UInt64.ofNat (w.chains.length + 1) := by
      rw [h.generation, UInt64.ofNat_add]
      rfl
    refine ⟨by simpa [follow, Runtime.act, Runtime.dispatch] using hnext, fun n chain hchain => ?_⟩
    simp only [follow] at hchain
    by_cases hn : n < w.chains.length
    · rw [List.getElem?_append_left hn] at hchain
      exact h.captured n chain hchain
    · rw [List.getElem?_append_right (by omega)] at hchain
      obtain ⟨hlast, hc⟩ := List.getElem?_eq_some_iff.mp hchain
      have hzero : n = w.chains.length := by
        simp only [List.length_singleton] at hlast
        omega
      subst hzero
      simpa [← hc, Runtime.act, Runtime.dispatch] using hnext
  | _ => exact ⟨h.generation, h.captured⟩

/-- The last chain of the current session, by its place. -/
private theorem last_chain {w : Answering} {n : ℕ} (hcurrent : w.current = true)
    (hlast : w.chains.length = n + 1) :
    ∃ chain, w.chains[n]? = some chain ∧ chain.session = w.ended := by
  obtain ⟨chain, hchain, hsession⟩ : ∃ chain, w.chains.getLast? = some chain ∧
      chain.session = w.ended := by simpa [current] using hcurrent
  refine ⟨chain, ?_, hsession⟩
  rw [← hchain, List.getLast?_eq_getElem?, hlast]
  rfl

/-- One action is dispatched. -/
private theorem Kept.act {w : Answering} (h : w.Kept) {before : SessionState} {a : Action}
    {acts : List Action} (hphase : w.runtime.phase = .acting before (a :: acts)) :
    ({ w with runtime := w.runtime.act before a acts }.follow a).Kept := by
  obtain ⟨hgen, hcaptured⟩ := generation_follow h before a acts
  obtain ⟨more, hchains, hnone⟩ :=
    follow_chains { w with runtime := w.runtime.act before a acts } a
  have hkeep (n : ℕ) (chain : Chain) (hchain : w.chains[n]? = some chain) :
      ({ w with runtime := w.runtime.act before a acts }.follow a).chains[n]? = some chain := by
    obtain ⟨hn, _⟩ := List.getElem?_eq_some_iff.mp hchain
    rw [hchains, List.getElem?_append_left hn, hchain]
  refine ⟨hgen, hcaptured, by simp, fun hstate => ?_, ?_, ?_, by simpa using h.once⟩
  · have hsession := h.session (by simpa using hstate)
    simp only [rest, hphase, List.foldl_cons] at hsession
    simp only [rest, follow_runtime, Runtime.act_phase]
    exact foldl_stillCurrent_mono current_follow acts hsession
  · cases h.way with
    | nowhere hcalls hpending => exact .nowhere (by simpa using hcalls) (by simpa using hpending)
    | checked n sdp front hcalls hfront hpending hrest hfresh =>
      simp only [rest, hphase] at hrest
      have hsame : more = [] := hnone (fun offer heq => hrest offer (by simp [heq]))
      refine .checked n sdp front (by simpa using hcalls) hfront (by simpa using hpending) ?_
        ⟨by rw [hchains, hsame, List.append_nil, hfresh.last], by simpa using hfresh.yielded,
          by simpa using hfresh.unsent⟩
      simp only [rest, follow_runtime, Runtime.act_phase]
      exact fun offer hmem => hrest offer (List.mem_cons_of_mem _ hmem)
    | called n sdp hcalls hpending hcalled => simp [hphase] at hcalled
  · intro s hs
    have hs' : s ∈ w.sent := by simpa using hs
    exact (h.fits s hs').mono (by simp) hkeep

/-- The machine takes the next event; if that is an answer, it is put out at most now. -/
private theorem Kept.take {w : Answering} (h : w.Kept) {p : Posted ℕ}
    {pending : List (Posted ℕ)} (hphase : w.runtime.phase = .draining)
    (hpending : w.runtime.pending = p :: pending) :
    Kept { w with runtime := w.runtime.take p pending, sent := w.sent ++ w.emit p } := by
  have hcurrent (hstate : w.runtime.machine.state = .offerPending) : w.current = true := by
    simpa [rest, hphase] using h.session hstate
  have hsilent (hanswer : p.event.isAnswer = false) : w.emit p = [] := by
    rcases answers_step w.runtime.machine p.event with hnone | ⟨cid, sdp, hevent, _⟩
    · simp [emit, hnone]
    · simp [hevent, Event.isAnswer] at hanswer
  have hstate' : (w.runtime.take p pending).machine.state = .offerPending →
      (w.runtime.machine.step p.event).2.foldl stillCurrent w.current = true :=
    fun hstate => stillCurrent_step hcurrent hstate
  cases h.way with
  | nowhere hcalls hnone =>
    have hp := hnone p (by simp [hpending])
    rw [hsilent hp.2, List.append_nil]
    refine ⟨by simpa [Runtime.take] using h.generation, h.captured, by simp [Runtime.take], ?_,
      .nowhere hcalls (fun q hq => ?_), h.fits, h.once⟩
    · exact hstate'
    · exact hnone q (hpending ▸ List.mem_cons_of_mem _ hq)
  | checked n sdp front hcalls hfront hquiet hrest hfresh =>
    have hp := hquiet p (by simp [hpending])
    rw [hsilent hp.2.2, List.append_nil]
    refine ⟨by simpa [Runtime.take] using h.generation, h.captured, by simp [Runtime.take], ?_,
      .checked n sdp front hcalls hfront (fun q hq => ?_) ?_
        ⟨hfresh.last, hfresh.yielded, hfresh.unsent⟩, h.fits, h.once⟩
    · exact hstate'
    · exact hquiet q (hpending ▸ List.mem_cons_of_mem _ hq)
    · exact fun offer => noRemote_step hp.2.1 hp.2.2 offer
  | called n sdp hcalls hnext hdraining hfresh =>
    obtain ⟨rfl, rfl⟩ := List.cons.inj (hpending.symm.trans hnext)
    have hkept : w.emit { event := .webrtcAnswerCreated sdp, source := some n } = [] ∨
        ∃ s, w.emit { event := .webrtcAnswerCreated sdp, source := some n } = [s] ∧
          s.source = some n ∧ w.Fits s := by
      rcases answers_step w.runtime.machine (.webrtcAnswerCreated sdp) with
        hnone | ⟨cid, sdp', hevent, hstate, hacts⟩
      · exact Or.inl (by simp [emit, hnone])
      · obtain rfl : sdp = sdp' := by simpa using hevent
        obtain ⟨chain, hchain, hsession⟩ := last_chain (hcurrent hstate) hfresh.last
        refine Or.inr ⟨_, by simp [emit, hacts, SessionMachine.answerActions]; rfl, rfl, ?_⟩
        exact ⟨n, sdp, cid, chain, rfl, rfl, hfresh.yielded, hfresh.last, hchain, hsession⟩
    refine ⟨by simpa [Runtime.take] using h.generation, h.captured, by simp [Runtime.take],
      hstate', .nowhere hcalls (by simp [Runtime.take]), ?_, ?_⟩
    · intro s hs
      rcases List.mem_append.mp hs with hs | hs
      · exact h.fits s hs
      · rcases hkept with hnone | ⟨s', hemit, _, hfits⟩
        · simp [hnone] at hs
        · obtain rfl : s = s' := by simpa [hemit] using hs
          exact hfits
    · rcases hkept with hnone | ⟨s', hemit, hsource, _⟩
      · simpa [hnone] using h.once
      · rw [hemit, List.map_append, List.map_singleton, hsource, List.nodup_append]
        refine ⟨h.once, List.nodup_singleton _, ?_⟩
        rintro source hmem _ hn rfl
        obtain ⟨s, hs, hsource'⟩ := List.mem_map.mp hmem
        exact hfresh.unsent s hs (hsource'.trans (List.mem_singleton.mp hn))

/-- One input keeps what holds, as long as no generation is used twice. -/
private theorem Kept.step {w w' : Answering} (h : w.Kept) (hfew : w.chains.length < 2 ^ 64)
    {i : LoopInput} (hstep : w.Move i w') : w'.Kept := by
  cases hstep with
  | turn e hrest hanswer => exact h.turn hrest hanswer
  | resolve n missing sdp chain hchain hrest hnew => exact h.resolve hfew hchain hrest hnew
  | reenter e before acts hphase hoffer hanswer => exact h.reenter hphase hoffer hanswer
  | call p calls hphase hcalls => exact h.call hphase hcalls
  | drained hphase hpending => exact h.drained hphase hpending
  | take p pending hphase hpending => exact h.take hphase hpending
  | settle before hphase => exact h.settle hphase
  | act before a acts hphase => exact h.act hphase

/-- Chains are never forgotten. -/
private theorem chains_step {w w' : Answering} {i : LoopInput} (hstep : w.Move i w') :
    w.chains.length ≤ w'.chains.length := by
  cases hstep with
  | resolve n missing sdp chain =>
    unfold Answering.resolve
    dsimp only
    split_ifs <;> exact le_refl _
  | act before a acts hphase =>
    obtain ⟨more, hchains, _⟩ := follow_chains { w with runtime := w.runtime.act before a acts } a
    rw [hchains]
    exact (List.sublist_append_left _ _).length_le
  | _ => exact le_refl _

private theorem kept_of_run {is : List LoopInput} {w : Answering}
    (hrun : answering.run is = some w) : w.chains.length < 2 ^ 64 → w.Kept := by
  refine Reactive.Process.invariant (P := answering)
    (Q := fun w => w.chains.length < 2 ^ 64 → w.Kept) ?_ ?_ hrun
  · intro _
    exact ⟨rfl, by simp [answering], fun _ => rfl, by simp [answering, SessionMachine.new],
      .nowhere rfl (by simp [answering]), by simp [answering], by simp [answering]⟩
  · intro w i w' hkept hstep hfew
    have hmove := move_of_step hstep
    have hbefore := lt_of_le_of_lt (chains_step hmove) hfew
    exact (hkept hbefore).step hbefore hmove

end Answering

/-- **Every answer is the answer to the offer last applied.** In every run of fewer than
2⁶⁴ applied offers, whenever the machine puts an answer out it puts it out both ways, as
`SetLocalDescription` and as the 603 that carries it. The answer was yielded by the chain
of the offer dispatched last before, that offer was dispatched in the session then
current, and no chain has its answer put out twice. -/
theorem answers_current {is : List LoopInput} {w : Answering}
    (hrun : answering.run is = some w) (hfew : w.chains.length < 2 ^ 64) :
    (∀ s ∈ w.sent, ∃ n sdp cid chain, s.source = some n ∧
      s.acts = [.setLocalDescription sdp,
        .sendWireFrame htlcHdrVoiceSdpAnswer (encodeCidPlusSdp cid sdp)] ∧
      (n, sdp) ∈ w.resolved ∧ s.offers = n + 1 ∧ w.chains[n]? = some chain ∧
      chain.session = s.session) ∧
    (w.sent.map SentAnswer.source).Nodup := by
  have hkept := Answering.kept_of_run hrun hfew
  exact ⟨hkept.fits, hkept.once⟩

/-- A join, its offer and its answer. -/
def answeredJoin : List LoopInput :=
  [.turn (.joinRequested 1)] ++ List.replicate 6 .advance ++
    [.turn (.sdpOfferReceived 1 "")] ++ List.replicate 7 .advance ++
    [.answer 0 [] "answer"] ++ List.replicate 2 .advance

/-- The answer of the first join is put out once. -/
theorem answers_current_first_join :
    ∃ w, answering.run answeredJoin = some w ∧ w.chains.length < 2 ^ 64 ∧ w.sent.length = 1 ∧
      (∀ s ∈ w.sent, ∃ n sdp cid chain, s.source = some n ∧
        s.acts = [.setLocalDescription sdp,
          .sendWireFrame htlcHdrVoiceSdpAnswer (encodeCidPlusSdp cid sdp)] ∧
        (n, sdp) ∈ w.resolved ∧ s.offers = n + 1 ∧ w.chains[n]? = some chain ∧
        chain.session = s.session) ∧
      (w.sent.map SentAnswer.source).Nodup := by
  have hrun : answering.run answeredJoin = some _ := rfl
  exact ⟨_, hrun, by decide, by decide, answers_current hrun (by decide)⟩

end Gtkhx.Voice
