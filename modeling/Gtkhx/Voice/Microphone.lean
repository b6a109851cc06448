import Gtkhx.Voice.Arbiter

/-!
# One microphone

Between two handlers the token names the one connection whose machine is in a room, and the
room it is in. A step of a machine ends its room exactly when it signals that it left, which is
what gives the token up; a join is the one step that enters a room, and no other machine is in
one by then.
-/

namespace Gtkhx.Voice

/-- The action signals that the session has left its room. -/
def Action.signalsLeft : Action → Bool
  | .emitSignal .stateChanged (.stateChanged state) => !stateIsJoined state
  | _ => false

namespace SessionMachine

/-- What a step that is not a join does to the room: it stays, and nothing signals that it was
left, or it is left and signalled. -/
inductive Stays (m m' : SessionMachine) (acts : List Action) : Prop
  | room (hsame : m'.activeCid = m.activeCid) (hquiet : ∀ a ∈ acts, a.signalsLeft = false)
  | left (hnone : m'.activeCid = none) (hsignal : ∃ a ∈ acts, a.signalsLeft = true)

private theorem signalsLeft_flush (m : SessionMachine) :
    ∀ a ∈ m.flushSubscriptions.2, a.signalsLeft = false := by
  intro a hmem
  obtain ⟨_, _, _, rfl⟩ := mem_flushSubscriptions_snd hmem
  rfl

private theorem signalsLeft_applyOffer (sdp : String) :
    ∀ a ∈ applyOffer sdp, a.signalsLeft = false := by
  intro a hmem
  simp only [applyOffer, List.mem_append, List.mem_map, List.mem_cons, List.not_mem_nil,
    or_false] at hmem
  rcases hmem with ⟨mid, _, rfl⟩ | rfl | rfl <;> rfl

/-- Every step but a join leaves the room and signals it, or does neither. -/
theorem step_stays (m : SessionMachine) {e : Event} (hjoin : ∀ cid, e ≠ .joinRequested cid) :
    Stays m (m.step e).1 (m.step e).2 := by
  have ht := m.step_transition e
  generalize (m.step e).1 = m', (m.step e).2 = acts at ht
  cases ht with
  | join cid | roomSwitch cid => exact absurd rfl (hjoin cid)
  | leave cid _ _ =>
    exact .left rfl ⟨stateChangedSignal .idle, by simp, rfl⟩
  | failed text _ =>
    exact .left rfl ⟨stateChangedSignal .leaving, by simp [fail], rfl⟩
  | firstOffer cid sdp _ _ =>
    obtain ⟨subscribed, stale, hf⟩ := flushSubscriptions_fst
      { m with midToUser := offerMids sdp, state := .offerPending }
    refine .room (by rw [hf]) fun a hmem => ?_
    simp only [List.mem_append, List.mem_cons, List.not_mem_nil, or_false, List.cons_append] at hmem
    rcases hmem with rfl | (hmem | rfl) | hmem
    · rfl
    · exact signalsLeft_applyOffer sdp a hmem
    · rfl
    · exact signalsLeft_flush _ a hmem
  | renegotiate cid sdp _ _ =>
    refine .room rfl fun a hmem => ?_
    simp only [List.mem_append, List.mem_cons, List.not_mem_nil, or_false] at hmem
    rcases hmem with hmem | rfl
    · exact signalsLeft_applyOffer sdp a hmem
    · rfl
  | drain sdp cid queuedSdp _ _ _ =>
    refine .room rfl fun a hmem => ?_
    simp only [answerActions, List.mem_append, List.mem_cons, List.not_mem_nil, or_false] at hmem
    rcases hmem with (rfl | rfl) | hmem
    · rfl
    · rfl
    · exact signalsLeft_applyOffer queuedSdp a hmem
  | videoStatus cid publications selfUid _ _ =>
    obtain ⟨ps, video, listed, hv⟩ := m.videoStatusReceived_fst cid publications selfUid
    refine .room (by rw [hv]) fun a hmem => ?_
    rcases mem_videoStatusReceived hmem with ⟨_, rfl⟩ | ⟨_, rfl⟩ | rfl <;> rfl
  | subscriptions streams =>
    obtain ⟨subscribed, stale, hf⟩ := flushSubscriptions_fst { m with wanted := sortDedup streams }
    exact .room (by rw [hf]) (signalsLeft_flush _)
  | captureFailed kind text _ =>
    refine .room rfl fun a hmem => ?_
    revert hmem
    cases m.inVoice <;> cases m.activeCid <;>
      simp +contextual [or_imp, localChanged, errorSignal, Action.signalsLeft]
  | _ => exact .room rfl (by
      simp [answerActions, errorSignal, localChanged, stateChangedSignal, Action.signalsLeft,
        stateIsJoined])

/-- A join is in the room it asked for, and either waits for its reply or did nothing. -/
theorem step_joinRequested (m : SessionMachine) (cid : UInt32) :
    (m.step (.joinRequested cid)).1.activeCid = some cid ∧
      ((m.step (.joinRequested cid)).1.state = .joinSent ∨
        (m.step (.joinRequested cid)).2 = []) := by
  have ht := m.step_transition (.joinRequested cid)
  generalize (m.step (.joinRequested cid)).1 = m', (m.step (.joinRequested cid)).2 = acts at ht
  cases ht with
  | ignored hign => exact ⟨hign.2.2, .inr rfl⟩
  | notice text hnot => exact hnot.elim
  | join _ _ => exact ⟨rfl, .inl rfl⟩
  | roomSwitch _ _ _ => exact ⟨rfl, .inl rfl⟩
  | failed text hfail => cases hfail

/-- Nothing a pipeline reports moves a session that waits for its join's reply. -/
theorem step_joinSent {m : SessionMachine} (hstate : m.state = .joinSent) {e : Event}
    (hpipeline : e.ofPipeline = true) :
    (m.step e).1.state = .joinSent ∧ (m.step e).1.activeCid = m.activeCid := by
  have ht := m.step_transition e
  generalize (m.step e).1 = m', (m.step e).2 = acts at ht
  cases ht with
  | ignored | notice | localIce | padAdded | padRemoved | captureFailed => exact ⟨hstate, rfl⟩
  | failed text hfail =>
    cases e with
    | webrtcConnectionStateChanged state =>
      cases state <;> simp [failText, inVoice, hstate] at hfail
    | serverTaskError | timeout => cases hpipeline
    | _ => cases hfail
  | drain _ _ _ h | answer _ h | connect h =>
    rw [hstate] at h
    cases h
  | _ => cases hpipeline

/-- Muting leaves the room as it is. -/
theorem step_mute (m : SessionMachine) (muted : Bool) :
    (m.step (.muteToggleRequested muted)).1.activeCid = m.activeCid := by
  have ht := m.step_transition (.muteToggleRequested muted)
  generalize (m.step (.muteToggleRequested muted)).1 = m',
    (m.step (.muteToggleRequested muted)).2 = acts at ht
  cases ht with
  | ignored | notice | mute => rfl
  | failed text hfail => cases hfail

end SessionMachine

namespace Arbiter

variable {a : Arbiter} {conn : ConnKey} {m : SessionMachine}

/-- What holds of the sessions at every moment: zero is no session's serial, a machine binds its
room, a runtime needs a server that agreed to voice, and that a connection that is up. -/
structure Sound (a : Arbiter) : Prop where
  zero : a.sessions 0 = none
  bound : ∀ conn m, a.runtime conn = some m → m.RoomBound
  agreed : ∀ conn s, a.sessions conn = some s → s.voiceRuntime.isSome = true → s.voiceCap = true
  up : ∀ conn s, a.sessions conn = some s → s.voiceCap = true → s.connected = true

/-- The token names the connection whose machine is in a room, and the room. -/
def TokenRight (a : Arbiter) : Prop :=
  ∀ conn cid, a.holder = some ⟨conn, cid⟩ ↔ a.activeCid conn = some cid

/-- A connection with a runtime has a session. -/
theorem session_of_runtime (h : a.runtime conn = some m) :
    ∃ s, a.sessions conn = some s ∧ s.voiceRuntime = some m :=
  Option.bind_eq_some_iff.mp h

theorem Sound.sessionWithSerial (ha : a.Sound) {s : Session} (h : a.sessions conn = some s) :
    a.sessionWithSerial conn = some conn := by
  have hne : conn ≠ 0 := by
    rintro rfl
    rw [ha.zero] at h
    cases h
  rw [Arbiter.sessionWithSerial, if_pos ⟨hne, by simp [h]⟩]

/-- Giving the token up for a live session. -/
theorem Sound.releaseSession_eq (ha : a.Sound) {s : Session} (h : a.sessions conn = some s) :
    a.releaseSession (a.sessionWithSerial conn) =
      { a with holder := if a.holder.map Holder.conn = some conn then none else a.holder } := by
  have hne : conn ≠ 0 := by
    rintro rfl
    rw [ha.zero] at h
    cases h
  rw [ha.sessionWithSerial h, releaseSession, keyForSession, Option.getD_some, if_neg hne]

/-- What the token becomes when a connection's machine has taken a step. -/
def released (a : Arbiter) (conn : ConnKey) (acts : List Action) : Option Holder :=
  if acts.any Action.signalsLeft ∧ a.holder.map Holder.conn = some conn then none else a.holder

theorem Sound.foldl_dispatch (ha : a.Sound) {s : Session} (h : a.sessions conn = some s)
    (acts : List Action) :
    acts.foldl (dispatch conn) a = { a with holder := a.released conn acts } := by
  induction acts generalizing a with
  | nil => simp [released]
  | cons x acts ih =>
    have hx : dispatch conn a x =
        if x.signalsLeft then a.releaseSession (a.sessionWithSerial conn) else a := by
      unfold dispatch
      split
      · rename_i state
        cases state <;> rfl
      · rename_i hother
        cases x with
        | emitSignal kind payload =>
          cases kind <;> cases payload <;> first | rfl | exact absurd rfl (hother _)
        | _ => rfl
    rw [List.foldl_cons, hx, ha.releaseSession_eq h]
    by_cases hleft : x.signalsLeft = true
    · rw [if_pos hleft, ih (a := { a with
        holder := if a.holder.map Holder.conn = some conn then none else a.holder })
        ⟨ha.zero, ha.bound, ha.agreed, ha.up⟩ h]
      by_cases hheld : a.holder.map Holder.conn = some conn
      · simp [released, hleft, hheld]
      · simp [released, hheld]
    · rw [if_neg hleft, ih ha h]
      simp [released, hleft]

@[simp] theorem setRuntime_holder (a : Arbiter) (conn : ConnKey) (m : SessionMachine) :
    (a.setRuntime conn m).holder = a.holder := rfl

/-- Replacing a runtime changes that connection's and no other. -/
theorem setRuntime_runtime {s : Session} (h : a.sessions conn = some s) (m : SessionMachine)
    (c : ConnKey) : (a.setRuntime conn m).runtime c = if c = conn then some m else a.runtime c := by
  by_cases hc : c = conn
  · subst hc
    simp [runtime, setRuntime, h]
  · simp [runtime, setRuntime, hc]

/-- A runtime may be given any machine that binds its room. -/
theorem Sound.setRuntime (ha : a.Sound) {s : Session} (h : a.sessions conn = some s)
    (hcap : s.voiceCap = true) (hm : m.RoomBound) :
    (a.setRuntime conn m).Sound where
  zero := by
    have hne : (0 : ConnKey) ≠ conn := by
      rintro rfl
      rw [ha.zero] at h
      cases h
    simp [Arbiter.setRuntime, hne, ha.zero]
  bound c m' hc := by
    rw [setRuntime_runtime h] at hc
    split_ifs at hc with heq
    · obtain rfl := Option.some.inj hc
      exact hm
    · exact ha.bound c m' hc
  agreed c s' hc hruntime := by
    by_cases heq : c = conn
    · subst heq
      simp only [Arbiter.setRuntime, Function.update_self, h, Option.map_some,
        Option.some.injEq] at hc
      subst hc
      exact hcap
    · simp only [Arbiter.setRuntime, Function.update_of_ne heq] at hc
      exact ha.agreed c s' hc hruntime
  up c s' hc hcap' := by
    by_cases heq : c = conn
    · subst heq
      simp only [Arbiter.setRuntime, Function.update_self, h, Option.map_some,
        Option.some.injEq] at hc
      subst hc
      exact ha.up c s h hcap
    · simp only [Arbiter.setRuntime, Function.update_of_ne heq] at hc
      exact ha.up c s' hc hcap'

/-- The token does not enter into what holds of the sessions. -/
theorem Sound.of_sessions (ha : a.Sound) {a' : Arbiter} (h : a'.sessions = a.sessions) :
    a'.Sound := by
  obtain ⟨sessions, holder, dialogs⟩ := a'
  obtain rfl : sessions = a.sessions := h
  exact ⟨ha.zero, ha.bound, ha.agreed, ha.up⟩

/-- A step of a runtime, written out. -/
theorem Sound.stepRuntime_eq (ha : a.Sound) (h : a.runtime conn = some m) (e : Event) :
    stepRuntime conn a e =
      { a.setRuntime conn (m.step e).1 with holder := a.released conn (m.step e).2 } := by
  obtain ⟨s, hs, hruntime⟩ := session_of_runtime h
  have hset : (a.setRuntime conn (m.step e).1).sessions conn =
      some { s with voiceRuntime := some (m.step e).1 } := by
    simp [Arbiter.setRuntime, hs]
  have hsound := ha.setRuntime hs (ha.agreed conn s hs (by simp [hruntime]))
    ((ha.bound conn m h).step e)
  simp only [stepRuntime, h, hsound.foldl_dispatch hset]
  rfl

theorem stepRuntime_none (h : a.runtime conn = none) (e : Event) : stepRuntime conn a e = a := by
  simp [stepRuntime, h]

theorem Sound.stepRuntime (ha : a.Sound) (conn : ConnKey) (e : Event) :
    (stepRuntime conn a e).Sound := by
  cases h : a.runtime conn with
  | none => rwa [stepRuntime_none h]
  | some m =>
    obtain ⟨s, hs, hruntime⟩ := session_of_runtime h
    have hsound := ha.setRuntime hs (ha.agreed conn s hs (by simp [hruntime]))
      ((ha.bound conn m h).step e)
    exact hsound.of_sessions (by rw [ha.stepRuntime_eq h])

/-- After a step of one runtime the others are as they were. -/
theorem Sound.stepRuntime_runtime (ha : a.Sound) (h : a.runtime conn = some m) (e : Event)
    (c : ConnKey) :
    (Arbiter.stepRuntime conn a e).runtime c =
      if c = conn then some (m.step e).1 else a.runtime c := by
  obtain ⟨s, hs, _⟩ := session_of_runtime h
  rw [ha.stepRuntime_eq h, ← setRuntime_runtime hs]
  rfl

theorem Sound.stepRuntime_activeCid (ha : a.Sound) (h : a.runtime conn = some m) (e : Event)
    (c : ConnKey) :
    (Arbiter.stepRuntime conn a e).activeCid c =
      if c = conn then (m.step e).1.activeCid else a.activeCid c := by
  rw [activeCid, ha.stepRuntime_runtime h]
  split_ifs
  · rfl
  · rfl

/-- A runtime's step that is not a join keeps the token right. -/
theorem TokenRight.stepRuntime (ht : a.TokenRight) (ha : a.Sound) (conn : ConnKey) {e : Event}
    (hjoin : ∀ cid, e ≠ .joinRequested cid) : (Arbiter.stepRuntime conn a e).TokenRight := by
  cases h : a.runtime conn with
  | none => rwa [stepRuntime_none h]
  | some m =>
    have hactive : a.activeCid conn = m.activeCid := by simp [activeCid, h]
    have hstays := m.step_stays hjoin
    intro c cid
    rw [ha.stepRuntime_activeCid h]
    have hholder : (Arbiter.stepRuntime conn a e).holder = a.released conn (m.step e).2 := by
      rw [ha.stepRuntime_eq h]
    rw [hholder]
    cases hstays with
    | room hsame hquiet =>
      have hany : (m.step e).2.any Action.signalsLeft = false := 
        List.any_eq_false.mpr fun x hx => by simp [hquiet x hx]
      rw [released, hany, if_neg (by simp), hsame, ← hactive]
      split_ifs with hc
      · rw [hc]
        exact ht conn cid
      · exact ht c cid
    | left hnone hsignal =>
      have hany : (m.step e).2.any Action.signalsLeft = true := List.any_eq_true.mpr hsignal
      by_cases hheld : a.holder.map Holder.conn = some conn
      · rw [released, if_pos ⟨hany, hheld⟩]
        refine iff_of_false (by simp) ?_
        split_ifs with hc
        · simp [hnone]
        · rw [← ht c cid]
          rintro heq
          rw [heq] at hheld
          exact hc (Option.some.inj hheld)
      · rw [released, if_neg (fun hboth => hheld hboth.2)]
        split_ifs with hc
        · refine iff_of_false (fun heq => hheld ?_) (by simp [hnone])
          rw [heq, hc]
          rfl
        · exact ht c cid

/-- No pipeline asks for a join. -/
theorem ne_joinRequested_of_pipeline {e : Event} (h : e.ofPipeline = true) (cid : UInt32) :
    e ≠ .joinRequested cid := by
  rintro rfl
  cases h

theorem Sound.foldl_stepRuntime (ha : a.Sound) (conn : ConnKey) (es : List Event) :
    (es.foldl (Arbiter.stepRuntime conn) a).Sound := by
  induction es generalizing a with
  | nil => exact ha
  | cons e es ih => exact ih (ha.stepRuntime conn e)

theorem Sound.handleEvent (ha : a.Sound) (conn : ConnKey) (e : Event) (queued : List Event) :
    (a.handleEvent conn e queued).Sound := by
  unfold Arbiter.handleEvent
  split
  · exact (ha.stepRuntime conn e).foldl_stepRuntime conn _
  · exact ha

/-- What one runtime handles leaves the rooms of the others alone. -/
theorem Sound.stepRuntime_other (ha : a.Sound) {c : ConnKey} (hc : c ≠ conn) (e : Event) :
    (Arbiter.stepRuntime conn a e).activeCid c = a.activeCid c := by
  cases h : a.runtime conn with
  | none => rw [stepRuntime_none h]
  | some m => rw [ha.stepRuntime_activeCid h, if_neg hc]

theorem Sound.foldl_stepRuntime_other (ha : a.Sound) {c : ConnKey} (hc : c ≠ conn)
    (es : List Event) : (es.foldl (Arbiter.stepRuntime conn) a).activeCid c = a.activeCid c := by
  induction es generalizing a with
  | nil => rfl
  | cons e es ih => rw [List.foldl_cons, ih (ha.stepRuntime conn e), ha.stepRuntime_other hc]

theorem Sound.handleEvent_other (ha : a.Sound) {c : ConnKey} (hc : c ≠ conn) (e : Event)
    (queued : List Event) : (a.handleEvent conn e queued).activeCid c = a.activeCid c := by
  unfold Arbiter.handleEvent
  split
  · rw [(ha.stepRuntime conn e).foldl_stepRuntime_other hc, ha.stepRuntime_other hc]
  · rfl

theorem TokenRight.foldl_stepRuntime (ht : a.TokenRight) (ha : a.Sound) (conn : ConnKey)
    {es : List Event} (hes : ∀ e ∈ es, e.ofPipeline = true) :
    (es.foldl (Arbiter.stepRuntime conn) a).TokenRight := by
  induction es generalizing a with
  | nil => exact ht
  | cons e es ih =>
    have he := ne_joinRequested_of_pipeline (hes e List.mem_cons_self)
    exact ih (ht.stepRuntime ha conn he) (ha.stepRuntime conn e)
      fun e' he' => hes e' (List.mem_cons_of_mem e he')

/-- What is queued is handled, or there was nothing to queue it. -/
private theorem queued_or_nil {queued : List Event} (hqueued : ∀ e ∈ queued, e.ofPipeline = true)
    (acts : List Action) :
    ∀ e ∈ (if acts.isEmpty then [] else queued), e.ofPipeline = true := by
  intro e he
  split_ifs at he
  · cases he
  · exact hqueued e he

/-- A runtime's call that is not a join keeps the token right. -/
theorem TokenRight.handleEvent (ht : a.TokenRight) (ha : a.Sound) (conn : ConnKey) {e : Event}
    (hjoin : ∀ cid, e ≠ .joinRequested cid) {queued : List Event}
    (hqueued : ∀ e ∈ queued, e.ofPipeline = true) :
    (a.handleEvent conn e queued).TokenRight := by
  unfold Arbiter.handleEvent
  split
  · exact (ht.stepRuntime ha conn hjoin).foldl_stepRuntime (ha.stepRuntime conn e) conn
      (queued_or_nil hqueued _)
  · exact ht

/-- What is not a join leaves a machine in its room, or in none. -/
theorem Sound.stepRuntime_room (ha : a.Sound) (conn : ConnKey) {e : Event}
    (hjoin : ∀ cid, e ≠ .joinRequested cid) :
    (Arbiter.stepRuntime conn a e).activeCid conn = a.activeCid conn ∨
      (Arbiter.stepRuntime conn a e).activeCid conn = none := by
  cases h : a.runtime conn with
  | none => exact .inl (by rw [stepRuntime_none h])
  | some m =>
    rw [ha.stepRuntime_activeCid h, if_pos rfl]
    cases m.step_stays hjoin with
    | room hsame _ => exact .inl (by simp [hsame, activeCid, h])
    | left hgone _ => exact .inr hgone

theorem Sound.foldl_stepRuntime_room (ha : a.Sound) (conn : ConnKey) {es : List Event}
    (hes : ∀ e ∈ es, e.ofPipeline = true) :
    (es.foldl (Arbiter.stepRuntime conn) a).activeCid conn = a.activeCid conn ∨
      (es.foldl (Arbiter.stepRuntime conn) a).activeCid conn = none := by
  induction es generalizing a with
  | nil => exact .inl rfl
  | cons e es ih =>
    have hjoin := ne_joinRequested_of_pipeline (hes e List.mem_cons_self)
    rw [List.foldl_cons]
    rcases ih (ha.stepRuntime conn e) fun e' he' => hes e' (List.mem_cons_of_mem e he') with h | h
    · rw [h]
      exact ha.stepRuntime_room conn hjoin
    · exact .inr h

/-- Asked to leave a room, a machine is not in it afterwards. -/
theorem Sound.handleEvent_leave (ha : a.Sound) (conn : ConnKey) (cid : UInt32)
    {queued : List Event} (hqueued : ∀ e ∈ queued, e.ofPipeline = true) :
    (a.handleEvent conn (.leaveRequested cid) queued).activeCid conn = none ∨
      (a.handleEvent conn (.leaveRequested cid) queued).activeCid conn = a.activeCid conn ∧
        a.activeCid conn ≠ some cid := by
  cases h : a.runtime conn with
  | none =>
    refine .inl ?_
    simp [Arbiter.handleEvent, h, activeCid]
  | some m =>
    have hstep := ha.stepRuntime_activeCid h (.leaveRequested cid) conn
    rw [if_pos rfl] at hstep
    have hhandle : a.handleEvent conn (.leaveRequested cid) queued =
        (if (m.step (.leaveRequested cid)).2.isEmpty then [] else queued).foldl
          (Arbiter.stepRuntime conn) (Arbiter.stepRuntime conn a (.leaveRequested cid)) := by
      simp only [Arbiter.handleEvent, h]
    have hrest := (ha.stepRuntime conn (.leaveRequested cid)).foldl_stepRuntime_room conn
      (queued_or_nil hqueued (m.step (.leaveRequested cid)).2)
    rw [← hhandle, hstep] at hrest
    by_cases hcid : m.activeCid = some cid
    · have hroom : m.inRoom = true := (ha.bound conn m h).active_iff.mp (by simp [hcid])
      have hleft : (m.step (.leaveRequested cid)).1.activeCid = none := by
        simp [SessionMachine.step, SessionMachine.leaveRequested, hroom, hcid,
          SessionMachine.setState, SessionMachine.resetVideo]
      rw [hleft, or_self] at hrest
      exact .inl hrest
    · have hstays : (m.step (.leaveRequested cid)).1 = m := by
        simp [SessionMachine.step, SessionMachine.leaveRequested, hcid]
      have hactive : a.activeCid conn = m.activeCid := by simp [activeCid, h]
      rw [hstays, ← hactive] at hrest
      exact hrest.symm.imp_right fun hsame => ⟨hsame, by rwa [hactive]⟩

/-- A session that waits for its join's reply waits on while its pipeline reports. -/
theorem Sound.foldl_stepRuntime_joinSent (ha : a.Sound) (h : a.runtime conn = some m)
    (hstate : m.state = .joinSent) {es : List Event} (hes : ∀ e ∈ es, e.ofPipeline = true) :
    (es.foldl (Arbiter.stepRuntime conn) a).activeCid conn = m.activeCid := by
  induction es generalizing a m with
  | nil => simp [activeCid, h]
  | cons e es ih =>
    obtain ⟨hstill, hsame⟩ := SessionMachine.step_joinSent hstate (hes e List.mem_cons_self)
    have hnext := ha.stepRuntime_runtime h e conn
    rw [if_pos rfl] at hnext
    rw [List.foldl_cons, ih (ha.stepRuntime conn e) hnext hstill
      fun e' he' => hes e' (List.mem_cons_of_mem e he'), hsame]

/-- A runtime asked to join is in the room when the call returns. -/
theorem Sound.handleEvent_join (ha : a.Sound) (h : a.runtime conn = some m) (cid : UInt32)
    {queued : List Event} (hqueued : ∀ e ∈ queued, e.ofPipeline = true) :
    (a.handleEvent conn (.joinRequested cid) queued).activeCid conn = some cid := by
  obtain ⟨hactive, hwaits⟩ := m.step_joinRequested cid
  have hnext := ha.stepRuntime_runtime h (.joinRequested cid) conn
  rw [if_pos rfl] at hnext
  simp only [Arbiter.handleEvent, h]
  rcases hwaits with hstate | hnil
  · rw [(ha.stepRuntime conn _).foldl_stepRuntime_joinSent hnext hstate
      (queued_or_nil hqueued _), hactive]
  · simp [hnil, activeCid, hnext, hactive]

/-- Muting leaves every machine in its room. -/
theorem Sound.handleEvent_mute (ha : a.Sound) (conn c : ConnKey) (muted : Bool) :
    (a.handleEvent conn (.muteToggleRequested muted) []).activeCid c = a.activeCid c := by
  by_cases hc : c = conn
  · subst hc
    cases h : a.runtime c with
    | none => simp [Arbiter.handleEvent, h]
    | some m =>
      simp only [Arbiter.handleEvent, h, ite_self, List.foldl_nil]
      rw [ha.stepRuntime_activeCid h, if_pos rfl, m.step_mute]
      simp [activeCid, h]
  · exact ha.handleEvent_other hc _ _

/-- A right token with no machine in a room is nobody's. -/
theorem TokenRight.holder_eq_none (ht : a.TokenRight) (hnone : ∀ c, a.activeCid c = none) :
    a.holder = none := by
  cases h : a.holder with
  | none => rfl
  | some held =>
    have hactive := (ht held.conn held.cid).mp h
    rw [hnone held.conn] at hactive
    cases hactive

/-- While the token is one connection's, no other machine is in a room. -/
theorem TokenRight.other_none (ht : a.TokenRight) {held : Holder} (h : a.holder = some held)
    {c : ConnKey} (hc : c ≠ held.conn) : a.activeCid c = none := by
  cases hactive : a.activeCid c with
  | none => rfl
  | some cid =>
    have hother := (ht c cid).mpr hactive
    rw [h] at hother
    exact absurd (congrArg Holder.conn (Option.some.inj hother)).symm hc

/-- A token that is not a pair's is not given up by that pair. -/
theorem releaseConn_of_ne {cid : UInt32} (h : a.holder ≠ some ⟨conn, cid⟩) :
    a.releaseConn conn cid = a := by
  rw [releaseConn, if_neg h]

/-- Both facts that hold between two handlers. -/
def Settled (a : Arbiter) : Prop := a.Sound ∧ a.TokenRight

/-- Leaving the room of a panel, whether its connection is in it or not. -/
theorem Settled.leaveNow (ha : a.Settled) (p : Panel) {queued : List Event}
    (hqueued : ∀ e ∈ queued, e.ofPipeline = true) : (a.leaveNow p queued).Settled := by
  have hsound := ha.1.handleEvent p.conn (.leaveRequested p.cid) queued
  have hright := ha.2.handleEvent ha.1 p.conn (e := .leaveRequested p.cid)
    (fun cid => by simp) hqueued
  have hgone : (a.handleEvent p.conn (.leaveRequested p.cid) queued).activeCid p.conn ≠
      some p.cid := by
    rcases ha.1.handleEvent_leave p.conn p.cid hqueued with hnone | ⟨hsame, hne⟩
    · simp [hnone]
    · rwa [hsame]
  rw [Arbiter.leaveNow, releaseConn_of_ne fun hheld => hgone ((hright _ _).mp hheld)]
  exact ⟨hsound, hright⟩

/-- Where the holder is another connection, freeing the microphone leaves nobody in voice. -/
theorem Settled.leaveHolder_other (ha : a.Settled) {held : Holder} (h : a.holder = some held)
    {joiner : ConnKey} (hother : held.conn ≠ joiner) {queued : List Event}
    (hqueued : ∀ e ∈ queued, e.ofPipeline = true) :
    (a.leaveHolder held joiner queued).Settled ∧
      ∀ c, (a.leaveHolder held joiner queued).activeCid c = none := by
  have hleave := ha.leaveNow ⟨held.conn, held.cid⟩ hqueued
  have heq : a.leaveHolder held joiner queued = a.leaveNow ⟨held.conn, held.cid⟩ queued := by
    simp [Arbiter.leaveHolder, Arbiter.leaveNow, hother]
  have hrooms : ∀ c, (a.leaveNow ⟨held.conn, held.cid⟩ queued).activeCid c =
      (a.handleEvent held.conn (.leaveRequested held.cid) queued).activeCid c := fun _ => rfl
  rw [heq]
  refine ⟨hleave, fun c => ?_⟩
  rw [hrooms]
  by_cases hc : c = held.conn
  · rw [hc]
    exact (ha.1.handleEvent_leave held.conn held.cid hqueued).resolve_right
      fun hstays => hstays.2 ((ha.2 _ _).mp h)
  · rw [ha.1.handleEvent_other hc, ha.2.other_none h hc]

/-- A join that is sent ends with the token at the room joined, and no other machine in one. -/
theorem Sound.joinNow (ha : a.Sound) {p : Panel} (hothers : ∀ c, c ≠ p.conn → a.activeCid c = none)
    (hunsent : a.sendVoiceJoin p.conn = false ∨ a.runtime p.conn = none → a.TokenRight)
    (built : Bool) {queued : List Event} (hqueued : ∀ e ∈ queued, e.ofPipeline = true) :
    (a.joinNow p built queued).Settled := by
  by_cases hsent : a.sendVoiceJoin p.conn = true
  · obtain ⟨s, hs, hcap⟩ : ∃ s, a.sessions p.conn = some s ∧ s.voiceCap = true := by
      simp only [sendVoiceJoin] at hsent
      split at hsent
      · exact ⟨_, by assumption, hsent⟩
      · cases hsent
    have hkey : keyForSession (a.sessionWithSerial p.conn) = p.conn := by
      rw [ha.sessionWithSerial hs]
      rfl
    have hjoins : ∀ a' : Arbiter, a'.Sound → ∀ m, a'.runtime p.conn = some m →
        (∀ c, c ≠ p.conn → a'.activeCid c = none) →
        (((a'.handleEvent p.conn (.joinRequested p.cid) queued).handleEvent p.conn
          (.muteToggleRequested true) []).take (a.sessionWithSerial p.conn) p.cid).Settled := by
      intro a' ha' m hm hothers'
      have hjoined := ha'.handleEvent p.conn (.joinRequested p.cid) queued
      have hmuted := hjoined.handleEvent p.conn (.muteToggleRequested true) []
      refine ⟨hmuted.of_sessions rfl, fun c cid => ?_⟩
      change some (Holder.mk (keyForSession (a.sessionWithSerial p.conn)) p.cid) = _ ↔
        ((a'.handleEvent p.conn (.joinRequested p.cid) queued).handleEvent p.conn
          (.muteToggleRequested true) []).activeCid c = some cid
      rw [hkey, hjoined.handleEvent_mute]
      by_cases hc : c = p.conn
      · rw [hc, ha'.handleEvent_join hm p.cid hqueued]
        simp
      · rw [ha'.handleEvent_other hc, hothers' c hc]
        simp [Ne.symm hc]
    cases hruntime : a.runtime p.conn with
    | some m =>
      simp only [Arbiter.joinNow, hsent, ensureVoiceRuntime, hruntime, if_true]
      exact hjoins a ha m hruntime hothers
    | none =>
      cases built with
      | false =>
        simp only [Arbiter.joinNow, hsent, ensureVoiceRuntime, hruntime, if_true]
        exact ⟨ha, hunsent (.inr hruntime)⟩
      | true =>
        simp only [Arbiter.joinNow, hsent, ensureVoiceRuntime, hruntime, if_true]
        refine hjoins _ (ha.setRuntime hs hcap SessionMachine.roomBound_new) .new
          (by rw [setRuntime_runtime hs, if_pos rfl]) fun c hc => ?_
        rw [activeCid, setRuntime_runtime hs, if_neg hc]
        exact hothers c hc
  · rw [Arbiter.joinNow, if_neg hsent]
    exact ⟨ha, hunsent (.inl (by simpa using hsent))⟩

/-- Where a machine runs, a join can be sent. -/
theorem Sound.sendVoiceJoin (ha : a.Sound) (h : a.runtime conn = some m) :
    a.sendVoiceJoin conn = true := by
  obtain ⟨s, hs, hruntime⟩ := session_of_runtime h
  simp only [Arbiter.sendVoiceJoin, ha.sessionWithSerial hs, hs]
  exact ha.agreed conn s hs (by simp [hruntime])

/-- A join by whoever may join at once. -/
theorem Settled.joinNow (ha : a.Settled) {p : Panel} {sess : Option ConnKey}
    (hsess : a.sessionWithSerial p.conn = sess) (hfree : a.acquire sess p.cid = .free)
    (built : Bool) {queued : List Event} (hqueued : ∀ e ∈ queued, e.ofPipeline = true) :
    (a.joinNow p built queued).Settled := by
  refine ha.1.joinNow (fun c hc => ?_) (fun _ => ha.2) built hqueued
  cases h : a.holder with
  | none =>
    cases hactive : a.activeCid c with
    | none => rfl
    | some cid =>
      have hheld := (ha.2 c cid).mpr hactive
      rw [h] at hheld
      cases hheld
  | some held =>
    simp only [acquire, h] at hfree
    split at hfree
    · rename_i hsame
      refine ha.2.other_none h fun heq => hc ?_
      rw [heq, hsame.1, ← hsess, keyForSession, Arbiter.sessionWithSerial]
      split_ifs with hlive
      · rfl
      · have hactive := (ha.2 held.conn held.cid).mp h
        obtain ⟨m, hm, _⟩ := Option.bind_eq_some_iff.mp hactive
        obtain ⟨s, hs, _⟩ := session_of_runtime hm
        rw [hsame.1, ← hsess, keyForSession, Arbiter.sessionWithSerial, if_neg hlive,
          Option.getD_none, ha.1.zero] at hs
        cases hs
    · cases hfree

/-- The question answered with yes: whoever holds the microphone by then gives it up. -/
theorem Settled.switched (ha : a.Settled) (p : Panel) (built : Bool) {left joined : List Event}
    (hleft : ∀ e ∈ left, e.ofPipeline = true) (hjoined : ∀ e ∈ joined, e.ofPipeline = true) :
    (a.switched p built left joined).Settled := by
  unfold Arbiter.switched
  split
  · rename_i hfree
    exact ha.joinNow rfl hfree built hjoined
  · rename_i now hpreempts
    have hheld : a.holder = some now := by
      cases h : a.holder with
      | none => simp [acquire, h] at hpreempts
      | some held =>
        simp only [acquire, h] at hpreempts
        split at hpreempts
        · cases hpreempts
        · rw [Acquire.preempts.inj hpreempts]
    by_cases hother : now.conn = p.conn
    · obtain ⟨m, hm, _⟩ := Option.bind_eq_some_iff.mp ((ha.2 now.conn now.cid).mp hheld)
      have hreleased : a.leaveHolder now p.conn left = a.releaseConn now.conn now.cid := by
        simp [Arbiter.leaveHolder, hother]
      have hsound : (a.releaseConn now.conn now.cid).Sound := ha.1.of_sessions rfl
      rw [hother] at hm
      rw [hreleased]
      refine hsound.joinNow (fun c hc => ?_) (fun hunsent => ?_) built hjoined
      · exact ha.2.other_none hheld (hother ▸ hc)
      · have hsends : (a.releaseConn now.conn now.cid).sendVoiceJoin p.conn = true :=
          hsound.sendVoiceJoin hm
        have hruns : (a.releaseConn now.conn now.cid).runtime p.conn = some m := hm
        simp [hsends, hruns] at hunsent
    · obtain ⟨hleave, hnone⟩ := ha.leaveHolder_other hheld hother hleft
      exact hleave.1.joinNow (fun c _ => hnone c) (fun _ => hleave.2) built hjoined

/-- A panel's button. -/
theorem Settled.onJoinToggled (ha : a.Settled) (p : Panel) (wantJoined built : Bool)
    {queued : List Event} (hqueued : ∀ e ∈ queued, e.ofPipeline = true) :
    (a.onJoinToggled p wantJoined built queued).Settled := by
  unfold Arbiter.onJoinToggled
  split
  · exact ha
  · rename_i sess hsess
    cases wantJoined with
    | false => exact ha.leaveNow p hqueued
    | true =>
      rw [if_pos rfl]
      split
      · rename_i hfree
        exact ha.joinNow hsess hfree built hqueued
      · exact ⟨ha.1.of_sessions rfl, ha.2⟩

/-- A session replaced by one without a runtime, its token given up. -/
theorem Settled.without_runtime (ha : a.Settled) (hne : conn ≠ 0) {s : Option Session}
    (hruntime : s.bind Session.voiceRuntime = none)
    (hup : ∀ s', s = some s' → s'.voiceCap = true → s'.connected = true) :
    Settled { a with
      sessions := Function.update a.sessions conn s
      holder := if a.holder.map Holder.conn = some conn then none else a.holder } := by
  have hother : ∀ c, c ≠ conn → Function.update a.sessions conn s c = a.sessions c :=
    fun c hc => Function.update_of_ne hc s a.sessions
  refine ⟨⟨?_, ?_, ?_, ?_⟩, ?_⟩
  · exact (hother 0 hne.symm).trans ha.1.zero
  · intro c m hm
    by_cases hc : c = conn
    · subst hc
      simp [runtime, hruntime] at hm
    · exact ha.1.bound c m (by simpa [runtime, hother c hc] using hm)
  · intro c s' hs' hsome
    by_cases hc : c = conn
    · subst hc
      obtain rfl : s = some s' := by simpa using hs'
      simp only [Option.bind_some] at hruntime
      simp [hruntime] at hsome
    · exact ha.1.agreed c s' (by simpa [hother c hc] using hs') hsome
  · intro c s' hs'
    by_cases hc : c = conn
    · subst hc
      exact hup s' (by simpa using hs')
    · exact ha.1.up c s' (by simpa [hother c hc] using hs')
  · intro c cid
    by_cases hc : c = conn
    · subst hc
      refine iff_of_false (fun heq => ?_) (by simp [activeCid, runtime, hruntime])
      dsimp only at heq
      split_ifs at heq with hheld
      exact hheld (by rw [heq]; rfl)
    · have hactive : activeCid { a with
          sessions := Function.update a.sessions conn s
          holder := if a.holder.map Holder.conn = some conn then none else a.holder } c =
          a.activeCid c := by
        simp [activeCid, runtime, hc]
      rw [hactive, ← ha.2 c cid]
      dsimp only
      split_ifs with hheld
      · refine iff_of_false (by simp) fun heq => ?_
        rw [heq] at hheld
        exact hc (Option.some.inj hheld)
      · rfl

theorem Settled.htlcClose (ha : a.Settled) {s : Session} (h : a.sessions conn = some s) :
    (a.htlcClose conn).Settled ∧ (a.htlcClose conn).sessions conn = some {} := by
  have hne : conn ≠ 0 := by
    rintro rfl
    rw [ha.1.zero] at h
    cases h
  have heq : a.htlcClose conn = { a with
      sessions := Function.update a.sessions conn (some {})
      holder := if a.holder.map Holder.conn = some conn then none else a.holder } := by
    simp only [Arbiter.htlcClose, ha.1.sessionWithSerial h, h, Option.map_some, releaseSession,
      keyForSession, Option.getD_some, if_neg hne]
  rw [heq]
  exact ⟨ha.without_runtime hne rfl (by simp), by simp⟩

/-- A session that is in no room, replaced by one without a runtime. -/
theorem Settled.quiet_session (ha : a.Settled) (hne : conn ≠ 0) (hactive : a.activeCid conn = none)
    {s : Option Session} (hruntime : s.bind Session.voiceRuntime = none)
    (hup : ∀ s', s = some s' → s'.voiceCap = true → s'.connected = true) :
    Settled { a with sessions := Function.update a.sessions conn s } := by
  have hheld : ¬a.holder.map Holder.conn = some conn := by
    intro hmap
    obtain ⟨held, hheld, rfl⟩ := Option.map_eq_some_iff.mp hmap
    rw [(ha.2 held.conn held.cid).mp hheld] at hactive
    cases hactive
  have h := ha.without_runtime hne hruntime hup
  rwa [if_neg hheld] at h

/-- A connection that is down has no runtime. -/
theorem Sound.voiceRuntime_eq_none (ha : a.Sound) {s : Session} (h : a.sessions conn = some s)
    (hdown : s.connected = false) : s.voiceRuntime = none := by
  cases hruntime : s.voiceRuntime with
  | none => rfl
  | some m =>
    have hup := ha.up conn s h (ha.agreed conn s h (by simp [hruntime]))
    rw [hdown] at hup
    cases hup

/-- One handler keeps both. -/
theorem Settled.step (ha : a.Settled) {i : ArbiterInput} {a' : Arbiter}
    (hstep : a.step i = some a') : a'.Settled := by
  cases i with
  | opened conn =>
    obtain ⟨⟨hne, hnone⟩, hstep⟩ := Option.ite_none_right_eq_some.mp hstep
    obtain rfl := Option.some.inj hstep
    refine ha.quiet_session hne ?_ rfl (by simp)
    simp [activeCid, runtime, Option.isNone_iff_eq_none.mp hnone]
  | loggedIn conn voiceCap =>
    simp only [Arbiter.step] at hstep
    cases h : a.sessions conn with
    | none => simp [h] at hstep
    | some s =>
      have hne : conn ≠ 0 := by
        rintro rfl
        rw [ha.1.zero] at h
        cases h
      simp only [h] at hstep
      split at hstep
      · cases hstep
      · rename_i hdown
        obtain rfl := Option.some.inj hstep
        have hruntime := ha.1.voiceRuntime_eq_none h (by simpa using hdown)
        exact ha.quiet_session hne (by simp [activeCid, runtime, h, hruntime]) (by simp [hruntime])
          (by simp)
  | toggled p wantJoined built queued =>
    obtain ⟨hqueued, hstep⟩ := Option.ite_none_right_eq_some.mp hstep
    obtain rfl := Option.some.inj hstep
    exact ha.onJoinToggled p wantJoined built (List.all_eq_true.mp hqueued)
  | answered p switch built left joined =>
    obtain ⟨⟨_, hleft, hjoined⟩, hstep⟩ := Option.ite_none_right_eq_some.mp hstep
    have hclosed : Settled { a with dialogs := a.dialogs.erase p } :=
      ⟨ha.1.of_sessions rfl, ha.2⟩
    cases switch with
    | false =>
      obtain rfl := Option.some.inj hstep
      exact hclosed
    | true =>
      obtain rfl := Option.some.inj hstep
      exact hclosed.switched p built (List.all_eq_true.mp hleft) (List.all_eq_true.mp hjoined)
  | event conn e queued =>
    obtain ⟨⟨hpanel, hqueued⟩, hstep⟩ := Option.ite_none_right_eq_some.mp hstep
    obtain rfl := Option.some.inj hstep
    have hjoin : ∀ cid, e ≠ .joinRequested cid := by
      rintro cid rfl
      exact hpanel rfl
    exact ⟨ha.1.handleEvent conn e queued,
      ha.2.handleEvent ha.1 conn hjoin (List.all_eq_true.mp hqueued)⟩
  | closed conn =>
    obtain ⟨hup, hstep⟩ := Option.ite_none_right_eq_some.mp hstep
    obtain rfl := Option.some.inj hstep
    cases h : a.sessions conn with
    | none => simp [h] at hup
    | some s => exact (ha.htlcClose h).1
  | removed conn =>
    obtain rfl := Option.some.inj hstep
    cases h : a.sessions conn with
    | none =>
      have hsame : Function.update a.sessions conn none = a.sessions := by
        rw [← h]
        exact Function.update_eq_self conn a.sessions
      simp only [sessionClose, h, Option.any_none, Bool.false_eq_true, if_false, hsame]
      exact ha
    | some s =>
      have hne : conn ≠ 0 := by
        rintro rfl
        rw [ha.1.zero] at h
        cases h
      cases hconnected : s.connected with
      | false =>
        have hruntime := ha.1.voiceRuntime_eq_none h hconnected
        simp only [sessionClose, h, Option.any_some, hconnected, Bool.false_eq_true, if_false]
        exact ha.quiet_session hne (by simp [activeCid, runtime, h, hruntime]) rfl (by simp)
      | true =>
        obtain ⟨hclosed, hblank⟩ := ha.htlcClose h
        simp only [sessionClose, h, Option.any_some, hconnected, if_true]
        exact hclosed.quiet_session hne (by simp [activeCid, runtime, hblank]) rfl (by simp)

/-- With no tab open, nobody has the microphone. -/
theorem settled_start : Settled {} := by
  refine ⟨⟨rfl, ?_, ?_, ?_⟩, ?_⟩
  · intro conn m h
    cases h
  · intro conn s h
    cases h
  · intro conn s h
    cases h
  · intro conn cid
    simp [activeCid, runtime]

end Arbiter

/-- Both facts hold at the end of every run. -/
theorem settled_of_run {inputs : List ArbiterInput} {a : Arbiter}
    (hrun : arbitration.run inputs = some a) : a.Settled :=
  Reactive.Process.invariant (P := arbitration) Arbiter.settled_start
    (fun _ _ _ ha hstep => ha.step hstep) hrun

/-- **One microphone.** Whatever the panels, the servers and the connections do, between two
handlers at most one connection's machine is in a room, and the token is the pair of a connection
and a room exactly when that connection's machine is in that room. -/
theorem one_microphone {inputs : List ArbiterInput} {a : Arbiter}
    (hrun : arbitration.run inputs = some a) :
    (∀ c₁ c₂, (a.activeCid c₁).isSome = true → (a.activeCid c₂).isSome = true → c₁ = c₂) ∧
      ∀ conn cid, a.holder = some ⟨conn, cid⟩ ↔ a.activeCid conn = some cid := by
  have hright := (settled_of_run hrun).2
  refine ⟨fun c₁ c₂ h₁ h₂ => ?_, hright⟩
  obtain ⟨cid₁, hcid₁⟩ := Option.isSome_iff_exists.mp h₁
  obtain ⟨cid₂, hcid₂⟩ := Option.isSome_iff_exists.mp h₂
  have hheld₁ := (hright c₁ cid₁).mpr hcid₁
  have hheld₂ := (hright c₂ cid₂).mpr hcid₂
  rw [hheld₁] at hheld₂
  exact congrArg Holder.conn (Option.some.inj hheld₂)

/-- Two connections, the first in room 7. The second's panel asks for the microphone, and gets it
while the first's session is being joined by a panel of another room. -/
def switchOver : List ArbiterInput :=
  [.opened 1, .opened 2, .loggedIn 1 true, .loggedIn 2 true,
    .toggled ⟨1, 7⟩ true true [], .toggled ⟨2, 3⟩ true true [], .toggled ⟨1, 8⟩ true true [],
    .answered ⟨1, 8⟩ true true [] [], .answered ⟨2, 3⟩ true true [] []]

/-- Both questions are answered with yes, one after the other, and the last answer counts. -/
theorem switchOver_one_microphone :
    ∃ a, arbitration.run switchOver = some a ∧ a.holder = some ⟨2, 3⟩ ∧
      a.activeCid 2 = some 3 ∧ a.activeCid 1 = none := by
  refine ⟨_, rfl, rfl, ?_, ?_⟩
  · exact ((@one_microphone switchOver _ rfl).2 2 3).mp rfl
  · rfl

end Gtkhx.Voice
