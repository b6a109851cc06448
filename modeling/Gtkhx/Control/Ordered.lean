import Gtkhx.Control.Send

/-!
# Requests leave in order

What a connection's transport has taken and what is held for it are together the frames
of the calls made on it, in order (`Sound`). A step keeps that for the connection it is
about (`sound_own`) and for every other (`sound_other`), so it holds in every run, and the
claims about one connection's session follow (`requests_orderly`).
-/

namespace Gtkhx.Control

variable {κ ρ φ : Type*} [DecidableEq κ]

/-- A connection, what is held for it and the log of its session agree. -/
structure Sound (P : Packing ρ φ) (c : κ) (net : Net κ φ) (log : Log φ) : Prop where
  handle : (net.conns c).bridge = (net.conns c).fd
  unsettled : ¬(net.conns c).Up → (net.conns c).postLoginFetched = false
  dropped : (net.conns c).fd = false → net.heldOf c = []
  in_order : log.sent <+: log.frames
  complete : (net.conns c).Up → log.frames = log.sent ++ net.heldOf c
  numbered : ∀ call ∈ log.calls, P.transOf call.frame = call.trans ∧
    ∀ trans, call.asked = some trans → call.trans = trans
  reserved : ∀ trans, log.reserved = some trans → (net.conns c).fd = true →
    (net.conns c).trans = trans ∧ trans ≠ 0

/-- What agrees with a log depends on the connection and what is held for it only. -/
theorem Sound.congr {P : Packing ρ φ} {c : κ} {net net' : Net κ φ} {log : Log φ}
    (h : Sound P c net log) (hconn : net'.conns c = net.conns c)
    (hheld : net'.heldOf c = net.heldOf c) : Sound P c net' log where
  handle := by rw [hconn, h.handle]
  unsettled := by rw [hconn]; exact h.unsettled
  dropped := by rw [hconn, hheld]; exact h.dropped
  in_order := h.in_order
  complete := by rw [hconn, hheld]; exact h.complete
  numbered := h.numbered
  reserved := by rw [hconn]; exact h.reserved

/-- The connection an action is about. -/
def Action.conn : Action κ ρ → κ
  | .connect c _ | .reserve c _ | .write c _ _ _ | .settle c | .startClose c | .endClose c => c

/-- `hlwrite_chunks` shows only the connection it writes to. -/
theorem Net.write_effects {P : Packing ρ φ} {net : Net κ φ} {c : κ} {request : ρ}
    {fresh : Trans} {accepted : ℕ} :
    ∀ e ∈ (net.write P c request fresh accepted).2, e.conn = c := by
  intro e he
  simp only [Net.write] at he
  split at he
  · simp at he
  · split at he
    · rw [List.mem_singleton.mp he, Packed.effect_conn]
    · rcases List.mem_cons.mp he with rfl | he
      · exact Packed.effect_conn _ _ _
      · obtain ⟨frame, -, rfl⟩ := List.mem_map.mp he
        rfl

/-- A step shows only the connection it is about. -/
theorem Net.step_effects {P : Packing ρ φ} {net : Net κ φ} {action : Action κ ρ} :
    ∀ e ∈ (net.step P action).2, e.conn = action.conn := by
  intro e he
  cases action with
  | connect c installed =>
    simp only [Net.step] at he
    split at he
    · simp at he
    · split at he
      · rw [List.mem_singleton.mp he]
        rfl
      · simp at he
  | reserve c fresh =>
    rw [List.mem_singleton.mp he]
    rfl
  | write c request fresh accepted => exact Net.write_effects e he
  | settle c =>
    simp only [Net.step] at he
    split at he <;> simp at he
  | startClose | endClose => simp [Net.step] at he

/-- A step leaves another connection and what is held for it. -/
theorem Net.step_other {P : Packing ρ φ} {net : Net κ φ} {action : Action κ ρ} {c : κ}
    (h : c ≠ action.conn) : (net.step P action).1.conns c = net.conns c ∧
      (net.step P action).1.heldOf c = net.heldOf c := by
  cases action with
  | connect c' installed =>
    simp only [Net.step]
    split
    · exact ⟨rfl, rfl⟩
    · split <;> exact ⟨net.setConn_ne h _, rfl⟩
  | reserve c' fresh => exact ⟨net.setConn_ne h _, rfl⟩
  | write c' request fresh accepted =>
    simp only [Net.step, Net.write]
    split
    · exact ⟨rfl, rfl⟩
    · split
      · exact ⟨net.setConn_ne h _, net.heldOf_append_ne h _ _⟩
      · exact ⟨net.setConn_ne h _, net.heldOf_heldBut_ne h _⟩
  | settle c' =>
    simp only [Net.step]
    split
    · exact ⟨net.setConn_ne h _, rfl⟩
    · exact ⟨rfl, rfl⟩
  | startClose c' => exact ⟨net.setConn_ne h _, rfl⟩
  | endClose c' => exact ⟨net.setConn_ne h _, net.heldOf_heldBut_ne h _⟩

/-- A step on another connection keeps a connection in agreement with its log. -/
theorem Sound.other {P : Packing ρ φ} {c : κ} {net : Net κ φ} {log : Log φ}
    (h : Sound P c net log) {action : Action κ ρ} (hother : c ≠ action.conn) :
    Sound P c (net.step P action).1 ((net.step P action).2.foldl (Log.note c) log) := by
  have hlog : (net.step P action).2.foldl (Log.note c) log = log := by
    apply Log.foldl_note_other
    intro e he
    rw [Net.step_effects e he]
    exact Ne.symm hother
  have hsame : (net.step P action).1.conns c = net.conns c ∧
      (net.step P action).1.heldOf c = net.heldOf c := Net.step_other hother
  obtain ⟨hconn, hheld⟩ := hsame
  rw [hlog]
  exact h.congr hconn hheld

/-- What a call gets to pack with is what was reserved for it. -/
theorem Sound.nextTrans_eq {P : Packing ρ φ} {c : κ} {net : Net κ φ} {log : Log φ}
    (h : Sound P c net log) (hfd : (net.conns c).fd = true) {trans : UInt32}
    (hreserved : log.reserved = some trans) (fresh : Trans) :
    (net.conns c).nextTrans fresh = trans := by
  obtain ⟨htrans, hne⟩ := h.reserved trans hreserved hfd
  rw [HtlcConn.nextTrans, htrans, if_pos hne]

theorem HtlcConn.nextTrans_ne_zero {conn : HtlcConn} (hbridge : conn.bridge = true)
    (fresh : Trans) : conn.nextTrans fresh ≠ 0 := by
  rw [HtlcConn.nextTrans, hbridge]
  split
  · assumption
  · exact fresh.2

/-- The log of a call that packed its frame, whose transport took `out`. -/
theorem Log.foldl_note_called (c : κ) (trans : UInt32) (frame : φ) (out : List φ)
    (log : Log φ) :
    (Effect.called c trans frame :: out.map (Effect.sent c)).foldl (Log.note c) log =
      ⟨none, log.calls ++ [⟨log.reserved, trans, frame⟩], log.sent ++ out⟩ := by
  rw [List.foldl_cons, Log.foldl_note_sent]
  simp [Log.note]

/-- The log of a call that packed none, whose transport took `out`. -/
theorem Log.foldl_note_failed (c : κ) (out : List φ) (log : Log φ) :
    (Effect.failed c :: out.map (Effect.sent c)).foldl (Log.note c) log =
      ⟨none, log.calls, log.sent ++ out⟩ := by
  rw [List.foldl_cons, Log.foldl_note_sent]
  simp [Log.note]

@[simp] theorem Log.frames_snoc (reserved : Option UInt32) (calls : List (Call φ))
    (call : Call φ) (sent : List φ) :
    Log.frames ⟨reserved, calls ++ [call], sent⟩ = calls.map Call.frame ++ [call.frame] := by
  simp [Log.frames]

/-- The numbers of a log are right after one more call. -/
theorem Sound.numbered_snoc {P : Packing ρ φ} {c : κ} {net : Net κ φ} {log : Log φ}
    (h : Sound P c net log) (hfd : (net.conns c).fd = true) {request : ρ} {fresh : Trans}
    {frame : φ}
    (hpack : P.pack request ((net.conns c).nextTrans fresh) = .ok frame) :
    ∀ call ∈ log.calls ++ [⟨log.reserved, (net.conns c).nextTrans fresh, frame⟩],
      P.transOf call.frame = call.trans ∧
        ∀ trans, call.asked = some trans → call.trans = trans := by
  intro call hcall
  rcases List.mem_append.mp hcall with hcall | hcall
  · exact h.numbered call hcall
  · rw [List.mem_singleton.mp hcall]
    exact ⟨P.carries _ _ _ hpack, fun trans hreserved => h.nextTrans_eq hfd hreserved fresh⟩

/-- A connection that starts to close agrees with a log, whatever is held. -/
theorem Sound.closing {P : Packing ρ φ} {c : κ} {net : Net κ φ} {log : Log φ}
    {conn : HtlcConn} (hconn : net.conns c = conn.startClose) (hhandle : conn.bridge = conn.fd)
    (hfd : conn.fd = true) (horder : log.sent <+: log.frames)
    (hnumbered : ∀ call ∈ log.calls, P.transOf call.frame = call.trans ∧
      ∀ trans, call.asked = some trans → call.trans = trans)
    (hreserved : log.reserved = none) : Sound P c net log where
  handle := by rw [hconn]; exact hhandle
  unsettled := by rw [hconn]; exact fun _ => rfl
  dropped := by
    rw [hconn, HtlcConn.startClose_fd, hfd]
    nofun
  in_order := horder
  complete := by
    rw [hconn]
    exact fun hup => absurd hup conn.not_startClose_up
  numbered := hnumbered
  reserved := by
    rw [hreserved]
    nofun

/-- `hlwrite_chunks` before the login settles keeps the connection in agreement. -/
theorem Sound.write_held {P : Packing ρ φ} {c : κ} {net : Net κ φ} {log : Log φ}
    (h : Sound P c net log) (hfd : (net.conns c).fd = true)
    (hsettled : (net.conns c).postLoginFetched = false) (request : ρ) (fresh : Trans)
    (accepted : ℕ) :
    Sound P c (net.write P c request fresh accepted).1
      ((net.write P c request fresh accepted).2.foldl (Log.note c) log) := by
  have hopen : ¬(net.conns c).fd = false := by simp [hfd]
  rw [Net.write, if_neg hopen, if_pos hsettled]
  cases hpack : P.pack request ((net.conns c).nextTrans fresh) with
  | rejected | short =>
    have hlog := Log.foldl_note_failed c [] log
    simp only [List.map_nil] at hlog
    simp only [Packed.effect, Packed.frames, if_true, hlog]
    have hconn := net.setConn_same c
      ((net.conns c).used ((net.conns c).nextTrans fresh) (P.pack request
        ((net.conns c).nextTrans fresh))).startClose
    rw [hpack] at hconn
    refine Sound.closing hconn h.handle hfd ?_ h.numbered rfl
    change log.sent ++ [] <+: log.frames
    rw [List.append_nil]
    exact h.in_order
  | ok frame =>
    have hlog := Log.foldl_note_called c ((net.conns c).nextTrans fresh) frame [] log
    have hsome : ¬ [frame] = [] := List.cons_ne_nil _ _
    simp only [List.map_nil, List.append_nil] at hlog
    simp only [Packed.effect, Packed.frames, hsome, if_false, hlog]
    have hconn := net.setConn_same c
      ((net.conns c).used ((net.conns c).nextTrans fresh) (Packed.ok frame))
    have hheld := net.heldOf_append_same c (net.setConn c
      ((net.conns c).used ((net.conns c).nextTrans fresh) (Packed.ok frame))).conns [frame]
    constructor
    · rw [hconn]
      exact h.handle
    · rw [hconn]
      exact fun _ => hsettled
    · rw [hconn, HtlcConn.used_fd, hfd]
      intro hclosed
      cases hclosed
    · rw [Log.frames_snoc]
      exact h.in_order.trans (List.prefix_append _ _)
    · rw [hconn, HtlcConn.used_up, hheld, Log.frames_snoc]
      intro hup
      rw [← List.append_assoc, ← h.complete hup, Log.frames]
    · exact h.numbered_snoc hfd hpack
    · intro trans hreserved
      cases hreserved

/-- A connection whose login settled is up. -/
theorem Sound.up {P : Packing ρ φ} {c : κ} {net : Net κ φ} {log : Log φ}
    (h : Sound P c net log) (hsettled : (net.conns c).postLoginFetched = true) :
    (net.conns c).Up := by
  by_contra hdown
  rw [h.unsettled hdown] at hsettled
  cases hsettled

/-- `hlwrite_chunks` once the login settled keeps the connection in agreement. -/
theorem Sound.write_sent {P : Packing ρ φ} {c : κ} {net : Net κ φ} {log : Log φ}
    (h : Sound P c net log) (hsettled : (net.conns c).postLoginFetched = true) (request : ρ)
    (fresh : Trans) (accepted : ℕ) :
    Sound P c (net.write P c request fresh accepted).1
      ((net.write P c request fresh accepted).2.foldl (Log.note c) log) := by
  have hup := h.up hsettled
  have hfd := hup.1
  have hbridge : (net.conns c).bridge = true := h.handle.trans hfd
  have hcomplete := h.complete hup
  have hopen : ¬(net.conns c).fd = false := by simp [hfd]
  have hlate : ¬(net.conns c).postLoginFetched = false := by simp [hsettled]
  rw [Net.write, if_neg hopen, if_neg hlate, hbridge]
  cases hpack : P.pack request ((net.conns c).nextTrans fresh) with
  | rejected | short =>
    simp only [Packed.effect, Packed.frames, List.append_nil, true_or, if_true,
      Log.foldl_note_failed]
    obtain ⟨hbegin, -⟩ := sendFrames_spec accepted (net.heldOf c)
    have hconn := net.setConn_same c
      ((net.conns c).used ((net.conns c).nextTrans fresh) (P.pack request
        ((net.conns c).nextTrans fresh))).startClose
    rw [hpack] at hconn
    refine Sound.closing hconn h.handle hfd ?_ h.numbered rfl
    change _ <+: log.frames
    rw [hcomplete]
    exact (List.prefix_append_right_inj _).mpr hbegin
  | ok frame =>
    have hsome : ¬ [frame] = [] := List.cons_ne_nil _ _
    obtain ⟨hbegin, hall⟩ := sendFrames_spec accepted (net.heldOf c ++ [frame])
    have hframes : log.calls.map Call.frame ++ [frame] =
        log.sent ++ (net.heldOf c ++ [frame]) := by
      rw [← List.append_assoc, ← hcomplete, Log.frames]
    have horder : log.sent ++ (sendFrames true accepted (net.heldOf c ++ [frame])).1 <+:
        log.calls.map Call.frame ++ [frame] := by
      rw [hframes]
      exact (List.prefix_append_right_inj _).mpr hbegin
    simp only [Packed.effect, Packed.frames, hsome, false_or, Log.foldl_note_called]
    have hnumbered := h.numbered_snoc hfd hpack
    cases htook : (sendFrames true accepted (net.heldOf c ++ [frame])).2 with
    | false =>
      simp only [if_true]
      have hconn := net.setConn_same c
        ((net.conns c).used ((net.conns c).nextTrans fresh) (Packed.ok frame)).startClose
      refine Sound.closing hconn h.handle hfd ?_ hnumbered rfl
      rw [Log.frames_snoc]
      exact horder
    | true =>
      simp only [Bool.true_eq_false, if_false]
      have hconn := net.setConn_same c
        ((net.conns c).used ((net.conns c).nextTrans fresh) (Packed.ok frame))
      have hheld := net.heldOf_heldBut_same c (net.setConn c
        ((net.conns c).used ((net.conns c).nextTrans fresh) (Packed.ok frame))).conns
      constructor
      · rw [hconn]
        exact h.handle
      · rw [hconn, HtlcConn.used_up]
        exact fun hdown => absurd hup hdown
      · exact fun _ => hheld
      · rw [Log.frames_snoc]
        exact horder
      · intro _
        rw [Log.frames_snoc, hheld, hframes, hall htook, List.append_nil]
      · exact hnumbered
      · intro trans hreserved
        cases hreserved

/-- A connection that changes otherwise agrees with its log. -/
theorem Sound.setConn {P : Packing ρ φ} {c : κ} {net : Net κ φ} {log : Log φ}
    (h : Sound P c net log) {conn : HtlcConn} (hfd : conn.fd = (net.conns c).fd)
    (hbridge : conn.bridge = (net.conns c).bridge) (hup : conn.Up → (net.conns c).Up)
    (hunsettled : ¬conn.Up → conn.postLoginFetched = false) {reserved : Option UInt32}
    (hreserved : ∀ trans, reserved = some trans → conn.fd = true →
      conn.trans = trans ∧ trans ≠ 0) :
    Sound P c (net.setConn c conn) ⟨reserved, log.calls, log.sent⟩ where
  handle := by rw [Net.setConn_same, hbridge, hfd, h.handle]
  unsettled := by rw [Net.setConn_same]; exact hunsettled
  dropped := by rw [Net.setConn_same, hfd]; exact h.dropped
  in_order := h.in_order
  complete := by
    rw [Net.setConn_same]
    exact fun hstill => h.complete (hup hstill)
  numbered := h.numbered
  reserved := by rw [Net.setConn_same]; exact hreserved

/-- A session begins on a connection for which nothing is held. -/
theorem Sound.opened {P : Packing ρ φ} {c : κ} {net : Net κ φ} {log : Log φ}
    (h : Sound P c net log) (hclosed : (net.conns c).fd = false) :
    Sound P c (net.setConn c { net.conns c with fd := true, bridge := true, trans := 0 }) {} where
  handle := by rw [Net.setConn_same]
  unsettled := by
    rw [Net.setConn_same]
    exact fun _ => h.unsettled fun hup => by simp [hup.1] at hclosed
  dropped := by
    rw [Net.setConn_same]
    nofun
  in_order := List.prefix_refl _
  complete := by
    rw [Net.heldOf_setConn, h.dropped hclosed]
    exact fun _ => rfl
  numbered := nofun
  reserved := nofun

/-- A connection that is closed agrees with its log. -/
theorem Sound.closed {P : Packing ρ φ} {c : κ} {net : Net κ φ} {log : Log φ}
    (h : Sound P c net log) {conn : HtlcConn} (hfd : conn.fd = false)
    (hbridge : conn.bridge = false) (hunsettled : conn.postLoginFetched = false) :
    Sound P c { net.setConn c conn with held := net.heldBut c } log where
  handle := by
    change ((net.setConn c conn).conns c).bridge = ((net.setConn c conn).conns c).fd
    rw [Net.setConn_same, hbridge, hfd]
  unsettled := by
    change _ → ((net.setConn c conn).conns c).postLoginFetched = false
    rw [Net.setConn_same]
    exact fun _ => hunsettled
  dropped := fun _ => net.heldOf_heldBut_same c _
  in_order := h.in_order
  complete := by
    change ((net.setConn c conn).conns c).Up → _
    rw [Net.setConn_same]
    exact fun hup => by simp [hup.1] at hfd
  numbered := h.numbered
  reserved := by
    change ∀ trans, log.reserved = some trans → ((net.setConn c conn).conns c).fd = true → _
    rw [Net.setConn_same, hfd]
    nofun

/-- A step on a connection keeps it in agreement with its log. -/
theorem Sound.own {P : Packing ρ φ} {net : Net κ φ} {action : Action κ ρ} {log : Log φ}
    (h : Sound P action.conn net log) :
    Sound P action.conn (net.step P action).1
      ((net.step P action).2.foldl (Log.note action.conn) log) := by
  cases action with
  | connect c installed =>
    change Sound P c net log at h
    simp only [Net.step, Action.conn]
    split
    · exact h
    · rename_i hclosed
      have hclosed : (net.conns c).fd = false := by simpa using hclosed
      split
      · simpa [Log.note] using h.opened hclosed
      · refine h.setConn ?_ ?_ ?_ ?_ ?_
        · rfl
        · rfl
        · exact id
        · exact h.unsettled
        · simp [hclosed]
  | reserve c fresh =>
    change Sound P c net log at h
    simp only [Net.step, List.foldl_cons, List.foldl_nil, Log.note, if_true, Action.conn]
    refine h.setConn ?_ ?_ ?_ ?_ ?_
    · rfl
    · rfl
    · exact id
    · exact h.unsettled
    · rintro trans ⟨⟩ hfd
      exact ⟨rfl, HtlcConn.nextTrans_ne_zero (h.handle.trans hfd) fresh⟩
  | write c request fresh accepted =>
    change Sound P c net log at h
    simp only [Net.step, Action.conn]
    cases hfd : (net.conns c).fd with
    | false =>
      rw [Net.write, if_pos hfd]
      exact h
    | true =>
      cases hsettled : (net.conns c).postLoginFetched with
      | false => exact h.write_held hfd hsettled request fresh accepted
      | true => exact h.write_sent hsettled request fresh accepted
  | settle c =>
    change Sound P c net log at h
    simp only [Net.step, Action.conn]
    split
    · rename_i hup
      refine h.setConn ?_ ?_ ?_ ?_ ?_
      · rfl
      · rfl
      · exact id
      · exact fun hdown => absurd hup hdown
      · exact h.reserved
    · exact h
  | startClose c =>
    change Sound P c net log at h
    refine h.setConn ?_ ?_ ?_ ?_ ?_
    · rfl
    · rfl
    · exact fun hup => absurd hup (HtlcConn.not_startClose_up _)
    · exact fun _ => rfl
    · exact h.reserved
  | endClose c =>
    change Sound P c net log at h
    exact h.closed rfl rfl rfl

/-- A step keeps every connection in agreement with its log. -/
theorem Sound.step {P : Packing ρ φ} {c : κ} {net : Net κ φ} {log : Log φ}
    (h : Sound P c net log) (action : Action κ ρ) :
    Sound P c (net.step P action).1 ((net.step P action).2.foldl (Log.note c) log) := by
  by_cases hown : c = action.conn
  · subst hown
    exact h.own
  · exact h.other hown

/-- Every connection agrees with its log in every run. -/
theorem sound_after (P : Packing ρ φ) (c : κ) (actions : List (Action κ ρ)) :
    Sound P c ((sending P).after actions) (logOf P c actions) := by
  apply Reactive.Machine.record_invariant
  · constructor
    · rfl
    · exact fun _ => rfl
    · exact fun _ => rfl
    · exact List.prefix_refl _
    · exact fun _ => rfl
    · nofun
    · nofun
  · exact fun net log action h => h.step action

/-- A connection that is not up sends nothing, whatever is done. -/
theorem Sound.silent {P : Packing ρ φ} {c : κ} {net : Net κ φ} {log : Log φ}
    (h : Sound P c net log) (hdown : ¬(net.conns c).Up) (action : Action κ ρ) (frame : φ) :
    Effect.sent c frame ∉ (net.step P action).2 := by
  intro hsent
  have hown : c = action.conn := Net.step_effects _ hsent
  have hunsettled := h.unsettled hdown
  cases action with
  | connect c' installed =>
    simp only [Net.step] at hsent
    split at hsent
    · simp at hsent
    · split at hsent <;> simp at hsent
  | reserve | startClose | endClose => simp [Net.step] at hsent
  | settle c' =>
    simp only [Net.step] at hsent
    split at hsent <;> simp at hsent
  | write c' request fresh accepted =>
    obtain rfl : c = c' := hown
    simp only [Net.step, Net.write, hunsettled, if_true] at hsent
    split at hsent
    · simp at hsent
    · cases hpack : P.pack request ((net.conns c).nextTrans fresh) <;>
        simp [hpack, Packed.effect] at hsent

/-- A request sent after the login settled leaves none held. -/
theorem Net.write_caught_up {P : Packing ρ φ} {c : κ} {net : Net κ φ} {request : ρ}
    {fresh : Trans} {accepted : ℕ} (hsettled : (net.conns c).postLoginFetched = true)
    (hfd : (net.conns c).fd = true) :
    (net.write P c request fresh accepted).1.heldOf c = [] := by
  have hopen : ¬(net.conns c).fd = false := by simp [hfd]
  have hlate : ¬(net.conns c).postLoginFetched = false := by simp [hsettled]
  rw [Net.write, if_neg hopen, if_neg hlate]
  exact net.heldOf_heldBut_same c _

/-- Requests that are packed as their opcode and their number. -/
def plain : Packing ℕ (ℕ × UInt32) where
  pack opcode trans := .ok (opcode, trans)
  transOf := Prod.snd
  carries := by
    rintro opcode trans frame ⟨⟩
    rfl

/-- What is asked of two connections before their logins settle goes out after, each on its
own, ahead of the request that follows. -/
example : (logOf plain 0 [.connect 0 true, .connect 1 true, .write 0 105 ⟨42, by decide⟩ 9,
    .write 1 105 ⟨7, by decide⟩ 9, .write 0 200 ⟨43, by decide⟩ 9, .settle 0,
    .write 0 300 ⟨44, by decide⟩ 9]).sent = [(105, 42), (200, 43), (300, 44)] := by decide

end Gtkhx.Control
