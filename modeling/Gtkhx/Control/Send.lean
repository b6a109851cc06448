import Gtkhx.Library.Reactive
import Mathlib.Data.List.Infix
import Mathlib.Logic.Function.Basic

/-!
# The control channel's send primitive

`hlwrite_chunks` packs a request and hands its frame to the connection's transport. What
is asked before a connection's login settles is held, and goes ahead of the first request
after it; the frames of every connection are held in one list. A transport that refuses a
frame, or a request that cannot be packed, closes the connection: `hx_htlc_close` starts
with the login no longer settled and ends by dropping what is held, uninstalling the
transport and clearing the descriptor, and what it tells may send again in between.

Packing is done outside the repository, so it is a parameter, and so are the addresses of
connections, the requests and the frames.
-/

namespace Gtkhx.Control

/-- What packing a request comes to. -/
inductive Packed (φ : Type*)
  /-- The size cannot be told: too many chunks, or too much in them. -/
  | rejected
  /-- Another size was written than was told. -/
  | short
  /-- The frame. -/
  | ok (frame : φ)

/-- The frame that was packed, if one was. -/
def Packed.frames {φ : Type*} : Packed φ → List φ
  | .ok frame => [frame]
  | .rejected | .short => []

/-- The number that stays reserved after packing with `trans`: it is used up only when there
is something to pack. -/
def Packed.leaves {φ : Type*} (trans : UInt32) : Packed φ → UInt32
  | .rejected => trans
  | .short | .ok _ => 0

/-- `gtkhx_proto_pack_message`: a frame carries the transaction number it is packed with. -/
structure Packing (ρ φ : Type*) where
  /-- A request, packed with a transaction number. -/
  pack : ρ → UInt32 → Packed φ
  /-- The transaction number in a frame's header. -/
  transOf : φ → UInt32
  /-- The header has the number the request was packed with. -/
  carries : ∀ request trans frame, pack request trans = .ok frame → transOf frame = trans

/-- A number a session hands out: never 0. -/
abbrev Trans := { trans : UInt32 // trans ≠ 0 }

/-- What the send primitive reads and writes of a connection. -/
structure HtlcConn where
  /-- The descriptor is not 0. -/
  fd : Bool := false
  /-- `post_login_fetched`: the login has settled. -/
  postLoginFetched : Bool := false
  /-- The number reserved for the next request, 0 for none. -/
  trans : UInt32 := 0
  /-- A transport is installed. -/
  bridge : Bool := false
  /-- `hx_htlc_close` is running. -/
  closing : Bool := false
  deriving DecidableEq, Repr

/-- The connections, and `HELD`. -/
structure Net (κ φ : Type*) where
  conns : κ → HtlcConn := fun _ => {}
  held : List (κ × φ) := []

/-- What a step shows of a connection. -/
inductive Effect (κ φ : Type*)
  /-- A transport was installed: a session begins. -/
  | opened (c : κ)
  /-- `next_trans` gave a sender this number. -/
  | numbered (c : κ) (trans : UInt32)
  /-- `hlwrite_chunks` packed this frame with this number. -/
  | called (c : κ) (trans : UInt32) (frame : φ)
  /-- `hlwrite_chunks` could not pack a frame. -/
  | failed (c : κ)
  /-- The connection's transport took this frame. -/
  | sent (c : κ) (frame : φ)
  deriving DecidableEq, Repr

/-- What happens on a connection. -/
inductive Action (κ ρ : Type*)
  /-- `hx_connect`, whose transport is installed or not. -/
  | connect (c : κ) (installed : Bool)
  /-- `next_trans`, before a request's reply is registered; the session's next number. -/
  | reserve (c : κ) (fresh : Trans)
  /-- `hlwrite_chunks`; the transport takes that many frames and refuses the next. -/
  | write (c : κ) (request : ρ) (fresh : Trans) (accepted : ℕ)
  /-- `hx_post_login_fetches`. -/
  | settle (c : κ)
  /-- `hx_htlc_close` is called. -/
  | startClose (c : κ)
  /-- `hx_htlc_close` forgets what is held and lets the transport go. -/
  | endClose (c : κ)

variable {κ ρ φ : Type*} [DecidableEq κ]

/-- The frames held for a connection, oldest first. -/
def Net.heldOf (net : Net κ φ) (c : κ) : List φ :=
  (net.held.filter fun h => h.1 = c).map Prod.snd

/-- What is held for the others. -/
def Net.heldBut (net : Net κ φ) (c : κ) : List (κ × φ) := net.held.filter fun h => h.1 ≠ c

/-- A connection changes. -/
def Net.setConn (net : Net κ φ) (c : κ) (conn : HtlcConn) : Net κ φ :=
  { net with conns := Function.update net.conns c conn }

/-- `next_trans`: the number reserved, or the session's next. -/
def HtlcConn.nextTrans (conn : HtlcConn) (fresh : Trans) : UInt32 :=
  if conn.trans ≠ 0 then conn.trans else if conn.bridge then fresh.1 else 0

/-- The beginning of `hx_htlc_close`. -/
def HtlcConn.startClose (conn : HtlcConn) : HtlcConn :=
  { conn with postLoginFetched := false, closing := true }

/-- The number is used up by packing, unless nothing could be packed. -/
def HtlcConn.used (conn : HtlcConn) (trans : UInt32) (packed : Packed φ) : HtlcConn :=
  { conn with trans := packed.leaves trans }

/-- `send_frame` on one frame after the other, until the transport refuses one: the frames
it took, and whether it took them all. A frame with no transport installed is dropped. -/
def sendFrames (bridge : Bool) : ℕ → List φ → List φ × Bool
  | _, [] => ([], true)
  | accepted, frame :: frames =>
    if bridge = false then sendFrames bridge accepted frames
    else match accepted with
      | 0 => ([], false)
      | accepted + 1 =>
        (frame :: (sendFrames bridge accepted frames).1, (sendFrames bridge accepted frames).2)

/-- What `hlwrite_chunks` shows of packing. -/
def Packed.effect (c : κ) (trans : UInt32) : Packed φ → Effect κ φ
  | .ok frame => .called c trans frame
  | .rejected | .short => .failed c

/-- `hlwrite_chunks`: before the login settles the frame is held; after, what is held for
the connection goes first. A refusal, or a request that was not packed, closes it. -/
def Net.write (P : Packing ρ φ) (net : Net κ φ) (c : κ) (request : ρ) (fresh : Trans)
    (accepted : ℕ) : Net κ φ × List (Effect κ φ) :=
  let conn := net.conns c
  if conn.fd = false then (net, [])
  else
    let trans := conn.nextTrans fresh
    let packed := P.pack request trans
    let used := conn.used trans packed
    if conn.postLoginFetched = false then
      ({ net.setConn c (if packed.frames = [] then used.startClose else used)
          with held := net.held ++ packed.frames.map (c, ·) },
        [packed.effect c trans])
    else
      let out := sendFrames conn.bridge accepted (net.heldOf c ++ packed.frames)
      ({ net.setConn c (if packed.frames = [] ∨ out.2 = false then used.startClose else used)
          with held := net.heldBut c },
        packed.effect c trans :: out.1.map (.sent c))

/-- One step. -/
def Net.step (P : Packing ρ φ) (net : Net κ φ) : Action κ ρ → Net κ φ × List (Effect κ φ)
  | .connect c installed =>
    if (net.conns c).fd then (net, [])
    else if installed then
      (net.setConn c { net.conns c with fd := true, bridge := true, trans := 0 }, [.opened c])
    else (net.setConn c { net.conns c with trans := 0 }, [])
  | .reserve c fresh =>
    (net.setConn c { net.conns c with trans := (net.conns c).nextTrans fresh },
      [.numbered c ((net.conns c).nextTrans fresh)])
  | .write c request fresh accepted => net.write P c request fresh accepted
  | .settle c =>
    if (net.conns c).fd ∧ (net.conns c).closing = false then
      (net.setConn c { net.conns c with postLoginFetched := true }, [])
    else (net, [])
  | .startClose c => (net.setConn c (net.conns c).startClose, [])
  | .endClose c =>
    ({ net.setConn c { net.conns c with fd := false, bridge := false, postLoginFetched := false,
                                        closing := false }
        with held := net.heldBut c }, [])

/-- The connections of a program, none of them open at first. -/
def sending (P : Packing ρ φ) : Reactive.Machine (Net κ φ) (Action κ ρ) (Effect κ φ) where
  start := {}
  step := Net.step P

/-- A call of `hlwrite_chunks` that packed its frame. -/
structure Call (φ : Type*) where
  /-- What `next_trans` gave last since the call before. -/
  asked : Option UInt32
  /-- The number it packed the frame with. -/
  trans : UInt32
  /-- The frame. -/
  frame : φ

/-- What a connection's session did. -/
structure Log (φ : Type*) where
  /-- What `next_trans` gave last since the last call. -/
  reserved : Option UInt32 := none
  /-- The calls, in order. -/
  calls : List (Call φ) := []
  /-- The frames the transport took, in order. -/
  sent : List φ := []

/-- The frames of the calls, in order. -/
def Log.frames (log : Log φ) : List φ := log.calls.map Call.frame

/-- Note what a step shows of a connection. -/
def Log.note (c : κ) (log : Log φ) : Effect κ φ → Log φ
  | .opened c' => if c' = c then {} else log
  | .numbered c' number => if c' = c then { log with reserved := some number } else log
  | .called c' number frame =>
    if c' = c then
      { log with reserved := none, calls := log.calls ++ [⟨log.reserved, number, frame⟩] }
    else log
  | .failed c' => if c' = c then { log with reserved := none } else log
  | .sent c' frame => if c' = c then { log with sent := log.sent ++ [frame] } else log

/-- The log of a connection's last session after a run. -/
def logOf (P : Packing ρ φ) (c : κ) (actions : List (Action κ ρ)) : Log φ :=
  (sending P).record (fun log _ _ effects => effects.foldl (Log.note c) log) {} actions

/-- A connection is up: it has a descriptor and is not closing. -/
def HtlcConn.Up (conn : HtlcConn) : Prop := conn.fd = true ∧ conn.closing = false

/-- A connection's requests leave in order, once, numbered as `next_trans` said. -/
structure Orderly (P : Packing ρ φ) (c : κ) (net : Net κ φ) (log : Log φ) : Prop where
  /-- The frames its transport took are the first of its calls' frames, in order. -/
  in_order : log.sent <+: log.frames
  /-- While it is up, the others are held, in order. -/
  complete : (net.conns c).Up → log.frames = log.sent ++ net.heldOf c
  /-- A frame carries the number `next_trans` gave for it. -/
  numbered : ∀ call ∈ log.calls, P.transOf call.frame = call.trans ∧
    ∀ trans, call.asked = some trans → call.trans = trans
  /-- A request sent after the login settled leaves none held. -/
  caught_up : ∀ request fresh accepted, (net.conns c).postLoginFetched = true →
    (net.write P c request fresh accepted).1.heldOf c = []
  /-- Once it closes nothing leaves, whatever is done. -/
  silent : ¬(net.conns c).Up → ∀ action frame,
    Effect.sent c frame ∉ (net.step P action).2
  /-- Once it is closed nothing is held for it. -/
  dropped : (net.conns c).fd = false → net.heldOf c = []

@[simp] theorem HtlcConn.used_fd (conn : HtlcConn) (trans : UInt32) (packed : Packed φ) :
    (conn.used trans packed).fd = conn.fd := rfl

@[simp] theorem HtlcConn.used_bridge (conn : HtlcConn) (trans : UInt32) (packed : Packed φ) :
    (conn.used trans packed).bridge = conn.bridge := rfl

@[simp] theorem HtlcConn.used_postLoginFetched (conn : HtlcConn) (trans : UInt32)
    (packed : Packed φ) : (conn.used trans packed).postLoginFetched = conn.postLoginFetched := rfl

@[simp] theorem HtlcConn.used_up (conn : HtlcConn) (trans : UInt32) (packed : Packed φ) :
    (conn.used trans packed).Up ↔ conn.Up := Iff.rfl

@[simp] theorem HtlcConn.startClose_fd (conn : HtlcConn) : conn.startClose.fd = conn.fd := rfl

@[simp] theorem HtlcConn.startClose_bridge (conn : HtlcConn) :
    conn.startClose.bridge = conn.bridge := rfl

@[simp] theorem HtlcConn.startClose_postLoginFetched (conn : HtlcConn) :
    conn.startClose.postLoginFetched = false := rfl

@[simp] theorem HtlcConn.not_startClose_up (conn : HtlcConn) : ¬conn.startClose.Up := nofun

/-- The connection an effect is about. -/
def Effect.conn : Effect κ φ → κ
  | .opened c | .numbered c _ | .called c _ _ | .failed c | .sent c _ => c

omit [DecidableEq κ] in
@[simp] theorem Packed.effect_conn (packed : Packed φ) (c : κ) (trans : UInt32) :
    (packed.effect c trans).conn = c := by
  cases packed <;> rfl

theorem Log.note_other {c : κ} {e : Effect κ φ} (h : e.conn ≠ c) (log : Log φ) :
    log.note c e = log := by
  cases e <;> exact if_neg h

/-- What another connection shows is not noted. -/
theorem Log.foldl_note_other {c : κ} {effects : List (Effect κ φ)}
    (h : ∀ e ∈ effects, e.conn ≠ c) (log : Log φ) : effects.foldl (Log.note c) log = log := by
  induction effects with
  | nil => rfl
  | cons e effects ih =>
    rw [List.foldl_cons, Log.note_other (h e List.mem_cons_self)]
    exact ih fun e he => h e (List.mem_cons_of_mem _ he)

/-- The frames a transport took are noted in order. -/
theorem Log.foldl_note_sent (c : κ) (frames : List φ) (log : Log φ) :
    (frames.map (Effect.sent c)).foldl (Log.note c) log =
      { log with sent := log.sent ++ frames } := by
  induction frames generalizing log with
  | nil => simp
  | cons frame frames ih => simp [ih, Log.note]

/-- The transport takes the first of the frames, and all of them unless it refuses one. -/
theorem sendFrames_spec (accepted : ℕ) (frames : List φ) :
    (sendFrames true accepted frames).1 <+: frames ∧
      ((sendFrames true accepted frames).2 = true →
        (sendFrames true accepted frames).1 = frames) := by
  induction frames generalizing accepted with
  | nil => simp [sendFrames]
  | cons frame frames ih =>
    cases accepted with
    | zero => simp [sendFrames]
    | succ accepted =>
      obtain ⟨hbegin, hall⟩ := ih accepted
      simp only [sendFrames, Bool.true_eq_false, if_false, List.cons.injEq, true_and]
      exact ⟨List.cons_prefix_cons.mpr ⟨rfl, hbegin⟩, hall⟩

@[simp] theorem Net.setConn_same (net : Net κ φ) (c : κ) (conn : HtlcConn) :
    (net.setConn c conn).conns c = conn := by
  simp [Net.setConn]

@[simp] theorem Net.setConn_ne (net : Net κ φ) {c c' : κ} (h : c ≠ c') (conn : HtlcConn) :
    (net.setConn c' conn).conns c = net.conns c := by
  simp [Net.setConn, h]

@[simp] theorem Net.heldOf_setConn (net : Net κ φ) (c c' : κ) (conn : HtlcConn) :
    (net.setConn c' conn).heldOf c = net.heldOf c := rfl

/-- Nothing of a connection is among what is held for the others. -/
theorem Net.heldOf_heldBut_same (net : Net κ φ) (c : κ) (conns : κ → HtlcConn) :
    Net.heldOf ⟨conns, net.heldBut c⟩ c = [] := by
  simp [Net.heldOf, Net.heldBut, List.filter_filter]

/-- What is held for another connection stays. -/
theorem Net.heldOf_heldBut_ne (net : Net κ φ) {c c' : κ} (h : c ≠ c') (conns : κ → HtlcConn) :
    Net.heldOf ⟨conns, net.heldBut c'⟩ c = net.heldOf c := by
  have hboth : ∀ held ∈ net.held, (decide (held.1 = c) && decide (held.1 ≠ c')) =
      decide (held.1 = c) := by
    intro held _
    by_cases heq : held.1 = c
    · simp [heq, h]
    · simp [heq]
  rw [Net.heldOf, Net.heldBut, List.filter_filter, List.filter_congr hboth, Net.heldOf]

/-- Frames are held behind what is held already. -/
theorem Net.heldOf_append_same (net : Net κ φ) (c : κ) (conns : κ → HtlcConn)
    (frames : List φ) :
    Net.heldOf ⟨conns, net.held ++ frames.map (c, ·)⟩ c = net.heldOf c ++ frames := by
  have hall : (frames.map (c, ·)).filter (fun h => decide (h.1 = c)) = frames.map (c, ·) := by
    simp [List.filter_eq_self]
  rw [Net.heldOf, List.filter_append, hall, List.map_append, Net.heldOf, List.map_map]
  congr 1
  exact List.map_id _

theorem Net.heldOf_append_ne (net : Net κ φ) {c c' : κ} (h : c ≠ c') (conns : κ → HtlcConn)
    (frames : List φ) :
    Net.heldOf ⟨conns, net.held ++ frames.map (c', ·)⟩ c = net.heldOf c := by
  have hnone : (frames.map (c', ·)).filter (fun h => decide (h.1 = c)) = [] := by
    simp [List.filter_eq_nil_iff, Ne.symm h]
  rw [Net.heldOf, List.filter_append, hnone, List.append_nil, Net.heldOf]

end Gtkhx.Control
