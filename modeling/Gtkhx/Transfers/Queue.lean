import Mathlib.Data.List.Nodup
import Gtkhx.Transfers.Handle

/-!
# The queue of transfers

One list of transfers for all the connections. Its first transfer that is not paused is the one
that runs, so that taking one away starts the next. A connection that closes takes its own
transfers away one after the other, and each of these may start the next one of the same
connection.
-/

namespace Gtkhx.Transfers

/-- A transfer as the list has it. -/
structure Entry where
  /-- The handle's address. -/
  id : ℕ
  handle : Handle
  pause : Option Pause
  /-- How often the server may still refuse it, if the queue started it. -/
  tries : Option ℕ

/-- The state of a connection. -/
structure Conn where
  /-- It has a socket. -/
  fd : Bool
  /-- Its login has settled. -/
  postLoginFetched : Bool
  /-- It has a transport. -/
  bridge : Bool
  /-- It takes large files. -/
  large : Bool

/-- What goes to a transport: a transfer's request, or another frame. -/
inductive Frame
  | file (request : FileRequest)
  | other (bytes : List UInt8)
  deriving DecidableEq

/-- The list of transfers, with the connections they run on. -/
structure Queue where
  list : List Entry
  conn : ℕ → Conn
  /-- What waits for the login of its connection, with the connection. -/
  held : List (ℕ × Frame)
  /-- The transfers whose request awaits a reply, with the connection. -/
  asked : List (ℕ × ℕ)
  /-- What the transports took, in order, with the connection. -/
  sent : List (ℕ × Frame)
  /-- The transfers that were canceled, in order. -/
  canceled : List ℕ

namespace Entry

variable (e : Entry)

/-- The connection it runs on. -/
def htlc : ℕ := e.handle.htlc

/-- `paused`. -/
def paused : Bool :=
  match e.pause with
  | some .winding | some (.paused _) | some (.changed _) | some (.failed _ _) => true
  | _ => false

/-- `xfer_go`, of a transfer that is not paused: `resume_folder` does nothing for a folder. -/
def go (files : Files) (large : Bool) : Entry × Option FileRequest :=
  if e.handle.folder then (e, none)
  else
    let (h, pause, request) := e.handle.go files large e.pause
    ({ e with handle := h, pause := pause }, request)

/-- `start_next` once its head has been started: only a request this sent is the queue's to try
again. -/
def tried (was : Bool) : Entry :=
  if was = false ∧ e.handle.gone ∧ e.tries = none then { e with tries := some 0 } else e

/-- What is told apart of a transfer: its handle, its connection and its pause. -/
def key : ℕ × ℕ × Option Pause := (e.id, e.htlc, e.pause)

end Entry

namespace Queue

/-- The transfer at an address is changed. -/
def modify (q : Queue) (id : ℕ) (f : Entry → Entry) : Queue :=
  { q with list := q.list.map fun e => if e.id = id then f e else e }

/-- A connection's state is changed. -/
def modifyConn (q : Queue) (c : ℕ) (f : Conn → Conn) : Queue :=
  { q with conn := fun c' => if c' = c then f (q.conn c) else q.conn c' }

/-- `hx_recv_forget`. -/
def recvForget (q : Queue) (c : ℕ) : Queue :=
  { q with held := q.held.filter (·.1 ≠ c), asked := q.asked.filter (·.1 ≠ c) }

section

/- Whether a connection's transport takes a frame, whether a request's chunks fit, and the local
files. -/
variable (takes : Queue → ℕ → Bool) (fits : FileRequest → Bool) (files : Files)
/- `hx_htlc_close`, for a send that is refused. -/
variable (close : Queue → ℕ → Queue)

/-- `send_frame`: false when it closed the connection. -/
def sendFrame (q : Queue) (c : ℕ) (f : Frame) : Queue × Bool :=
  if (q.conn c).bridge then
    if takes q c then ({ q with sent := q.sent ++ [(c, f)] }, true) else (close q c, false)
  else (q, true)

/-- What was held goes ahead, in order, until a send is refused. -/
def sendHeld (q : Queue) (c : ℕ) : List Frame → Queue × Bool
  | [] => (q, true)
  | f :: rest =>
    match q.sendFrame takes close c f with
    | (q', true) => sendHeld q' c rest
    | (q', false) => (q', false)

/-- `hlwrite_chunks`. -/
def hlwriteChunks (q : Queue) (c : ℕ) (f : Frame) : Queue :=
  if (q.conn c).fd = false then q
  else if (q.conn c).postLoginFetched = false then { q with held := q.held ++ [(c, f)] }
  else
    match sendHeld takes close { q with held := q.held.filter (·.1 ≠ c) } c
      ((q.held.filter (·.1 = c)).map (·.2)) with
    | (q', true) => (q'.sendFrame takes close c f).1
    | (q', false) => q'

/-- `xfer_go`, of a transfer of the list that is not paused. -/
def xferGo (q : Queue) (e : Entry) : Queue :=
  match e.go files (q.conn e.htlc).large with
  | (e', some r) =>
    let q' := q.modify e.id fun _ => e'
    if fits r then
      { q' with asked := q'.asked ++ [(e.htlc, e.id)] }.hlwriteChunks takes close e.htlc (.file r)
    else q'
  | (e', none) => q.modify e.id fun _ => e'

/-- `start_next`. -/
def startNext (q : Queue) : Queue :=
  match q.list.find? (fun e => !e.paused) with
  | some e =>
    (q.xferGo takes fits files close e).modify e.id fun e' => e'.tried e.handle.gone
  | none => q

/-- `xfer_remove_from_list`. -/
def xferRemoveFromList (q : Queue) (id : ℕ) : Queue :=
  if q.list.any (·.id = id) then
    { q with list := q.list.eraseP (·.id = id) }.startNext takes fits files close
  else q

/-- `xfer_delete`. -/
def xferDelete (q : Queue) (id : ℕ) : Queue :=
  { q with canceled := q.canceled ++ [id] }.xferRemoveFromList takes fits files close id

/-- `xfers_delete_on_conn`. -/
def xfersDeleteOnConn (q : Queue) (c : ℕ) : Queue :=
  ((q.list.filter (·.htlc = c)).map (·.id)).foldl (xferDelete takes fits files close) q

end

/-- `hx_htlc_close`, up to so many closes one inside the other: a close inside one is of a
connection whose login had settled, which it has no more. -/
def hxHtlcClose (takes : Queue → ℕ → Bool) (fits : FileRequest → Bool) (files : Files) :
    (depth : ℕ) → Queue → ℕ → Queue
  | 0, q, _ => q
  | depth + 1, q, c =>
    (((q.modifyConn c fun s =>
      { s with postLoginFetched := false, large := false }).xfersDeleteOnConn takes fits files
        (hxHtlcClose takes fits files depth) c).recvForget c).modifyConn c fun s =>
      { s with fd := false, bridge := false }

end Queue

/-- The same transfer, started if it had not been: its place and its pause are as they were. -/
structure Started (e e' : Entry) : Prop where
  key : e'.key = e.key
  gone : e' = e ∨ e.handle.gone = false ∧ e'.handle.gone = true

/-- The same transfers in the same order, of which only the first that is not paused may have been
started. -/
inductive Spared : List Entry → List Entry → Prop
  | same (l) : Spared l l
  | first {e e' : Entry} (l) (hpaused : e.paused = false) (hstarted : Started e e') :
    Spared (e :: l) (e' :: l)
  | later {e : Entry} {l l' : List Entry} (hpaused : e.paused = true) (hspared : Spared l l') :
    Spared (e :: l) (e :: l')

namespace Started

variable {e e' e'' : Entry}

theorem id_eq (h : Started e e') : e'.id = e.id := (Prod.mk.inj h.key).1

theorem htlc_eq (h : Started e e') : e'.htlc = e.htlc := (Prod.mk.inj (Prod.mk.inj h.key).2).1

theorem pause_eq (h : Started e e') : e'.pause = e.pause := (Prod.mk.inj (Prod.mk.inj h.key).2).2

theorem paused_eq (h : Started e e') : e'.paused = e.paused := by
  simp only [Entry.paused, h.pause_eq]

theorem trans (h : Started e e') (h' : Started e' e'') : Started e e'' := by
  refine ⟨h'.key.trans h.key, ?_⟩
  rcases h.gone with rfl | ⟨hnot, hgone⟩
  · exact h'.gone
  · rcases h'.gone with rfl | ⟨hnot', _⟩
    · exact Or.inr ⟨hnot, hgone⟩
    · simp [hgone] at hnot'

end Started

namespace Spared

variable {l l' l'' : List Entry}

theorem trans (h : Spared l l') (h' : Spared l' l'') : Spared l l'' := by
  induction h generalizing l'' with
  | same _ => exact h'
  | first l hpaused hstarted =>
    cases h' with
    | same => exact first l hpaused hstarted
    | first _ _ hstarted' => exact first l hpaused (hstarted.trans hstarted')
    | later hpaused' _ => simp [hstarted.paused_eq, hpaused] at hpaused'
  | later hpaused hspared ih =>
    cases h' with
    | same => exact later hpaused hspared
    | first _ hpaused' _ => simp [hpaused] at hpaused'
    | later _ hspared' => exact later hpaused (ih hspared')

/-- What holds of a connection's transfers alone. -/
theorem filter (keep : ℕ → Bool) (h : Spared l l') :
    Spared (l.filter fun e => keep e.htlc) (l'.filter fun e => keep e.htlc) := by
  induction h with
  | same _ => exact same _
  | first l hpaused hstarted =>
    simp only [List.filter_cons, hstarted.htlc_eq]
    split
    · exact first _ hpaused hstarted
    · exact same _
  | later hpaused _ ih =>
    simp only [List.filter_cons]
    split
    · exact later hpaused ih
    · exact ih

theorem key_eq (h : Spared l l') : l'.map Entry.key = l.map Entry.key := by
  induction h with
  | same _ => rfl
  | first l _ hstarted => simp [hstarted.key]
  | later _ _ ih => simp [ih]

theorem id_eq (h : Spared l l') : l'.map Entry.id = l.map Entry.id := by
  simpa [Entry.key, Function.comp_def] using congrArg (List.map Prod.fst) h.key_eq

private theorem map_of_absent {id : ℕ} {f : Entry → Entry} (habsent : id ∉ l.map Entry.id) :
    (l.map fun x => if x.id = id then f x else x) = l := by
  conv_rhs => rw [← List.map_id l]
  apply List.map_congr_left
  intro x hx
  have hne : x.id ≠ id := fun heq => habsent (heq ▸ List.mem_map_of_mem hx)
  simp [hne]

/-- The first transfer that is not paused is changed. -/
theorem modify {e : Entry} {f : Entry → Entry} (hnodup : (l.map Entry.id).Nodup)
    (hfirst : l.find? (fun e => !e.paused) = some e) (hf : Started e (f e)) :
    Spared l (l.map fun x => if x.id = e.id then f x else x) := by
  induction l with
  | nil => exact same []
  | cons x l ih =>
    obtain ⟨hx, hl⟩ := List.nodup_cons.mp hnodup
    by_cases hpaused : x.paused = true
    · have hfind : l.find? (fun e => !e.paused) = some e := by
        simpa [List.find?_cons, hpaused] using hfirst
      have hne : x.id ≠ e.id := by
        intro heq
        exact hx (heq ▸ List.mem_map_of_mem (List.mem_of_find?_eq_some hfind))
      simpa [hne] using later hpaused (ih hl hfind)
    · have hxe : x = e := by simpa [List.find?_cons, hpaused] using hfirst
      subst hxe
      simpa [map_of_absent hx] using first l (by simpa using hpaused) hf

end Spared

namespace Handle

variable (h : Handle) (files : Files)

theorem resumeOrRename_kept (kept : Option Disk) :
    (h.resumeOrRename files kept).1.gone = h.gone ∧
      (h.resumeOrRename files kept).1.htlc = h.htlc := by
  unfold resumeOrRename
  split
  · exact ⟨rfl, rfl⟩
  · split
    · exact ⟨rfl, rfl⟩
    · dsimp only
      split
      · exact ⟨rfl, rfl⟩
      · split <;> exact ⟨rfl, rfl⟩

/-- A transfer that is started for the first time. -/
theorem request_fresh (large : Bool) :
    (h.request files large none none).1.gone = h.gone ∧
      (h.request files large none none).1.htlc = h.htlc := by
  unfold request
  split
  · exact ⟨rfl, rfl⟩
  · exact resumeOrRename_kept h files none

end Handle

namespace Entry

variable {e : Entry} (files : Files) (large : Bool)

/-- A transfer that is not paused is started, or left as it is. -/
theorem go_started (hpaused : e.paused = false) : Started e (e.go files large).1 := by
  have hsame : Started e e := ⟨rfl, Or.inl rfl⟩
  unfold go
  split
  · exact hsame
  · rcases hpause : e.pause with _ | pause
    · by_cases hgone : e.handle.gone
      · simpa [Handle.go, hgone, ← hpause] using hsame
      · have hfresh := Handle.request_fresh { e.handle with gone := true } files large
        refine ⟨?_, Or.inr ⟨by simpa using hgone, ?_⟩⟩
        · simp [Handle.go, hgone, key, htlc, hfresh, hpause]
        · simp [Handle.go, hgone, hfresh]
    · have hgo : e.handle.go files large (some pause) = (e.handle, some pause, none) := by
        cases pause <;> simp_all [Handle.go, paused]
      simp only [hgo]
      exact ⟨by simp [key, htlc, hpause], Or.inl (by rw [← hpause])⟩

theorem tried_started {e' : Entry} (h : Started e e') : Started e (e'.tried e.handle.gone) := by
  unfold tried
  split
  next htried => exact ⟨h.key, Or.inr ⟨htried.1, htried.2.1⟩⟩
  next => exact h

end Entry

/-- A connection that closes, in a list of different transfers: its login is taken back. -/
structure Closing (c : ℕ) (q : Queue) : Prop where
  unsettled : (q.conn c).postLoginFetched = false
  nodup : (q.list.map Entry.id).Nodup

/-- Nothing is sent on a connection that closes, and the list only loses transfers. -/
structure Quiet (c : ℕ) (q q' : Queue) : Prop where
  unsettled : (q'.conn c).postLoginFetched = false
  silent : ∃ more, q'.sent = q.sent ++ more ∧ ∀ f ∈ more, f.1 ≠ c
  rows : (q'.list.map Entry.key).Sublist (q.list.map Entry.key)
  canceled : q.canceled ⊆ q'.canceled

/-- A transfer was canceled and is not in the list. -/
structure Gone (id : ℕ) (q : Queue) : Prop where
  unlisted : id ∉ q.list.map Entry.id
  canceled : id ∈ q.canceled

namespace Quiet

variable {c : ℕ} {q q' q'' : Queue}

theorem refl (hq : Closing c q) : Quiet c q q :=
  ⟨hq.unsettled, ⟨[], by simp, by simp⟩, List.Sublist.refl _, List.Subset.refl _⟩

theorem trans (h : Quiet c q q') (h' : Quiet c q' q'') : Quiet c q q'' := by
  obtain ⟨more, hsent, hmore⟩ := h.silent
  obtain ⟨more', hsent', hmore'⟩ := h'.silent
  refine ⟨h'.unsettled, ⟨more ++ more', by rw [hsent', hsent, List.append_assoc], ?_⟩,
    h'.rows.trans h.rows, List.Subset.trans h.canceled h'.canceled⟩
  intro f hf
  exact (List.mem_append.mp hf).elim (hmore f) (hmore' f)

theorem ids (h : Quiet c q q') : (q'.list.map Entry.id).Sublist (q.list.map Entry.id) := by
  simpa [Entry.key, Function.comp_def] using h.rows.map Prod.fst

theorem gone {id : ℕ} (h : Quiet c q q') (hgone : Gone id q) : Gone id q' :=
  ⟨fun hin => hgone.unlisted (h.ids.subset hin), h.canceled hgone.canceled⟩

theorem closing (h : Quiet c q q') (hq : Closing c q) : Closing c q' :=
  ⟨h.unsettled, hq.nodup.sublist h.ids⟩

end Quiet

namespace Queue

section

variable (takes : Queue → ℕ → Bool) (fits : FileRequest → Bool) (files : Files)
variable {close : Queue → ℕ → Queue} {c : ℕ}
variable (hclose : ∀ q c', Closing c q → Quiet c q (close q c'))

include hclose

theorem sendFrame_quiet {q : Queue} {c' : ℕ} (hne : c' ≠ c) (f : Frame) (hq : Closing c q) :
    Quiet c q (q.sendFrame takes close c' f).1 := by
  unfold sendFrame
  split
  · split
    · refine ⟨hq.unsettled, ⟨[(c', f)], rfl, ?_⟩, List.Sublist.refl _, List.Subset.refl _⟩
      simpa using hne
    · exact hclose q c' hq
  · exact Quiet.refl hq

theorem sendHeld_quiet {q : Queue} {c' : ℕ} (hne : c' ≠ c) (held : List Frame)
    (hq : Closing c q) : Quiet c q (q.sendHeld takes close c' held).1 := by
  induction held generalizing q with
  | nil => exact Quiet.refl hq
  | cons f rest ih =>
    have hsend := sendFrame_quiet takes hclose hne f hq
    unfold sendHeld
    split
    next q' heq =>
      rw [heq] at hsend
      exact hsend.trans (ih (hsend.closing hq))
    next q' heq =>
      rw [heq] at hsend
      exact hsend

/-- What is asked on a connection that closes is held. -/
theorem hlwriteChunks_quiet {q : Queue} (c' : ℕ) (f : Frame) (hq : Closing c q) :
    Quiet c q (q.hlwriteChunks takes close c' f) := by
  unfold hlwriteChunks
  split
  · exact Quiet.refl hq
  · split
    next => exact ⟨hq.unsettled, ⟨[], by simp, by simp⟩, List.Sublist.refl _, List.Subset.refl _⟩
    next hsettled =>
      have hne : c' ≠ c := by
        rintro rfl
        exact hsettled hq.unsettled
      have hdrop : Quiet c q { q with held := q.held.filter (·.1 ≠ c') } :=
        ⟨hq.unsettled, ⟨[], by simp, by simp⟩, List.Sublist.refl _, List.Subset.refl _⟩
      have hheld := hdrop.trans (sendHeld_quiet takes hclose hne
        ((q.held.filter (·.1 = c')).map (·.2)) (hdrop.closing hq))
      split
      next q' heq =>
        rw [heq] at hheld
        exact hheld.trans (sendFrame_quiet takes hclose hne f (hheld.closing hq))
      next q' heq =>
        rw [heq] at hheld
        exact hheld

/-- The first transfer that is not paused is started: nothing goes out on a connection that
closes. -/
theorem xferGo_quiet {q : Queue} {e : Entry} (hfirst : q.list.find? (fun e => !e.paused) = some e)
    (hq : Closing c q) : Quiet c q (q.xferGo takes fits files close e) := by
  have hpaused : e.paused = false := by simpa using List.find?_some hfirst
  have hmodify : Quiet c q (q.modify e.id fun _ => (e.go files (q.conn e.htlc).large).1) := by
    refine ⟨hq.unsettled, ⟨[], by simp [modify], by simp⟩, ?_, List.Subset.refl _⟩
    have hspared := Spared.modify (f := fun _ => (e.go files (q.conn e.htlc).large).1) hq.nodup
      hfirst (Entry.go_started files (q.conn e.htlc).large hpaused)
    rw [← hspared.key_eq]
    exact List.Sublist.refl _
  unfold xferGo
  split
  next e' r heq =>
    rw [heq] at hmodify
    dsimp only
    split
    · have hask : Closing c { q.modify e.id fun _ => e' with
          asked := (q.modify e.id fun _ => e').asked ++ [(e.htlc, e.id)] } :=
        ⟨hmodify.unsettled, (hmodify.closing hq).nodup⟩
      have hwrite := hlwriteChunks_quiet takes hclose e.htlc (.file r) hask
      exact ⟨hwrite.unsettled, (hmodify.trans
        ⟨hwrite.unsettled, hwrite.silent, hwrite.rows, hwrite.canceled⟩).silent,
        hwrite.rows.trans hmodify.rows, hwrite.canceled⟩
    · exact hmodify
  next e' heq =>
    rw [heq] at hmodify
    exact hmodify

theorem startNext_quiet {q : Queue} (hq : Closing c q) :
    Quiet c q (q.startNext takes fits files close) := by
  unfold startNext
  split
  next e hfirst =>
    have hgo := xferGo_quiet takes fits files hclose hfirst hq
    refine hgo.trans ⟨hgo.unsettled, ⟨[], by simp [modify], by simp⟩, ?_, List.Subset.refl _⟩
    have hkey : ∀ x : Entry, (if x.id = e.id then x.tried e.handle.gone else x).key = x.key := by
      intro x
      split
      · unfold Entry.tried
        split <;> rfl
      · rfl
    simp [modify, Function.comp_def, hkey]
  next => exact Quiet.refl hq

omit hclose in
private theorem map_eraseP_id (l : List Entry) (id : ℕ) :
    (l.eraseP (·.id = id)).map Entry.id = (l.map Entry.id).erase id := by
  rw [List.erase_eq_eraseP, List.eraseP_map]
  congr 2
  funext e
  simp [beq_eq_decide, eq_comm]

theorem xferDelete_quiet {q : Queue} (id : ℕ) (hq : Closing c q) :
    Quiet c q (q.xferDelete takes fits files close id) ∧
      Gone id (q.xferDelete takes fits files close id) := by
  unfold xferDelete xferRemoveFromList
  split
  next hany =>
    have hsub : (q.list.eraseP (·.id = id)).Sublist q.list := List.eraseP_sublist
    have herase : Quiet c q { q with
        canceled := q.canceled ++ [id], list := q.list.eraseP (·.id = id) } :=
      ⟨hq.unsettled, ⟨[], by simp, by simp⟩, hsub.map _, List.subset_append_left _ _⟩
    have hnext := startNext_quiet takes fits files hclose
      (herase.closing hq)
    refine ⟨herase.trans hnext, hnext.gone ⟨?_, by simp⟩⟩
    simp only [map_eraseP_id]
    exact hq.nodup.not_mem_erase
  next hnone =>
    refine ⟨⟨hq.unsettled, ⟨[], by simp, by simp⟩, List.Sublist.refl _,
      List.subset_append_left _ _⟩, ?_, by simp⟩
    simpa using hnone

/-- Transfers are canceled one after the other: none of them is left. -/
theorem foldl_xferDelete_quiet {q : Queue} (ids : List ℕ) (hq : Closing c q) :
    Quiet c q (ids.foldl (xferDelete takes fits files close) q) ∧
      ∀ id ∈ ids, Gone id (ids.foldl (xferDelete takes fits files close) q) := by
  induction ids generalizing q with
  | nil => exact ⟨Quiet.refl hq, by simp⟩
  | cons id ids ih =>
    obtain ⟨hdelete, hgone⟩ := xferDelete_quiet takes fits files hclose id hq
    obtain ⟨hrest, hall⟩ := ih (hdelete.closing hq)
    refine ⟨hdelete.trans hrest, ?_⟩
    intro id' hid'
    rcases List.mem_cons.mp hid' with rfl | hid'
    · exact hrest.gone hgone
    · exact hall id' hid'

/-- A connection that closes keeps none of its transfers. -/
theorem xfersDeleteOnConn_quiet {q : Queue} (hq : Closing c q) :
    Quiet c q (q.xfersDeleteOnConn takes fits files close c) ∧
      (∀ e ∈ (q.xfersDeleteOnConn takes fits files close c).list, e.htlc ≠ c) ∧
      ∀ e ∈ q.list, e.htlc = c →
        e.id ∈ (q.xfersDeleteOnConn takes fits files close c).canceled := by
  obtain ⟨hquiet, hgone⟩ := foldl_xferDelete_quiet takes fits files hclose
    ((q.list.filter (·.htlc = c)).map (·.id)) hq
  have hdoomed : ∀ e ∈ q.list, e.htlc = c → e.id ∈ (q.list.filter (·.htlc = c)).map (·.id) :=
    fun e he heq => List.mem_map_of_mem (List.mem_filter.mpr ⟨he, by simpa using heq⟩)
  refine ⟨hquiet, ?_, fun e he heq => (hgone e.id (hdoomed e he heq)).canceled⟩
  intro e he heq
  obtain ⟨e₀, he₀, hkey⟩ := List.mem_map.mp
    (hquiet.rows.subset (List.mem_map_of_mem (f := Entry.key) he))
  have hid : e₀.id = e.id := congrArg Prod.fst hkey
  have hhtlc : e₀.htlc = e.htlc := congrArg (fun k => k.2.1) hkey
  have hin := hdoomed e₀ he₀ (hhtlc.trans heq)
  rw [hid] at hin
  exact (hgone e.id hin).unlisted (List.mem_map_of_mem he)

end

private theorem modifyConn_unsettled {q : Queue} {c c' : ℕ} {f : Conn → Conn}
    (hf : ∀ s : Conn, s.postLoginFetched = false → (f s).postLoginFetched = false)
    (h : (q.conn c).postLoginFetched = false) :
    ((q.modifyConn c' f).conn c).postLoginFetched = false := by
  by_cases heq : c = c'
  · subst heq
    simpa [modifyConn] using hf _ h
  · simpa [modifyConn, heq] using h

/-- Whatever closes, nothing is sent on a connection that closes already. -/
theorem hxHtlcClose_quiet {takes : Queue → ℕ → Bool} {fits : FileRequest → Bool} {files : Files}
    {c : ℕ} (depth : ℕ) (q : Queue) (c' : ℕ) (hq : Closing c q) :
    Quiet c q (hxHtlcClose takes fits files depth q c') := by
  induction depth generalizing q c' with
  | zero => exact Quiet.refl hq
  | succ depth ih =>
    have hclear : Quiet c q (q.modifyConn c' fun s =>
        { s with postLoginFetched := false, large := false }) :=
      ⟨modifyConn_unsettled (fun _ _ => rfl) hq.unsettled, ⟨[], by simp [modifyConn], by simp⟩,
        List.Sublist.refl _, List.Subset.refl _⟩
    have hsweep := (foldl_xferDelete_quiet takes fits files ih
      ((q.list.filter (·.htlc = c')).map (·.id)) (hclear.closing hq)).1
    refine (hclear.trans hsweep).trans ⟨?_, ⟨[], (List.append_nil _).symm, by simp⟩,
      List.Sublist.refl _, List.Subset.refl _⟩
    exact modifyConn_unsettled (fun _ h => h) hsweep.unsettled

/-- The same list with the same connections: at most more was sent, held or asked. -/
structure Same (q q' : Queue) : Prop where
  list : q'.list = q.list
  conn : q'.conn = q.conn
  canceled : q'.canceled = q.canceled

theorem Same.refl (q : Queue) : Same q q := ⟨rfl, rfl, rfl⟩

theorem Same.trans {q q' q'' : Queue} (h : Same q q') (h' : Same q' q'') : Same q q'' :=
  ⟨h'.list.trans h.list, h'.conn.trans h.conn, h'.canceled.trans h.canceled⟩

section

variable {takes : Queue → ℕ → Bool} (fits : FileRequest → Bool) (files : Files)
variable (close : Queue → ℕ → Queue) {c : ℕ}
variable (htakes : ∀ q c', c' ≠ c → takes q c' = true)

include htakes

theorem sendFrame_same (q : Queue) {c' : ℕ} (hne : c' ≠ c) (f : Frame) :
    Same q (q.sendFrame takes close c' f).1 ∧ (q.sendFrame takes close c' f).2 = true := by
  unfold sendFrame
  rw [htakes q c' hne, if_pos rfl]
  split
  · exact ⟨⟨rfl, rfl, rfl⟩, rfl⟩
  · exact ⟨Same.refl q, rfl⟩

theorem sendHeld_same (q : Queue) {c' : ℕ} (hne : c' ≠ c) (held : List Frame) :
    Same q (q.sendHeld takes close c' held).1 ∧ (q.sendHeld takes close c' held).2 = true := by
  induction held generalizing q with
  | nil => exact ⟨Same.refl q, rfl⟩
  | cons f rest ih =>
    obtain ⟨hsame, htrue⟩ := sendFrame_same close htakes q hne f
    unfold sendHeld
    split
    next q' heq =>
      rw [heq] at hsame
      exact ⟨hsame.trans (ih q').1, (ih q').2⟩
    next q' heq =>
      rw [heq] at htrue
      cases htrue

theorem hlwriteChunks_same {q : Queue} (c' : ℕ) (f : Frame) (hq : Closing c q) :
    Same q (q.hlwriteChunks takes close c' f) := by
  unfold hlwriteChunks
  split
  · exact Same.refl q
  · split
    next => exact ⟨rfl, rfl, rfl⟩
    next hsettled =>
      have hne : c' ≠ c := by
        rintro rfl
        exact hsettled hq.unsettled
      obtain ⟨hheld, htrue⟩ := sendHeld_same close htakes
        { q with held := q.held.filter (·.1 ≠ c') } hne ((q.held.filter (·.1 = c')).map (·.2))
      have hdrop : Same q { q with held := q.held.filter (·.1 ≠ c') } := ⟨rfl, rfl, rfl⟩
      split
      next q' heq =>
        rw [heq] at hheld
        exact (hdrop.trans hheld).trans (sendFrame_same close htakes q' hne f).1
      next q' heq =>
        rw [heq] at htrue
        cases htrue

/-- The transfer the queue starts, and nothing else. -/
theorem xferGo_same {q : Queue} (e : Entry) (hq : Closing c q)
    (hnodup : ((q.modify e.id fun _ => (e.go files (q.conn e.htlc).large).1).list.map
      Entry.id).Nodup) :
    Same (q.modify e.id fun _ => (e.go files (q.conn e.htlc).large).1)
      (q.xferGo takes fits files close e) := by
  unfold xferGo
  split
  next e' r heq =>
    rw [heq] at hnodup
    rw [heq]
    dsimp only
    split
    · have hask : Closing c { q.modify e.id fun _ => e' with
          asked := (q.modify e.id fun _ => e').asked ++ [(e.htlc, e.id)] } :=
        ⟨hq.unsettled, hnodup⟩
      have hwrite := hlwriteChunks_same close htakes e.htlc (.file r) hask
      exact ⟨hwrite.list, hwrite.conn, hwrite.canceled⟩
    · exact Same.refl _
  next e' heq =>
    rw [heq]
    exact Same.refl _

/-- The queue starts the first transfer that is not paused, and changes nothing else of the
list. -/
theorem startNext_spared {q : Queue} (hq : Closing c q) :
    Spared q.list (q.startNext takes fits files close).list ∧
      (q.startNext takes fits files close).conn = q.conn ∧
      (q.startNext takes fits files close).canceled = q.canceled := by
  unfold startNext
  split
  next e hfirst =>
    have hpaused : e.paused = false := by simpa using List.find?_some hfirst
    have hstarted := Entry.go_started files (q.conn e.htlc).large hpaused
    have hnodup : ((q.modify e.id fun _ => (e.go files (q.conn e.htlc).large).1).list.map
        Entry.id).Nodup := by
      have hspared := Spared.modify (f := fun _ => (e.go files (q.conn e.htlc).large).1) hq.nodup
        hfirst hstarted
      exact hspared.id_eq ▸ hq.nodup
    have hgo := xferGo_same fits files close htakes e hq hnodup
    refine ⟨?_, hgo.conn, hgo.canceled⟩
    have hboth := Spared.modify
      (f := fun _ => (e.go files (q.conn e.htlc).large).1.tried e.handle.gone) hq.nodup hfirst
      (Entry.tried_started hstarted)
    simp only [modify, hgo.list, List.map_map]
    convert hboth using 3
    next x =>
      by_cases hx : x.id = e.id
      · simp [hx, hstarted.id_eq]
      · simp [hx]
  next => exact ⟨Spared.same _, rfl, rfl⟩

/-- One transfer is canceled. -/
theorem xferDelete_spared {q : Queue} {e : Entry} (he : e ∈ q.list) (hq : Closing c q) :
    Spared (q.list.eraseP (·.id = e.id)) (q.xferDelete takes fits files close e.id).list ∧
      (q.xferDelete takes fits files close e.id).conn = q.conn ∧
      (q.xferDelete takes fits files close e.id).canceled = q.canceled ++ [e.id] := by
  have hany : q.list.any (·.id = e.id) = true := List.any_eq_true.mpr ⟨e, he, by simp⟩
  have herase : Closing c { q with
      canceled := q.canceled ++ [e.id], list := q.list.eraseP (·.id = e.id) } :=
    ⟨hq.unsettled, hq.nodup.sublist (List.eraseP_sublist.map _)⟩
  simp only [xferDelete, xferRemoveFromList, hany, if_true]
  exact startNext_spared fits files close htakes herase

omit htakes in
private theorem eraseP_eq_filter {l : List Entry} {id : ℕ} (hnodup : (l.map Entry.id).Nodup) :
    l.eraseP (·.id = id) = l.filter (·.id ≠ id) := by
  induction l with
  | nil => rfl
  | cons x l ih =>
    obtain ⟨hx, hl⟩ := List.nodup_cons.mp hnodup
    by_cases hid : x.id = id
    · subst hid
      have hrest : l.filter (·.id ≠ x.id) = l := by
        apply List.filter_eq_self.mpr
        intro y hy
        have hne : y.id ≠ x.id := fun heq => hx (heq ▸ List.mem_map_of_mem hy)
        simpa using hne
      simp only [List.filter_cons, List.eraseP_cons, hrest]
      simp
    · simp only [List.filter_cons, List.eraseP_cons, ih hl]
      simp [hid]

omit htakes in
private theorem filter_eraseP_eq {l rest : List Entry} {e : Entry} {p : Entry → Bool}
    (hnodup : (l.map Entry.id).Nodup) (hfilter : l.filter p = e :: rest) :
    (l.eraseP (·.id = e.id)).filter p = rest := by
  have hsub : (((e :: rest).map Entry.id)).Nodup :=
    hfilter ▸ hnodup.sublist (List.filter_sublist.map _)
  obtain ⟨he, _⟩ := List.nodup_cons.mp hsub
  rw [eraseP_eq_filter hnodup, List.filter_comm, hfilter]
  have hrest : rest.filter (·.id ≠ e.id) = rest := by
    apply List.filter_eq_self.mpr
    intro y hy
    have hne : y.id ≠ e.id := fun heq => he (heq ▸ List.mem_map_of_mem hy)
    simpa using hne
  simp only [List.filter_cons, hrest]
  simp

/-- The transfers of a connection are canceled one after the other, and those of the others
spared. -/
theorem foldl_xferDelete_spared {q : Queue} (ids : List ℕ) (hq : Closing c q)
    (hids : (q.list.filter (·.htlc = c)).map (·.id) = ids) :
    Spared (q.list.filter (·.htlc ≠ c))
        ((ids.foldl (xferDelete takes fits files close) q).list.filter (·.htlc ≠ c)) ∧
      (ids.foldl (xferDelete takes fits files close) q).canceled = q.canceled ++ ids := by
  induction ids generalizing q with
  | nil => exact ⟨Spared.same _, (List.append_nil _).symm⟩
  | cons id ids ih =>
    obtain ⟨e, rest, hfilter, rfl, hrest⟩ := List.map_eq_cons_iff.mp hids
    have hmem : e ∈ q.list.filter (·.htlc = c) := hfilter ▸ List.mem_cons_self
    obtain ⟨he, hhtlc⟩ := List.mem_filter.mp hmem
    obtain ⟨hspared, hconn, hcanceled⟩ := xferDelete_spared fits files close htakes he hq
    have hclosing : Closing c (q.xferDelete takes fits files close e.id) := by
      refine ⟨hconn ▸ hq.unsettled, ?_⟩
      rw [hspared.id_eq]
      exact hq.nodup.sublist (List.eraseP_sublist.map _)
    have hdoomed : (q.list.eraseP (·.id = e.id)).filter (·.htlc = c) = rest :=
      filter_eraseP_eq hq.nodup hfilter
    have hothers : (q.list.eraseP (·.id = e.id)).filter (·.htlc ≠ c) =
        q.list.filter (·.htlc ≠ c) := by
      rw [eraseP_eq_filter hq.nodup, List.filter_filter]
      apply List.filter_congr
      intro x hx
      have hne : x.htlc ≠ c → x.id ≠ e.id := by
        intro hne heq
        rw [List.inj_on_of_nodup_map hq.nodup hx he heq] at hne
        exact hne (by simpa using hhtlc)
      simpa using hne
    have hnext := ih hclosing (by
      rw [(hspared.filter fun c' => decide (c' = c)).id_eq, hdoomed, hrest])
    refine ⟨?_, ?_⟩
    · have hfirst := hspared.filter fun c' => decide (c' ≠ c)
      rw [hothers] at hfirst
      exact hfirst.trans hnext.1
    · rw [List.foldl_cons, hnext.2, hcanceled, List.append_assoc, List.singleton_append]

/-- The transfers of a connection are canceled, and the others are spared. -/
theorem xfersDeleteOnConn_spared {q : Queue} (hq : Closing c q)
    (hnone : ∀ e ∈ (q.xfersDeleteOnConn takes fits files close c).list, e.htlc ≠ c) :
    Spared (q.list.filter (·.htlc ≠ c)) (q.xfersDeleteOnConn takes fits files close c).list ∧
      (q.xfersDeleteOnConn takes fits files close c).canceled =
        q.canceled ++ (q.list.filter (·.htlc = c)).map (·.id) := by
  obtain ⟨hspared, hcanceled⟩ := foldl_xferDelete_spared fits files close htakes
    ((q.list.filter (·.htlc = c)).map (·.id)) hq rfl
  have hkeep : (q.xfersDeleteOnConn takes fits files close c).list.filter (·.htlc ≠ c) =
      (q.xfersDeleteOnConn takes fits files close c).list :=
    List.filter_eq_self.mpr fun e he => by simpa using hnone e he
  exact ⟨hkeep ▸ hspared, hcanceled⟩

end

end Queue

/-- What closing a connection does, whatever the transports take. -/
structure Closed (c : ℕ) (before after : Queue) : Prop where
  /-- Nothing is sent on it. -/
  silent : ∃ more, after.sent = before.sent ++ more ∧ ∀ f ∈ more, f.1 ≠ c
  /-- Nothing is left to be sent on it. -/
  forgotten : (∀ f ∈ after.held, f.1 ≠ c) ∧ ∀ a ∈ after.asked, a.1 ≠ c
  /-- None of its transfers is in the list. -/
  unlisted : ∀ e ∈ after.list, e.htlc ≠ c
  /-- All of them are canceled. -/
  doomed : ∀ e ∈ before.list, e.htlc = c → e.id ∈ after.canceled
  /-- The transfers in the list are in the order they had, and paused as they were. -/
  ordered : (after.list.map Entry.key).Sublist (before.list.map Entry.key)

/-- The transfers of a connection are canceled, and the others are spared. -/
structure OnlyOn (c : ℕ) (before after : Queue) : Prop where
  canceled : after.canceled = before.canceled ++ (before.list.filter (·.htlc = c)).map (·.id)
  spared : Spared (before.list.filter (·.htlc ≠ c)) after.list

/-- Disconnecting starts nothing on the connection that closes. -/
theorem hxHtlcClose_closes (takes : Queue → ℕ → Bool) (fits : FileRequest → Bool) (files : Files)
    (depth : ℕ) (q : Queue) (c : ℕ) (hnodup : (q.list.map Entry.id).Nodup) :
    Closed c q (q.hxHtlcClose takes fits files (depth + 1) c) ∧
      ((∀ q' c', c' ≠ c → takes q' c' = true) →
        OnlyOn c q (q.hxHtlcClose takes fits files (depth + 1) c)) := by
  have hclosing : Closing c (q.modifyConn c fun s =>
      { s with postLoginFetched := false, large := false }) :=
    ⟨by simp [Queue.modifyConn], hnodup⟩
  obtain ⟨hquiet, hnone, hdoomed⟩ := Queue.xfersDeleteOnConn_quiet takes fits files
    (Queue.hxHtlcClose_quiet depth) hclosing
  constructor
  · refine ⟨hquiet.silent, ⟨?_, ?_⟩, hnone, hdoomed, hquiet.rows⟩
    · intro f hf
      simpa using (List.mem_filter.mp hf).2
    · intro a ha
      simpa using (List.mem_filter.mp ha).2
  · intro htakes
    obtain ⟨hspared, hcanceled⟩ := Queue.xfersDeleteOnConn_spared fits files
      (Queue.hxHtlcClose takes fits files depth) htakes hclosing hnone
    exact ⟨hcanceled, hspared⟩

section Sample

/-- The upload of a file on a connection, started or not. -/
def upload (htlc : ℕ) (gone : Bool) : Handle where
  htlc := htlc
  upload := true
  folder := false
  preview := false
  path := [97]
  remotedir := [47]
  remotename := [97]
  srvDataSize := 0
  gone := gone
  ref := 0
  queue := 0
  dataPos := 0
  rsrcPos := 0
  dataSize := 0
  rsrcSize := 0
  totalSize := 5
  totalPos := 0
  canceled := false

/-- Two connections with two transfers each: one works, one pauses, and two wait. -/
def uploads : Queue where
  list := [⟨10, upload 1 true, none, none⟩, ⟨11, upload 1 false, none, none⟩,
    ⟨20, upload 2 true, some .winding, none⟩, ⟨21, upload 2 false, none, none⟩]
  conn := fun _ => ⟨true, true, true, false⟩
  held := []
  asked := []
  sent := []
  canceled := []

/-- No local file at all. -/
def noFiles : Files := ⟨fun _ => none, fun _ => 0⟩

theorem uploads_closed :
    Closed 1 uploads (uploads.hxHtlcClose (fun _ _ => true) (fun _ => true) noFiles 1 1) ∧
      OnlyOn 1 uploads (uploads.hxHtlcClose (fun _ _ => true) (fun _ => true) noFiles 1 1) := by
  obtain ⟨hclosed, honly⟩ := hxHtlcClose_closes (fun _ _ => true) (fun _ => true) noFiles 0
    uploads 1 (by decide)
  exact ⟨hclosed, honly fun _ _ _ => rfl⟩

/-- With the login still settled the connection's next transfer is asked for, and a transfer of
another connection whose request is refused takes that connection with it. -/
theorem uploads_refused :
    (uploads.xfersDeleteOnConn (fun _ _ => true) (fun _ => true) noFiles
        (Queue.hxHtlcClose (fun _ _ => true) (fun _ => true) noFiles 2) 1).sent.map Prod.fst =
        [1, 2] ∧
      (uploads.hxHtlcClose (fun _ c => c ≠ 2) (fun _ => true) noFiles 2 1).canceled =
        [10, 11, 20, 21] := by
  constructor <;> decide

end Sample

end Gtkhx.Transfers
