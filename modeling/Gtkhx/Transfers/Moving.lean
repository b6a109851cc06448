import Gtkhx.Transfers.Registry

/-!
# The queue moves on

Whenever a file's transfer waits for the queue, some transfer of the list is under way, in every run
in which each reply names its transfer and no folder upload that stopped past a folder finds, as it
is asked for again by itself, that its files changed.
-/

namespace Gtkhx.Transfers

namespace Entry

variable (e : Entry)

/-- A file's transfer waits for the queue. -/
def waiting : Bool := e.fresh && e.pause.isNone

/-- It was asked for, and is not paused. -/
def active : Bool := e.resuming || e.pause.isNone && !e.fresh

/-- A reply gave it a place in the server's queue. -/
def granted : Bool := e.pause.isNone && e.handle.ref != 0 && e.handle.queue != 0

end Entry

/-- A transfer is under way: it has a request in flight, a worker, a place in the server's queue or
a timer. -/
def Busy (r : Registry) (e : Entry) : Prop :=
  e.id ∈ r.asked.map Asked.id ∨ e.id ∈ r.working ∨ e.granted = true ∨ e.id ∈ r.timers

instance (r : Registry) (e : Entry) : Decidable (Busy r e) :=
  inferInstanceAs (Decidable (_ ∨ _ ∨ _ ∨ _))

/-- While a file's transfer waits, a transfer is under way. -/
def Moves (r : Registry) : Prop :=
  (∃ e ∈ r.list, e.waiting = true) → ∃ e ∈ r.list, Busy r e

instance (r : Registry) : Decidable (Moves r) := inferInstanceAs (Decidable (_ → _))

/-- A reply to a transfer of the list has a reference, and a size if it is for a file's download; a
folder upload that stopped past a folder and is asked for again by itself has its files as they
were. -/
def Served (r : Registry) : Event → Prop
  | .replied number t =>
    ∀ a ∈ r.asked, a.trans = number → ∀ e ∈ r.list, e.id = a.id →
      t.reference ≠ 0 ∧ (e.handle.upload = false → e.handle.folder = false → t.size ≠ 0)
  | .returned id (.short .again) _ =>
    ∀ e ∈ r.list, e.id = id → e.handle.upload = true → e.handle.folder = true →
      e.pause ≠ some .winding → ((r.runs id).getD {}).again < AGAIN_TRIES →
      (r.disk.folder id).changed = false
  | _ => True

/-- What a transfer of the list is never without: a worker while its pause is winding, and, once it
was asked for and until it is paused, a request, a worker or a place in the server's queue. -/
structure Steady (asked working : List ℕ) (e : Entry) : Prop where
  winding : e.pause = some .winding → e.id ∈ working
  tries : e.tries ≠ none → e.handle.folder = false
  restarts : ∀ kept, e.pause = some (.restarted kept) → e.handle.upload = true
  active : e.active = true → e.id ∈ asked ∨ e.id ∈ working ∨ e.granted = true

/-- All transfers of the list are steady, but for one. -/
structure Almost (id : ℕ) (r : Registry) : Prop where
  distinct : (r.list.map Entry.id).Nodup
  old : ∀ id ∈ r.list.map Entry.id, id < r.next
  steady : ∀ e ∈ r.list, e.id ≠ id → Steady (r.asked.map Asked.id) r.working e

/-- All transfers of the list are steady. -/
structure Live (r : Registry) : Prop where
  distinct : (r.list.map Entry.id).Nodup
  old : ∀ id ∈ r.list.map Entry.id, id < r.next
  steady : ∀ e ∈ r.list, Steady (r.asked.map Asked.id) r.working e

/-- A transfer whose end will move the queue on. -/
def Driving (r : Registry) (e : Entry) : Prop :=
  e.active = true ∨ e.pause = some .winding ∨
    e.pause = none ∧ (e.id ∈ r.timers ∨ e.id ∈ r.working ∨ e.granted = true)

/-- While a file's transfer waits, there is one whose end will move the queue on. -/
def Driven (r : Registry) : Prop :=
  (∃ e ∈ r.list, e.waiting = true) → ∃ e ∈ r.list, Driving r e

/-- What holds in every state of a run. -/
structure Going (r : Registry) : Prop where
  live : Live r
  driven : Driven r

theorem Going.moves {r : Registry} (h : Going r) : Moves r := by
  intro hwaiting
  obtain ⟨e, he, hdriving⟩ := h.driven hwaiting
  refine ⟨e, he, ?_⟩
  have hsteady := h.live.steady e he
  rcases hdriving with hactive | hwinding | ⟨-, htimer | hworking | hgranted⟩
  · rcases hsteady.active hactive with hasked | hworking | hgranted
    · exact Or.inl hasked
    · exact Or.inr (Or.inl hworking)
    · exact Or.inr (Or.inr (Or.inl hgranted))
  · exact Or.inr (Or.inl (hsteady.winding hwinding))
  · exact Or.inr (Or.inr (Or.inr htimer))
  · exact Or.inr (Or.inl hworking)
  · exact Or.inr (Or.inr (Or.inl hgranted))

namespace Steady

variable {asked working : List ℕ} {e : Entry}

/-- More requests and workers. -/
theorem more {asked' working' : List ℕ} (h : Steady asked working e)
    (hasked : e.id ∈ asked → e.id ∈ asked') (hworking : e.id ∈ working → e.id ∈ working') :
    Steady asked' working' e :=
  ⟨fun hpause => hworking (h.winding hpause), h.tries, h.restarts,
    fun hactive => (h.active hactive).imp hasked (Or.imp_left hworking)⟩

/-- A transfer that is paused. -/
theorem ofPause {pause : Pause} (hpause : e.pause = some pause) (hwinding : pause ≠ .winding)
    (hstopped : e.resuming = false) (htries : e.tries ≠ none → e.handle.folder = false) :
    Steady asked working e where
  winding h := absurd (Option.some.inj (hpause.symm.trans h)) hwinding
  tries := htries
  restarts kept h := by simp [Entry.resuming, h] at hstopped
  active h := by simp [Entry.active, hstopped, hpause] at h

end Steady

namespace Live

variable {c : Client} {r : Registry} {e : Entry} {id : ℕ}

theorem almost (h : Live r) (id : ℕ) : Almost id r :=
  ⟨h.distinct, h.old, fun e he _ => h.steady e he⟩

theorem setRun (h : Live r) (run : Option FolderRun) : Live (r.setRun id run) := { h with }

theorem setHeld (h : Live r) (bytes : ℕ) : Live (r.setHeld id bytes) := { h with }

end Live

namespace Almost

variable {c : Client} {r : Registry} {e : Entry} {id : ℕ}

theorem setRun (h : Almost id r) {n : ℕ} (run : Option FolderRun) :
    Almost id (r.setRun n run) := { h with }

theorem setHeld (h : Almost id r) {n : ℕ} (bytes : ℕ) : Almost id (r.setHeld n bytes) :=
  { h with }

/-- What follows is what is left of the one. -/
theorem put (h : Almost e.id r) : Almost e.id (r.put e) where
  distinct := by rw [Registry.put_ids]; exact h.distinct
  old := by rw [Registry.put_ids]; exact h.old
  steady x hx hne := by
    rcases Registry.mem_put hx with rfl | ⟨hx, _⟩
    · exact absurd rfl hne
    · exact h.steady x hx hne

/-- The one is steady too. -/
theorem live (h : Almost e.id r) (he : e ∈ r.list)
    (hsteady : Steady (r.asked.map Asked.id) r.working e) : Live r where
  distinct := h.distinct
  old := h.old
  steady x hx := by
    by_cases hid : x.id = e.id
    · exact List.inj_on_of_nodup_map h.distinct hx he hid ▸ hsteady
    · exact h.steady x hx hid

theorem put_live (h : Almost e.id r) (hid : e.id ∈ r.list.map Entry.id)
    (hsteady : Steady (r.asked.map Asked.id) r.working e) : Live (r.put e) :=
  h.put.live (Registry.put_mem hid) hsteady

/-- Once it is asked for it is steady. -/
theorem ask (h : Almost e.id r) (hfits : ∀ ask, c.fits ask = true) (he : e ∈ r.list)
    (hwinding : e.pause ≠ some .winding) (htries : e.tries ≠ none → e.handle.folder = false)
    (hrestarts : ∀ kept, e.pause = some (.restarted kept) → e.handle.upload = true) (ask : Ask) :
    Live (r.expectTransfer c e.id ask) := by
  have hmore {x : ℕ} (hx : x ∈ r.asked.map Asked.id) :
      x ∈ (r.asked ++ [(⟨r.trans, e.id⟩ : Asked)]).map Asked.id := by
    rw [List.map_append]
    exact List.mem_append_left _ hx
  have hlast : e.id ∈ (r.asked ++ [(⟨r.trans, e.id⟩ : Asked)]).map Asked.id := by simp
  rw [Registry.expectTransfer, if_pos (hfits ask)]
  refine Almost.live (e := e) ⟨h.distinct, h.old, fun x hx hne => ?_⟩ he
    ⟨fun hpause => absurd hpause hwinding, htries, hrestarts, fun _ => Or.inl hlast⟩
  exact (h.steady x hx hne).more hmore fun hin => hin

end Almost

section

variable {c : Client} {r : Registry} {e : Entry} {id : ℕ}

/-- What moves the queue on is changed to what moves it on, and nothing more waits. -/
theorem Driven.put {e₀ : Entry} (h : Driven r) (hdistinct : (r.list.map Entry.id).Nodup)
    (he₀ : e₀ ∈ r.list) (hid : e.id = e₀.id) (hwaiting : e.waiting = true → e₀.waiting = true)
    (hdriving : Driving r e₀ → Driving r e) : Driven (r.put e) := by
  have hmem : e ∈ (r.put e).list := Registry.put_mem (List.mem_map.mpr ⟨e₀, he₀, hid.symm⟩)
  rintro ⟨x, hx, hwait⟩
  have hbefore : ∃ y ∈ r.list, y.waiting = true := by
    rcases Registry.mem_put hx with rfl | ⟨hx, _⟩
    · exact ⟨e₀, he₀, hwaiting hwait⟩
    · exact ⟨x, hx, hwait⟩
  obtain ⟨y, hy, hdrive⟩ := h hbefore
  by_cases hne : y.id = e.id
  · obtain rfl : y = e₀ := List.inj_on_of_nodup_map hdistinct hy he₀ (hne.trans hid)
    exact ⟨e, hmem, hdriving hdrive⟩
  · exact ⟨y, Registry.mem_put_of_ne hy hne, hdrive⟩

/-- More workers and timers. -/
theorem Driven.more {r' : Registry} (h : Driven r) (hlist : r'.list = r.list)
    (hworking : r.working ⊆ r'.working) (htimers : r.timers ⊆ r'.timers) : Driven r' := by
  intro hwaiting
  rw [hlist] at hwaiting ⊢
  obtain ⟨e, he, hd⟩ := h hwaiting
  refine ⟨e, he, hd.imp_right (Or.imp_right fun hno => ⟨hno.1, hno.2.imp ?_ (Or.imp_left ?_)⟩)⟩
  · exact fun hin => htimers hin
  · exact fun hin => hworking hin

theorem Live.going (h : Live r) (he : e ∈ r.list) (hdriving : Driving r e) : Going r :=
  ⟨h, fun _ => ⟨e, he, hdriving⟩⟩

/-- A transfer that is not paused is under way, unless it waits. -/
theorem Entry.active_of_unpaused (hunpaused : e.paused = false)
    (hstale : e.pause = none → e.fresh = false) : e.active = true := by
  unfold Entry.paused at hunpaused
  unfold Entry.active Entry.resuming
  rcases hpause : e.pause with _ | pause
  · simp [hstale hpause]
  · cases pause <;> simp_all

/-- A transfer that a pause or a failure kept moves nothing on. -/
theorem Driving.not_kept {kept : Disk} (h : Driving r e) (hkept : keptBy e.pause = some kept) :
    False := by
  rcases hpause : e.pause with _ | pause
  · simp [hpause, keptBy] at hkept
  · unfold Driving Entry.active Entry.resuming at h
    cases pause <;> simp_all [keptBy]

theorem Went.stays {e' : Entry} (h : Went e e' none) :
    e' = e ∨ ∃ kept, keptBy e.pause = some kept ∧ e' = { e with pause := some (.changed kept) } := by
  cases h with
  | idle => exact Or.inl rfl
  | changed hkept => exact Or.inr ⟨_, hkept, rfl⟩

theorem Went.active {e' : Entry} {request : Option FileRequest} (h : Went e e' request)
    (hunpaused : e.paused = false ∨ request.isSome = true) : e'.active = true := by
  cases h with
  | idle hkept hgone =>
    refine Entry.active_of_unpaused (hunpaused.resolve_right nofun) fun hpause => ?_
    simp [Entry.fresh, hgone hpause]
  | changed hkept =>
    have hpaused := hunpaused.resolve_right nofun
    unfold keptBy at hkept
    unfold Entry.paused at hpaused
    split at hkept <;> simp_all
  | again hkept hrole => rfl
  | first hpause hgone hrole =>
    simp only [Handle.role, Prod.mk.injEq] at hrole
    obtain ⟨-, -, -, hgone', -⟩ := hrole
    simp [Entry.active, Entry.fresh, hpause, hgone']

/-- A file's transfer goes, or stays. -/
theorem Live.sendFile {e' : Entry} {request : Option FileRequest}
    (hfits : ∀ ask, c.fits ask = true) (h : Live r) (he : e ∈ r.list)
    (hfile : e.handle.folder = false) (hwent : Went e e' request) (tries : Option ℕ) :
    Live (r.sendFile c { e' with tries := tries } request) ∧
      { e' with tries := tries } ∈ (r.sendFile c { e' with tries := tries } request).list := by
  have hsteady := h.steady e he
  have hid : e.id ∈ r.list.map Entry.id := List.mem_map_of_mem he
  have hask {handle : Handle} {pause : Option Pause} {request : FileRequest}
      (hrole : handle.role = { e.handle with gone := true }.role)
      (hpause : pause = none ∨ ∃ kept, pause = some (.asked kept)) :
      Live (r.sendFile c ⟨e.id, handle, pause, tries⟩ (some request)) ∧
        ⟨e.id, handle, pause, tries⟩ ∈
          (r.sendFile c ⟨e.id, handle, pause, tries⟩ (some request)).list := by
    simp only [Handle.role, Prod.mk.injEq] at hrole
    obtain ⟨-, -, hfolder, -, -⟩ := hrole
    let sent : Entry := ⟨e.id, handle, pause, tries⟩
    have hmem : sent ∈ (r.put sent).list := Registry.put_mem hid
    have halmost : Almost sent.id (r.put sent) := Almost.put (h.almost e.id)
    refine ⟨halmost.ask hfits hmem ?_ (fun _ => hfolder.trans hfile) ?_ _, ?_⟩
    · rcases hpause with rfl | ⟨kept, rfl⟩ <;> nofun
    · rcases hpause with rfl | ⟨kept, rfl⟩ <;> nofun
    · rw [Registry.sendFile, Registry.expectTransfer, if_pos (hfits _)]
      exact hmem
  cases hwent with
  | idle =>
    let same : Entry := { e with tries := tries }
    have hput : Live (r.put same) := Almost.put_live (h.almost e.id) hid
      ⟨hsteady.winding, fun _ => hfile, hsteady.restarts, hsteady.active⟩
    exact ⟨hput, Registry.put_mem hid⟩
  | @changed kept hkept =>
    let changed : Entry := { e with pause := some (.changed kept), tries := tries }
    have hput : Live (r.put changed) := Almost.put_live (h.almost e.id) hid
      (.ofPause rfl nofun rfl fun _ => hfile)
    exact ⟨hput, Registry.put_mem hid⟩
  | again hkept hrole => exact hask hrole (Or.inr ⟨_, rfl⟩)
  | first hpause hgone hrole => exact hask hrole (Or.inl hpause)

theorem Live.startNext (hfits : ∀ ask, c.fits ask = true) (h : Live r) :
    Going (r.startNext c) := by
  unfold Registry.startNext
  split
  next e hfirst =>
    have he := List.mem_of_find?_eq_some hfirst
    have hunpaused : e.paused = false := by simpa using List.find?_some hfirst
    have hid : e.id ∈ r.list.map Entry.id := List.mem_map_of_mem he
    by_cases hfolder : e.handle.folder = true
    · have hgo : e.go r.disk.toFiles (c.large e.htlc) = (e, none) := by simp [Entry.go, hfolder]
      have htried : e.tried e.handle.gone = e := by
        unfold Entry.tried
        split
        next hboth => simp [hboth.1] at hboth
        next => rfl
      rw [hgo, htried]
      exact ((h.almost e.id).put_live hid (h.steady e he)).going (Registry.put_mem hid)
        (Or.inl (Entry.active_of_unpaused hunpaused fun _ => by simp [Entry.fresh, hfolder]))
    · have hwent := e.went r.disk.toFiles (c.large e.htlc)
      have hactive := hwent.active (Or.inl hunpaused)
      rw [Entry.tried_eq]
      simp only [Entry.go, hfolder]
      obtain ⟨hlive, hmem⟩ := h.sendFile hfits he (by simpa using hfolder) hwent _
      exact hlive.going hmem (Or.inl hactive)
  next hnone =>
    refine ⟨h, ?_⟩
    rintro ⟨e, he, hwaiting⟩
    have hpaused : e.paused = true := by simpa using List.find?_eq_none.mp hnone e he
    simp only [Entry.waiting, Bool.and_eq_true, Option.isNone_iff_eq_none] at hwaiting
    simp [Entry.paused, hwaiting.2] at hpaused

namespace Almost

/-- The one leaves the list. -/
theorem remove (h : Almost id r) : Live { r with list := r.list.eraseP (·.id = id) } where
  distinct := h.distinct.sublist (List.eraseP_sublist.map _)
  old x hx := h.old x ((List.eraseP_sublist.map _).subset hx)
  steady e he :=
    have hin := Registry.mem_eraseP h.distinct he
    h.steady e hin.1 hin.2

theorem xferRemoveFromList (hfits : ∀ ask, c.fits ask = true) (h : Almost id r)
    (hid : id ∈ r.list.map Entry.id) : Going (r.xferRemoveFromList c id) := by
  have hany : r.list.any (·.id = id) = true := by
    obtain ⟨e, he, heq⟩ := List.mem_map.mp hid
    exact List.any_eq_true.mpr ⟨e, he, by simpa using heq⟩
  rw [Registry.xferRemoveFromList, if_pos hany]
  exact (h.remove.setHeld 0).startNext hfits

theorem xferDelete (hfits : ∀ ask, c.fits ask = true) (h : Almost id r)
    (hid : id ∈ r.list.map Entry.id) : Going (r.xferDelete c id) :=
  have hnoted : Almost id { r with trace := .delete id :: r.trace } := { h with }
  hnoted.xferRemoveFromList hfits hid

/-- The one is paused, and the queue moves on. -/
theorem pauses (hfits : ∀ ask, c.fits ask = true) (h : Almost e.id r)
    (hid : e.id ∈ r.list.map Entry.id) {pause : Pause} (hpause : e.pause = some pause)
    (hwinding : pause ≠ .winding) (hstopped : e.resuming = false)
    (htries : e.tries ≠ none → e.handle.folder = false) : Going ((r.put e).startNext c) :=
  (h.put_live hid (.ofPause hpause hwinding hstopped htries)).startNext hfits

theorem hold (hfits : ∀ ask, c.fits ask = true) (h : Almost e.id r)
    (hid : e.id ∈ r.list.map Entry.id) (htries : e.tries ≠ none → e.handle.folder = false)
    {pause : Disk → Pause} (hpause : ∀ kept, keptBy (some (pause kept)) = some kept) :
    Going (r.hold c e pause) := by
  have hkept := hpause (if e.handle.folder then FOLDER_KEPT else r.disk.disk e.handle.path)
  refine pauses (e := { e with
    pause := some (pause (if e.handle.folder then FOLDER_KEPT else r.disk.disk e.handle.path)) })
    hfits h hid rfl ?_ ?_ htries
  · intro heq
    rw [heq] at hkept
    cases hkept
  · unfold Entry.resuming
    dsimp only
    split
    next heq =>
      rw [heq] at hkept
      cases hkept
    next heq =>
      rw [heq] at hkept
      cases hkept
    next => rfl

theorem cleanUp (hfits : ∀ ask, c.fits ask = true) (h : Almost e.id r)
    (hid : e.id ∈ r.list.map Entry.id) (htries : e.tries ≠ none → e.handle.folder = false)
    (failed : Option Failure) : Going (r.cleanUp c e failed) := by
  unfold Registry.cleanUp
  split
  · split
    · exact h.hold hfits hid htries fun _ => rfl
    · exact h.xferRemoveFromList hfits hid
  · exact h.xferRemoveFromList hfits hid

/-- A folder upload is asked for, unless nothing is left to offer. -/
theorem askPutFolder (hfits : ∀ ask, c.fits ask = true) (h : Almost e.id r) (he : e ∈ r.list)
    (hwinding : e.pause ≠ some .winding) (htries : e.tries ≠ none → e.handle.folder = false)
    (hrestarts : ∀ kept, e.pause = some (.restarted kept) → e.handle.upload = true)
    (hactive : e.active = true) (resume : Bool) :
    r.askPutFolder c e resume = (r, false) ∧ resume = true ∨
      (r.askPutFolder c e resume).2 = true ∧ Going (r.askPutFolder c e resume).1 := by
  unfold Registry.askPutFolder
  dsimp only
  split
  next hnone => exact Or.inl ⟨rfl, hnone.1⟩
  next =>
    generalize max 1 (min (r.putTotals e.id resume).1 U32_MAX) = size
    let sized : Entry := { e with handle := { e.handle with totalSize := size } }
    have hmem : sized ∈ (r.put sized).list :=
      Registry.put_mem (List.mem_map.mpr ⟨e, he, rfl⟩)
    have halmost : Almost sized.id (r.put sized) := Almost.put h
    have hlive := halmost.ask hfits hmem hwinding htries hrestarts
      (.putFolder e.handle.remotedir e.handle.remotename (r.putTotals e.id resume).1
        (r.putTotals e.id resume).2 resume)
    refine Or.inr ⟨rfl, hlive.going (e := sized) ?_ (Or.inl hactive)⟩
    rw [Registry.expectTransfer, if_pos (hfits _)]
    exact hmem

/-- A folder's transfer is asked for again, unless an upload's files changed. -/
theorem resumeKept (hfits : ∀ ask, c.fits ask = true) (h : Almost e.id r) (he : e ∈ r.list)
    (htries : e.tries ≠ none → e.handle.folder = false) {kept : Disk}
    (hchanged : e.handle.upload = true → (r.disk.folder e.id).changed = true →
      Going (r.put { e with pause := some (.changed kept) })) :
    Going (r.resumeKept c e kept) := by
  have hid : e.id ∈ r.list.map Entry.id := List.mem_map_of_mem he
  let again : Entry :=
    { e with handle := { e.handle with totalPos := 0 }, pause := some (.asked kept) }
  have hmem : again ∈ (r.put again).list := Registry.put_mem hid
  have hput : Almost again.id (r.put again) := Almost.put h
  unfold Registry.resumeKept
  dsimp only
  split
  next hupload =>
    split
    next hbad => exact hchanged hupload hbad.2
    next =>
      generalize (r.runs e.id).map (fun run =>
        { run with resumed := true, reoffered := false }) = run
      have hrun : Almost again.id ((r.put again).setRun e.id run) := hput.setRun run
      have hask := hrun.askPutFolder hfits hmem nofun htries nofun rfl true
      split
      next r' heq =>
        rcases hask with ⟨hnone, -⟩ | ⟨-, hgoing⟩
        · simp [again, hnone] at heq
        · rwa [heq] at hgoing
      next r' heq =>
        rcases hask with ⟨hnone, -⟩ | ⟨htrue, -⟩
        · obtain rfl : _ = r' := (Prod.mk.inj (hnone.symm.trans heq)).1
          let unpaused : Entry := { again with pause := none }
          have hunpaused : Almost unpaused.id
              (((r.put again).setRun e.id run).put unpaused) := Almost.put hrun
          refine hunpaused.xferRemoveFromList hfits ?_
          rw [Registry.put_ids]
          exact List.mem_map.mpr ⟨again, hmem, rfl⟩
        · simp [again, heq] at htrue
  next =>
    refine ((hput.setHeld _).ask hfits hmem nofun htries nofun _).going (e := again) ?_ (Or.inl rfl)
    rw [Registry.askFolder, Registry.expectTransfer, if_pos (hfits _)]
    exact hmem

end Almost

namespace Going

theorem xferGo (hfits : ∀ ask, c.fits ask = true) (h : Going r) (he : e ∈ r.list) :
    Going (r.xferGo c e) := by
  have hsteady := h.live.steady e he
  have hid : e.id ∈ r.list.map Entry.id := List.mem_map_of_mem he
  have hchanged {kept : Disk} (hkept : keptBy e.pause = some kept) :
      Going (r.put { e with pause := some (.changed kept) }) := by
    let changed : Entry := { e with pause := some (.changed kept) }
    refine ⟨Almost.put_live (e := changed) (h.live.almost e.id) hid
      (.ofPause rfl nofun rfl hsteady.tries), ?_⟩
    exact h.driven.put (e := changed) h.live.distinct he rfl (by simp [Entry.waiting, changed])
      fun hdriving => (hdriving.not_kept hkept).elim
  unfold Registry.xferGo
  split
  next hfolder =>
    have hresume {kept : Disk} (hkept : keptBy e.pause = some kept) :
        Going (r.resumeKept c e kept) :=
      (h.live.almost e.id).resumeKept hfits he hsteady.tries fun _ _ =>
        hchanged hkept
    unfold Registry.resumeFolder
    split
    next kept hpause => exact hresume (by simp [keptBy, hpause])
    next kept why hpause => exact hresume (by simp [keptBy, hpause])
    next => exact h
  next hfile =>
    have hfile' : e.handle.folder = false := by simpa using hfile
    have hwent := e.went r.disk.toFiles (c.large e.htlc)
    dsimp only
    generalize (e.handle.go r.disk.toFiles (c.large e.htlc) e.pause).2.2 = request at hwent
    cases request with
    | some request =>
      obtain ⟨hlive, hmem⟩ := h.live.sendFile hfits he hfile' hwent e.tries
      exact hlive.going hmem (Or.inl (hwent.active (Or.inr rfl)))
    | none =>
      rcases hwent.stays with heq | ⟨kept, hkept, heq⟩
      · rw [heq]
        exact ⟨(h.live.almost e.id).put_live hid hsteady,
          h.driven.put h.live.distinct he rfl (fun hw => hw) fun hd => hd⟩
      · rw [heq]
        exact hchanged hkept

theorem xferPause (h : Going r) (he : e ∈ r.list) : Going (r.xferPause e) := by
  unfold Registry.xferPause
  split
  next hcan =>
    have hsteady := h.live.steady e he
    simp only [Registry.xferCanPause, decide_eq_true_eq] at hcan
    obtain ⟨-, hworking, -⟩ := hcan
    have hid : e.id ∈ r.list.map Entry.id := List.mem_map_of_mem he
    let winding : Entry := { e with pause := some .winding }
    have hlive : Live (r.put winding) := Almost.put_live (e := winding) (h.live.almost e.id) hid
      ⟨fun _ => hworking, hsteady.tries, nofun, nofun⟩
    exact hlive.going (Registry.put_mem (e := winding) hid) (Or.inr (Or.inl rfl))
  next => exact h

end Going

/-- A transfer whose request was answered or refused: the others are steady, and the queue is
driven. -/
structure Replied (r : Registry) (e : Entry) : Prop where
  mem : e ∈ r.list
  almost : Almost e.id r
  driven : Driven r
  winding : e.pause = some .winding → e.id ∈ r.working
  tries : e.tries ≠ none → e.handle.folder = false
  restarts : ∀ kept, e.pause = some (.restarted kept) → e.handle.upload = true

/-- A transfer whose turn it is works, unless it is paused. -/
theorem Registry.hxXferAnnounce_eq (hfind : r.find? e.id = some e) (queue : UInt32) :
    ∃ working trace, r.hxXferAnnounce e.id queue =
        { r with working := working, trace := trace } ∧
      r.working ⊆ working ∧ (queue = 0 → e.pause = none → e.id ∈ working) := by
  have hpauseOf : r.pauseOf e.id = e.pause := by simp [pauseOf, hfind]
  unfold hxXferAnnounce xferReadyWrite
  split
  · split
    next hnot =>
      refine ⟨r.working, r.trace, rfl, List.Subset.refl _, fun _ hpause => ?_⟩
      exact hnot.resolve_left (by simp [hpauseOf, hpause])
    next =>
      exact ⟨_, _, rfl, List.subset_append_left _ _, fun _ _ => by simp⟩
  next hqueue =>
    exact ⟨r.working, r.trace, rfl, List.Subset.refl _, fun hzero => absurd hzero hqueue⟩

/-- A transfer that was paused, and is paused, moves nothing on. -/
theorem Replied.still (h : Replied r e) {e' : Entry} (hid : e'.id = e.id)
    (hpause : e'.pause = e.pause) (hresuming : e'.resuming = false) (hno : e'.pause ≠ none)
    (hwind : e'.pause ≠ some .winding) : Driven (r.put e') := by
  refine h.driven.put h.almost.distinct h.mem hid (fun hwaiting => ?_) ?_
  · simp only [Entry.waiting, Bool.and_eq_true, Option.isNone_iff_eq_none] at hwaiting
    exact absurd hwaiting.2 hno
  · rintro (hactive | hwind' | ⟨hno', -⟩)
    · have hresuming' : e.resuming = false := by
        simpa only [Entry.resuming, hpause] using hresuming
      simp only [Entry.active, hresuming', ← hpause, Bool.false_or, Bool.and_eq_true,
        Option.isNone_iff_eq_none] at hactive
      exact absurd hactive.1 hno
    · exact absurd (hpause.trans hwind') hwind
    · exact absurd (hpause.trans hno') hno

/-- A transfer that was answered has a place in the server's queue, or works unless it is
paused. -/
theorem Replied.announced (h : Replied r e) {e' : Entry} {queue : UInt32} (hid : e'.id = e.id)
    (hpause : e'.pause = e.pause ∨ e'.pause = none) (hqueue : e'.handle.queue = queue)
    (hresuming : e'.resuming = false) (htries : e'.tries ≠ none → e'.handle.folder = false)
    (href : e'.handle.ref ≠ 0) : Going ((r.put e').hxXferAnnounce e'.id queue) := by
  have hmem : e'.id ∈ r.list.map Entry.id := hid ▸ List.mem_map_of_mem h.mem
  have halmost : Almost e'.id (r.put e') := Almost.put (hid ▸ h.almost)
  obtain ⟨working, trace, heq, hsub, hworks⟩ :=
    Registry.hxXferAnnounce_eq (Registry.find?_put hmem) queue
  rw [heq]
  have hgo (hnone : e'.pause = none) : e'.id ∈ working ∨ e'.granted = true := by
    by_cases hzero : queue = 0
    · exact Or.inl (hworks hzero hnone)
    · exact Or.inr (by simp [Entry.granted, hnone, href, hqueue, hzero])
  have hnone (hactive : e'.active = true) : e'.pause = none := by
    simp only [Entry.active, hresuming, Bool.false_or, Bool.and_eq_true,
      Option.isNone_iff_eq_none] at hactive
    exact hactive.1
  have hwinding (hwind : e'.pause = some .winding) : e'.id ∈ working := by
    refine hsub (hid ▸ h.winding ?_)
    rcases hpause with hsame | hno
    · exact hsame ▸ hwind
    · exact absurd (hno.symm.trans hwind) nofun
  have hlive : Live { r.put e' with working := working, trace := trace } := by
    refine Almost.live (e := e') ⟨halmost.distinct, halmost.old, fun x hx hne => ?_⟩
      (Registry.put_mem hmem) ⟨hwinding, htries, ?_, fun hactive => Or.inr (hgo (hnone hactive))⟩
    · exact (halmost.steady x hx hne).more (fun hin => hin) fun hin => hsub hin
    · intro kept hkept
      simp [Entry.resuming, hkept] at hresuming
  by_cases hstill : e'.pause = none ∨ e'.pause = some .winding
  · refine hlive.going (Registry.put_mem hmem) ?_
    rcases hstill with hno | hwind
    · exact Or.inr (Or.inr ⟨hno, Or.inr (hgo hno)⟩)
    · exact Or.inr (Or.inl hwind)
  · obtain ⟨hno, hwind⟩ := not_or.mp hstill
    have hdriven := h.still hid (hpause.resolve_right hno) hresuming hno hwind
    exact ⟨hlive, hdriven.more rfl hsub fun _ hin => hin⟩

theorem Replied.goAnswered (h : Replied r e) {handle : Handle} {t : Transfer}
    (hqueue : handle.queue = t.queue)
    (href : t.reference ≠ 0) : Going (r.goAnswered e handle t) := by
  let answered : Entry := { e.answered with handle := { handle with ref := t.reference } }
  have hpause : answered.pause = e.pause ∨ answered.pause = none := by
    simp only [answered, Entry.answered]
    split
    · exact Or.inr rfl
    · exact Or.inr rfl
    · exact Or.inl rfl
  have hresuming : answered.resuming = false := by
    rcases hkept : e.pause with _ | pause
    · simp [Entry.resuming, answered, Entry.answered, hkept]
    · cases pause <;> simp [Entry.resuming, answered, Entry.answered, hkept]
  have hgo {r' : Registry} (h' : Replied r' e) :
      Going ((r'.put answered).hxXferAnnounce e.id t.queue) :=
    h'.announced rfl hpause hqueue hresuming (fun htries => absurd rfl htries) href
  unfold Registry.goAnswered
  dsimp only
  split
  next => exact hgo { h with almost := h.almost.setRun none }
  next => exact hgo h

namespace Replied

theorem downloadReady (h : Replied r e) {t : Transfer} (href : t.reference ≠ 0)
    (hsize : e.handle.folder = false → t.size ≠ 0) : Going (r.downloadReady e t) := by
  have hgood : ¬(t.reference = 0 ∨ e.handle.folder = false ∧ t.size = 0) :=
    fun hbad => hbad.elim href fun hbad => hsize hbad.1 hbad.2
  rw [Registry.downloadReady, if_neg hgood]
  exact h.goAnswered rfl href

/-- A transfer that is paused, and the queue moves on. -/
theorem pauses (hfits : ∀ ask, c.fits ask = true) (h : Replied r e) (e' : Entry) {pause : Pause}
    (hid : e'.id = e.id) (hpause : e'.pause = some pause) (hwinding : pause ≠ .winding)
    (hstopped : e'.resuming = false) (htries : e'.tries ≠ none → e'.handle.folder = false) :
    Going ((r.put e').startNext c) :=
  Almost.pauses hfits (hid ▸ h.almost) (hid ▸ List.mem_map_of_mem h.mem) hpause hwinding hstopped
    htries

theorem xferDelete (hfits : ∀ ask, c.fits ask = true) (h : Replied r e) :
    Going (r.xferDelete c e.id) :=
  h.almost.xferDelete hfits (List.mem_map_of_mem h.mem)

theorem queuedRefused (hfits : ∀ ask, c.fits ask = true) (h : Replied r e)
    (hresuming : e.resuming = false) : Going (r.queuedRefused c e) := by
  have hid : e.id ∈ r.list.map Entry.id := List.mem_map_of_mem h.mem
  unfold Registry.queuedRefused
  split
  next n htries =>
    have hfile : e.handle.folder = false := h.tries (by simp [htries])
    split
    · let again : Entry :=
        { e with handle := { e.handle with gone := false }, tries := some (n + 1) }
      have hresuming' : again.resuming = false := hresuming
      have hfresh : again.fresh = true := by simp [Entry.fresh, again, hfile]
      have hlive : Live (r.put again) := Almost.put_live (e := again) h.almost hid
        ⟨h.winding, fun _ => hfile, h.restarts, by simp [Entry.active, hresuming', hfresh]⟩
      have hlive' : Live { r.put again with timers := r.timers ++ [e.id] } := { hlive with }
      by_cases hstill : again.pause = none ∨ again.pause = some .winding
      · refine hlive'.going (Registry.put_mem (e := again) hid) ?_
        rcases hstill with hno | hwind
        · exact Or.inr (Or.inr ⟨hno, Or.inl (List.mem_append_right _ List.mem_cons_self)⟩)
        · exact Or.inr (Or.inl hwind)
      · obtain ⟨hno, hwind⟩ := not_or.mp hstill
        have hdriven : Driven (r.put again) := h.still rfl rfl hresuming' hno hwind
        exact ⟨hlive', hdriven.more rfl (fun _ hin => hin) (List.subset_append_left _ _)⟩
    · let spent : Entry := { e with tries := none }
      have hspent : Almost spent.id (r.put spent) := Almost.put h.almost
      refine hspent.xferDelete hfits ?_
      rwa [Registry.put_ids]
  next => exact h.xferDelete hfits

theorem downloadRefused (hfits : ∀ ask, c.fits ask = true) (h : Replied r e)
    (hdownload : e.handle.upload = false) : Going (r.downloadRefused c e) := by
  unfold Registry.downloadRefused
  split
  next kept hpause =>
    let paused : Entry := { e with pause := some (.paused kept) }
    exact h.pauses hfits paused rfl rfl nofun rfl h.tries
  next hnot =>
    refine h.queuedRefused hfits ?_
    unfold Entry.resuming
    split
    next kept hpause => exact absurd hpause (hnot kept)
    next kept hpause =>
      have hupload := h.restarts kept hpause
      simp [hdownload] at hupload
    next => rfl

theorem uploadRefused (hfits : ∀ ask, c.fits ask = true) (h : Replied r e)
    (hupload : e.handle.upload = true) : Going (r.uploadRefused c e) := by
  unfold Registry.uploadRefused
  split
  next kept hpause =>
    let again : Entry := { e with pause := some (.restarted kept) }
    have hmem : again ∈ (r.put again).list :=
      Registry.put_mem (List.mem_map.mpr ⟨e, h.mem, rfl⟩)
    have hput : Almost again.id (r.put again) := Almost.put h.almost
    dsimp only
    split
    · rcases hput.askPutFolder hfits hmem nofun h.tries (fun _ _ => hupload) rfl false with
        ⟨-, hfalse⟩ | ⟨-, hgoing⟩
      · cases hfalse
      · exact hgoing
    · refine (hput.ask hfits hmem nofun h.tries (fun _ _ => hupload) _).going (e := again) ?_
        (Or.inl rfl)
      rw [Registry.expectTransfer, if_pos (hfits _)]
      exact hmem
  next kept hpause =>
    let paused : Entry := { e with pause := some (.paused kept) }
    exact h.pauses hfits paused rfl rfl nofun rfl h.tries
  next => exact h.xferDelete hfits

theorem uploadReady (hfits : ∀ ask, c.fits ask = true) (h : Replied r e)
    (hupload : e.handle.upload = true) {t : Transfer} (href : t.reference ≠ 0) :
    Going (r.uploadReady c e t) := by
  rw [Registry.uploadReady, if_neg href]
  split
  · exact h.goAnswered rfl href
  · dsimp only
    split
    · have hchanged (kept : Disk) : Going ((r.put { e with
          handle := r.located e t, pause := some (.changed kept) }).startNext c) := by
        let changed : Entry :=
          { e with handle := r.located e t, pause := some (.changed kept) }
        exact h.pauses hfits changed rfl rfl nofun rfl h.tries
      split
      next kept _ => exact hchanged kept
      next kept _ => exact hchanged kept
      next hasked hrestarted =>
        let located : Entry := { e with handle := r.located e t }
        have hdelete : (r.put located).uploadRefused c located =
            (r.put located).xferDelete c located.id := by
          unfold Registry.uploadRefused
          split
          next kept hpause => exact absurd hpause (hasked kept)
          next kept hpause => exact absurd hpause (hrestarted kept)
          next => rfl
        have hput : Almost located.id (r.put located) := Almost.put h.almost
        rw [hdelete]
        refine hput.xferDelete hfits ?_
        rw [Registry.put_ids]
        exact List.mem_map.mpr ⟨e, h.mem, rfl⟩
    · exact h.goAnswered rfl href

end Replied

namespace Going

/-- A request is answered or refused. -/
theorem popped (h : Going r) {a : Asked} (ha : a ∈ r.asked) (trace : List Note) :
    Almost a.id { r with asked := r.asked.erase a, trace := trace } ∧
      (a.id ∉ r.list.map Entry.id →
        Going { r with asked := r.asked.erase a, trace := trace }) := by
  have hless {id : ℕ} (hne : id ≠ a.id) (hin : id ∈ r.asked.map Asked.id) :
      id ∈ (r.asked.erase a).map Asked.id := by
    have hperm := (List.perm_cons_erase ha).map Asked.id
    exact (List.mem_cons.mp (hperm.mem_iff.mp hin)).resolve_left hne
  have hsteady {e : Entry} (he : e ∈ r.list) (hne : e.id ≠ a.id) :
      Steady ((r.asked.erase a).map Asked.id) r.working e :=
    (h.live.steady e he).more (hless hne) fun hin => hin
  refine ⟨⟨h.live.distinct, h.live.old, fun e he hne => hsteady he hne⟩, fun hout => ⟨?_, h.driven⟩⟩
  refine ⟨h.live.distinct, h.live.old, fun e he => hsteady he fun heq => ?_⟩
  exact hout (heq ▸ List.mem_map_of_mem he)

/-- Whose request is answered or refused. -/
theorem answers (h : Going r) {a : Asked} (ha : a ∈ r.asked) (trace : List Note) (he : e ∈ r.list)
    (hid : e.id = a.id) : Replied { r with asked := r.asked.erase a, trace := trace } e :=
  have hsteady := h.live.steady e he
  ⟨he, hid ▸ (h.popped ha trace).1, h.driven, hsteady.winding, hsteady.tries, hsteady.restarts⟩

theorem not_listed (hnone : r.find? id = none) : id ∉ r.list.map Entry.id := by
  intro hin
  obtain ⟨e, he, rfl⟩ := List.mem_map.mp hin
  simpa using List.find?_eq_none.mp hnone e he

theorem replied (hfits : ∀ ask, c.fits ask = true) (h : Going r) {number : ℕ} {t : Transfer}
    (hserved : Served r (.replied number t)) : Going (r.replied c number t) := by
  unfold Registry.replied
  split
  next => exact h
  next a hfind =>
    have ha := List.mem_of_find?_eq_some hfind
    have hnumber : a.trans = number := by simpa using List.find?_some hfind
    dsimp only
    split
    next hnone => exact (h.popped ha _).2 (not_listed hnone)
    next e hfound =>
      obtain ⟨he, hid⟩ := Registry.mem_of_find? hfound
      have hreplied := h.answers ha (.reply a.id a.trans t.reference :: r.trace) he hid
      obtain ⟨href, hsize⟩ := hserved a ha hnumber e he hid
      split
      next hupload => exact hreplied.uploadReady hfits hupload href
      next hdownload => exact hreplied.downloadReady href (hsize (by simpa using hdownload))

theorem refused (hfits : ∀ ask, c.fits ask = true) (h : Going r) (number : ℕ) :
    Going (r.refused c number) := by
  unfold Registry.refused
  split
  next => exact h
  next a hfind =>
    have ha := List.mem_of_find?_eq_some hfind
    dsimp only
    split
    next hnone => exact (h.popped ha r.trace).2 (not_listed hnone)
    next e hfound =>
      obtain ⟨he, hid⟩ := Registry.mem_of_find? hfound
      have hreplied := h.answers ha r.trace he hid
      split
      next hupload => exact hreplied.uploadRefused hfits hupload
      next hdownload => exact hreplied.downloadRefused hfits (by simpa using hdownload)

theorem queued (h : Going r) (htlc : ℕ) (reference queue : UInt32) :
    Going (r.queued htlc reference queue) := by
  unfold Registry.queued
  split
  next => exact h
  next e hfound =>
    have he := List.mem_of_find?_eq_some hfound
    have hid : e.id ∈ r.list.map Entry.id := List.mem_map_of_mem he
    have hsteady := h.live.steady e he
    let moved : Entry := { e with handle := { e.handle with queue := queue } }
    have hput : Almost moved.id (r.put moved) := Almost.put (h.live.almost e.id)
    obtain ⟨working, trace, heq, hsub, hworks⟩ :=
      Registry.hxXferAnnounce_eq (Registry.find?_put (e := moved) hid) queue
    have hgranted (hbefore : e.granted = true) : e.id ∈ working ∨ moved.granted = true := by
      simp only [Entry.granted, Bool.and_eq_true, Option.isNone_iff_eq_none, bne_iff_ne] at hbefore
      obtain ⟨⟨hpause, href⟩, -⟩ := hbefore
      by_cases hzero : queue = 0
      · exact Or.inl (hworks hzero hpause)
      · exact Or.inr (by simp [Entry.granted, moved, hpause, href, hzero])
    have hmoves : e.id ∈ r.working ∨ e.granted = true → e.id ∈ working ∨ moved.granted = true :=
      fun hor => hor.elim (fun hin => Or.inl (hsub hin)) hgranted
    rw [show e.id = moved.id from rfl, heq]
    constructor
    · refine Almost.live (e := moved) ⟨hput.distinct, hput.old, fun x hx hne => ?_⟩
        (Registry.put_mem hid) ⟨fun hpause => hsub (hsteady.winding hpause), hsteady.tries,
          hsteady.restarts, fun hactive => (hsteady.active hactive).imp_right hmoves⟩
      exact (hput.steady x hx hne).more (fun hin => hin) fun hin => hsub hin
    · have hdriven : Driven { r with working := working, trace := trace } :=
        h.driven.more rfl hsub fun _ hin => hin
      exact hdriven.put (e := moved) h.live.distinct he rfl (fun hwaiting => hwaiting) fun hd =>
        hd.imp_right (Or.imp_right fun hno => ⟨hno.1, hno.2.imp_right fun hor =>
          hor.elim Or.inl hgranted⟩)

end Going

namespace Almost

/-- A folder upload that stopped short is kept, or asked for again if its files are as they
were. -/
theorem settleStop (hfits : ∀ ask, c.fits ask = true) (h : Almost e.id r) (he : e ∈ r.list)
    (htries : e.tries ≠ none → e.handle.folder = false) {stop : Stop}
    (hkept : stop = .again → ((r.runs e.id).getD {}).again < AGAIN_TRIES →
      e.handle.upload = true → (r.disk.folder e.id).changed = false) :
    Going (r.settleStop c e stop) := by
  have hid : e.id ∈ r.list.map Entry.id := List.mem_map_of_mem he
  let kept : Entry := { e with
    pause := some (if stop = .changed then .changed FOLDER_KEPT else .paused FOLDER_KEPT) }
  have hput : Almost kept.id (r.put kept) := Almost.put h
  have hmem : kept ∈ (r.put kept).list := Registry.put_mem hid
  unfold Registry.settleStop
  dsimp only
  split
  next hagain =>
    obtain ⟨rfl, hfew⟩ := hagain
    have hrun : Almost kept.id ((r.put kept).setRun e.id
        (some { (r.runs e.id).getD {} with again := ((r.runs e.id).getD {}).again + 1 })) :=
      hput.setRun _
    refine hrun.resumeKept hfits hmem htries fun hupload hchanged => ?_
    have hsame := hkept rfl hfew hupload
    exact absurd (hsame.symm.trans hchanged) nofun
  next =>
    have hlive : Live (r.put kept) := by
      refine Almost.put_live (e := kept) h hid (.ofPause rfl ?_ ?_ htries)
      · split <;> nofun
      · cases stop <;> rfl
    exact (hlive.setRun _).startNext hfits

theorem settled (hfits : ∀ ask, c.fits ask = true) (h : Almost e.id r) (he : e ∈ r.list)
    (htries : e.tries ≠ none → e.handle.folder = false) {stop : Option Stop}
    (failed : Option Failure)
    (hkept : stop = some .again → e.pause ≠ some .winding →
      ((r.runs e.id).getD {}).again < AGAIN_TRIES → e.handle.upload = true →
      (r.disk.folder e.id).changed = false) : Going (r.settled c e stop failed) := by
  have hid : e.id ∈ r.list.map Entry.id := List.mem_map_of_mem he
  unfold Registry.settled
  split
  · split
    · rw [Registry.cleanUp_put c h.distinct]
      exact Almost.cleanUp (e := { e with pause := none }) hfits h hid htries failed
    · exact h.hold hfits hid htries fun _ => rfl
  next hwinding =>
    split
    next stop =>
      exact h.settleStop hfits he htries fun hagain => hkept (congrArg some hagain) hwinding
    next => exact h.cleanUp hfits hid htries failed

end Almost

namespace Going

theorem returned (hfits : ∀ ask, c.fits ask = true) (h : Going r) {how : End} {totalPos : ℕ}
    (hserved : Served r (.returned id how totalPos)) : Going (r.returned c id how totalPos) := by
  have hless {x : ℕ} (hne : x ≠ id) (hx : x ∈ r.working) : x ∈ r.working.filter (· ≠ id) :=
    List.mem_filter.mpr ⟨hx, by simpa using hne⟩
  have hsteady {e : Entry} (he : e ∈ r.list) (hne : e.id ≠ id) :
      Steady (r.asked.map Asked.id) (r.working.filter (· ≠ id)) e :=
    (h.live.steady e he).more (fun hin => hin) (hless hne)
  unfold Registry.returned
  dsimp only
  split
  next hnone =>
    have hout : ∀ e ∈ r.list, e.id ≠ id := fun e he heq =>
      not_listed hnone (heq ▸ List.mem_map_of_mem he)
    refine ⟨⟨h.live.distinct, h.live.old, fun e he => hsteady he (hout e he)⟩, fun hwaiting => ?_⟩
    obtain ⟨e, he, hd⟩ := h.driven hwaiting
    exact ⟨e, he, hd.imp_right (Or.imp_right fun hno => ⟨hno.1, hno.2.imp_right
      (Or.imp_left (hless (hout e he)))⟩)⟩
  next e hfound =>
    obtain ⟨he, rfl⟩ := Registry.mem_of_find? hfound
    let moved : Entry := Registry.movedTo e how totalPos
    have hended : Almost moved.id { r with working := r.working.filter (· ≠ e.id) } :=
      ⟨h.live.distinct, h.live.old, fun x hx hne => hsteady hx hne⟩
    have hmem : moved ∈ (({ r with working := r.working.filter (· ≠ e.id) } : Registry).put
        moved).list := Registry.put_mem (List.mem_map.mpr ⟨e, he, rfl⟩)
    have hrun := hended.put.setRun (n := moved.id)
      (Registry.ranTo { r with working := r.working.filter (· ≠ e.id) } moved how)
    refine hrun.settled hfits hmem (h.live.steady e he).tries _ ?_
    intro hstop hwinding hfew hupload
    obtain ⟨rfl, hfolder⟩ : how = .short .again ∧ e.handle.folder = true := by
      unfold Entry.stopBy at hstop
      split at hstop
      next stop =>
        split at hstop
        next hboth =>
          obtain rfl := Option.some.inj hstop
          exact ⟨rfl, hboth.2.1⟩
        next => cases hstop
      next => cases hstop
    have hmoved : moved.handle.folder = true := hfolder
    refine hserved e he rfl hupload hfolder hwinding ?_
    simpa [Registry.setRun, Registry.ranTo, hmoved, show moved.id = e.id from rfl] using hfew

theorem queueRetry (hfits : ∀ ask, c.fits ask = true) (h : Going r) (id : ℕ) :
    Going (r.queueRetry c id) := by
  unfold Registry.queueRetry
  dsimp only
  split
  · have hlive : Live { r with timers := r.timers.erase id } := { h.live with }
    exact hlive.startNext hfits
  next hout =>
    refine ⟨{ h.live with }, fun hwaiting => ?_⟩
    obtain ⟨e, he, hd⟩ := h.driven hwaiting
    have hne : e.id ≠ id := by
      rintro rfl
      exact hout (List.any_eq_true.mpr ⟨e, he, by simp⟩)
    exact ⟨e, he, hd.imp_right (Or.imp_right fun hno => ⟨hno.1, hno.2.imp_left
      (List.mem_erase_of_ne hne).mpr⟩)⟩

/-- A transfer is made: none waits for it. -/
theorem xferInit (h : Live r) (handle : Handle) :
    Almost r.next (r.xferInit handle) ∧
      (⟨r.next, handle, none, none⟩ : Entry) ∈ (r.xferInit handle).list := by
  refine ⟨⟨?_, ?_, ?_⟩, List.mem_append_right _ List.mem_cons_self⟩
  · simp only [Registry.xferInit, List.map_append, List.map_cons, List.map_nil]
    refine List.nodup_append.mpr ⟨h.distinct, by simp, fun id hid id' hid' heq => ?_⟩
    exact absurd (h.old id hid) (by rw [heq, List.mem_singleton.mp hid']; exact lt_irrefl _)
  · intro id hid
    simp only [Registry.xferInit, List.map_append, List.map_cons, List.map_nil] at hid
    rcases List.mem_append.mp hid with hid | hid
    · exact Nat.lt_succ_of_lt (h.old id hid)
    · exact List.mem_singleton.mp hid ▸ Nat.lt_succ_self _
  · intro e he hne
    rcases List.mem_append.mp he with he | he
    · exact h.steady e he
    · exact absurd (List.mem_singleton.mp he ▸ rfl) hne

theorem xferNew (hfits : ∀ ask, c.fits ask = true) (h : Going r) {handle : Handle}
    (hfile : handle.folder = false) (hgone : handle.gone = false) :
    Going (r.xferNew c handle) := by
  let made : Entry := ⟨r.next, handle, none, none⟩
  obtain ⟨halmost, hmem⟩ := xferInit h.live handle
  have hfresh : made.fresh = true := by simp [Entry.fresh, made, hfile, hgone]
  have hlive : Live (r.xferInit handle) := Almost.live (e := made) halmost hmem
    ⟨nofun, fun _ => hfile, nofun, by simp [Entry.active, Entry.resuming, hfresh, made]⟩
  unfold Registry.xferNew
  split
  · have hwent := made.went (r.xferInit handle).disk.toFiles (c.large made.htlc)
    obtain ⟨hsent, hin⟩ := hlive.sendFile hfits hmem hfile hwent none
    rw [Registry.xferGo, if_neg (by simp [hfile])]
    exact hsent.going hin (Or.inl (hwent.active (Or.inl rfl)))
  next hqueued =>
    obtain ⟨e, he, hunpaused⟩ : ∃ e ∈ r.list, e.paused = false := by
      simpa using (not_or.mp hqueued).1
    have hdriving : ∃ x ∈ r.list, Driving r x := by
      by_cases hwaiting : e.waiting = true
      · exact h.driven ⟨e, he, hwaiting⟩
      · refine ⟨e, he, Or.inl (Entry.active_of_unpaused hunpaused fun hpause => ?_)⟩
        simpa [Entry.waiting, hpause] using hwaiting
    obtain ⟨x, hx, hd⟩ := hdriving
    exact hlive.going (List.mem_append_left _ hx) hd

theorem newFolder (hfits : ∀ ask, c.fits ask = true) (h : Going r) {handle : Handle}
    (hfolder : handle.folder = true) : Going (r.newFolder c handle) := by
  let made : Entry := ⟨r.next, handle, none, none⟩
  obtain ⟨halmost, hmem⟩ := xferInit h.live handle
  have halmost' : Almost made.id (r.xferInit handle) := halmost
  have hactive : made.active = true := by simp [Entry.active, Entry.fresh, made, hfolder]
  unfold Registry.newFolder
  split
  · rcases halmost'.askPutFolder hfits hmem nofun (fun htries => absurd rfl htries) nofun hactive
      false with ⟨-, hfalse⟩ | ⟨-, hgoing⟩
    · cases hfalse
    · exact hgoing
  · refine (halmost'.ask hfits hmem nofun (fun htries => absurd rfl htries) nofun _).going
      (e := made) ?_ (Or.inl hactive)
    rw [Registry.askFolder, Registry.expectTransfer, if_pos (hfits _)]
    exact hmem

theorem xferUp (h : Going r) (num : ℕ) : Going (r.xferUp num) := by
  obtain ⟨l, hperm, hup⟩ := r.xferUp_list num
  rw [hup]
  refine ⟨⟨(hperm.map _).nodup_iff.mpr h.live.distinct,
    fun id hid => h.live.old id ((hperm.map _).mem_iff.mp hid),
    fun e he => h.live.steady e (hperm.mem_iff.mp he)⟩, ?_⟩
  rintro ⟨e, he, hwaiting⟩
  obtain ⟨x, hx, hd⟩ := h.driven ⟨e, hperm.mem_iff.mp he, hwaiting⟩
  exact ⟨x, hperm.mem_iff.mpr hx, hd⟩

/-- No step stops the queue, if the replies name their transfers and no folder upload that is asked
for again by itself finds its files changed. -/
theorem step (hfits : ∀ ask, c.fits ask = true) (h : Going r) {r' : Registry} {event : Event}
    (hserved : Served r event) (hstep : r.step c event = some r') : Going r' := by
  cases event with
  | new htlc path remotedir remotename upload preview srvDataSize =>
    obtain rfl := Option.some.inj hstep
    exact h.xferNew hfits rfl rfl
  | newFolder htlc path remotedir remotename upload =>
    obtain rfl := Option.some.inj hstep
    exact h.newFolder hfits rfl
  | pause id =>
    obtain ⟨e, hfind, rfl⟩ := Option.map_eq_some_iff.mp hstep
    exact h.xferPause (Registry.mem_of_find? hfind).1
  | go id =>
    obtain ⟨e, hfind, rfl⟩ := Option.map_eq_some_iff.mp hstep
    exact h.xferGo hfits (Registry.mem_of_find? hfind).1
  | delete id =>
    obtain ⟨e, hfind, rfl⟩ := Option.map_eq_some_iff.mp hstep
    exact (h.live.almost e.id).xferDelete hfits
      (List.mem_map_of_mem (Registry.mem_of_find? hfind).1)
  | up num =>
    obtain rfl := Option.some.inj hstep
    exact h.xferUp num
  | down num =>
    obtain rfl := Option.some.inj hstep
    exact h.xferUp (num + 1)
  | replied number t =>
    obtain rfl := Option.some.inj hstep
    exact h.replied hfits hserved
  | refused number =>
    obtain rfl := Option.some.inj hstep
    exact h.refused hfits number
  | queued htlc reference queue =>
    obtain rfl := Option.some.inj hstep
    exact h.queued htlc reference queue
  | returned id how totalPos =>
    obtain ⟨-, rfl⟩ : id ∈ r.working ∧ r.returned c id how totalPos = r' := by
      simpa [Registry.step] using hstep
    exact h.returned hfits hserved
  | retry id =>
    obtain ⟨-, rfl⟩ : id ∈ r.timers ∧ r.queueRetry c id = r' := by
      simpa [Registry.step] using hstep
    exact h.queueRetry hfits id
  | changes disk =>
    obtain rfl := Option.some.inj hstep
    exact ⟨{ h.live with }, h.driven⟩

end Going

end

/-- Whenever a file's transfer waits, some transfer is under way, in every run in which each reply
to a transfer names it and no folder upload that is asked for again by itself finds its files
changed. -/
theorem registry_moves (c : Client) (hfits : ∀ ask, c.fits ask = true) (disk : LocalDisk)
    (events : List Event) (hserved : (registry c disk).Along Served events) :
    (registry c disk).Throughout Moves events := by
  intro before r hbegin hrun
  have hstart : Going (registry c disk).start :=
    ⟨⟨List.nodup_nil, nofun, nofun⟩, fun ⟨_, he, _⟩ => nomatch he⟩
  have hgoing := Reactive.Process.invariant_along hstart
    (fun r event r' h hevent hstep => h.step hfits hevent hstep) hrun (hserved.of_begin hbegin)
  exact hgoing.moves

section Sample

/-- Two downloads: the first comes, and the second goes. -/
def twoDownloads : List Event :=
  [.new 1 [97] [] [97] false false 10, .new 1 [98] [] [98] false false 10,
    .replied 0 ⟨5, 10, 0, 0, 0⟩, .returned 0 .done 10]

theorem twoDownloads_moves : (registry queueing bareDisk).Throughout Moves twoDownloads := by
  refine registry_moves queueing (fun _ => rfl) bareDisk twoDownloads
    (Reactive.Process.AlongFrom.along ?_)
  refine ⟨trivial, fun _ _ => ⟨trivial, fun _ _ => ⟨?_, fun _ _ => ⟨trivial, fun _ _ => trivial⟩⟩⟩⟩
  exact fun _ _ _ _ _ _ => ⟨by decide, fun _ _ => by decide⟩

/-- A folder upload that stopped past a folder, and whose files changed. -/
def changedFolder : LocalDisk :=
  { bareDisk with folder := fun _ => ⟨0, true, (0, 1), (0, 1)⟩ }

/-- It is asked for again by itself, is found changed, and leaves the download behind it
waiting. -/
theorem changedFolder_stalls :
    ¬(registry queueing changedFolder).Throughout Moves
      [.newFolder 1 [97] [] [97] true, .new 1 [98] [] [98] false false 10,
        .replied 0 ⟨5, 0, 0, 0, 0⟩, .returned 0 (.short .again) 0] := by
  intro h
  exact absurd (h _ _ (List.prefix_refl _) rfl) (by decide)

end Sample

end Gtkhx.Transfers
