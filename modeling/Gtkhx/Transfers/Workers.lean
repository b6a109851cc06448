import Gtkhx.Transfers.Registry

/-!
# One request and one worker for a transfer

In every run a transfer has a request in flight or a worker, never both nor two, unless the server
moves up the queue a transfer that it never named.
-/

namespace Gtkhx.Transfers

/-- The number of the transfer's last request. -/
def lastRequest (id : ℕ) : List Note → Option ℕ
  | [] => none
  | .request id' number :: trace => if id' = id then some number else lastRequest id trace
  | _ :: trace => lastRequest id trace

/-- The transfer's last request was answered, with a reference. -/
def Answered (trace : List Note) (id : ℕ) : Prop :=
  ∃ trans reference, lastRequest id trace = some trans ∧
    .reply id trans reference ∈ trace ∧ reference ≠ 0

/-- Each worker was started for a transfer of the list that was not paused and whose last request
was answered with a reference; nothing was sent or started for a transfer once it was canceled. -/
def Justified : List Note → Prop
  | [] => True
  | .request id _ :: trace => .delete id ∉ trace ∧ Justified trace
  | .worker id listed pause :: trace =>
    (listed = true ∧ pause = none ∧ Answered trace id ∧ .delete id ∉ trace) ∧ Justified trace
  | _ :: trace => Justified trace

/-- One request and one worker for each transfer, and none for one that is canceled. -/
structure Exclusive (r : Registry) : Prop where
  requests : (r.asked.map Asked.id).Nodup
  workers : r.working.Nodup
  either : ∀ id ∈ r.asked.map Asked.id, id ∉ r.working
  justified : Justified r.trace
  canceled : ∀ e ∈ r.list, .delete e.id ∉ r.trace

/-- No update of the server's queue moves up a transfer that has no reference yet. -/
def Named (r : Registry) : Event → Prop
  | .queued htlc reference queue =>
    reference = 0 → queue = 0 → ∀ e ∈ r.list, e.htlc = htlc → e.handle.ref ≠ 0
  | _ => True

/-- Where a transfer of the list stands, by its handle and its pause: `asked` are the transfers
with a request in flight. -/
structure Placed (asked working : List ℕ) (trace : List Note) (e : Entry) : Prop where
  unnamed : e.handle.ref = 0 → e.pause = none ∧ e.id ∉ working
  fresh : e.fresh = true → e.handle.ref = 0 ∧ e.id ∉ asked
  requested : e.id ∈ asked → e.pause = none ∧ e.handle.ref = 0 ∨ e.resuming = true
  running : e.id ∈ working → e.pause = none ∨ e.pause = some .winding
  answered : e.pause = none ∨ e.pause = some .winding → e.handle.ref ≠ 0 → Answered trace e.id
  restarts : ∀ kept, e.pause = some (.restarted kept) → e.handle.upload = true
  listed : .delete e.id ∉ trace

/-- What holds in every state that no update for an unnamed transfer came before. -/
structure Tidy (r : Registry) : Prop where
  distinct : (r.list.map Entry.id).Nodup
  old : ∀ id ∈ r.list.map Entry.id, id < r.next
  oldAsked : ∀ id ∈ r.asked.map Asked.id, id < r.next
  oldWorking : ∀ id ∈ r.working, id < r.next
  oldCanceled : ∀ id, .delete id ∈ r.trace → id < r.next
  requests : (r.asked.map Asked.id).Nodup
  workers : r.working.Nodup
  either : ∀ id ∈ r.asked.map Asked.id, id ∉ r.working
  latest : ∀ a ∈ r.asked, lastRequest a.id r.trace = some a.trans
  placed : ∀ e ∈ r.list, Placed (r.asked.map Asked.id) r.working r.trace e
  justified : Justified r.trace

namespace Answered

variable {trace : List Note} {id : ℕ}

theorem cons {n : Note} (h : Answered trace id) (hn : ∀ trans, n ≠ .request id trans) :
    Answered (n :: trace) id := by
  obtain ⟨trans, reference, hlast, hreply, hne⟩ := h
  refine ⟨trans, reference, ?_, List.mem_cons_of_mem _ hreply, hne⟩
  cases n with
  | request id' trans' =>
    have hid : id' ≠ id := by
      rintro rfl
      exact hn trans' rfl
    simpa [lastRequest, hid] using hlast
  | _ => exact hlast

end Answered

namespace Placed

variable {asked working : List ℕ} {trace : List Note} {e : Entry}

/-- The same transfer, changed in what its place does not depend on. -/
theorem congr {e' : Entry} (h : Placed asked working trace e) (hid : e'.id = e.id)
    (hpause : e'.pause = e.pause) (hrole : e'.handle.role = e.handle.role) :
    Placed asked working trace e' := by
  simp only [Handle.role, Prod.mk.injEq] at hrole
  obtain ⟨-, hupload, hfolder, hgone, href⟩ := hrole
  refine ⟨?_, ?_, ?_, ?_, ?_, ?_, ?_⟩
  · simpa only [hid, hpause, href] using h.unnamed
  · simpa only [Entry.fresh, hid, hfolder, hgone, href] using h.fresh
  · simpa only [Entry.resuming, hid, hpause, href] using h.requested
  · simpa only [hid, hpause] using h.running
  · simpa only [hid, hpause, href] using h.answered
  · simpa only [hpause, hupload] using h.restarts
  · simpa only [hid] using h.listed

/-- A transfer that a pause or a failure kept awaits nothing, and has a reference. -/
theorem ofKept {kept : Disk} (h : Placed asked working trace e)
    (hkept : keptBy e.pause = some kept) :
    e.handle.ref ≠ 0 ∧ e.id ∉ asked ∧ e.id ∉ working := by
  have hstopped : e.pause = some (.paused kept) ∨ ∃ why, e.pause = some (.failed kept why) := by
    unfold keptBy at hkept
    split at hkept
    next _ kept' hpause => exact Or.inl (by simpa [hpause] using hkept)
    next _ kept' why hpause => exact Or.inr ⟨why, by simpa [hpause] using hkept⟩
    next => cases hkept
  refine ⟨fun href => ?_, fun hin => ?_, fun hin => ?_⟩
  · rcases hstopped with hpause | ⟨why, hpause⟩ <;> simpa [hpause] using (h.unnamed href).1
  · rcases hstopped with hpause | ⟨why, hpause⟩ <;>
      simpa [hpause, Entry.resuming] using h.requested hin
  · rcases hstopped with hpause | ⟨why, hpause⟩ <;> simpa [hpause] using h.running hin

/-- A transfer with a reference was asked for. -/
theorem stale (h : Placed asked working trace e) (href : e.handle.ref ≠ 0) : e.fresh = false :=
  Bool.eq_false_iff.mpr fun hfresh => href (h.fresh hfresh).1

/-- A transfer with a reference that is paused, or asked for again. -/
theorem ofPause {pause : Pause} (hpause : e.pause = some pause) (hwinding : pause ≠ .winding)
    (href : e.handle.ref ≠ 0) (hstale : e.fresh = false) (hidle : e.id ∉ working)
    (hask : e.id ∈ asked → e.resuming = true)
    (hrestart : ∀ kept, pause = .restarted kept → e.handle.upload = true)
    (hlisted : .delete e.id ∉ trace) : Placed asked working trace e where
  unnamed hzero := absurd hzero href
  fresh hfresh := absurd hfresh (by simp [hstale])
  requested hin := Or.inr (hask hin)
  running hin := absurd hin hidle
  answered h _ := by simp [hpause, hwinding] at h
  restarts kept h := hrestart kept (by simpa [hpause] using h)
  listed := hlisted

/-- Fewer requests and workers. -/
theorem less {asked' working' : List ℕ} (h : Placed asked working trace e)
    (hasked : e.id ∈ asked' → e.id ∈ asked) (hworking : e.id ∈ working' → e.id ∈ working) :
    Placed asked' working' trace e :=
  ⟨fun href => ⟨(h.unnamed href).1, fun hw => (h.unnamed href).2 (hworking hw)⟩,
    fun hfresh => ⟨(h.fresh hfresh).1, fun ha => (h.fresh hfresh).2 (hasked ha)⟩,
    fun ha => h.requested (hasked ha), fun hw => h.running (hworking hw), h.answered, h.restarts,
    h.listed⟩

theorem cons {n : Note} (h : Placed asked working trace e)
    (hask : ∀ trans, n ≠ .request e.id trans) (hdelete : n ≠ .delete e.id) :
    Placed asked working (n :: trace) e :=
  ⟨h.unnamed, h.fresh, h.requested, h.running,
    fun hpause href => (h.answered hpause href).cons hask, h.restarts,
    fun hin => (List.mem_cons.mp hin).elim (fun heq => hdelete heq.symm) h.listed⟩

end Placed

namespace Tidy

variable {c : Client} {r : Registry} {e : Entry} {id : ℕ}

theorem exclusive (h : Tidy r) : Exclusive r :=
  ⟨h.requests, h.workers, h.either, h.justified, fun e he => (h.placed e he).listed⟩

theorem put (h : Tidy r)
    (he : e.id ∈ r.list.map Entry.id →
      Placed (r.asked.map Asked.id) r.working r.trace e) : Tidy (r.put e) where
  distinct := by rw [Registry.put_ids]; exact h.distinct
  old := by rw [Registry.put_ids]; exact h.old
  oldAsked := h.oldAsked
  oldWorking := h.oldWorking
  oldCanceled := h.oldCanceled
  requests := h.requests
  workers := h.workers
  either := h.either
  latest := h.latest
  placed := by
    intro x hx
    rcases Registry.mem_put hx with rfl | ⟨hx', _⟩
    · refine he ?_
      rw [← Registry.put_ids r x]
      exact List.mem_map_of_mem hx
    · exact h.placed x hx'
  justified := h.justified

theorem setRun (h : Tidy r) (id : ℕ) (run : Option FolderRun) : Tidy (r.setRun id run) :=
  { h with }

theorem setHeld (h : Tidy r) (bytes : ℕ) : Tidy (r.setHeld id bytes) := { h with }

/-- A request for a transfer that awaits none and has no worker. -/
theorem expectTransfer (h : Tidy r) (he : e ∈ r.list) (hout : e.id ∉ r.asked.map Asked.id)
    (hidle : e.id ∉ r.working) (hfresh : e.fresh = false)
    (hask : e.pause = none ∧ e.handle.ref = 0 ∨ e.resuming = true) (ask : Ask) :
    Tidy (r.expectTransfer c e.id ask) := by
  unfold Registry.expectTransfer
  split
  · have hcanceled := (h.placed e he).listed
    have hmem {id : ℕ} (hid : id ∈ (r.asked ++ [(⟨r.trans, e.id⟩ : Asked)]).map Asked.id) :
        id ∈ r.asked.map Asked.id ∨ id = e.id := by
      rw [List.map_append] at hid
      exact (List.mem_append.mp hid).imp_right List.mem_singleton.mp
    refine ⟨h.distinct, h.old, ?_, h.oldWorking, ?_, ?_, h.workers, ?_, ?_, ?_, hcanceled,
      h.justified⟩
    · intro id hid
      rcases hmem hid with hid | rfl
      · exact h.oldAsked id hid
      · exact h.old _ (List.mem_map_of_mem he)
    · intro id hid
      exact h.oldCanceled id (by simpa using hid)
    · rw [List.map_append]
      exact List.nodup_append.mpr ⟨h.requests, by simp, fun a ha b hb heq =>
        hout (by rwa [heq, List.mem_singleton.mp hb] at ha)⟩
    · intro id hid
      rcases hmem hid with hid | rfl
      · exact h.either id hid
      · exact hidle
    · intro a ha
      rcases List.mem_append.mp ha with ha | heq
      · have hne : e.id ≠ a.id := fun heq => hout (heq ▸ List.mem_map_of_mem ha)
        simpa [lastRequest, hne] using h.latest a ha
      · obtain rfl : a = ⟨r.trans, e.id⟩ := by simpa using heq
        simp [lastRequest]
    · intro x hx
      have hplaced := h.placed x hx
      by_cases hid : x.id = e.id
      · obtain rfl : x = e := List.inj_on_of_nodup_map h.distinct hx he hid
        refine ⟨hplaced.unnamed, by simp [hfresh], fun _ => hask, hplaced.running, ?_,
          hplaced.restarts, by simpa using hcanceled⟩
        intro hpause href
        rcases hask with ⟨-, hzero⟩ | hresuming
        · exact absurd hzero href
        · rcases hpause with hpause | hpause <;> simp [Entry.resuming, hpause] at hresuming
      · have hnote : ∀ number, Note.request e.id r.trans ≠ .request x.id number :=
          fun number heq => hid (Note.request.inj heq).1.symm
        exact (hplaced.cons hnote nofun).less (fun hin => (hmem hin).resolve_right hid) fun hw => hw
  · exact h

/-- A worker for a transfer that has a reference. -/
theorem xferReadyWrite (h : Tidy r) (he : e ∈ r.list) (href : e.handle.ref ≠ 0) :
    Tidy (r.xferReadyWrite e.id) := by
  have hpauseOf : r.pauseOf e.id = e.pause := by
    simp [Registry.pauseOf, Registry.find?_of_mem h.distinct he]
  have hlisted : r.list.any (·.id = e.id) = true := List.any_eq_true.mpr ⟨e, he, by simp⟩
  unfold Registry.xferReadyWrite
  rw [hpauseOf, hlisted]
  split
  · exact h
  next hready =>
    obtain ⟨hsome, hidle⟩ := not_or.mp hready
    have hpause : e.pause = none := by simpa using hsome
    have hplaced := h.placed e he
    have hanswered := hplaced.answered (Or.inl hpause) href
    have hout : e.id ∉ r.asked.map Asked.id := by
      intro hin
      rcases hplaced.requested hin with ⟨-, hzero⟩ | hresuming
      · exact href hzero
      · simp [Entry.resuming, hpause] at hresuming
    refine ⟨h.distinct, h.old, h.oldAsked, ?_, ?_, h.requests, ?_, ?_, h.latest, ?_,
      ⟨⟨rfl, hpause, hanswered, hplaced.listed⟩, h.justified⟩⟩
    · intro id hid
      rcases List.mem_append.mp hid with hid | hid
      · exact h.oldWorking id hid
      · obtain rfl := List.mem_singleton.mp hid
        exact h.old _ (List.mem_map_of_mem he)
    · intro id hid
      exact h.oldCanceled id (by simpa using hid)
    · exact List.nodup_append.mpr ⟨h.workers, by simp, fun a ha b hb heq =>
        hidle (by rwa [heq, List.mem_singleton.mp hb] at ha)⟩
    · intro id hid hin
      rcases List.mem_append.mp hin with hin | hin
      · exact h.either id hid hin
      · exact hout (List.mem_singleton.mp hin ▸ hid)
    · intro x hx
      have hx' := (h.placed x hx).cons (n := .worker e.id true e.pause) nofun nofun
      by_cases hid : x.id = e.id
      · obtain rfl : x = e := List.inj_on_of_nodup_map h.distinct hx he hid
        exact ⟨fun hzero => absurd hzero href, hx'.fresh, hx'.requested, fun _ => Or.inl hpause,
          hx'.answered, hx'.restarts, hx'.listed⟩
      · refine hx'.less (fun ha => ha) fun hin => ?_
        exact (List.mem_append.mp hin).resolve_right fun heq => hid (List.mem_singleton.mp heq)

/-- A file's transfer goes, or stays. -/
theorem sendFile {e' : Entry} {request : Option FileRequest} (h : Tidy r) (he : e ∈ r.list)
    (hfile : e.handle.folder = false) (hwent : Went e e' request) (tries : Option ℕ) :
    Tidy (r.sendFile c { e' with tries := tries } request) := by
  have hplaced := h.placed e he
  cases hwent with
  | idle => exact h.put fun _ => hplaced.congr rfl rfl rfl
  | changed hkept =>
    obtain ⟨href, hout, hidle⟩ := hplaced.ofKept hkept
    exact h.put fun _ => .ofPause rfl nofun href (hplaced.stale href) hidle
      (fun hin => absurd hin hout) nofun hplaced.listed
  | @again kept handle request hkept hrole =>
    obtain ⟨href, hout, hidle⟩ := hplaced.ofKept hkept
    simp only [Handle.role, Prod.mk.injEq] at hrole
    obtain ⟨-, -, -, hgone, href'⟩ := hrole
    let again : Entry := { e with handle := handle, pause := some (.asked kept), tries := tries }
    have hstale : again.fresh = false := by simp [Entry.fresh, again, hgone]
    have hput : Tidy (r.put again) := h.put fun _ =>
      .ofPause rfl nofun (href' ▸ href) hstale hidle (fun _ => rfl) nofun hplaced.listed
    have hmem : again ∈ (r.put again).list := Registry.put_mem (List.mem_map.mpr ⟨e, he, rfl⟩)
    exact hput.expectTransfer hmem hout hidle hstale (Or.inr rfl) _
  | @first handle request hpause hnot hrole =>
    have hfresh : e.fresh = true := by simp [Entry.fresh, hnot, hfile]
    obtain ⟨href, hout⟩ := hplaced.fresh hfresh
    have hidle := (hplaced.unnamed href).2
    simp only [Handle.role, Prod.mk.injEq] at hrole
    obtain ⟨-, hupload, -, hgone, href'⟩ := hrole
    let first : Entry := { e with handle := handle, tries := tries }
    have hstale : first.fresh = false := by simp [Entry.fresh, first, hgone]
    have hput : Tidy (r.put first) := by
      refine h.put fun _ => ⟨fun _ => ⟨hpause, hidle⟩, by simp [hstale], fun hin => absurd hin hout,
        fun hin => absurd hin hidle, fun _ hne => absurd (href'.trans href) hne, ?_,
        hplaced.listed⟩
      intro kept hrestart
      exact absurd (hpause.symm.trans hrestart) nofun
    have hmem : first ∈ (r.put first).list := Registry.put_mem (List.mem_map.mpr ⟨e, he, rfl⟩)
    exact hput.expectTransfer hmem hout hidle hstale (Or.inl ⟨hpause, href'.trans href⟩) _

theorem startNext (h : Tidy r) : Tidy (r.startNext c) := by
  unfold Registry.startNext
  split
  next e hfirst =>
    have he := List.mem_of_find?_eq_some hfirst
    rw [Entry.tried_eq]
    by_cases hfolder : e.handle.folder = true
    · have hgo : e.go r.disk.toFiles (c.large e.htlc) = (e, none) := by simp [Entry.go, hfolder]
      rw [hgo]
      exact h.put fun _ => (h.placed e he).congr rfl rfl rfl
    · have hgo := e.went r.disk.toFiles (c.large e.htlc)
      simp only [Entry.go, hfolder]
      exact h.sendFile he (by simpa using hfolder) hgo _
  next => exact h

/-- A transfer leaves the list. -/
theorem remove (h : Tidy r) (p : Entry → Bool) : Tidy { r with list := r.list.eraseP p } :=
  have hsub : r.list.eraseP p ⊆ r.list := (List.eraseP_sublist).subset
  { h with
    distinct := h.distinct.sublist (List.eraseP_sublist.map _)
    old := fun id hid => h.old id ((List.eraseP_sublist.map _).subset hid)
    placed := fun e he => h.placed e (hsub he) }

theorem xferRemoveFromList (h : Tidy r) (id : ℕ) : Tidy (r.xferRemoveFromList c id) := by
  unfold Registry.xferRemoveFromList
  split
  · exact ((h.remove _).setHeld 0).startNext
  · exact h

/-- A transfer is canceled. -/
theorem xferDelete (h : Tidy r) (hid : id ∈ r.list.map Entry.id) :
    Tidy (r.xferDelete c id) := by
  obtain ⟨e, he, rfl⟩ := List.mem_map.mp hid
  have hany : r.list.any (·.id = e.id) = true := List.any_eq_true.mpr ⟨e, he, by simp⟩
  have herased := h.remove (·.id = e.id)
  have hcancel : Tidy { r with
      list := r.list.eraseP (·.id = e.id), trace := .delete e.id :: r.trace } :=
    { herased with
      oldCanceled := by
        intro id hid
        rcases List.mem_cons.mp hid with heq | hid
        · obtain rfl := Note.delete.inj heq
          exact h.old _ (List.mem_map_of_mem he)
        · exact h.oldCanceled id hid
      latest := fun a ha => herased.latest a ha
      placed := fun x hx => (herased.placed x hx).cons nofun fun heq =>
        (Registry.mem_eraseP h.distinct hx).2 (Note.delete.inj heq).symm }
  simp only [Registry.xferDelete, Registry.xferRemoveFromList, hany, if_true]
  exact (hcancel.setHeld 0).startNext

/-- A transfer whose request was answered or refused: it awaits no other, and has no worker. -/
structure Awaited (r : Registry) (e : Entry) : Prop where
  mem : e ∈ r.list
  out : e.id ∉ r.asked.map Asked.id
  idle : e.id ∉ r.working
  stale : e.fresh = false
  awaits : e.pause = none ∧ e.handle.ref = 0 ∨ e.resuming = true

/-- A folder upload is asked for, again or not. -/
theorem askPutFolder (h : Tidy r) (hawaited : Awaited r e) (resume : Bool) :
    Tidy (r.askPutFolder c e resume).1 := by
  unfold Registry.askPutFolder
  dsimp only
  split
  · exact h
  · generalize max 1 (min (r.putTotals e.id resume).1 U32_MAX) = size
    let sized : Entry := { e with handle := { e.handle with totalSize := size } }
    have hput : Tidy (r.put sized) := h.put fun _ => (h.placed e hawaited.mem).congr rfl rfl rfl
    have hmem : sized ∈ (r.put sized).list :=
      Registry.put_mem (List.mem_map.mpr ⟨e, hawaited.mem, rfl⟩)
    exact hput.expectTransfer hmem hawaited.out hawaited.idle hawaited.stale hawaited.awaits _

theorem resumeKept (h : Tidy r) (he : e ∈ r.list) {kept : Disk}
    (hkept : keptBy e.pause = some kept) : Tidy (r.resumeKept c e kept) := by
  have hplaced := h.placed e he
  obtain ⟨href, hout, hidle⟩ := hplaced.ofKept hkept
  let e' : Entry :=
    { e with handle := { e.handle with totalPos := 0 }, pause := some (.asked kept) }
  have hstale : e'.fresh = false := hplaced.stale href
  have hput : Tidy (r.put e') := h.put fun _ =>
    .ofPause rfl nofun href hstale hidle (fun _ => rfl) nofun hplaced.listed
  have hmem : e' ∈ (r.put e').list := Registry.put_mem (List.mem_map.mpr ⟨e, he, rfl⟩)
  unfold Registry.resumeKept
  dsimp only
  split
  · split
    · exact h.put fun _ =>
        .ofPause rfl nofun href hstale hidle (fun hin => absurd hin hout) nofun hplaced.listed
    · generalize (r.runs e.id).map (fun run =>
        { run with resumed := true, reoffered := false }) = run
      have hasked := (hput.setRun e.id run).askPutFolder (c := c)
        ⟨hmem, hout, hidle, hstale, Or.inr rfl⟩ true
      split
      next r' heq =>
        rw [heq] at hasked
        exact hasked
      next r' heq =>
        rw [heq] at hasked
        have hremove := Registry.xferRemoveFromList_put (e := { e' with pause := none }) c
          hasked.distinct
        exact hremove ▸ hasked.xferRemoveFromList e.id
  · exact (hput.setHeld _).expectTransfer hmem hout hidle hstale (Or.inr rfl) _

theorem resumeFolder (h : Tidy r) (he : e ∈ r.list) : Tidy (r.resumeFolder c e) := by
  unfold Registry.resumeFolder
  split
  next kept hpause => exact h.resumeKept he (by simp [keptBy, hpause])
  next kept why hpause => exact h.resumeKept he (by simp [keptBy, hpause])
  next => exact h

theorem xferGo (h : Tidy r) (he : e ∈ r.list) : Tidy (r.xferGo c e) := by
  unfold Registry.xferGo
  split
  · exact h.resumeFolder he
  next hfile =>
    have hwent := e.went r.disk.toFiles (c.large e.htlc)
    exact h.sendFile he (by simpa using hfile) hwent e.tries

theorem xferPause (h : Tidy r) (he : e ∈ r.list) : Tidy (r.xferPause e) := by
  unfold Registry.xferPause
  split
  next hcan =>
    have hplaced := h.placed e he
    simp only [Registry.xferCanPause, decide_eq_true_eq] at hcan
    obtain ⟨-, hworking, hpause⟩ := hcan
    have href : e.handle.ref ≠ 0 := fun hzero => (hplaced.unnamed hzero).2 hworking
    exact h.put fun _ => ⟨fun hzero => absurd hzero href, fun hfresh => hplaced.fresh hfresh,
      fun hin => absurd hworking (h.either _ hin), fun _ => Or.inr rfl,
      fun _ => hplaced.answered (Or.inl hpause), nofun, hplaced.listed⟩
  next => exact h

/-- A transfer that has no worker any more is kept, as its pause or its failure leaves it. -/
theorem hold (h : Tidy r) (he : e.id ∈ r.list.map Entry.id) (hout : e.id ∉ r.asked.map Asked.id)
    (hidle : e.id ∉ r.working) (href : e.handle.ref ≠ 0) (hstale : e.fresh = false)
    {pause : Disk → Pause} (hpause : ∀ kept, keptBy (some (pause kept)) = some kept) : Tidy (r.hold c e pause) := by
  obtain ⟨x, hx, hid⟩ := List.mem_map.mp he
  refine Tidy.startNext (h.put fun _ => .ofPause rfl ?_ href hstale hidle
    (fun hin => absurd hin hout) ?_ (hid ▸ (h.placed x hx).listed))
  · intro heq
    have hkept := hpause (if e.handle.folder then FOLDER_KEPT else r.disk.disk e.handle.path)
    rw [heq] at hkept
    cases hkept
  · intro kept heq
    have hkept := hpause (if e.handle.folder then FOLDER_KEPT else r.disk.disk e.handle.path)
    rw [heq] at hkept
    cases hkept

theorem cleanUp (h : Tidy r) (he : e.id ∈ r.list.map Entry.id)
    (hout : e.id ∉ r.asked.map Asked.id) (hidle : e.id ∉ r.working) (href : e.handle.ref ≠ 0)
    (hstale : e.fresh = false) (failed : Option Failure) : Tidy (r.cleanUp c e failed) := by
  unfold Registry.cleanUp
  split
  · split
    · exact h.hold he hout hidle href hstale fun _ => rfl
    · exact h.xferRemoveFromList _
  · exact h.xferRemoveFromList _

/-- A transfer whose request was answered with a reference goes, or waits in the server's queue. -/
theorem goAnswered (h : Tidy r) (hawaited : Awaited r e) {handle : Handle} {t : Transfer}
    (hrole : handle.upload = e.handle.upload ∧ handle.folder = e.handle.folder ∧
      handle.gone = e.handle.gone)
    (href : t.reference ≠ 0) (hanswered : Answered r.trace e.id) :
    Tidy (r.goAnswered e handle t) := by
  obtain ⟨-, hfolder, hgone⟩ := hrole
  let answered : Entry := { e.answered with handle := { handle with ref := t.reference } }
  have hpause : answered.pause = none := by
    rcases hawaited.awaits with ⟨hnone, -⟩ | hresuming
    · simp [answered, Entry.answered, hnone]
    · unfold Entry.resuming at hresuming
      simp only [answered, Entry.answered]
      split <;> simp_all
  have hstale : answered.fresh = false := by
    simpa only [Entry.fresh, answered, hfolder, hgone] using hawaited.stale
  have hput {r' : Registry} (h' : Tidy r') (hawaited' : Awaited r' e)
      (hanswered' : Answered r'.trace e.id) : Tidy ((r'.put answered).hxXferAnnounce e.id t.queue) := by
    have hplaced := h'.placed e hawaited'.mem
    have htidy : Tidy (r'.put answered) := h'.put fun _ =>
      ⟨fun hzero => absurd hzero href, by simp [hstale], fun hin => absurd hin hawaited'.out,
        fun hin => absurd hin hawaited'.idle, fun _ _ => hanswered', by simp [hpause],
        hplaced.listed⟩
    unfold Registry.hxXferAnnounce
    split
    · exact htidy.xferReadyWrite (e := answered)
        (Registry.put_mem (List.mem_map.mpr ⟨e, hawaited'.mem, rfl⟩)) href
    · exact htidy
  unfold Registry.goAnswered
  dsimp only
  split
  · exact hput (h.setRun _ none) { hawaited with } hanswered
  · exact hput h hawaited hanswered

theorem downloadReady (h : Tidy r) (hawaited : Awaited r e) {t : Transfer}
    (hanswered : t.reference ≠ 0 → Answered r.trace e.id) : Tidy (r.downloadReady e t) := by
  unfold Registry.downloadReady
  split
  · exact h
  next hgood =>
    have href : t.reference ≠ 0 := fun hzero => hgood (Or.inl hzero)
    exact h.goAnswered hawaited ⟨rfl, rfl, rfl⟩ href (hanswered href)

/-- What a refusal leaves paused, of a transfer that was asked for again. -/
theorem refuse (h : Tidy r) (hawaited : Awaited r e) (hresuming : e.resuming = true)
    {handle : Handle} (hrole : handle.ref = e.handle.ref ∧ handle.folder = e.handle.folder ∧
      handle.gone = e.handle.gone) {pause : Pause}
    (hpause : (∃ kept, pause = .paused kept) ∨ ∃ kept, pause = .changed kept) :
    Tidy ((r.put { e with handle := handle, pause := some pause }).startNext c) := by
  have hplaced := h.placed e hawaited.mem
  obtain ⟨href', hfolder, hgone⟩ := hrole
  have href : e.handle.ref ≠ 0 := by
    intro hzero
    simp [Entry.resuming, (hplaced.unnamed hzero).1] at hresuming
  refine Tidy.startNext (h.put fun _ => .ofPause rfl ?_ (href' ▸ href) ?_ hawaited.idle
    (fun hin => absurd hin hawaited.out) ?_ hplaced.listed)
  · rcases hpause with ⟨kept, rfl⟩ | ⟨kept, rfl⟩ <;> nofun
  · simpa only [Entry.fresh, hfolder, hgone] using hawaited.stale
  · rcases hpause with ⟨kept, rfl⟩ | ⟨kept, rfl⟩ <;> nofun

theorem queuedRefused (h : Tidy r) (hawaited : Awaited r e)
    (hfirst : e.pause = none ∧ e.handle.ref = 0) : Tidy (r.queuedRefused c e) := by
  have hplaced := h.placed e hawaited.mem
  have hid : e.id ∈ r.list.map Entry.id := List.mem_map_of_mem hawaited.mem
  unfold Registry.queuedRefused
  split
  next n _ =>
    split
    · have hput : Tidy (r.put
          { e with handle := { e.handle with gone := false }, tries := some (n + 1) }) :=
        h.put fun _ => ⟨fun _ => ⟨hfirst.1, hawaited.idle⟩, fun _ => ⟨hfirst.2, hawaited.out⟩,
          fun hin => absurd hin hawaited.out, fun hin => absurd hin hawaited.idle,
          fun _ href => absurd hfirst.2 href, hplaced.restarts, hplaced.listed⟩
      exact { hput with }
    · have hput : Tidy (r.put { e with tries := none }) :=
        h.put fun _ => hplaced.congr rfl rfl rfl
      refine hput.xferDelete ?_
      rwa [Registry.put_ids]
  next => exact h.xferDelete hid

theorem downloadRefused (h : Tidy r) (hawaited : Awaited r e)
    (hdownload : e.handle.upload = false) : Tidy (r.downloadRefused c e) := by
  have hplaced := h.placed e hawaited.mem
  unfold Registry.downloadRefused
  split
  next kept hpause =>
    exact h.refuse hawaited (by simp [Entry.resuming, hpause]) ⟨rfl, rfl, rfl⟩
      (Or.inl ⟨kept, rfl⟩)
  next hnot =>
    refine h.queuedRefused hawaited (hawaited.awaits.resolve_right fun hresuming => ?_)
    unfold Entry.resuming at hresuming
    split at hresuming
    next kept hpause => exact hnot kept hpause
    next kept hpause =>
      have hupload := hplaced.restarts kept hpause
      simp [hdownload] at hupload
    next => cases hresuming

theorem uploadRefused (h : Tidy r) (hawaited : Awaited r e) (hupload : e.handle.upload = true) :
    Tidy (r.uploadRefused c e) := by
  have hplaced := h.placed e hawaited.mem
  unfold Registry.uploadRefused
  split
  next kept hpause =>
    have hresuming : e.resuming = true := by simp [Entry.resuming, hpause]
    have href : e.handle.ref ≠ 0 := by
      intro hzero
      have hnone := (hplaced.unnamed hzero).1
      simp [hpause] at hnone
    let e' : Entry := { e with pause := some (.restarted kept) }
    have hput : Tidy (r.put e') := h.put fun _ =>
      .ofPause rfl nofun href hawaited.stale hawaited.idle (fun _ => rfl) (fun _ _ => hupload)
        hplaced.listed
    have hmem : e' ∈ (r.put e').list :=
      Registry.put_mem (List.mem_map.mpr ⟨e, hawaited.mem, rfl⟩)
    dsimp only
    split
    · exact hput.askPutFolder ⟨hmem, hawaited.out, hawaited.idle, hawaited.stale, Or.inr rfl⟩ false
    · exact hput.expectTransfer hmem hawaited.out hawaited.idle hawaited.stale (Or.inr rfl) _
  next kept hpause =>
    exact h.refuse hawaited (by simp [Entry.resuming, hpause]) ⟨rfl, rfl, rfl⟩
      (Or.inl ⟨kept, rfl⟩)
  next => exact h.xferDelete (List.mem_map_of_mem hawaited.mem)

theorem uploadReady (h : Tidy r) (hawaited : Awaited r e) (hupload : e.handle.upload = true)
    {t : Transfer} (hanswered : t.reference ≠ 0 → Answered r.trace e.id) :
    Tidy (r.uploadReady c e t) := by
  have hplaced := h.placed e hawaited.mem
  unfold Registry.uploadReady
  split
  · exact h
  next href =>
    have hgo := hanswered href
    split
    · exact h.goAnswered hawaited ⟨rfl, rfl, rfl⟩ href hgo
    · have hrole : (r.located e t).ref = e.handle.ref ∧ (r.located e t).folder = e.handle.folder ∧
          (r.located e t).gone = e.handle.gone := ⟨rfl, rfl, rfl⟩
      dsimp only
      split
      · split
        next kept hpause =>
          exact h.refuse hawaited (by simp [Entry.resuming, hpause]) hrole (Or.inr ⟨kept, rfl⟩)
        next kept hpause =>
          exact h.refuse hawaited (by simp [Entry.resuming, hpause]) hrole (Or.inr ⟨kept, rfl⟩)
        next =>
          let located : Entry := { e with handle := r.located e t }
          have hput : Tidy (r.put located) := h.put fun _ => hplaced.congr rfl rfl rfl
          have hmem : located ∈ (r.put located).list :=
            Registry.put_mem (List.mem_map.mpr ⟨e, hawaited.mem, rfl⟩)
          exact hput.uploadRefused
            ⟨hmem, hawaited.out, hawaited.idle, hawaited.stale, hawaited.awaits⟩ hupload
      · exact h.goAnswered hawaited ⟨rfl, rfl, rfl⟩ href hgo

/-- A request is answered or refused. -/
theorem popped (h : Tidy r) {a : Asked} (ha : a ∈ r.asked) :
    Tidy { r with asked := r.asked.erase a } ∧
      a.id ∉ (r.asked.erase a).map Asked.id ∧ a.id ∉ r.working := by
  have hsub : (r.asked.erase a).Sublist r.asked := List.erase_sublist
  have hperm := (List.perm_cons_erase ha).map Asked.id
  refine ⟨{ h with
    oldAsked := fun id hid => h.oldAsked id ((hsub.map _).subset hid)
    requests := h.requests.sublist (hsub.map _)
    either := fun id hid => h.either id ((hsub.map _).subset hid)
    latest := fun b hb => h.latest b (hsub.subset hb)
    placed := fun e he => (h.placed e he).less (fun hin => (hsub.map _).subset hin) fun hin => hin },
    ?_, h.either a.id (List.mem_map_of_mem ha)⟩
  exact (List.nodup_cons.mp (hperm.nodup_iff.mp h.requests)).1

/-- A reply is written down. -/
theorem noted (h : Tidy r) (id number : ℕ) (reference : UInt32) :
    Tidy { r with trace := .reply id number reference :: r.trace } :=
  { h with
    oldCanceled := fun id hid => h.oldCanceled id (by simpa using hid)
    latest := fun a ha => h.latest a ha
    placed := fun e he => (h.placed e he).cons nofun nofun }

/-- Whose request is answered or refused awaited it. -/
theorem awaited (h : Tidy r) {a : Asked} (ha : a ∈ r.asked) (he : e ∈ r.list) (hid : e.id = a.id)
    (trace : List Note) :
    Awaited { r with asked := r.asked.erase a, trace := trace } e := by
  obtain ⟨-, hout, hidle⟩ := h.popped ha
  have hin : e.id ∈ r.asked.map Asked.id := hid ▸ List.mem_map_of_mem ha
  have hplaced := h.placed e he
  refine ⟨he, hid ▸ hout, hid ▸ hidle, ?_, hplaced.requested hin⟩
  exact Bool.eq_false_iff.mpr fun hfresh => (hplaced.fresh hfresh).2 hin

theorem replied (h : Tidy r) (number : ℕ) (t : Transfer) : Tidy (r.replied c number t) := by
  unfold Registry.replied
  split
  next => exact h
  next a hfind =>
    have ha := List.mem_of_find?_eq_some hfind
    have hnoted := (h.popped ha).1.noted a.id a.trans t.reference
    dsimp only
    split
    next => exact hnoted
    next e hfound =>
      obtain ⟨he, hid⟩ := Registry.mem_of_find? hfound
      have hawaited := h.awaited ha he hid (.reply a.id a.trans t.reference :: r.trace)
      have hanswered (href : t.reference ≠ 0) :
          Answered (.reply a.id a.trans t.reference :: r.trace) e.id :=
        ⟨a.trans, t.reference, hid ▸ h.latest a ha, hid ▸ List.mem_cons_self, href⟩
      split
      next hupload => exact hnoted.uploadReady hawaited hupload hanswered
      next => exact hnoted.downloadReady hawaited hanswered

theorem refused (h : Tidy r) (number : ℕ) : Tidy (r.refused c number) := by
  unfold Registry.refused
  split
  next => exact h
  next a hfind =>
    have ha := List.mem_of_find?_eq_some hfind
    have hpopped := (h.popped ha).1
    dsimp only
    split
    next => exact hpopped
    next e hfound =>
      obtain ⟨he, hid⟩ := Registry.mem_of_find? hfound
      have hawaited := h.awaited ha he hid r.trace
      split
      next hupload => exact hpopped.uploadRefused hawaited hupload
      next hdownload => exact hpopped.downloadRefused hawaited (by simpa using hdownload)

/-- An update of the server's queue that moves up no transfer without a reference. -/
theorem queued (h : Tidy r) {htlc : ℕ} {reference queue : UInt32}
    (hnamed : Named r (.queued htlc reference queue)) :
    Tidy (r.queued htlc reference queue) := by
  unfold Registry.queued
  split
  next => exact h
  next e hfound =>
    have he := List.mem_of_find?_eq_some hfound
    obtain ⟨hhtlc, href⟩ : e.htlc = htlc ∧ e.handle.ref = reference := by
      simpa using List.find?_some hfound
    let moved : Entry := { e with handle := { e.handle with queue := queue } }
    have hput : Tidy (r.put moved) := h.put fun _ => (h.placed e he).congr rfl rfl rfl
    have hmem : moved ∈ (r.put moved).list := Registry.put_mem (List.mem_map.mpr ⟨e, he, rfl⟩)
    unfold Registry.hxXferAnnounce
    split
    next hqueue =>
      refine hput.xferReadyWrite (e := moved) hmem fun hzero => ?_
      exact hnamed (href.symm.trans hzero) hqueue e he hhtlc hzero
    next => exact hput

/-- A folder upload that stopped short is kept, or asked for again. -/
theorem settleStop (h : Tidy r) (he : e ∈ r.list) (hout : e.id ∉ r.asked.map Asked.id)
    (hidle : e.id ∉ r.working) (href : e.handle.ref ≠ 0) (stop : Stop) :
    Tidy (r.settleStop c e stop) := by
  have hplaced := h.placed e he
  let kept : Entry := { e with
    pause := some (if stop = .changed then .changed FOLDER_KEPT else .paused FOLDER_KEPT) }
  have hput : Tidy (r.put kept) := by
    refine h.put fun _ => .ofPause rfl ?_ href (hplaced.stale href) hidle
      (fun hin => absurd hin hout) ?_ hplaced.listed
    · split <;> nofun
    · intro kept'
      split <;> nofun
  have hmem : kept ∈ (r.put kept).list := Registry.put_mem (List.mem_map.mpr ⟨e, he, rfl⟩)
  unfold Registry.settleStop
  dsimp only
  generalize (r.runs e.id).getD {} = run
  split
  · exact (hput.setRun e.id _).resumeFolder hmem
  · exact (hput.setRun e.id _).startNext

/-- A transfer whose worker returned is kept, asked for again or removed. -/
theorem settled (h : Tidy r) (he : e ∈ r.list) (hout : e.id ∉ r.asked.map Asked.id)
    (hidle : e.id ∉ r.working) (href : e.handle.ref ≠ 0) (stop : Option Stop)
    (failed : Option Failure) : Tidy (r.settled c e stop failed) := by
  have hstale := (h.placed e he).stale href
  have hid : e.id ∈ r.list.map Entry.id := List.mem_map_of_mem he
  unfold Registry.settled
  split
  · split
    · rw [Registry.cleanUp_put c h.distinct]
      exact h.cleanUp hid hout hidle href hstale failed
    · exact h.hold hid hout hidle href hstale fun _ => rfl
  · split
    next stop => exact h.settleStop he hout hidle href stop
    next => exact h.cleanUp hid hout hidle href hstale failed

theorem returned (h : Tidy r) (hid : id ∈ r.working) (how : End) (totalPos : ℕ) :
    Tidy (r.returned c id how totalPos) := by
  have hless {x : ℕ} (hx : x ∈ r.working.filter (· ≠ id)) : x ∈ r.working :=
    List.mem_of_mem_filter hx
  have hended : Tidy { r with working := r.working.filter (· ≠ id) } :=
    { h with
      oldWorking := fun x hx => h.oldWorking x (hless hx)
      workers := h.workers.filter _
      either := fun x hx hin => h.either x hx (hless hin)
      placed := fun e he => (h.placed e he).less (fun hin => hin) hless }
  unfold Registry.returned
  dsimp only
  split
  next => exact hended
  next e hfound =>
    obtain ⟨he, rfl⟩ := Registry.mem_of_find? hfound
    have hplaced := h.placed e he
    have href : e.handle.ref ≠ 0 := fun hzero => (hplaced.unnamed hzero).2 hid
    have hout : e.id ∉ r.asked.map Asked.id := fun hin => h.either _ hin hid
    have hidle : e.id ∉ r.working.filter (· ≠ e.id) := by simp
    have hput := hended.put (e := Registry.movedTo e how totalPos) fun _ =>
      (hended.placed e he).congr rfl rfl rfl
    have hmem := Registry.put_mem (r := { r with working := r.working.filter (· ≠ e.id) })
      (e := Registry.movedTo e how totalPos) (List.mem_map.mpr ⟨e, he, rfl⟩)
    exact (hput.setRun e.id _).settled hmem hout hidle href _ _

theorem queueRetry (h : Tidy r) (id : ℕ) : Tidy (r.queueRetry c id) := by
  have hfired : Tidy { r with timers := r.timers.erase id } := { h with }
  unfold Registry.queueRetry
  dsimp only
  split
  · exact hfired.startNext
  · exact hfired

/-- A transfer is made: nothing is known of its address. -/
theorem xferInit (h : Tidy r) {handle : Handle} (href : handle.ref = 0) :
    Tidy (r.xferInit handle) where
  distinct := by
    simp only [Registry.xferInit, List.map_append, List.map_cons, List.map_nil]
    refine List.nodup_append.mpr ⟨h.distinct, by simp, fun id hid id' hid' heq => ?_⟩
    exact absurd (h.old id hid) (by rw [heq, List.mem_singleton.mp hid']; exact lt_irrefl _)
  old := by
    intro id hid
    simp only [Registry.xferInit, List.map_append, List.map_cons, List.map_nil] at hid
    rcases List.mem_append.mp hid with hid | hid
    · exact Nat.lt_succ_of_lt (h.old id hid)
    · exact List.mem_singleton.mp hid ▸ Nat.lt_succ_self _
  oldAsked := fun id hid => Nat.lt_succ_of_lt (h.oldAsked id hid)
  oldWorking := fun id hid => Nat.lt_succ_of_lt (h.oldWorking id hid)
  oldCanceled := fun id hid => Nat.lt_succ_of_lt (h.oldCanceled id hid)
  requests := h.requests
  workers := h.workers
  either := h.either
  latest := h.latest
  placed := by
    intro e he
    rcases List.mem_append.mp he with he | he
    · exact h.placed e he
    · obtain rfl := List.mem_singleton.mp he
      have hout : r.next ∉ r.asked.map Asked.id := fun hin => (h.oldAsked _ hin).ne rfl
      have hidle : r.next ∉ r.working := fun hin => (h.oldWorking _ hin).ne rfl
      exact ⟨fun _ => ⟨rfl, hidle⟩, fun _ => ⟨href, hout⟩, fun hin => absurd hin hout,
        fun hin => absurd hin hidle, fun _ hne => absurd href hne, nofun,
        fun hin => (h.oldCanceled _ hin).ne rfl⟩
  justified := h.justified

theorem xferNew (h : Tidy r) {handle : Handle} (href : handle.ref = 0) :
    Tidy (r.xferNew c handle) := by
  have hinit := h.xferInit href
  unfold Registry.xferNew
  split
  · exact hinit.xferGo (List.mem_append_right _ List.mem_cons_self)
  · exact hinit

theorem newFolder (h : Tidy r) {handle : Handle} (href : handle.ref = 0)
    (hfolder : handle.folder = true) : Tidy (r.newFolder c handle) := by
  have hinit := h.xferInit href
  have hawaited : Awaited (r.xferInit handle) ⟨r.next, handle, none, none⟩ :=
    ⟨List.mem_append_right _ List.mem_cons_self, fun hin => (h.oldAsked _ hin).ne rfl,
      fun hin => (h.oldWorking _ hin).ne rfl, by simp [Entry.fresh, hfolder], Or.inl ⟨rfl, href⟩⟩
  unfold Registry.newFolder
  split
  · exact hinit.askPutFolder hawaited false
  · exact hinit.expectTransfer hawaited.mem hawaited.out hawaited.idle hawaited.stale
      hawaited.awaits _

theorem xferUp (h : Tidy r) (num : ℕ) : Tidy (r.xferUp num) := by
  obtain ⟨l, hperm, hup⟩ := r.xferUp_list num
  rw [hup]
  exact { h with
    distinct := (hperm.map _).nodup_iff.mpr h.distinct
    old := fun id hid => h.old id ((hperm.map _).mem_iff.mp hid)
    placed := fun e he => h.placed e (hperm.mem_iff.mp he) }

end Tidy

/-- No step leaves a transfer with two requests or workers, if no update of the server's queue
moves up one without a reference. -/
theorem Tidy.step {c : Client} {r r' : Registry} {event : Event} (h : Tidy r)
    (hnamed : Named r event) (hstep : r.step c event = some r') : Tidy r' := by
  cases event with
  | new htlc path remotedir remotename upload preview srvDataSize =>
    obtain rfl := Option.some.inj hstep
    exact h.xferNew rfl
  | newFolder htlc path remotedir remotename upload =>
    obtain rfl := Option.some.inj hstep
    exact h.newFolder rfl rfl
  | pause id =>
    obtain ⟨e, hfind, rfl⟩ := Option.map_eq_some_iff.mp hstep
    exact h.xferPause (Registry.mem_of_find? hfind).1
  | go id =>
    obtain ⟨e, hfind, rfl⟩ := Option.map_eq_some_iff.mp hstep
    exact h.xferGo (Registry.mem_of_find? hfind).1
  | delete id =>
    obtain ⟨e, hfind, rfl⟩ := Option.map_eq_some_iff.mp hstep
    exact h.xferDelete (List.mem_map_of_mem (Registry.mem_of_find? hfind).1)
  | up num =>
    obtain rfl := Option.some.inj hstep
    exact h.xferUp num
  | down num =>
    obtain rfl := Option.some.inj hstep
    exact h.xferUp (num + 1)
  | replied number t =>
    obtain rfl := Option.some.inj hstep
    exact h.replied number t
  | refused number =>
    obtain rfl := Option.some.inj hstep
    exact h.refused number
  | queued htlc reference queue =>
    obtain rfl := Option.some.inj hstep
    exact h.queued hnamed
  | returned id how totalPos =>
    obtain ⟨hid, rfl⟩ : id ∈ r.working ∧ r.returned c id how totalPos = r' := by
      simpa [Registry.step] using hstep
    exact h.returned hid how totalPos
  | retry id =>
    obtain ⟨-, rfl⟩ : id ∈ r.timers ∧ r.queueRetry c id = r' := by
      simpa [Registry.step] using hstep
    exact h.queueRetry id
  | changes disk =>
    obtain rfl := Option.some.inj hstep
    exact { h with }

/-- The queue moves on to a transfer that is not paused. -/
theorem Registry.startNext_unpaused (c : Client) (r : Registry) :
    ∀ a ∈ (r.startNext c).asked, a ∈ r.asked ∨ ∃ e ∈ r.list, e.id = a.id ∧ e.paused = false := by
  intro a ha
  have hsent {e e' : Entry} {request : Option FileRequest} (hid : e'.id = e.id)
      (ha : a ∈ (r.sendFile c e' request).asked) : a ∈ r.asked ∨ e.id = a.id := by
    unfold Registry.sendFile Registry.expectTransfer at ha
    split at ha
    · split at ha
      · refine (List.mem_append.mp ha).imp_right fun hin => ?_
        rw [List.mem_singleton.mp hin, hid]
      · exact Or.inl ha
    · exact Or.inl ha
  unfold Registry.startNext at ha
  split at ha
  next e hfirst =>
    have hid : ((e.go r.disk.toFiles (c.large e.htlc)).1.tried e.handle.gone).id = e.id := by simp
    refine (hsent hid ha).imp_right fun heq => ⟨e, List.mem_of_find?_eq_some hfirst, heq, ?_⟩
    simpa using List.find?_some hfirst
  next => exact Or.inl ha

/-- In every run whose queue updates move up no transfer without a reference, a transfer has one
request in flight or one worker, a worker is started only for a transfer of the list that is not
paused and whose last request was answered, and nothing becomes of a canceled one; and the queue
moves on only to a transfer that is not paused. -/
theorem registry_exclusive (c : Client) (disk : LocalDisk) (events : List Event)
    (hnamed : (registry c disk).Along Named events) :
    (registry c disk).Throughout Exclusive events ∧
      ∀ r : Registry, ∀ a ∈ (r.startNext c).asked,
        a ∈ r.asked ∨ ∃ e ∈ r.list, e.id = a.id ∧ e.paused = false := by
  refine ⟨fun before r hbegin hrun => ?_, Registry.startNext_unpaused c⟩
  have hstart : Tidy (registry c disk).start :=
    ⟨List.nodup_nil, nofun, nofun, nofun, nofun, List.nodup_nil, List.nodup_nil, nofun, nofun,
      nofun, trivial⟩
  have htidy := Reactive.Process.invariant_along hstart
    (fun r event r' h hevent hstep => h.step hevent hstep) hrun (hnamed.of_begin hbegin)
  exact htidy.exclusive

section Sample

/-- A download is made, asked for and answered, waits for its turn, and goes. -/
def oneDownload : List Event :=
  [.new 1 [97] [] [97] false false 10, .replied 0 ⟨5, 10, 2, 0, 0⟩, .queued 1 5 0]

theorem oneDownload_exclusive :
    (registry queueing bareDisk).Throughout Exclusive oneDownload ∧
      ∀ r : Registry, ∀ a ∈ (r.startNext queueing).asked,
        a ∈ r.asked ∨ ∃ e ∈ r.list, e.id = a.id ∧ e.paused = false := by
  refine registry_exclusive queueing bareDisk oneDownload (Reactive.Process.AlongFrom.along ?_)
  refine ⟨trivial, fun _ _ => ⟨trivial, fun _ _ => ⟨?_, fun _ _ => trivial⟩⟩⟩
  exact fun hzero => absurd hzero (by decide)

/-- A download that is not answered yet, moved up the queue by an update without a reference, has
a worker beside its request. -/
theorem unanswered_works :
    ¬(registry queueing bareDisk).Throughout Exclusive
      [.new 1 [97] [] [97] false false 10, .queued 1 0 0] := by
  intro h
  have hexclusive := h _ _ (List.prefix_refl _) rfl
  exact hexclusive.either 0 (by decide) (by decide)

end Sample

end Gtkhx.Transfers
