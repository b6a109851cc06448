import Gtkhx.Preview.Source

/-!
# What the range reader serves

The window and every kept range are the file's bytes, and a fetch gives nothing else:
that holds of every run (`holds_throughout`). Keeping a chunk drains the window up to
`BEHIND` before what the player has taken, and the player may have been told to have
taken more than the range has read. The drain stays within the window as long as no pass
of a fetch takes the player past the `allowance` (`serves_within_reach`); past it, the
next byte that arrives makes the worker panic (`keep_panics_of_overreach`).
-/

namespace Gtkhx.Preview

/-- The file's bytes from `first` to `last`. -/
def fileBytes (file : List UInt8) (first last : ℕ) : List UInt8 :=
  (file.drop first).take (last - first)

/-- How far the player may have taken without the next byte draining more than the window
holds. -/
def State.allowance (s : State) : ℕ := max (s.readTo + 1 + BEHIND) (s.start + 2 * BEHIND)

/-- A pass of a fetch takes the player no further than the allowance: where it is served
although its offset is in the window, by its end, and where it waits for the current
range, by its offset. -/
def State.WithinReach (s : State) (offset : ℕ) (length : UInt32) : Prop :=
  s.closed = false → s.flushing = false → offset < s.len →
    ((s.bytes offset (s.lastOf offset length)).isSome → s.start ≤ offset →
      offset ≤ s.readTo → s.lastOf offset length ≤ s.allowance) ∧
    (s.bytes offset (s.lastOf offset length) = none → s.failed = none →
      s.reachable offset = true → offset ≤ s.allowance)

/-- Every pass of a fetch stays within reach. -/
def WithinReach (sys : System) : Action → Prop
  | .fetch offset length => sys.reader.WithinReach offset length
  | _ => True

/-- The reader serves the file's own bytes, and a worker that keeps a chunk drains no more
than the window holds. -/
structure Serves (file : List UInt8) (sys : System) : Prop where
  window : sys.reader.window = fileBytes file sys.reader.start sys.reader.readTo
  kept : ∀ segment ∈ sys.reader.kept,
    segment.2 = fileBytes file segment.1 (segment.1 + segment.2.length)
  fetch : ∀ offset length bytes, (sys.reader.fetch offset length).outcome = .ok bytes →
    bytes = fileBytes file offset (min (offset + length.toNat) file.length)
  keep : ∀ range w chunk, sys.workers range = some w → w.phase = .keeping chunk →
    ∀ s, sys.reader.keep range chunk ≠ .panics s

/-- A segment is the file's bytes at its start. -/
def Segment.Holds (file : List UInt8) (segment : Segment) : Prop :=
  segment.2 <+: file.drop segment.1

/-- The window and the kept ranges are the file's bytes, and the length is the file's. -/
structure State.Holds (file : List UInt8) (s : State) : Prop where
  window : Segment.Holds file (s.start, s.window)
  kept : ∀ segment ∈ s.kept, Segment.Holds file segment
  len : s.len = 0 ∨ s.len = file.length

/-- A worker is inside the file, and what it keeps is what comes next. -/
structure Worker.Holds (file : List UInt8) (w : Worker) : Prop where
  offset_le : w.offset ≤ file.length
  chunk : ∀ chunk, w.phase = .keeping chunk → chunk ≠ [] ∧ chunk <+: file.drop w.next

/-- The reader and its workers agree with the file, and the current range's worker goes on
where the window ends. -/
structure System.Holds (file : List UInt8) (sys : System) : Prop where
  reader : sys.reader.Holds file
  fresh : ∀ range, sys.reader.range < range → sys.workers range = none
  worker : ∀ range w, sys.workers range = some w → w.Holds file
  next : ∀ w, sys.workers sys.reader.range = some w → w.next = sys.reader.readTo

theorem Segment.Holds.eq_fileBytes {file : List UInt8} {segment : Segment}
    (h : Segment.Holds file segment) :
    segment.2 = fileBytes file segment.1 (segment.1 + segment.2.length) := by
  rw [fileBytes, Nat.add_sub_cancel_left]
  exact List.prefix_iff_eq_take.mp h

/-- What is cut of a segment is the file's bytes there. -/
theorem Segment.Holds.cut_eq {file : List UInt8} {segment : Segment} {offset last : ℕ}
    (h : Segment.Holds file segment) (hcovers : segment.covers offset last = true) :
    segment.cut offset last = fileBytes file offset last := by
  obtain ⟨start, w⟩ := segment
  obtain ⟨more, hmore⟩ := h
  simp only [Segment.covers, Bool.and_eq_true, decide_eq_true_eq] at hcovers hmore
  have hstart : start + (offset - start) = offset := by omega
  have hdrop : file.drop offset =
      w.drop (offset - start) ++ more.drop (offset - start - w.length) := by
    rw [← List.drop_append, hmore, List.drop_drop, hstart]
  have hlen : last - offset ≤ (w.drop (offset - start)).length := by
    rw [List.length_drop]
    omega
  rw [Segment.cut, fileBytes, hdrop, List.take_append_of_le_length hlen]

theorem trim_suffix (kept : List Segment) : trim kept <:+ kept := by
  induction kept with
  | nil => exact List.suffix_refl _
  | cons oldest newer ih =>
    rw [trim]
    split
    · exact ih.trans (List.suffix_cons _ _)
    · exact List.suffix_refl _

/-- What the reader finds is the file's bytes. -/
theorem State.Holds.bytes_eq {file : List UInt8} {s : State} (h : s.Holds file)
    {offset last : ℕ} {bytes : List UInt8} (hbytes : s.bytes offset last = some bytes) :
    bytes = fileBytes file offset last := by
  obtain ⟨segment, hfind, rfl⟩ := Option.map_eq_some_iff.mp hbytes
  have hcovers := List.find?_some hfind
  have hholds : Segment.Holds file segment := by
    rcases List.mem_cons.mp (List.mem_of_find?_eq_some hfind) with rfl | hmem
    · exact h.window
    · exact h.kept segment (List.mem_reverse.mp hmem)
  exact hholds.cut_eq hcovers

/-- Restarting keeps only what was read. -/
theorem State.Holds.restart {file : List UInt8} {s : State} (h : s.Holds file) (offset : ℕ) :
    (s.restart offset).Holds file where
  window := List.nil_prefix
  kept := by
    intro segment hmem
    simp only [State.restart] at hmem
    split at hmem
    · exact h.kept segment hmem
    · rcases List.mem_append.mp ((trim_suffix _).subset hmem) with hmem | hmem
      · exact h.kept segment hmem
      · rw [List.mem_singleton.mp hmem]
        exact h.window
  len := h.len

@[simp] theorem State.restart_range (s : State) (offset : ℕ) :
    (s.restart offset).range = s.range + 1 := rfl

@[simp] theorem State.restart_readTo (s : State) (offset : ℕ) :
    (s.restart offset).readTo = offset := rfl

theorem State.restart_taken_le (s : State) (offset : ℕ) :
    (s.restart offset).taken ≤ (s.restart offset).allowance := by
  rw [State.allowance, State.restart_readTo]
  change offset ≤ _
  omega

/-- What a pass of a fetch can do. -/
theorem State.fetch_cases (s : State) (offset : ℕ) (length : UInt32) :
    (∃ short, s.fetch offset length = ⟨.err short, s, none⟩) ∨
    (s.closed = false ∧ s.flushing = false ∧ offset < s.len ∧
      ((∃ bytes, s.bytes offset (s.lastOf offset length) = some bytes ∧
        (s.fetch offset length = ⟨.ok bytes, s, none⟩ ∨
          s.start ≤ offset ∧ offset ≤ s.readTo ∧ s.fetch offset length =
            ⟨.ok bytes, { s with taken := max s.taken (s.lastOf offset length) }, none⟩)) ∨
      (s.bytes offset (s.lastOf offset length) = none ∧ s.failed = none ∧
        (s.reachable offset = true ∧ s.fetch offset length =
            ⟨.waits, { s with taken := max s.taken offset,
                              waitingTo := s.lastOf offset length }, none⟩ ∨
          s.fetch offset length =
            ⟨.waits, { s.restart (offset - BACK_OFF) with waitingTo := s.lastOf offset length },
              some (offset - BACK_OFF)⟩)))) := by
  rw [State.fetch]
  split
  · exact .inl ⟨_, rfl⟩
  rename_i hopen
  split
  · exact .inl ⟨_, rfl⟩
  rename_i hlen
  have hopen : s.closed = false ∧ s.flushing = false := by simpa using hopen
  cases hbytes : s.bytes offset (s.lastOf offset length) with
  | some bytes =>
    refine .inr ⟨hopen.1, hopen.2, by omega, .inl ⟨bytes, rfl, ?_⟩⟩
    by_cases hin : s.start ≤ offset ∧ offset ≤ s.readTo
    · exact .inr ⟨hin.1, hin.2, by simp [hin]⟩
    · exact .inl (by simp [hin])
  | none =>
    cases hfailed : s.failed with
    | some problem => exact .inl ⟨_, rfl⟩
    | none =>
      refine .inr ⟨hopen.1, hopen.2, by omega, .inr ⟨rfl, rfl, ?_⟩⟩
      by_cases hreach : s.reachable offset = true
      · exact .inl ⟨hreach, by simp [hreach]⟩
      · exact .inr (by simp [hreach])

/-- A fetch gives the file's bytes, up to its end. -/
theorem State.Holds.fetch_ok {file : List UInt8} {s : State} (h : s.Holds file) {offset : ℕ}
    {length : UInt32} {bytes : List UInt8} (hok : (s.fetch offset length).outcome = .ok bytes) :
    bytes = fileBytes file offset (min (offset + length.toNat) file.length) := by
  obtain ⟨short, hfetch⟩ | ⟨-, -, hlen, ⟨given, hbytes, hfetch⟩ | ⟨-, -, hfetch⟩⟩ :=
    s.fetch_cases offset length
  · rw [hfetch] at hok
    cases hok
  · have hgiven : given = bytes := by
      rcases hfetch with hfetch | ⟨-, -, hfetch⟩ <;> rw [hfetch] at hok <;> cases hok <;> rfl
    have hsize : s.len = file.length := h.len.resolve_left (by omega)
    rw [← hgiven, h.bytes_eq hbytes, State.lastOf, hsize]
  · rcases hfetch with ⟨-, hfetch⟩ | hfetch <;> rw [hfetch] at hok <;> cases hok

/-- What a pass of `keep` can do. -/
theorem State.keep_cases (s : State) (range : ℕ) (chunk : List UInt8) :
    s.keep range chunk = .ended ∨ s.keep range chunk = .waits ∨
    (s.range = range ∧ s.drained ≤ (s.window ++ chunk).length ∧ s.keep range chunk =
      .kept { s with window := (s.window ++ chunk).drop s.drained,
                     start := s.start + s.drained }) ∨
    (s.range = range ∧ (s.window ++ chunk).length < s.drained ∧ s.keep range chunk =
      .panics { s with window := s.window ++ chunk }) := by
  rw [State.keep]
  split
  · exact .inl rfl
  rename_i hcurrent
  have hrange : s.range = range := by
    by_contra hne
    exact hcurrent (.inl hne)
  split
  · exact .inr (.inl rfl)
  split
  · rename_i hdrained
    exact .inr (.inr (.inl ⟨hrange, hdrained, rfl⟩))
  · rename_i hdrained
    exact .inr (.inr (.inr ⟨hrange, by omega, rfl⟩))

/-- A chunk that comes next extends the window. -/
theorem Segment.Holds.extend {file : List UInt8} {start : ℕ} {window chunk : List UInt8}
    (h : Segment.Holds file (start, window))
    (hchunk : chunk <+: file.drop (start + window.length)) :
    Segment.Holds file (start, window ++ chunk) := by
  obtain ⟨more, hmore⟩ := h
  have hrest : more = file.drop (start + window.length) := by
    rw [← List.drop_drop, ← hmore, List.drop_left]
  rw [← hrest] at hchunk
  obtain ⟨rest, hrest⟩ := hchunk
  exact ⟨rest, by rw [List.append_assoc, hrest, hmore]⟩

/-- What is left of a segment is the file's bytes there. -/
theorem Segment.Holds.drain {file : List UInt8} {start : ℕ} {window : List UInt8}
    (h : Segment.Holds file (start, window)) (n : ℕ) :
    Segment.Holds file (start + n, window.drop n) := by
  have hdrop : window.drop n <+: (file.drop start).drop n := List.IsPrefix.drop h n
  rwa [List.drop_drop] at hdrop

/-- A pass of a fetch leaves the file's bytes. -/
theorem State.Holds.fetch {file : List UInt8} {s : State} (h : s.Holds file) (offset : ℕ)
    (length : UInt32) : (s.fetch offset length).state.Holds file := by
  obtain ⟨short, hfetch⟩ | ⟨-, -, -, ⟨given, -, hfetch | ⟨-, -, hfetch⟩⟩ |
    ⟨-, -, ⟨-, hfetch⟩ | hfetch⟩⟩ := s.fetch_cases offset length
  · rw [hfetch]
    exact h
  · rw [hfetch]
    exact h
  · rw [hfetch]
    exact ⟨h.window, h.kept, h.len⟩
  · rw [hfetch]
    exact ⟨h.window, h.kept, h.len⟩
  · rw [hfetch]
    have hrestart := h.restart (offset - BACK_OFF)
    exact ⟨hrestart.window, hrestart.kept, hrestart.len⟩

/-- A pass of a fetch asks for a range inside the file, a new one with an empty window, or
for none, and then the window and the range's number stay. -/
theorem State.fetch_asks (s : State) (offset : ℕ) (length : UInt32) :
    (∃ from', (s.fetch offset length).asks = some from' ∧ from' ≤ s.len ∧
      (s.fetch offset length).state.range = s.range + 1 ∧
      (s.fetch offset length).state.readTo = from') ∨
    ((s.fetch offset length).asks = none ∧ (s.fetch offset length).state.range = s.range ∧
      (s.fetch offset length).state.readTo = s.readTo) := by
  obtain ⟨short, hfetch⟩ | ⟨-, -, hlen, ⟨given, -, hfetch | ⟨-, -, hfetch⟩⟩ |
    ⟨-, -, ⟨-, hfetch⟩ | hfetch⟩⟩ := s.fetch_cases offset length <;> rw [hfetch]
  · exact .inr ⟨rfl, rfl, rfl⟩
  · exact .inr ⟨rfl, rfl, rfl⟩
  · exact .inr ⟨rfl, rfl, rfl⟩
  · exact .inr ⟨rfl, rfl, rfl⟩
  · have hle : offset - BACK_OFF ≤ s.len := by omega
    exact .inl ⟨_, rfl, hle, rfl, s.restart_readTo (offset - BACK_OFF)⟩

/-- Where a range of the file ends is the file's end. -/
theorem Worker.Holds.last_eq {file : List UInt8} {w : Worker} (h : w.Holds file) :
    w.last file = file.length := by
  have hle := h.offset_le
  rw [Worker.last]
  omega

/-- Noting the length notes the file's. -/
theorem State.Holds.note {file : List UInt8} {s : State} (h : s.Holds file) :
    (s.note file.length).1.Holds file := by
  rw [State.note]
  split
  · exact ⟨h.window, h.kept, .inr rfl⟩
  · split <;> exact h

theorem State.note_range (s : State) (last : ℕ) :
    (s.note last).1.range = s.range ∧ (s.note last).1.readTo = s.readTo := by
  rw [State.note]
  split
  · exact ⟨rfl, rfl⟩
  · split <;> exact ⟨rfl, rfl⟩

theorem State.note_phase (s : State) (last : ℕ) (chunk : List UInt8) :
    (s.note last).2 ≠ .keeping chunk := by
  rw [State.note]
  split
  · nofun
  · split <;> nofun

@[simp] theorem State.finish_range (s : State) (range : ℕ) (problem : Option Problem) :
    (s.finish range problem).range = s.range := by
  rw [State.finish]
  split <;> rfl

theorem State.Holds.finish {file : List UInt8} {s : State} (h : s.Holds file) (range : ℕ)
    (problem : Option Problem) : (s.finish range problem).Holds file := by
  rw [State.finish]
  split
  · exact h
  · exact ⟨h.window, h.kept, h.len⟩

@[simp] theorem System.setWorker_reader (sys : System) (range : ℕ) (w : Option Worker) :
    (sys.setWorker range w).reader = sys.reader := rfl

@[simp] theorem System.setWorker_same (sys : System) (range : ℕ) (w : Option Worker) :
    (sys.setWorker range w).workers range = w := by
  simp [System.setWorker]

@[simp] theorem System.setWorker_ne (sys : System) {range other : ℕ} (w : Option Worker)
    (h : other ≠ range) : (sys.setWorker range w).workers other = sys.workers other := by
  simp [System.setWorker, h]

/-- A worker goes on, or goes, and the reader's window, range and length stay right. -/
theorem System.Holds.setWorker {file : List UInt8} {sys : System} (h : sys.Holds file)
    {range : ℕ} {w : Worker} (hw : sys.workers range = some w) {s : State}
    (hs : s.Holds file) (hrange : s.range = sys.reader.range) {w' : Option Worker}
    (hw' : ∀ v, w' = some v → v.Holds file)
    (hnext : range = sys.reader.range → ∀ v, w' = some v → v.next = s.readTo)
    (hother : range ≠ sys.reader.range → s.readTo = sys.reader.readTo) :
    System.Holds file { sys.setWorker range w' with reader := s } where
  reader := hs
  fresh := by
    intro later hlater
    change s.range < later at hlater
    have hfree : sys.workers later = none := h.fresh later (by omega)
    have hne : later ≠ range := by
      rintro rfl
      rw [hfree] at hw
      cases hw
    exact (System.setWorker_ne sys w' hne).trans hfree
  worker := by
    intro other v hv
    change (sys.setWorker range w').workers other = some v at hv
    by_cases hne : other = range
    · subst hne
      rw [System.setWorker_same] at hv
      exact hw' v hv
    · rw [System.setWorker_ne _ _ hne] at hv
      exact h.worker other v hv
  next := by
    intro v hv
    change (sys.setWorker range w').workers s.range = some v at hv
    rw [hrange] at hv
    by_cases hne : sys.reader.range = range
    · subst hne
      rw [System.setWorker_same] at hv
      exact hnext rfl v hv
    · rw [System.setWorker_ne _ _ hne] at hv
      exact (h.next v hv).trans (hother (Ne.symm hne)).symm

/-- Only the worker's phase changes. -/
theorem System.Holds.advance {file : List UInt8} {sys : System} (h : sys.Holds file)
    {range : ℕ} {w : Worker} (hw : sys.workers range = some w) {phase : Phase}
    (hphase : ∀ chunk, phase = .keeping chunk → chunk ≠ [] ∧ chunk <+: file.drop w.next) :
    (sys.advance range w phase).Holds file := by
  apply h.setWorker hw h.reader rfl
  · rintro v ⟨⟩
    exact ⟨(h.worker range w hw).offset_le, hphase⟩
  · rintro rfl v ⟨⟩
    exact h.next w hw
  · exact fun _ => rfl

/-- The reader moves on to a range it asks for. -/
theorem System.Holds.ask {file : List UInt8} {sys : System} (h : sys.Holds file) {s : State}
    (hs : s.Holds file) (hrange : s.range = sys.reader.range + 1) {offset : ℕ}
    (hoffset : offset ≤ file.length) (hreadTo : s.readTo = offset) :
    (System.ask { sys with reader := s } offset).Holds file where
  reader := hs
  fresh := by
    intro later hlater
    change s.range < later at hlater
    have hfree : sys.workers later = none := h.fresh later (by omega)
    have hne : later ≠ s.range := by omega
    exact (System.setWorker_ne { sys with reader := s } _ hne).trans hfree
  worker := by
    intro range v hv
    by_cases hne : range = s.range
    · subst hne
      have hv : some (Worker.mk offset offset .asked) = some v :=
        (System.setWorker_same { sys with reader := s } s.range _).symm.trans hv
      cases hv
      exact ⟨hoffset, nofun⟩
    · have hv : sys.workers range = some v :=
        (System.setWorker_ne { sys with reader := s } _ hne).symm.trans hv
      exact h.worker range v hv
  next := by
    intro v hv
    have hv : some (Worker.mk offset offset .asked) = some v :=
      (System.setWorker_same { sys with reader := s } s.range _).symm.trans hv
    cases hv
    exact hreadTo.symm

/-- A chunk that is kept leaves the window the file's bytes, ended where the worker goes on. -/
theorem State.Holds.keepChunk {file : List UInt8} {s : State} (h : s.Holds file)
    {chunk : List UInt8} (hchunk : chunk <+: file.drop s.readTo)
    (hdrained : s.drained ≤ (s.window ++ chunk).length) :
    State.Holds file { s with window := (s.window ++ chunk).drop s.drained,
                              start := s.start + s.drained } ∧
      s.start + s.drained + ((s.window ++ chunk).drop s.drained).length =
        s.readTo + chunk.length := by
  constructor
  · exact ⟨(h.window.extend hchunk).drain _, h.kept, h.len⟩
  · rw [List.length_append] at hdrained
    rw [List.length_drop, List.length_append, State.readTo]
    omega

/-- A worker's step keeps the reader and the workers in agreement with the file. -/
theorem System.Holds.work {file : List UInt8} {sys sys' : System} (h : sys.Holds file)
    {range : ℕ} {w : Worker} (hw : sys.workers range = some w) {action : Action}
    (hstep : sys.work file range w action = some sys') : sys'.Holds file := by
  have hlast := (h.worker range w hw).last_eq
  have hgone : (sys.setWorker range none).Holds file :=
    h.setWorker hw h.reader rfl nofun nofun fun _ => rfl
  cases action with
  | begin | fetch | setFlushing | close => cases hstep
  | answer _ granted =>
    simp only [System.work, Option.ite_none_right_eq_some, Option.some.injEq] at hstep
    obtain ⟨-, rfl⟩ := hstep
    split
    · exact h.advance hw nofun
    · exact hgone
  | connect _ opened =>
    simp only [System.work, Option.ite_none_right_eq_some, Option.some.injEq] at hstep
    obtain ⟨-, rfl⟩ := hstep
    apply h.advance hw
    split
    · nofun
    · split <;> nofun
  | header _ read =>
    simp only [System.work, Option.ite_none_right_eq_some, Option.some.injEq, hlast] at hstep
    obtain ⟨-, rfl⟩ := hstep
    split
    · obtain ⟨hrange, hreadTo⟩ := sys.reader.note_range file.length
      apply h.setWorker hw h.reader.note hrange
      · rintro v ⟨⟩
        exact ⟨(h.worker range w hw).offset_le,
          fun chunk hphase => absurd hphase (State.note_phase _ _ chunk)⟩
      · rintro rfl v ⟨⟩
        exact (h.next w hw).trans hreadTo.symm
      · exact fun _ => hreadTo
    · exact h.advance hw nofun
  | receive _ n =>
    simp only [System.work, Option.ite_none_right_eq_some, Option.some.injEq, hlast] at hstep
    obtain ⟨⟨-, hpos, hn⟩, rfl⟩ := hstep
    apply h.advance hw
    rintro chunk ⟨⟩
    constructor
    · rw [← List.length_pos_iff, List.length_take, List.length_drop]
      omega
    · exact List.take_prefix _ _
  | keep =>
    cases hphase : w.phase with
    | asked | connecting | opened | streaming | ending =>
      simp [System.work, hphase] at hstep
    | keeping chunk =>
      obtain ⟨-, hchunk⟩ := (h.worker range w hw).chunk chunk hphase
      simp only [System.work, hphase, Option.some.injEq] at hstep
      obtain hkeep | hkeep | ⟨hrange, hdrained, hkeep⟩ | ⟨hrange, -, hkeep⟩ :=
        sys.reader.keep_cases range chunk <;> simp only [hkeep] at hstep <;> subst hstep
      · exact h.advance hw nofun
      · exact h
      · subst hrange
        have hnext := h.next w hw
        rw [hnext] at hchunk
        obtain ⟨hholds, hreadTo⟩ := h.reader.keepChunk hchunk hdrained
        apply h.setWorker hw hholds rfl
        · rintro v ⟨⟩
          exact ⟨(h.worker _ w hw).offset_le, nofun⟩
        · rintro - v ⟨⟩
          exact (congrArg (· + chunk.length) hnext).trans hreadTo.symm
        · exact fun hne => absurd rfl hne
      · subst hrange
        rw [h.next w hw] at hchunk
        have hholds : State.Holds file { sys.reader with window := sys.reader.window ++ chunk } :=
          ⟨h.reader.window.extend hchunk, h.reader.kept, h.reader.len⟩
        exact h.setWorker hw hholds rfl nofun nofun fun hne => absurd rfl hne
  | stop =>
    simp only [System.work, Option.ite_none_right_eq_some, Option.some.injEq] at hstep
    obtain ⟨-, rfl⟩ := hstep
    exact h.advance hw nofun
  | finish =>
    cases hphase : w.phase with
    | asked | connecting | opened | streaming | keeping =>
      simp [System.work, hphase] at hstep
    | ending problem =>
      simp only [System.work, hphase, Option.some.injEq] at hstep
      subst hstep
      have hreadTo : (sys.reader.finish range problem).readTo = sys.reader.readTo := by
        rw [State.finish]
        split <;> rfl
      exact h.setWorker hw (h.reader.finish range problem) (State.finish_range _ _ _) nofun nofun
        fun _ => hreadTo

/-- A step keeps the reader and the workers in agreement with the file. -/
theorem System.Holds.step {file : List UInt8} {sys sys' : System} (h : sys.Holds file)
    {action : Action} (hstep : sys.step file action = some sys') : sys'.Holds file := by
  cases action with
  | begin =>
    cases hstep
    exact h.ask (h.reader.restart 0) rfl (Nat.zero_le _) rfl
  | fetch offset length =>
    have hholds := h.reader.fetch offset length
    simp only [System.step] at hstep
    obtain ⟨from', hasks, hle, hrange, hreadTo⟩ | ⟨hasks, hrange, hreadTo⟩ :=
      sys.reader.fetch_asks offset length <;> rw [hasks] at hstep <;> cases hstep
    · have hfile : from' ≤ file.length := by
        have hlen := h.reader.len
        omega
      exact h.ask hholds hrange hfile hreadTo
    · exact ⟨hholds, fun later hlater => h.fresh later (hrange ▸ hlater), h.worker,
        fun w hw => (h.next w (hrange ▸ hw)).trans hreadTo.symm⟩
  | setFlushing flushing =>
    cases hstep
    exact ⟨⟨h.reader.window, h.reader.kept, h.reader.len⟩, h.fresh, h.worker, h.next⟩
  | close =>
    cases hstep
    have hnew : sys.workers (sys.reader.range + 1) = none :=
      h.fresh _ (Nat.lt_succ_self _)
    refine ⟨⟨h.reader.window, h.reader.kept, h.reader.len⟩, ?_, h.worker, ?_⟩
    · intro later hlater
      exact h.fresh later (Nat.lt_of_succ_lt hlater)
    · intro w hw
      exact absurd (hnew.symm.trans hw) nofun
  | answer | connect | header | receive | keep | stop | finish =>
    obtain ⟨w, hw, hwork⟩ := Option.bind_eq_some_iff.mp hstep
    exact h.work hw hwork

/-- The reader and the workers agree with the file in every state a run reaches. -/
theorem holds_throughout {file : List UInt8} {actions : List Action} {sys : System}
    (hrun : (reading file).run actions = some sys) : sys.Holds file := by
  apply Reactive.Process.invariant _ _ hrun
  · exact ⟨⟨List.nil_prefix, nofun, .inl rfl⟩, fun _ _ => rfl, nofun, nofun⟩
  · exact fun s i s' hs hstep => System.Holds.step hs hstep

/-- A pass of a fetch leaves the player within the allowance exactly when it is within
reach. -/
theorem State.fetch_taken_le_iff {s : State} (h : s.taken ≤ s.allowance) (offset : ℕ)
    (length : UInt32) : (s.fetch offset length).state.taken ≤
      (s.fetch offset length).state.allowance ↔ s.WithinReach offset length := by
  by_cases hopen : s.closed = false ∧ s.flushing = false ∧ offset < s.len
  · obtain ⟨hclosed, hflushing, hlen⟩ := hopen
    have hlen' : ¬ s.len ≤ offset := by omega
    simp only [State.WithinReach, hclosed, hflushing, hlen, forall_const, State.fetch,
      Bool.or_false, hlen', if_false, Bool.false_eq_true]
    cases hbytes : s.bytes offset (s.lastOf offset length) with
    | some bytes =>
      by_cases hin : s.start ≤ offset ∧ offset ≤ s.readTo
      · simp only [hin, and_self, if_true, Option.isSome_some, forall_const, reduceCtorEq,
          false_implies, and_true]
        change max s.taken (s.lastOf offset length) ≤ s.allowance ↔ _
        omega
      · simp only [hin, if_false, Option.isSome_some, forall_const, reduceCtorEq, false_implies,
          and_true]
        exact ⟨fun _ hstart hend => absurd ⟨hstart, hend⟩ hin, fun _ => h⟩
    | none =>
      simp only [Option.isSome_none, Bool.false_eq_true, false_implies, true_and, forall_const]
      cases hfailed : s.failed with
      | some problem => simpa using h
      | none =>
        by_cases hreach : s.reachable offset = true
        · simp only [hreach, if_true, forall_const]
          change max s.taken offset ≤ s.allowance ↔ _
          omega
        · simp only [hreach, Bool.false_eq_true, if_false, false_implies, forall_const, iff_true]
          exact s.restart_taken_le (offset - BACK_OFF)
  · have hsame : (s.fetch offset length).state = s := by
      rw [State.fetch]
      split
      · rfl
      · split
        · rfl
        · rename_i hclosed hlen
          have hclosed : s.closed = false ∧ s.flushing = false := by simpa using hclosed
          exact absurd ⟨hclosed.1, hclosed.2, by omega⟩ hopen
    rw [hsame]
    exact ⟨fun _ hclosed hflushing hlen => absurd ⟨hclosed, hflushing, hlen⟩ hopen, fun _ => h⟩

/-- Within the allowance, keeping bytes drains no more than the window holds. -/
theorem State.drained_le {s : State} (h : s.taken ≤ s.allowance) {chunk : List UInt8}
    (hchunk : chunk ≠ []) : s.drained ≤ (s.window ++ chunk).length := by
  have hpos := List.length_pos_iff.mpr hchunk
  rw [State.allowance, State.readTo] at h
  rw [State.drained, List.length_append]
  split <;> omega

/-- A chunk that is kept leaves the player within the allowance. -/
theorem State.kept_taken_le (s : State) (chunk : List UInt8) :
    s.taken ≤ State.allowance { s with window := (s.window ++ chunk).drop s.drained,
                                       start := s.start + s.drained } := by
  simp only [State.allowance]
  rw [State.drained]
  split <;> omega

/-- Past the allowance, keeping the next byte drains more than the window holds. -/
theorem State.keep_panics_of_overreach {s : State} (hclosed : s.closed = false)
    (h : s.allowance < s.taken) (byte : UInt8) :
    s.keep s.range [byte] = .panics { s with window := s.window ++ [byte] } := by
  have hread : ¬ max (s.taken + AHEAD) s.waitingTo ≤ s.readTo := by
    rw [State.allowance] at h
    omega
  have hdrained : ¬ s.drained ≤ (s.window ++ [byte]).length := by
    rw [State.allowance, State.readTo] at h
    rw [State.drained, List.length_append, List.length_singleton]
    split <;> omega
  simp only [State.keep, hclosed, ne_eq, not_true_eq_false, Bool.false_eq_true, or_self, if_false,
    hread, hdrained]

/-- A worker's step leaves the player within the allowance. -/
theorem System.Holds.work_taken_le {file : List UInt8} {sys sys' : System} (h : sys.Holds file)
    (htaken : sys.reader.taken ≤ sys.reader.allowance) {range : ℕ} {w : Worker}
    (hw : sys.workers range = some w) {action : Action}
    (hstep : sys.work file range w action = some sys') :
    sys'.reader.taken ≤ sys'.reader.allowance := by
  cases action with
  | begin | fetch | setFlushing | close => cases hstep
  | answer | connect | receive | stop =>
    simp only [System.work, Option.ite_none_right_eq_some, Option.some.injEq] at hstep
    obtain ⟨-, rfl⟩ := hstep
    first | exact htaken | (split <;> exact htaken)
  | header _ read =>
    simp only [System.work, Option.ite_none_right_eq_some, Option.some.injEq] at hstep
    obtain ⟨-, rfl⟩ := hstep
    split
    · change (sys.reader.note _).1.taken ≤ (sys.reader.note _).1.allowance
      rw [State.note]
      split
      · exact htaken
      · split <;> exact htaken
    · exact htaken
  | keep =>
    cases hphase : w.phase with
    | asked | connecting | opened | streaming | ending =>
      simp [System.work, hphase] at hstep
    | keeping chunk =>
      obtain ⟨hchunk, -⟩ := (h.worker range w hw).chunk chunk hphase
      simp only [System.work, hphase, Option.some.injEq] at hstep
      obtain hkeep | hkeep | ⟨-, -, hkeep⟩ | ⟨-, hdrained, -⟩ :=
        sys.reader.keep_cases range chunk
      · simp only [hkeep] at hstep
        exact hstep ▸ htaken
      · simp only [hkeep] at hstep
        exact hstep ▸ htaken
      · simp only [hkeep] at hstep
        subst hstep
        exact sys.reader.kept_taken_le chunk
      · exact absurd (State.drained_le htaken hchunk) (by omega)
  | finish _ =>
    cases hphase : w.phase with
    | asked | connecting | opened | streaming | keeping =>
      simp [System.work, hphase] at hstep
    | ending problem =>
      simp only [System.work, hphase, Option.some.injEq] at hstep
      subst hstep
      change (sys.reader.finish range problem).taken ≤ (sys.reader.finish range problem).allowance
      rw [State.finish]
      split <;> exact htaken

/-- A step within reach leaves the player within the allowance. -/
theorem System.Holds.taken_le {file : List UInt8} {sys sys' : System} (h : sys.Holds file)
    (htaken : sys.reader.taken ≤ sys.reader.allowance) {action : Action}
    (hwithin : WithinReach sys action) (hstep : sys.step file action = some sys') :
    sys'.reader.taken ≤ sys'.reader.allowance := by
  cases action with
  | begin =>
    cases hstep
    exact Nat.zero_le _
  | fetch offset length =>
    have hfetch := (State.fetch_taken_le_iff htaken offset length).mpr hwithin
    simp only [System.step] at hstep
    split at hstep <;> cases hstep <;> exact hfetch
  | setFlushing | close =>
    cases hstep
    exact htaken
  | answer | connect | header | receive | keep | stop | finish =>
    obtain ⟨w, hw, hwork⟩ := Option.bind_eq_some_iff.mp hstep
    exact h.work_taken_le htaken hw hwork

/-- A reader within the allowance serves the file. -/
theorem System.Holds.serves {file : List UInt8} {sys : System} (h : sys.Holds file)
    (htaken : sys.reader.taken ≤ sys.reader.allowance) : Serves file sys where
  window := h.reader.window.eq_fileBytes
  kept := fun segment hmem => (h.reader.kept segment hmem).eq_fileBytes
  fetch := fun _ _ _ hok => h.reader.fetch_ok hok
  keep := by
    intro range w chunk hw hphase s hpanics
    obtain ⟨hchunk, -⟩ := (h.worker range w hw).chunk chunk hphase
    have hdrained := State.drained_le htaken hchunk
    obtain hkeep | hkeep | ⟨-, -, hkeep⟩ | ⟨-, hover, -⟩ := sys.reader.keep_cases range chunk
    · exact absurd (hkeep.symm.trans hpanics) nofun
    · exact absurd (hkeep.symm.trans hpanics) nofun
    · exact absurd (hkeep.symm.trans hpanics) nofun
    · omega

/-- In every run whose fetches stay within reach, every state reached serves the file's own
bytes and drains no more than the window holds. -/
theorem serves_within_reach {file : List UInt8} {actions : List Action}
    (hreach : (reading file).Along WithinReach actions) :
    (reading file).Throughout (Serves file) actions := by
  intro before sys hbegin hrun
  have hholds := holds_throughout hrun
  apply hholds.serves
  have hboth : sys.Holds file ∧ sys.reader.taken ≤ sys.reader.allowance := by
    apply Reactive.Process.invariant_along _ _ hrun (hreach.of_begin hbegin)
    · exact ⟨holds_throughout (Reactive.Process.run_nil (reading file)), Nat.zero_le _⟩
    · rintro s i s' ⟨hs, htaken⟩ hwithin hstep
      exact ⟨hs.step hstep, hs.taken_le htaken hwithin hstep⟩
  exact hboth.2

/-- A three-byte file read in two chunks, with a read from its start. -/
def readTwice : List Action :=
  [.begin, .answer 1 true, .connect 1 true, .header 1 true, .receive 1 2, .keep 1, .fetch 0 2,
    .receive 1 1, .keep 1]

/-- The three-byte file is served throughout. -/
theorem three_bytes_serve : (reading [1, 2, 3]).Throughout (Serves [1, 2, 3]) readTwice := by
  apply serves_within_reach
  intro before action sys hbegin _
  have hmem : action ∈ readTwice :=
    hbegin.subset (List.mem_append_right _ (List.mem_singleton_self _))
  have hsmall : 2 ≤ 2 * BEHIND := by decide
  have hstart : (0 : UInt32).toNat = 0 := rfl
  cases action with
  | fetch offset length =>
    have hfetch : offset = 0 ∧ length = 2 := by simpa [readTwice] using hmem
    obtain ⟨rfl, rfl⟩ := hfetch
    intro _ _ _
    have hlast : sys.reader.lastOf 0 2 ≤ 2 := Nat.min_le_left _ _
    rw [State.allowance]
    exact ⟨fun _ _ _ => by omega, fun _ _ _ => by omega⟩
  | _ => trivial

example : ((reading [1, 2, 3]).run readTwice).map (fun sys =>
    ((sys.reader.fetch 0 2).outcome, sys.reader.window)) =
      some (.ok [1, 2], [1, 2, 3]) := by decide

/-- The first byte is read and kept. -/
theorem readFirst_run {a b : UInt8} {rest : List UInt8} : ∃ sys,
    (reading (a :: b :: rest)).run [.begin, .answer 1 true, .connect 1 true, .header 1 true,
      .receive 1 1, .keep 1] = some sys ∧
    sys.reader = { range := 1, active := true, window := [a], len := rest.length + 1 + 1 } ∧
    sys.workers 1 = some ⟨0, 1, .streaming⟩ := by
  have hfirst : 1 ≤ min (rest.length + 1 + 1) READ_CHUNK := by
    have hchunk : 1 ≤ READ_CHUNK := by decide
    omega
  have hahead : ¬ max AHEAD 0 ≤ 0 := by decide
  have hbehind : ¬ 2 * BEHIND < 0 := by decide
  simp only [reading, Reactive.Process.run, List.foldlM_cons, List.foldlM_nil, System.step,
    System.ask, System.setWorker, System.work, System.advance, State.note, Worker.last,
    State.restart, State.keep, State.drained, State.readTo, Function.update_self,
    Function.update_idem, Option.bind_some, Option.bind_eq_bind, Option.pure_def, if_true,
    Nat.zero_add, Nat.sub_zero, List.length_cons, List.length_nil, List.drop_zero,
    List.take_succ_cons, List.take_zero, hfirst, hahead, hbehind, List.nil_append,
    reduceCtorEq, if_false, and_self, Nat.zero_lt_one, Nat.add_zero, not_true, ne_eq,
    Option.some.injEq, exists_eq_left', Nat.zero_le, Bool.false_eq_true, or_self]

/-- The player reads past the byte that was read, within reach. -/
theorem fetch_far {a : UInt8} {size offset : ℕ} (hread : 1 ≤ offset) (hsize : offset < size)
    (hreach : offset ≤ 1 + SKIP_AHEAD) :
    State.fetch { range := 1, active := true, window := [a], len := size } offset 1 =
      ⟨.waits, { range := 1, active := true, window := [a], len := size, taken := offset,
                 waitingTo := offset + 1 }, none⟩ := by
  have hshort : ¬ size ≤ offset := by omega
  have hlast : min (offset + 1) size = offset + 1 := by omega
  have hone : (1 : UInt32).toNat = 1 := rfl
  have hmissing : offset ≠ 0 := by omega
  simp [State.fetch, State.bytes, State.lastOf, State.reachable, State.readTo, Segment.covers,
    hshort, hone, hlast, hmissing, hreach]

/-- A byte is read, the player reads `SKIP_AHEAD` past it, and another byte arrives. -/
def readFarAhead : List Action :=
  [.begin, .answer 1 true, .connect 1 true, .header 1 true, .receive 1 1, .keep 1,
    .fetch (SKIP_AHEAD + 1) 1, .receive 1 1]

theorem readFarAhead_run {a b : UInt8} {rest : List UInt8} (hlen : SKIP_AHEAD < rest.length) :
    ∃ sys, (reading (a :: b :: rest)).run readFarAhead = some sys ∧ sys.reader.range = 1 ∧
      sys.reader.closed = false ∧ sys.workers 1 = some ⟨0, 1, .keeping [b]⟩ ∧
      sys.reader.allowance < sys.reader.taken := by
  have hfirst : ∃ sys, (reading (a :: b :: rest)).run _ = some sys ∧ _ := readFirst_run
  obtain ⟨sys, hrun, hreader, hworker⟩ := hfirst
  have hchunk : READ_CHUNK ≠ 0 := by decide
  have hfetch := fetch_far (a := a) (Nat.le_add_left 1 SKIP_AHEAD)
    (show SKIP_AHEAD + 1 < rest.length + 1 + 1 by omega) (by omega)
  have hover : max (1 + 1 + BEHIND) (2 * BEHIND) < SKIP_AHEAD + 1 := by decide
  let far : System := { sys with reader := (sys.reader.fetch (SKIP_AHEAD + 1) 1).state }
  have hfar : (reading (a :: b :: rest)).run ([.begin, .answer 1 true, .connect 1 true,
      .header 1 true, .receive 1 1, .keep 1] ++ [.fetch (SKIP_AHEAD + 1) 1]) = some far := by
    apply Reactive.Process.run_snoc.mpr
    refine ⟨sys, hrun, ?_⟩
    simp [reading, System.step, far, hreader, hfetch]
  have hwork : (reading (a :: b :: rest)).step far (.receive 1 1) =
      some (far.advance 1 ⟨0, 1, .streaming⟩ (.keeping [b])) := by
    simp [reading, System.step, far, hworker, System.work, Worker.last, hchunk]
  have hrun' : (reading (a :: b :: rest)).run readFarAhead =
      some (far.advance 1 ⟨0, 1, .streaming⟩ (.keeping [b])) :=
    Reactive.Process.run_snoc.mpr ⟨far, hfar, hwork⟩
  refine ⟨_, hrun', ?_, ?_, ?_, ?_⟩
  · simp [System.advance, System.setWorker, far, hreader, hfetch]
  · simp [System.advance, System.setWorker, far, hreader, hfetch]
  · simp [System.advance, System.setWorker]
  · simpa [System.advance, System.setWorker, far, hreader, hfetch, State.allowance,
      State.readTo] using hover

/-- In a file of zeroes two bytes longer than `SKIP_AHEAD`, a read `SKIP_AHEAD` past the first
byte makes the worker panic as it keeps the second. -/
theorem far_read_panics :
    ¬ (reading (List.replicate (SKIP_AHEAD + 3) 0)).Throughout
      (Serves (List.replicate (SKIP_AHEAD + 3) 0)) readFarAhead := by
  intro hserves
  have hlen : SKIP_AHEAD < (List.replicate (SKIP_AHEAD + 1) (0 : UInt8)).length := by
    rw [List.length_replicate]
    omega
  obtain ⟨sys, hrun, hrange, hclosed, hw, hover⟩ := readFarAhead_run (a := 0) (b := 0) hlen
  have hpanics := State.keep_panics_of_overreach hclosed hover 0
  rw [hrange] at hpanics
  exact (hserves readFarAhead sys (List.prefix_refl _) hrun).keep 1 _ [0] hw rfl _ hpanics

end Gtkhx.Preview
