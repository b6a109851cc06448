import Gtkhx.Htxf.Channel

/-!
# What an AEAD channel hands out

A record of every frame that was opened is kept in the decoding state, beside the record
layer's own, so the channel itself runs unchanged. Against that record, the bytes the
calls return are compared with the plaintexts of the frames that authenticated.
-/

namespace Gtkhx.Htxf

open Reader

variable {σ : Type*}

/-- A frame the channel tried to open: what the attempt left in the buffer, and whether
it authenticated. -/
structure Frame where
  /-- The buffer after the attempt. -/
  plain : List UInt8
  /-- Whether that is the frame's plaintext. -/
  authenticated : Bool
  deriving DecidableEq, Repr

/-- The same record layer, recording every frame it is given. -/
def Aead.logged (A : Aead σ) : Aead (σ × List Frame) where
  peekFrameSize := A.peekFrameSize
  openInto s framed out :=
    let opened := A.openInto s.1 framed out
    ⟨(opened.state, s.2 ++ [⟨opened.out, opened.authenticated⟩]), opened.out,
      opened.authenticated⟩
  peekFrameSize_ge := A.peekFrameSize_ge
  openInto_length s framed out := A.openInto_length s.1 framed out

/-- The channel without the record. -/
def HtxfChannel.forget (c : HtxfChannel (σ × List Frame)) : HtxfChannel σ :=
  ⟨c.inner, c.decode.1, c.aeadActive, c.rxPlain, c.rxPlainPos⟩

/-- Keeping the record changes nothing that a call returns or leaves behind. -/
theorem HtxfChannel.read_logged (A : Aead σ) (c : HtxfChannel (σ × List Frame)) (room : ℕ) :
    c.forget.read A room = ((c.read A.logged room).1, (c.read A.logged room).2.forget) := by
  have hfill : c.forget.fillOneFrame A =
      ((c.fillOneFrame A.logged).1, (c.fillOneFrame A.logged).2.forget) := by
    simp only [fillOneFrame, forget, Aead.logged]
    split
    · rfl
    · rfl
    · split
      · rfl
      · split
        · rfl
        · rename_i lead _ _ _ frameTotal _ _ body _ _
          by_cases hauth : (A.openInto c.decode.1 (lead ++ body)
            (List.replicate (frameTotal - AEAD_LENGTH_PREFIX - AEAD_TAG_SIZE) 0)).authenticated
          · simp [hauth]
          · simp [hauth]
  have hserve : ∀ c : HtxfChannel (σ × List Frame), c.forget.serve room =
      ((c.serve room).1, (c.serve room).2.forget) := fun _ => rfl
  have hactive : c.forget.aeadActive = c.aeadActive := rfl
  have hpos : c.forget.rxPlainPos = c.rxPlainPos := rfl
  have hplain : c.forget.rxPlain = c.rxPlain := rfl
  simp only [read, hfill, hserve, hactive, hpos, hplain]
  by_cases hroom : room = 0
  · simp only [if_pos hroom]
  · by_cases hactive : c.aeadActive
    · by_cases hdrained : c.rxPlainPos ≥ c.rxPlain.length
      · rcases c.fillOneFrame A.logged with ⟨_ | _ | _, c'⟩ <;>
          simp [hroom, hactive, hdrained, hserve]
      · simp [hroom, hactive, hdrained]
    · simp [hroom, hactive, forget]

/-- The plaintexts of the frames that authenticated, in order. -/
def authenticatedPlain (log : List Frame) : List UInt8 :=
  (log.filter Frame.authenticated).flatMap Frame.plain

/-- The plaintext of the last frame that authenticated, empty before the first. -/
def lastAuthenticated (log : List Frame) : List UInt8 :=
  (((log.filter Frame.authenticated).getLast?).map Frame.plain).getD []

/-- The last frame opened was refused, and is longer than the last one that was not. -/
def RefusedPast (log : List Frame) : Prop :=
  ∃ before frame, log = before ++ [frame] ∧ frame.authenticated = false ∧
    (lastAuthenticated log).length < frame.plain.length

/-- A run of a fresh AEAD channel over `inner`, with the record. -/
def recordedReading (A : Aead σ) (inner : Source UInt8) (decode : σ) :=
  (HtxfChannel.newAead inner (decode, ([] : List Frame))).reading A.logged

/-- What may be handed out: in all, a beginning of the authenticated plaintexts, and by
each call only bytes of a frame that authenticated. -/
def OnlyAuthenticated (A : Aead σ) (inner : Source UInt8) (decode : σ) (rooms : List ℕ) : Prop :=
  let M := recordedReading A inner decode
  returned (M.emitted rooms) <+: authenticatedPlain (M.after rooms).decode.2 ∧
  ∀ before room bytes, before ++ [room] <+: rooms →
    ((M.after before).read A.logged room).1 = .ok bytes → bytes ≠ [] →
    ∃ frames frame, (M.after (before ++ [room])).decode.2 = frames ++ [frame] ∧
      frame.authenticated = true ∧ bytes <:+: frame.plain

/-- No call with room is made while the last frame opened is a refused one that is longer
than the last authenticated one. -/
def NeverPastRefusal (A : Aead σ) (inner : Source UInt8) (decode : σ) (rooms : List ℕ) : Prop :=
  ∀ before room, before ++ [room] <+: rooms → 0 < room →
    ¬ RefusedPast ((recordedReading A inner decode).after before).decode.2

@[simp] private theorem authenticatedPlain_snoc (log : List Frame) (frame : Frame) :
    authenticatedPlain (log ++ [frame]) =
      authenticatedPlain log ++ if frame.authenticated then frame.plain else [] := by
  cases h : frame.authenticated <;> simp [authenticatedPlain, h]

@[simp] private theorem lastAuthenticated_snoc (log : List Frame) (frame : Frame) :
    lastAuthenticated (log ++ [frame]) =
      if frame.authenticated then frame.plain else lastAuthenticated log := by
  cases h : frame.authenticated <;> simp [lastAuthenticated, h]

/-- What the buffer holds and what has been handed out, by the last frame opened. -/
inductive Buffered : HtxfChannel (σ × List Frame) → List UInt8 → Prop where
  /-- No frame yet. -/
  | fresh {c} (hactive : c.aeadActive = true) (hlog : c.decode.2 = []) (hplain : c.rxPlain = [])
      (hpos : c.rxPlainPos = 0) : Buffered c []
  /-- The buffer is the last frame's plaintext, handed out as far as the position. -/
  | opened {c out frames} {frame : Frame} (hactive : c.aeadActive = true)
      (hlog : c.decode.2 = frames ++ [frame]) (hauth : frame.authenticated = true)
      (hplain : c.rxPlain = frame.plain) (hpos : c.rxPlainPos ≤ c.rxPlain.length)
      (hout : out ++ c.rxPlain.drop c.rxPlainPos = authenticatedPlain c.decode.2) : Buffered c out
  /-- The buffer is what a refused frame left; the position is still the end of the last
  frame before it. -/
  | refused {c out frames} {frame : Frame} (hactive : c.aeadActive = true)
      (hlog : c.decode.2 = frames ++ [frame]) (hauth : frame.authenticated = false)
      (hplain : c.rxPlain = frame.plain)
      (hpos : c.rxPlainPos = (lastAuthenticated c.decode.2).length)
      (hout : out = authenticatedPlain c.decode.2) : Buffered c out

private theorem Buffered.active {c : HtxfChannel (σ × List Frame)} {out : List UInt8}
    (h : Buffered c out) : c.aeadActive = true := by
  cases h <;> assumption

private theorem Buffered.with_inner {c : HtxfChannel (σ × List Frame)} {out : List UInt8}
    (h : Buffered c out) (inner : Source UInt8) : Buffered { c with inner } out := by
  cases h with
  | fresh hactive hlog hplain hpos => exact .fresh hactive hlog hplain hpos
  | opened hactive hlog hauth hplain hpos hout => exact .opened hactive hlog hauth hplain hpos hout
  | refused hactive hlog hauth hplain hpos hout =>
    exact .refused hactive hlog hauth hplain hpos hout

/-- With the buffer handed out, everything authenticated has been, and the position is
the length of the last authenticated frame. -/
private theorem Buffered.drained {c : HtxfChannel (σ × List Frame)} {out : List UInt8}
    (h : Buffered c out) (hdrained : c.rxPlain.length ≤ c.rxPlainPos) :
    out = authenticatedPlain c.decode.2 ∧
      c.rxPlainPos = (lastAuthenticated c.decode.2).length := by
  cases h with
  | fresh hactive hlog hplain hpos =>
    simp [hlog, hpos, authenticatedPlain, lastAuthenticated]
  | opened hactive hlog hauth hplain hpos hout =>
    refine ⟨by simpa [List.drop_of_length_le hdrained] using hout, ?_⟩
    rw [hlog, lastAuthenticated_snoc, if_pos hauth, ← hplain]
    omega
  | refused hactive hlog hauth hplain hpos hout => exact ⟨hout, hpos⟩

/-- Past a drained buffer a refused frame is the one thing a call can serve from that it
must not. -/
private theorem Buffered.opened_of_pos_lt {c : HtxfChannel (σ × List Frame)} {out : List UInt8}
    (h : Buffered c out) (hlt : c.rxPlainPos < c.rxPlain.length)
    (hnot : ¬ RefusedPast c.decode.2) :
    ∃ frames frame, c.decode.2 = frames ++ [frame] ∧ frame.authenticated = true ∧
      c.rxPlain = frame.plain ∧
      out ++ c.rxPlain.drop c.rxPlainPos = authenticatedPlain c.decode.2 := by
  cases h with
  | fresh hactive hlog hplain hpos => simp [hplain] at hlt
  | opened hactive hlog hauth hplain hpos hout => exact ⟨_, _, hlog, hauth, hplain, hout⟩
  | refused hactive hlog hauth hplain hpos hout =>
    exact absurd ⟨_, _, hlog, hauth, by rw [← hplain, ← hpos]; exact hlt⟩ hnot

private theorem serve_infix {c : HtxfChannel σ} (room : ℕ) : (c.serve room).1 <:+: c.rxPlain :=
  (List.take_prefix _ _).isInfix.trans (List.drop_suffix _ _).isInfix

/-- Serving from an authenticated frame keeps the books. -/
private theorem Buffered.serve {c : HtxfChannel (σ × List Frame)} {out : List UInt8}
    {frames : List Frame} {frame : Frame} (hactive : c.aeadActive = true)
    (hlog : c.decode.2 = frames ++ [frame]) (hauth : frame.authenticated = true)
    (hplain : c.rxPlain = frame.plain) (hpos : c.rxPlainPos ≤ c.rxPlain.length)
    (hout : out ++ c.rxPlain.drop c.rxPlainPos = authenticatedPlain c.decode.2) (room : ℕ) :
    Buffered (c.serve room).2 (out ++ (c.serve room).1) := by
  refine .opened hactive hlog hauth hplain (c.serve_pos_le hpos room) ?_
  rw [List.append_assoc, HtxfChannel.serve_rxPlain, c.serve_append, hout,
    HtxfChannel.serve_decode]

/-- One call, made where none may serve a refused frame: the books still balance, and
what it returned is of a frame that authenticated. -/
private theorem Buffered.read (A : Aead σ) {c : HtxfChannel (σ × List Frame)} {out : List UInt8}
    (h : Buffered c out) {room : ℕ} (hnot : 0 < room → ¬ RefusedPast c.decode.2) :
    Buffered (c.read A.logged room).2 (out ++ returned [(c.read A.logged room).1]) ∧
    ∀ bytes, (c.read A.logged room).1 = .ok bytes → bytes ≠ [] →
      ∃ frames frame, (c.read A.logged room).2.decode.2 = frames ++ [frame] ∧
        frame.authenticated = true ∧ bytes <:+: frame.plain := by
  by_cases hroom : room = 0
  · simpa [HtxfChannel.read, hroom, returned] using h
  by_cases hdrained : c.rxPlain.length ≤ c.rxPlainPos
  · obtain ⟨hall, hend⟩ := h.drained hdrained
    obtain ⟨r, inner, hr, -, hfill⟩ |
      ⟨framed, ptLen, inner, -, ⟨hauth, hfill⟩ | ⟨hauth, hfill⟩⟩ :=
      c.fillOneFrame_cases A.logged
    · have hread : c.read A.logged room = (r.map fun _ => [], { c with inner }) := by
        rcases r with e | _ | _
        · simp [HtxfChannel.read, hroom, h.active, hdrained, hfill, Except.map]
        · simp [HtxfChannel.read, hroom, h.active, hdrained, hfill, Except.map]
        · exact absurd rfl hr
      rw [hread]
      refine ⟨?_, ?_⟩
      · cases r <;> simpa [Except.map, returned] using h.with_inner inner
      · cases r <;> simp [Except.map]
    · set c' : HtxfChannel (σ × List Frame) :=
        { c with inner, decode := (A.logged.openInto c.decode framed (.replicate ptLen 0)).state,
                 rxPlain := (A.logged.openInto c.decode framed (.replicate ptLen 0)).out,
                 rxPlainPos := 0 }
      have hread : c.read A.logged room = (.ok (c'.serve room).1, (c'.serve room).2) := by
        simp [HtxfChannel.read, hroom, h.active, hdrained, hfill, c']
      have hlog : c'.decode.2 = c.decode.2 ++ [⟨c'.rxPlain, true⟩] := by
        simpa [Aead.logged, c'] using hauth
      have hout : out ++ c'.rxPlain.drop c'.rxPlainPos = authenticatedPlain c'.decode.2 := by
        rw [hlog, authenticatedPlain_snoc, hall]
        rfl
      rw [hread]
      refine ⟨?_, ?_⟩
      · have hactive : c'.aeadActive = true := h.active
        simpa [returned] using Buffered.serve hactive hlog rfl rfl (Nat.zero_le _) hout room
      · intro bytes hbytes _
        obtain rfl := Except.ok.inj hbytes
        exact ⟨_, _, hlog, rfl, serve_infix room⟩
    · have hrefused : (A.openInto c.decode.1 framed (.replicate ptLen 0)).authenticated = false :=
        hauth
      have hread : c.read A.logged room = (.error .invalidData,
          { c with inner, decode := (A.logged.openInto c.decode framed (.replicate ptLen 0)).state,
                   rxPlain := (A.logged.openInto c.decode framed (.replicate ptLen 0)).out }) := by
        simp [HtxfChannel.read, hroom, h.active, hdrained, hfill]
      rw [hread]
      refine ⟨?_, by simp⟩
      refine .refused h.active rfl hauth rfl ?_ ?_
      · rw [hend]
        simp [Aead.logged, hrefused]
      · rw [hall]
        simp [Aead.logged, returned, hrefused]
  · obtain ⟨frames, frame, hlog, hauth, hplain, hout⟩ :=
      h.opened_of_pos_lt (by omega) (hnot (by omega))
    have hread : c.read A.logged room = (.ok (c.serve room).1, (c.serve room).2) := by
      simp [HtxfChannel.read, hroom, h.active, hdrained]
    rw [hread]
    refine ⟨?_, ?_⟩
    · simpa [returned] using Buffered.serve h.active hlog hauth hplain (by omega) hout room
    · intro bytes hbytes _
      obtain rfl := Except.ok.inj hbytes
      exact ⟨frames, frame, hlog, hauth, hplain ▸ serve_infix room⟩

private theorem last_frame_unique {log frames frames' : List Frame} {frame frame' : Frame}
    (h : log = frames ++ [frame]) (h' : log = frames' ++ [frame']) : frame = frame' := by
  have hlast := congrArg List.getLast? (h.symm.trans h')
  simpa using hlast

/-- Past a refused frame a call with room hands out what the refused frame left. -/
private theorem Buffered.read_of_refusedPast (A : Aead σ) {c : HtxfChannel (σ × List Frame)}
    {out : List UInt8} (h : Buffered c out) (hpast : RefusedPast c.decode.2) {room : ℕ}
    (hroom : 0 < room) :
    ∃ bytes, (c.read A.logged room).1 = .ok bytes ∧ bytes ≠ [] ∧
      (c.read A.logged room).2.decode = c.decode := by
  obtain ⟨frames, frame, hlast, hrefused, hlong⟩ := hpast
  have hlt : c.rxPlainPos < c.rxPlain.length := by
    cases h with
    | fresh hactive hlog hplain hpos => simp [hlog] at hlast
    | opened hactive hlog hauth hplain hpos hout =>
      rw [last_frame_unique hlast hlog, hauth] at hrefused
      cases hrefused
    | refused hactive hlog hauth hplain hpos hout =>
      rw [hplain, hpos, last_frame_unique hlog hlast]
      exact hlong
  have hread : c.read A.logged room = (.ok (c.serve room).1, (c.serve room).2) := by
    simp [HtxfChannel.read, hroom.ne', h.active, Nat.not_le.mpr hlt]
  exact ⟨_, by rw [hread], c.serve_ne_nil hroom hlt, by rw [hread, HtxfChannel.serve_decode]⟩

private theorem buffered_after (A : Aead σ) (inner : Source UInt8) (decode : σ) {rooms : List ℕ}
    (hnever : NeverPastRefusal A inner decode rooms) :
    Buffered ((recordedReading A inner decode).after rooms)
      (returned ((recordedReading A inner decode).emitted rooms)) := by
  induction rooms using List.reverseRecOn with
  | nil => exact .fresh rfl rfl rfl rfl
  | append_singleton rooms room ih =>
    have hbefore : NeverPastRefusal A inner decode rooms := fun before room hpre =>
      hnever before room (hpre.trans (List.prefix_append _ _))
    have hnot := hnever rooms room (List.prefix_refl _)
    rw [Reactive.Machine.after_snoc, Reactive.Machine.emitted_snoc, returned_append]
    exact ((ih hbefore).read A hnot).1

private theorem Buffered.returned_front {c : HtxfChannel (σ × List Frame)} {out : List UInt8}
    (h : Buffered c out) : out <+: authenticatedPlain c.decode.2 := by
  cases h with
  | fresh hactive hlog hplain hpos => exact List.nil_prefix
  | opened hactive hlog hauth hplain hpos hout => exact ⟨_, hout⟩
  | refused hactive hlog hauth hplain hpos hout => rw [hout]

/-- For every transport, however its bytes are cut, tampered with or ended, and every
sequence of calls: the channel hands out only bytes of frames that authenticated, in
order, exactly when no call with room is made while the last frame opened is a refused
one longer than the last authenticated one. -/
theorem only_authenticated_iff (A : Aead σ) (inner : Source UInt8) (decode : σ)
    (rooms : List ℕ) :
    OnlyAuthenticated A inner decode rooms ↔ NeverPastRefusal A inner decode rooms := by
  constructor
  · rintro ⟨-, hserved⟩
    induction rooms using List.reverseRecOn with
    | nil =>
      intro before room hpre
      simp at hpre
    | append_singleton rooms last ih =>
      have hbefore := ih fun before room bytes hpre =>
        hserved before room bytes (hpre.trans (List.prefix_append _ _))
      intro before room hpre hroom
      rcases List.prefix_concat_iff.mp hpre with heq | hpre
      · obtain ⟨rfl, rfl⟩ : before = rooms ∧ room = last := by simpa using heq
        intro hpast
        obtain ⟨bytes, hread, hbytes, hdecode⟩ :=
          (buffered_after A inner decode hbefore).read_of_refusedPast A hpast hroom
        obtain ⟨frames, frame, hlog, hauth, -⟩ := hserved before room bytes hpre hread hbytes
        obtain ⟨frames', frame', hlog', hauth', -⟩ := hpast
        have hsame : ((recordedReading A inner decode).after (before ++ [room])).decode =
            ((recordedReading A inner decode).after before).decode := by
          rw [Reactive.Machine.after_snoc]
          exact hdecode
        rw [← last_frame_unique (hsame ▸ hlog) hlog', hauth] at hauth'
        cases hauth'
      · exact hbefore before room hpre hroom
  · intro hnever
    refine ⟨(buffered_after A inner decode hnever).returned_front, ?_⟩
    intro before room bytes hpre hread hbytes
    have hbefore : NeverPastRefusal A inner decode before := fun first room hfirst =>
      hnever first room (hfirst.trans ((List.prefix_append _ _).trans hpre))
    have hkept := (buffered_after A inner decode hbefore).read A (hnever before room hpre)
    rw [Reactive.Machine.after_snoc]
    exact hkept.2 bytes hread hbytes

/-- One frame, its tag changed on the way: the first call reports it, and the second
hands out its payload. -/
theorem tampered_frame_served :
    ¬ OnlyAuthenticated zeroTagAead
      [.bytes (BigEndian.ofU32 17 ++ 7 :: 1 :: List.replicate 15 0)] () [1, 1] := by
  rintro ⟨hfront, -⟩
  revert hfront
  decide

end Gtkhx.Htxf
