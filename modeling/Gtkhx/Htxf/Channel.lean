import Gtkhx.Library.BigEndian
import Gtkhx.Library.Reactive
import Gtkhx.Library.Reader

/-!
# The HTXF channel

The file-transfer subchannel as `htxf.rs` reads it: a passthrough, or AEAD frames read
whole, opened and handed out piece by piece. The record layer itself is outside the
repository, so it is a parameter of everything here.
-/

namespace Gtkhx.Htxf

open Reader

/-- The length prefix of a frame, in bytes. -/
def AEAD_LENGTH_PREFIX : ℕ := 4

/-- The authentication tag of a frame, in bytes. -/
def AEAD_TAG_SIZE : ℕ := 16

/-- What opening a frame did: the state after it, what the output buffer holds, and
whether the frame authenticated. -/
structure Opened (σ : Type*) where
  /-- The decoding state after the attempt. -/
  state : σ
  /-- The output buffer. Anything may be in it when the frame was refused. -/
  out : List UInt8
  /-- Whether `open` returned the plaintext rather than `None`. -/
  authenticated : Bool

/-- The part of `AeadState` that reading uses, over whatever state it keeps. -/
structure Aead (σ : Type*) where
  /-- The length of the whole frame that a prefix announces, or `None` for a bad one. -/
  peekFrameSize : List UInt8 → Option ℕ
  /-- Open a frame into an output buffer. -/
  openInto : σ → (framed out : List UInt8) → Opened σ
  /-- A frame has room for its prefix and its tag. -/
  peekFrameSize_ge : ∀ {lead size}, peekFrameSize lead = some size →
    AEAD_LENGTH_PREFIX + AEAD_TAG_SIZE ≤ size
  /-- The output buffer is a slice, which keeps its length. -/
  openInto_length : ∀ s framed out, (openInto s framed out).out.length = out.length

variable {σ : Type*}

/-- A record layer whose frames are a length, a payload and sixteen zero bytes. Like a
real one it writes the payload out before it has looked at the tag. -/
def zeroTagAead : Aead Unit where
  peekFrameSize lead :=
    match BigEndian.takeU32 lead with
    | some (len, _) =>
      if AEAD_TAG_SIZE ≤ len.toNat then some (AEAD_LENGTH_PREFIX + len.toNat) else none
    | none => none
  openInto s framed out :=
    let payload := (framed.drop AEAD_LENGTH_PREFIX).take out.length
    ⟨s, payload ++ out.drop payload.length,
      framed.drop (AEAD_LENGTH_PREFIX + out.length) == List.replicate AEAD_TAG_SIZE 0⟩
  peekFrameSize_ge := by
    intro lead size h
    split at h
    · split at h
      · obtain rfl := Option.some.inj h
        omega
      · cases h
    · cases h
  openInto_length s framed out := by
    simp only [List.length_append, List.length_drop, List.length_take]
    omega

/-- The reading half of `HtxfChannel`. The two `*_framed` buffers are cleared before
every use and carry nothing from one call to the next. -/
structure HtxfChannel (σ : Type*) where
  /-- The transport underneath. -/
  inner : Source UInt8
  /-- Opens incoming frames. -/
  decode : σ
  /-- Whether the channel frames at all. -/
  aeadActive : Bool
  /-- The plaintext of the last frame. -/
  rxPlain : List UInt8
  /-- How much of `rxPlain` has been handed out. -/
  rxPlainPos : ℕ

/-- `new_plain`. The decoding state is there and unused. -/
def HtxfChannel.newPlain (inner : Source UInt8) (decode : σ) : HtxfChannel σ :=
  ⟨inner, decode, false, [], 0⟩

/-- `new_aead`. -/
def HtxfChannel.newAead (inner : Source UInt8) (decode : σ) : HtxfChannel σ :=
  ⟨inner, decode, true, [], 0⟩

/-- `fill_one_frame`: read and open the next frame into `rxPlain`. `false` is a clean
end of the stream. -/
def HtxfChannel.fillOneFrame (A : Aead σ) (c : HtxfChannel σ) :
    Except ErrorKind Bool × HtxfChannel σ :=
  match readExactOrEof AEAD_LENGTH_PREFIX c.inner with
  | (.error e, inner) => (.error e, { c with inner })
  | (.ok none, inner) => (.ok false, { c with inner })
  | (.ok (some lead), inner) =>
    match A.peekFrameSize lead with
    | none => (.error .invalidData, { c with inner })
    | some frameTotal =>
      match readExact (frameTotal - AEAD_LENGTH_PREFIX) inner with
      | (.error e, inner) => (.error e, { c with inner })
      | (.ok body, inner) =>
        let ptLen := frameTotal - AEAD_LENGTH_PREFIX - AEAD_TAG_SIZE
        let opened := A.openInto c.decode (lead ++ body) (List.replicate ptLen 0)
        let c := { c with inner, decode := opened.state, rxPlain := opened.out }
        if opened.authenticated then (.ok true, { c with rxPlainPos := 0 })
        else (.error .invalidData, c)

/-- The end of `read`: copy out what the caller has room for. -/
def HtxfChannel.serve (c : HtxfChannel σ) (room : ℕ) : List UInt8 × HtxfChannel σ :=
  let out := (c.rxPlain.drop c.rxPlainPos).take room
  (out, { c with rxPlainPos := c.rxPlainPos + out.length })

/-- `HtxfChannel::read`, with room for `room` bytes. -/
def HtxfChannel.read (A : Aead σ) (c : HtxfChannel σ) (room : ℕ) :
    Except ErrorKind (List UInt8) × HtxfChannel σ :=
  if room = 0 then (.ok [], c)
  else if !c.aeadActive then
    let (got, inner) := readRetrying room c.inner
    (got, { c with inner })
  else if c.rxPlainPos ≥ c.rxPlain.length then
    match c.fillOneFrame A with
    | (.error e, c) => (.error e, c)
    | (.ok false, c) => (.ok [], c)
    | (.ok true, c) => let (out, c) := c.serve room; (.ok out, c)
  else let (out, c) := c.serve room; (.ok out, c)

/-- The channel as a machine: its inputs are the room each call of `read` has, its
outputs what the calls return. -/
def HtxfChannel.reading (A : Aead σ) (c : HtxfChannel σ) :
    Reactive.Machine (HtxfChannel σ) ℕ (Except ErrorKind (List UInt8)) :=
  ⟨c, fun c room => ((c.read A room).2, [(c.read A room).1])⟩

@[simp] theorem HtxfChannel.reading_step (A : Aead σ) (c d : HtxfChannel σ) (room : ℕ) :
    (c.reading A).step d room = ((d.read A room).2, [(d.read A room).1]) := rfl

/-- The bytes that a list of calls returned, in order. -/
def returned : List (Except ErrorKind (List UInt8)) → List UInt8
  | [] => []
  | .ok bytes :: rest => bytes ++ returned rest
  | .error _ :: rest => returned rest

@[simp] theorem returned_append (rs rs' : List (Except ErrorKind (List UInt8))) :
    returned (rs ++ rs') = returned rs ++ returned rs' := by
  induction rs with
  | nil => rfl
  | cons r rs ih => cases r <;> simp [returned, ih]

@[simp] theorem HtxfChannel.serve_rxPlain (c : HtxfChannel σ) (room : ℕ) :
    (c.serve room).2.rxPlain = c.rxPlain := rfl

@[simp] theorem HtxfChannel.serve_decode (c : HtxfChannel σ) (room : ℕ) :
    (c.serve room).2.decode = c.decode := rfl

@[simp] theorem HtxfChannel.serve_inner (c : HtxfChannel σ) (room : ℕ) :
    (c.serve room).2.inner = c.inner := rfl

@[simp] theorem HtxfChannel.serve_aeadActive (c : HtxfChannel σ) (room : ℕ) :
    (c.serve room).2.aeadActive = c.aeadActive := rfl

/-- What is handed out and what is still to hand out make up what was to hand out. -/
theorem HtxfChannel.serve_append (c : HtxfChannel σ) (room : ℕ) :
    (c.serve room).1 ++ c.rxPlain.drop (c.serve room).2.rxPlainPos =
      c.rxPlain.drop c.rxPlainPos := by
  simp only [serve]
  rw [← List.drop_drop]
  exact List.prefix_iff_eq_append.mp (List.take_prefix room _)

/-- The position never passes the end of the buffer. -/
theorem HtxfChannel.serve_pos_le {c : HtxfChannel σ} (h : c.rxPlainPos ≤ c.rxPlain.length)
    (room : ℕ) : (c.serve room).2.rxPlainPos ≤ c.rxPlain.length := by
  simp only [serve, List.length_take, List.length_drop]
  omega

/-- With something to hand out and room for it, something is handed out. -/
theorem HtxfChannel.serve_ne_nil {c : HtxfChannel σ} {room : ℕ} (hroom : 0 < room)
    (h : c.rxPlainPos < c.rxPlain.length) : (c.serve room).1 ≠ [] := by
  have hlen : 0 < (c.serve room).1.length := by
    simp only [serve, List.length_take, List.length_drop]
    omega
  exact List.length_pos_iff.mp hlen

/-- How `fillOneFrame` ends: it opens the bytes at the front of the stream, or leaves
everything but the transport as it was. -/
theorem HtxfChannel.fillOneFrame_cases (A : Aead σ) (c : HtxfChannel σ) :
    (∃ r inner, r ≠ .ok true ∧ carried inner <:+ carried c.inner ∧
      c.fillOneFrame A = (r, { c with inner })) ∨
    ∃ framed ptLen inner,
      let opened := A.openInto c.decode framed (List.replicate ptLen 0)
      let c' := { c with inner, decode := opened.state, rxPlain := opened.out }
      carried c.inner = framed ++ carried inner ∧
      ((opened.authenticated = true ∧
          c.fillOneFrame A = (.ok true, { c' with rxPlainPos := 0 })) ∨
        (opened.authenticated = false ∧ c.fillOneFrame A = (.error .invalidData, c'))) := by
  have hsuffix := readExactOrEof_suffix AEAD_LENGTH_PREFIX c.inner
  rw [fillOneFrame]
  split
  · rename_i e inner hlead
    exact .inl ⟨_, _, by simp, by simpa [hlead] using hsuffix, rfl⟩
  · rename_i inner hlead
    exact .inl ⟨_, _, by simp, by simpa [hlead] using hsuffix, rfl⟩
  · rename_i lead inner hlead
    rw [hlead] at hsuffix
    split
    · exact .inl ⟨_, _, by simp, hsuffix, rfl⟩
    · rename_i frameTotal _
      have hsuffix' := readExact_suffix (frameTotal - AEAD_LENGTH_PREFIX) inner
      split
      · rename_i e inner' hbody
        rw [hbody] at hsuffix'
        exact .inl ⟨_, _, by simp, hsuffix'.trans hsuffix, rfl⟩
      · rename_i body inner' hbody
        refine .inr ⟨lead ++ body, frameTotal - AEAD_LENGTH_PREFIX - AEAD_TAG_SIZE, inner', ?_, ?_⟩
        · rw [(readExactOrEof_some hlead).1, (readExact_ok hbody).1, List.append_assoc]
        · by_cases hauth : (A.openInto c.decode (lead ++ body)
              (List.replicate (frameTotal - AEAD_LENGTH_PREFIX - AEAD_TAG_SIZE) 0)).authenticated
          · exact .inl ⟨hauth, if_pos hauth⟩
          · exact .inr ⟨by simpa using hauth, if_neg hauth⟩

/-- A call that times out takes the timeout off the script. -/
theorem HtxfChannel.read_timedOut {A : Aead σ} {c c' : HtxfChannel σ} {room : ℕ}
    {kind : ErrorKind} (h : c.read A room = (.error kind, c')) (htimeout : kind.isTimeout = true) :
    c'.inner.length < c.inner.length := by
  rw [read] at h
  split at h
  · cases h
  · split at h
    · obtain ⟨hread, rfl⟩ := Prod.mk.inj h
      exact readRetrying_timedOut (Prod.ext hread rfl)
    · split at h
      · rw [fillOneFrame] at h
        have hle := readExactOrEof_script_length_le AEAD_LENGTH_PREFIX c.inner
        rcases hlead : readExactOrEof AEAD_LENGTH_PREFIX c.inner with ⟨_ | _ | lead, inner⟩
        · rw [hlead] at h
          cases h
          exact readExactOrEof_timedOut hlead htimeout
        · rw [hlead] at h
          cases h
        · rw [hlead] at h hle
          cases hpeek : A.peekFrameSize lead with
          | none =>
            simp only [hpeek] at h
            cases h
            cases htimeout
          | some frameTotal =>
            simp only [hpeek] at h
            rcases hbody : readExact (frameTotal - AEAD_LENGTH_PREFIX) inner with ⟨_ | body, inner'⟩
            · simp only [hbody] at h
              cases h
              exact (readExact_timedOut hbody htimeout).trans_le hle
            · simp only [hbody] at h
              by_cases hauth : (A.openInto c.decode (lead ++ body) (List.replicate
                  (frameTotal - AEAD_LENGTH_PREFIX - AEAD_TAG_SIZE) 0)).authenticated
              · simp [hauth] at h
              · simp only [hauth] at h
                cases h
                cases htimeout
      · cases h

end Gtkhx.Htxf
