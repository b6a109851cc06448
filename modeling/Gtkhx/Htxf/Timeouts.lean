import Gtkhx.Htxf.Channel

/-!
# Timeouts between and inside frames

A caller goes on reading after a timeout. What it obtains is compared with what the same
calls obtain from the same stream with the timeouts taken out. The peer is a parameter:
the frames it sealed, and that a decoding state opens those, in order, and no others.
-/

namespace Gtkhx.Htxf

open Reader

variable {σ : Type*}

/-- A frame as the peer sealed it. -/
structure Sealed where
  /-- The frame on the wire. -/
  framed : List UInt8
  /-- What was sealed in it. -/
  plain : List UInt8
  deriving DecidableEq, Repr

/-- The bytes a list of frames puts on the wire. -/
def wire (frames : List Sealed) : List UInt8 := frames.flatMap Sealed.framed

@[simp] theorem wire_nil : wire [] = [] := rfl

@[simp] theorem wire_cons (f : Sealed) (frames : List Sealed) :
    wire (f :: frames) = f.framed ++ wire frames := rfl

@[simp] theorem wire_append (E F : List Sealed) : wire (E ++ F) = wire E ++ wire F := by
  simp [wire]

/-- A sealing peer that matches a decoding record layer. `write` seals no empty buffer,
so every frame has a plaintext. -/
structure Peer (A : Aead σ) where
  /-- The frames that the peer seals from the point a decoding state has reached. -/
  Ready : σ → List Sealed → Prop
  /-- A frame is a length prefix, a ciphertext as long as the plaintext, and a tag. -/
  shape : ∀ {d f frames}, Ready d (f :: frames) →
    f.plain ≠ [] ∧ f.framed.length = AEAD_LENGTH_PREFIX + f.plain.length + AEAD_TAG_SIZE ∧
      A.peekFrameSize (f.framed.take AEAD_LENGTH_PREFIX) = some f.framed.length
  /-- The next frame opens. -/
  opens : ∀ {d f frames}, Ready d (f :: frames) → ∃ d',
    A.openInto d f.framed (List.replicate f.plain.length 0) = ⟨d', f.plain, true⟩ ∧
      Ready d' frames
  /-- Whatever opens was sealed by the peer. -/
  onlySealed : ∀ {d frames framed out}, Ready d frames →
    (A.openInto d framed out).authenticated = true → ∃ skipped f rest,
      frames = skipped ++ f :: rest ∧ framed = f.framed ∧
        (A.openInto d framed out).out = f.plain ∧ Ready (A.openInto d framed out).state rest

/-- Whether a call's result ends the reading: an error that is not a timeout. -/
def isFatal : Except ErrorKind (List UInt8) → Bool
  | .error kind => !kind.isTimeout
  | .ok _ => false

/-- Whether a call timed out. -/
def timedOut : Except ErrorKind (List UInt8) → Bool
  | .error kind => kind.isTimeout
  | .ok _ => false

/-- The plaintext a caller obtains that goes on after a timeout and stops at any other
error. -/
def obtained : List (Except ErrorKind (List UInt8)) → List UInt8
  | [] => []
  | .ok bytes :: rest => bytes ++ obtained rest
  | .error kind :: rest => if kind.isTimeout then obtained rest else []

/-- The same channel over the same stream with no timeout in it. -/
def HtxfChannel.untimed (c : HtxfChannel σ) : HtxfChannel σ :=
  { c with inner := Reader.untimed c.inner }

/-- The calls of a run that did not time out. -/
def HtxfChannel.answered (A : Aead σ) (c : HtxfChannel σ) (rooms : List ℕ) : List ℕ :=
  (c.reading A).record (fun kept _ room out => if out.any timedOut then kept else kept ++ [room])
    [] rooms

/-- Whatever calls are made, the ones that do not time out obtain the plaintext they would
obtain had there been no timeout. -/
def NothingLost (A : Aead σ) (c : HtxfChannel σ) : Prop :=
  ∀ rooms, obtained ((c.reading A).emitted rooms) =
    obtained ((c.untimed.reading A).emitted (c.answered A rooms))

/-- No timeout falls between the first and the last byte of a frame. -/
def Unbroken (frames : List Sealed) (s : Source UInt8) : Prop :=
  ∀ t ∈ timeoutOffsets s, ∀ E f F, frames = E ++ f :: F →
    t ≤ (wire E).length ∨ (wire E).length + f.framed.length ≤ t

/-- What arrives from the peer: its frames `whole`, and perhaps the beginning of one more,
on which the stream ends. -/
structure SealedStream {A : Aead σ} (P : Peer A) (decode : σ) (whole : List Sealed)
    (tail : List UInt8) (s : Source UInt8) : Prop where
  /-- The bytes on the wire. -/
  carries : carried s = wire whole ++ tail
  /-- The peer has sealed the frames and, if it was cut off, the one it was cut off in. -/
  ready : ∃ cut, P.Ready decode (whole ++ cut) ∧
    (cut = [] ∧ tail = [] ∨ ∃ g, cut = [g] ∧ tail ≠ [] ∧ tail.length < g.framed.length)

@[simp] theorem wire_length_pos {A : Aead σ} (P : Peer A) {d : σ} {f : Sealed}
    {frames : List Sealed} (h : P.Ready d (f :: frames)) : 0 < f.framed.length := by
  have hshape := (P.shape h).2.1
  unfold AEAD_TAG_SIZE at hshape
  omega

theorem obtained_snoc (rs : List (Except ErrorKind (List UInt8)))
    (r : Except ErrorKind (List UInt8)) :
    obtained (rs ++ [r]) = if rs.any isFatal then obtained rs else obtained rs ++ obtained [r] := by
  induction rs with
  | nil => simp [obtained]
  | cons r' rs ih =>
    cases r' with
    | ok bytes =>
      simp only [List.cons_append, obtained, ih, List.any_cons, isFatal, Bool.false_or]
      split <;> simp
    | error kind =>
      simp only [List.cons_append, obtained, ih, List.any_cons, isFatal]
      by_cases h : kind.isTimeout = true <;> simp [h]

/-- Reading a whole number of bytes of a stream that has them: they are read, or a timeout
costs the ones before it. -/
private theorem fill_available (size : ℕ) {s : Source UInt8} (hs : Delivers s)
    (hsize : size ≤ (carried s).length) :
    (∃ s', fill size [] s = (.full ((carried s).take size), s') ∧ Delivers s' ∧
      carried s' = (carried s).drop size ∧
      timeoutOffsets s = (timeoutOffsets s').map (· + size) ∧
      fill size [] (quiet s) = (.full ((carried s).take size), quiet s')) ∨
    (∃ got kind lost s', fill size [] s = (.failed got kind, s') ∧ Delivers s' ∧
      kind.isTimeout = true ∧ carried s = lost ++ carried s' ∧ lost.length < size ∧
      (lost = [] → quiet s = quiet s') ∧
      timeoutOffsets s = lost.length :: (timeoutOffsets s').map (· + lost.length)) := by
  have hleft := hs.fill size []
  rcases hfill : fill size [] s with ⟨buffer | got | ⟨got, kind⟩, s'⟩ <;> rw [hfill] at hleft
  · obtain ⟨hbytes, hlen⟩ := fill_full hfill
    have hlen : buffer.length = size := hlen (Nat.zero_le _)
    have hbytes : carried s = buffer ++ carried s' := by simpa using hbytes
    have hbuffer : (carried s).take size = buffer := by rw [hbytes, ← hlen, List.take_left]
    refine .inl ⟨s', by rw [hbuffer], hleft, by rw [hbytes, ← hlen, List.drop_left], ?_, ?_⟩
    · simpa [hlen] using timeoutOffsets_of_fill_full hs hfill
    · rw [hbuffer]
      exact fill_quiet hfill
  · obtain ⟨rfl, hshort, -⟩ := hs.fill_ended hfill
    simp only [List.nil_append] at hshort
    omega
  · obtain ⟨htimeout, lost, hlost, hlen, hquiet, hoffsets⟩ := hs.fill_failed hfill
    exact .inr ⟨got, kind, lost, s', rfl, hleft, htimeout, hlost, by simpa using hlen, hquiet,
      hoffsets⟩

/-- The next frame is there: it is opened, or a timeout costs the bytes before it. -/
theorem fillOneFrame_of_ready {A : Aead σ} (P : Peer A) {c : HtxfChannel σ} {f : Sealed}
    {frames : List Sealed} {later : List UInt8} (hready : P.Ready c.decode (f :: frames))
    (hs : Delivers c.inner) (hcarried : carried c.inner = f.framed ++ later) :
    (∃ inner decode, P.Ready decode frames ∧ Delivers inner ∧ carried inner = later ∧
      timeoutOffsets c.inner = (timeoutOffsets inner).map (· + f.framed.length) ∧
      c.fillOneFrame A =
        (.ok true, { c with inner, decode, rxPlain := f.plain, rxPlainPos := 0 }) ∧
      { c with inner := quiet c.inner }.fillOneFrame A =
        (.ok true, { c with inner := quiet inner, decode, rxPlain := f.plain, rxPlainPos := 0 })) ∨
    (∃ kind inner lost, kind.isTimeout = true ∧ Delivers inner ∧
      carried c.inner = lost ++ carried inner ∧ lost.length < f.framed.length ∧
      (lost = [] → quiet c.inner = quiet inner) ∧
      timeoutOffsets c.inner = lost.length :: (timeoutOffsets inner).map (· + lost.length) ∧
      c.fillOneFrame A = (.error kind, { c with inner })) := by
  obtain ⟨-, hlength, hpeek⟩ := P.shape hready
  obtain ⟨decode, hopen, hnext⟩ := P.opens hready
  have hlead : (carried c.inner).take AEAD_LENGTH_PREFIX = f.framed.take AEAD_LENGTH_PREFIX := by
    rw [hcarried, List.take_append_of_le_length (by omega)]
  obtain ⟨s₁, hfill₁, hs₁, hcarried₁, hoffsets₁, hquiet₁⟩ |
    ⟨_, kind, lost, s₁, hfill₁, hs₁, htimeout, hlost, hlen, hquiet₁, hoffsets₁⟩ :=
    fill_available AEAD_LENGTH_PREFIX hs (by simp [hcarried]; omega)
  · rw [hlead] at hfill₁ hquiet₁
    have hrest : carried s₁ = f.framed.drop AEAD_LENGTH_PREFIX ++ later := by
      rw [hcarried₁, hcarried, List.drop_append_of_le_length (by omega)]
    have hbody : (carried s₁).take (f.framed.length - AEAD_LENGTH_PREFIX) =
        f.framed.drop AEAD_LENGTH_PREFIX := by
      rw [hrest, ← List.length_drop, List.take_left]
    obtain ⟨s₂, hfill₂, hs₂, hcarried₂, hoffsets₂, hquiet₂⟩ |
      ⟨_, kind, lost, s₂, hfill₂, hs₂, htimeout, hlost, hlen, -, hoffsets₂⟩ :=
      fill_available (f.framed.length - AEAD_LENGTH_PREFIX) hs₁ (by simp [hrest])
    · rw [hbody] at hfill₂ hquiet₂
      have hptLen : f.framed.length - AEAD_LENGTH_PREFIX - AEAD_TAG_SIZE = f.plain.length := by
        omega
      refine .inl ⟨s₂, decode, hnext, hs₂, ?_, ?_, ?_, ?_⟩
      · rw [hcarried₂, hrest, ← List.length_drop, List.drop_left]
      · rw [hoffsets₁, hoffsets₂, List.map_map]
        refine List.map_congr_left fun t _ => ?_
        simp only [Function.comp_apply]
        omega
      · simp [HtxfChannel.fillOneFrame, readExactOrEof, readExact, hfill₁, hfill₂, hpeek, hptLen,
          hopen]
      · simp [HtxfChannel.fillOneFrame, readExactOrEof, readExact, hquiet₁, hquiet₂, hpeek,
          hptLen, hopen]
    · refine .inr ⟨kind, s₂, f.framed.take AEAD_LENGTH_PREFIX ++ lost, htimeout, hs₂, ?_, ?_, ?_,
        ?_, ?_⟩
      · rw [List.append_assoc, ← hlost, hrest, hcarried, ← List.append_assoc,
          List.take_append_drop]
      · simp only [List.length_append, List.length_take]
        omega
      · intro hnil
        simp only [List.append_eq_nil_iff, List.take_eq_nil_iff] at hnil
        rcases hnil.1 with hzero | hnil
        · cases hzero
        · simp [hnil] at hlength
          unfold AEAD_TAG_SIZE at hlength
          omega
      · rw [hoffsets₁, hoffsets₂, List.map_cons, List.map_map]
        simp only [List.length_append, List.length_take]
        refine List.cons_eq_cons.mpr ⟨by omega, List.map_congr_left fun t _ => ?_⟩
        simp only [Function.comp_apply]
        omega
      · simp [HtxfChannel.fillOneFrame, readExactOrEof, readExact, hfill₁, hfill₂, hpeek]
  · refine .inr ⟨kind, s₁, lost, htimeout, hs₁, hlost, by omega, hquiet₁, hoffsets₁, ?_⟩
    simp [HtxfChannel.fillOneFrame, readExactOrEof, hfill₁]

/-- Two channels that are at the same place of the same stream, the second with no timeout
ahead of it. -/
structure Abreast (c c' : HtxfChannel σ) : Prop where
  /-- They differ in the transport alone. -/
  same : c' = { c with inner := c'.inner }
  /-- The transports differ in signals and timeouts alone. -/
  quiet_eq : quiet c'.inner = quiet c.inner
  /-- The first arrives. -/
  arrives : Delivers c.inner
  /-- The second arrives. -/
  arrives' : Delivers c'.inner
  /-- It does so without a timeout. -/
  untimed : timeoutOffsets c'.inner = []

/-- The channel is at a frame boundary, but for what its buffer holds: the frames `whole`
are to come, and no timeout falls inside one. -/
structure Aligned {A : Aead σ} (P : Peer A) (c : HtxfChannel σ) : Prop where
  /-- The channel frames. -/
  active : c.aeadActive = true
  /-- No timeout breaks a frame that is still to come. -/
  ahead : ∃ whole tail, SealedStream P c.decode whole tail c.inner ∧ Unbroken whole c.inner

/-- No frame can be opened any more: the stream has fewer bytes left than any frame that
would open. -/
structure Spent {A : Aead σ} (P : Peer A) (c : HtxfChannel σ) : Prop where
  /-- The channel frames. -/
  active : c.aeadActive = true
  /-- Nothing is left in the buffer. -/
  drained : c.rxPlain.length ≤ c.rxPlainPos
  /-- Every frame that would open is longer than the stream. -/
  short : ∃ frames, P.Ready c.decode frames ∧
    ∀ f ∈ frames, (carried c.inner).length < f.framed.length

/-- From where no frame can be opened, calls return no bytes until one fails. -/
private theorem Spent.read {A : Aead σ} {P : Peer A} {c : HtxfChannel σ} (h : Spent P c)
    (room : ℕ) : obtained [(c.read A room).1] = [] ∧
      (isFatal (c.read A room).1 = true ∨ Spent P (c.read A room).2) := by
  obtain ⟨frames, hready, hshort⟩ := h.short
  by_cases hroom : room = 0
  · simpa [HtxfChannel.read, hroom, obtained] using Or.inr h
  obtain ⟨r, inner, hr, hsuffix, hfill⟩ |
    ⟨framed, ptLen, inner, hcarried, ⟨hauth, hfill⟩ | ⟨hauth, hfill⟩⟩ := c.fillOneFrame_cases A
  · have hspent : Spent P { c with inner } :=
      ⟨h.active, h.drained, frames, hready, fun f hf =>
        lt_of_le_of_lt hsuffix.length_le (hshort f hf)⟩
    rcases r with kind | _ | _
    · simpa [HtxfChannel.read, hroom, h.active, h.drained, hfill, obtained, isFatal] using
        Or.inr hspent
    · simpa [HtxfChannel.read, hroom, h.active, h.drained, hfill, obtained, isFatal] using hspent
    · exact absurd rfl hr
  · obtain ⟨skipped, f, rest, rfl, rfl, -, -⟩ := P.onlySealed hready hauth
    have hlt := hshort f (by simp)
    rw [hcarried] at hlt
    simp only [List.length_append] at hlt
    omega
  · simp [HtxfChannel.read, hroom, h.active, h.drained, hfill, obtained, isFatal,
      ErrorKind.isTimeout]

/-- The two channels are together: passing the stream through, or at the same boundary. -/
private structure Together {A : Aead σ} (P : Peer A) (c c' : HtxfChannel σ) : Prop where
  abreast : Abreast c c'
  mode : c.aeadActive = false ∨ Aligned P c

private theorem Abreast.serve {c c' : HtxfChannel σ} (h : Abreast c c') (room : ℕ) :
    (c'.serve room).1 = (c.serve room).1 ∧ Abreast (c.serve room).2 (c'.serve room).2 := by
  have hsame := h.same
  refine ⟨by rw [hsame]; rfl, ⟨?_, h.quiet_eq, h.arrives, h.arrives', h.untimed⟩⟩
  nth_rewrite 1 [hsame]
  rfl

private theorem Aligned.serve {A : Aead σ} {P : Peer A} {c : HtxfChannel σ} (h : Aligned P c)
    (room : ℕ) : Aligned P (c.serve room).2 :=
  ⟨h.active, h.ahead⟩

private theorem SealedStream.spent {A : Aead σ} {P : Peer A} {c : HtxfChannel σ}
    {tail : List UInt8} (h : SealedStream P c.decode [] tail c.inner)
    (hactive : c.aeadActive = true) (hdrained : c.rxPlain.length ≤ c.rxPlainPos) :
    Spent P c := by
  obtain ⟨cut, hready, hcut⟩ := h.ready
  refine ⟨hactive, hdrained, cut, hready, ?_⟩
  have hcarries := h.carries
  rintro f hf
  obtain ⟨rfl, -⟩ | ⟨g, rfl, -, hlen⟩ := hcut
  · simp at hf
  · obtain rfl := List.mem_singleton.mp hf
    simpa [hcarries] using hlen

/-- Past the first frame the timeouts are where they were, counted from there. -/
private theorem Unbroken.tail {f : Sealed} {frames : List Sealed} {s s' : Source UInt8}
    (h : Unbroken (f :: frames) s)
    (hoffsets : timeoutOffsets s = (timeoutOffsets s').map (· + f.framed.length)) :
    Unbroken frames s' := by
  intro t ht E g F hframes
  have ht' : t + f.framed.length ∈ timeoutOffsets s := by
    rw [hoffsets]
    exact List.mem_map_of_mem ht
  have hsplit := h _ ht' (f :: E) g F (by rw [hframes]; rfl)
  simp only [wire_cons, List.length_append] at hsplit
  omega

/-- At a frame boundary with a frame to come: both channels open it, or the first times
out before its first byte. -/
private theorem Abreast.fillOneFrame {A : Aead σ} {P : Peer A} {c c' : HtxfChannel σ}
    (h : Abreast c c') (hactive : c.aeadActive = true) {f : Sealed} {frames : List Sealed}
    {tail : List UInt8} (hstream : SealedStream P c.decode (f :: frames) tail c.inner)
    (hunbroken : Unbroken (f :: frames) c.inner) :
    (∃ d d', c.fillOneFrame A = (.ok true, d) ∧ c'.fillOneFrame A = (.ok true, d') ∧
      Abreast d d' ∧ Aligned P d) ∨
    (∃ kind d, c.fillOneFrame A = (.error kind, d) ∧ kind.isTimeout = true ∧ Abreast d c' ∧
      Aligned P d) := by
  have hsame := h.same
  obtain ⟨cut, hready, hcut⟩ := hstream.ready
  have hcarried : carried c.inner = f.framed ++ (wire frames ++ tail) := by
    rw [hstream.carries, wire_cons, List.append_assoc]
  have hcarried' : carried c'.inner = f.framed ++ (wire frames ++ tail) := by
    rw [← carried_quiet, h.quiet_eq, carried_quiet, hcarried]
  obtain ⟨inner, decode, hnext, harrives, hrest, hoffsets, hfill, hquiet⟩ |
    ⟨kind, inner, lost, htimeout, harrives, hlost, hlen, hquiet, hoffsets, hfill⟩ :=
    fillOneFrame_of_ready P hready h.arrives hcarried
  · have hready' : P.Ready c'.decode (f :: (frames ++ cut)) := by rw [hsame]; exact hready
    obtain ⟨inner', decode', -, harrives', -, hoffsets', hfill', hquiet'⟩ |
      ⟨_, _, lost, _, _, _, _, _, hoffsets', _⟩ :=
      fillOneFrame_of_ready P hready' h.arrives' hcarried'
    · have hswap : { c' with inner := quiet c'.inner } = { c with inner := quiet c.inner } := by
        rw [h.quiet_eq, hsame]
      rw [hswap, hquiet] at hquiet'
      simp only [Prod.mk.injEq, HtxfChannel.mk.injEq, true_and] at hquiet'
      obtain ⟨hinner, rfl, -⟩ := hquiet'
      refine .inl ⟨_, _, hfill, hfill', ⟨?_, hinner.symm, harrives, harrives', ?_⟩, hactive, frames,
        tail, ⟨hrest, cut, hnext, hcut⟩, hunbroken.tail hoffsets⟩
      · rw [hsame]
      · rw [h.untimed] at hoffsets'
        exact List.map_eq_nil_iff.mp hoffsets'.symm
    · rw [h.untimed] at hoffsets'
      cases hoffsets'
  · have hmem : lost.length ∈ timeoutOffsets c.inner := by
      rw [hoffsets]
      exact List.mem_cons_self
    have hfirst := hunbroken lost.length hmem [] f frames rfl
    have hnil : lost = [] := by
      simp only [wire_nil, List.length_nil] at hfirst
      exact List.length_eq_zero_iff.mp (by omega)
    subst hnil
    refine .inr ⟨kind, _, hfill, htimeout,
      ⟨hsame, h.quiet_eq.trans (hquiet rfl), harrives, h.arrives', h.untimed⟩, hactive, f :: frames,
      tail, ⟨hlost.symm.trans hstream.carries, hstream.ready⟩, fun t ht => ?_⟩
    refine hunbroken t ?_
    rw [hoffsets]
    simpa using Or.inr ht

/-- One call on both channels: both are spent, or the first times out and the second need
not be called, or both return the same bytes. -/
private theorem Together.read {A : Aead σ} {P : Peer A} {c c' : HtxfChannel σ}
    (h : Together P c c') (room : ℕ) :
    (Spent P c ∧ Spent P c') ∨
    (∃ kind d, c.read A room = (.error kind, d) ∧ kind.isTimeout = true ∧ Together P d c') ∨
    (∃ bytes d d', c.read A room = (.ok bytes, d) ∧ c'.read A room = (.ok bytes, d') ∧
      Together P d d') := by
  obtain ⟨hab, hmode⟩ := h
  have hsame := hab.same
  by_cases hroom : room = 0
  · exact .inr (.inr ⟨[], c, c', by simp [HtxfChannel.read, hroom],
      by simp [HtxfChannel.read, hroom], hab, hmode⟩)
  obtain hplain | haligned := hmode
  · have hread : ∀ inner : Source UInt8, { c with inner }.read A room =
        ((readRetrying room inner).1, { c with inner := (readRetrying room inner).2 }) := by
      intro inner
      simp [HtxfChannel.read, hroom, hplain]
    obtain ⟨got', s₂, hread', harrives', hquiet', hoffsets'⟩ | ⟨_, _, _, _, _, _, hne⟩ :=
      hab.arrives'.readRetrying room
    · obtain ⟨got, s₁, hread₁, harrives, hquiet, -⟩ |
        ⟨kind, s₁, hread₁, htimeout, harrives, hquiet, -⟩ := hab.arrives.readRetrying room
      · rw [hab.quiet_eq, hquiet] at hquiet'
        obtain ⟨hgot, hs⟩ := Prod.mk.inj hquiet'
        obtain rfl := Except.ok.inj hgot
        refine .inr (.inr ⟨got, { c with inner := s₁ }, { c with inner := s₂ }, ?_, ?_, ?_,
          .inl hplain⟩)
        · simpa [hread₁] using hread c.inner
        · rw [hsame]
          simpa [hread'] using hread c'.inner
        · exact ⟨rfl, hs.symm, harrives, harrives', hoffsets' hab.untimed⟩
      · refine .inr (.inl ⟨kind, { c with inner := s₁ }, ?_, htimeout, ?_, .inl hplain⟩)
        · simpa [hread₁] using hread c.inner
        · exact ⟨hsame, hab.quiet_eq.trans hquiet, harrives, hab.arrives', hab.untimed⟩
    · exact absurd hab.untimed hne
  · obtain ⟨whole, tail, hstream, hunbroken⟩ := haligned.ahead
    by_cases hdrained : c.rxPlain.length ≤ c.rxPlainPos
    · cases whole with
      | nil =>
        have hstream' : SealedStream P c'.decode [] tail c'.inner := by
          refine ⟨?_, by rw [hsame]; exact hstream.ready⟩
          rw [← carried_quiet, hab.quiet_eq, carried_quiet]
          exact hstream.carries
        refine .inl ⟨hstream.spent haligned.active hdrained, hstream'.spent ?_ ?_⟩ <;> rw [hsame]
        · exact haligned.active
        · exact hdrained
      | cons f frames =>
        have hab' := hab.fillOneFrame haligned.active hstream hunbroken
        have hdrained' : c'.rxPlain.length ≤ c'.rxPlainPos := by rw [hsame]; exact hdrained
        have hactive' : c'.aeadActive = true := by rw [hsame]; exact haligned.active
        obtain ⟨d, d', hfill, hfill', hopen, hnext⟩ |
          ⟨kind, d, hfill, htimeout, hopen, hnext⟩ := hab'
        · obtain ⟨hout, hserved⟩ := hopen.serve room
          refine .inr (.inr ⟨(d.serve room).1, (d.serve room).2, (d'.serve room).2, ?_, ?_, hserved,
            .inr (hnext.serve room)⟩)
          · simp [HtxfChannel.read, hroom, haligned.active, hdrained, hfill]
          · simp [HtxfChannel.read, hroom, hactive', hdrained', hfill', hout]
        · refine .inr (.inl ⟨kind, d, ?_, htimeout, hopen, .inr hnext⟩)
          simp [HtxfChannel.read, hroom, haligned.active, hdrained, hfill]
    · obtain ⟨hout, hserved⟩ := hab.serve room
      refine .inr (.inr ⟨(c.serve room).1, (c.serve room).2, (c'.serve room).2, ?_, ?_, hserved,
        .inr (haligned.serve room)⟩)
      · simp [HtxfChannel.read, hroom, haligned.active, hdrained]
      · rw [← hout, hsame]
        simp [HtxfChannel.read, hroom, haligned.active, hdrained]

/-- No more can be obtained: a call has failed, or no frame can be opened. -/
private def Ended {A : Aead σ} (P : Peer A) (rs : List (Except ErrorKind (List UInt8)))
    (c : HtxfChannel σ) : Prop :=
  rs.any isFatal = true ∨ Spent P c

private theorem Ended.read {A : Aead σ} {P : Peer A} {rs : List (Except ErrorKind (List UInt8))}
    {c : HtxfChannel σ} (h : Ended P rs c) (room : ℕ) :
    obtained (rs ++ [(c.read A room).1]) = obtained rs ∧
      Ended P (rs ++ [(c.read A room).1]) (c.read A room).2 := by
  rw [obtained_snoc]
  rcases h with hfatal | hspent
  · exact ⟨if_pos hfatal, .inl (by simp [hfatal])⟩
  · obtain ⟨hnone, hnext⟩ := hspent.read room
    refine ⟨by simp [hnone], hnext.imp_left fun hfatal => by simp [hfatal]⟩

/-- The timed run and the untimed one have obtained the same, and are together or over. -/
private structure Course {A : Aead σ} (P : Peer A) (rs rs' : List (Except ErrorKind (List UInt8)))
    (c c' : HtxfChannel σ) : Prop where
  obtained_eq : obtained rs = obtained rs'
  place : (rs.any isFatal = false ∧ rs'.any isFatal = false ∧ Together P c c') ∨
    (Ended P rs c ∧ Ended P rs' c')

/-- A call that times out is made on the first channel alone; any other on both. -/
private theorem Course.read {A : Aead σ} {P : Peer A}
    {rs rs' : List (Except ErrorKind (List UInt8))} {c c' : HtxfChannel σ}
    (h : Course P rs rs' c c') (room : ℕ) :
    (timedOut (c.read A room).1 = true →
      Course P (rs ++ [(c.read A room).1]) rs' (c.read A room).2 c') ∧
    (timedOut (c.read A room).1 = false →
      Course P (rs ++ [(c.read A room).1]) (rs' ++ [(c'.read A room).1]) (c.read A room).2
        (c'.read A room).2) := by
  have hover : Ended P rs c ∧ Ended P rs' c' →
      (timedOut (c.read A room).1 = true →
        Course P (rs ++ [(c.read A room).1]) rs' (c.read A room).2 c') ∧
      (timedOut (c.read A room).1 = false →
        Course P (rs ++ [(c.read A room).1]) (rs' ++ [(c'.read A room).1]) (c.read A room).2
          (c'.read A room).2) := by
    rintro ⟨hc, hc'⟩
    obtain ⟨hsame, hnext⟩ := hc.read room
    obtain ⟨hsame', hnext'⟩ := hc'.read room
    exact ⟨fun _ => ⟨hsame.trans h.obtained_eq, .inr ⟨hnext, hc'⟩⟩,
      fun _ => ⟨hsame.trans (h.obtained_eq.trans hsame'.symm), .inr ⟨hnext, hnext'⟩⟩⟩
  obtain ⟨hlive, hlive', htogether⟩ | hboth := h.place
  · obtain ⟨hspent, hspent'⟩ | ⟨kind, d, hread, htimeout, hnext⟩ |
      ⟨bytes, d, d', hread, hread', hnext⟩ := htogether.read room
    · exact hover ⟨.inr hspent, .inr hspent'⟩
    · rw [hread]
      refine ⟨fun _ => ⟨?_, .inl ⟨?_, hlive', hnext⟩⟩,
        fun hnot => by simp [timedOut, htimeout] at hnot⟩
      · rw [obtained_snoc, hlive]
        simpa [obtained, htimeout] using h.obtained_eq
      · simpa [isFatal, htimeout] using hlive
    · rw [hread, hread']
      refine ⟨fun hnot => by simp [timedOut] at hnot, fun _ => ⟨?_, .inl ⟨?_, ?_, hnext⟩⟩⟩
      · rw [obtained_snoc, obtained_snoc, hlive, hlive', h.obtained_eq]
      · simpa [isFatal] using hlive
      · simpa [isFatal] using hlive'
  · exact hover hboth

@[simp] private theorem answered_snoc (A : Aead σ) (c : HtxfChannel σ) (rooms : List ℕ) (room : ℕ) :
    c.answered A (rooms ++ [room]) =
      if timedOut (((c.reading A).after rooms).read A room).1 then c.answered A rooms
      else c.answered A rooms ++ [room] := by
  simp [HtxfChannel.answered, HtxfChannel.reading]

/-- Two runs that start together stay on course. -/
private theorem course_after {A : Aead σ} {P : Peer A} {c : HtxfChannel σ}
    (h : Together P c c.untimed) (rooms : List ℕ) :
    Course P ((c.reading A).emitted rooms) ((c.untimed.reading A).emitted (c.answered A rooms))
      ((c.reading A).after rooms) ((c.untimed.reading A).after (c.answered A rooms)) := by
  induction rooms using List.reverseRecOn with
  | nil => exact ⟨rfl, .inl ⟨rfl, rfl, h⟩⟩
  | append_singleton rooms room ih =>
    obtain ⟨htimed, hanswered⟩ := ih.read room
    rw [Reactive.Machine.after_snoc, Reactive.Machine.emitted_snoc, answered_snoc]
    cases hout : timedOut (((c.reading A).after rooms).read A room).1 with
    | true => exact htimed hout
    | false =>
      simp only [Bool.false_eq_true, if_false, Reactive.Machine.after_snoc,
        Reactive.Machine.emitted_snoc]
      exact hanswered hout

private theorem nothingLost_of_together {A : Aead σ} {P : Peer A} {c : HtxfChannel σ}
    (h : Together P c c.untimed) : NothingLost A c :=
  fun rooms => (course_after h rooms).obtained_eq

/-- The plaintext of a list of frames. -/
def plaintext (frames : List Sealed) : List UInt8 := frames.flatMap Sealed.plain

@[simp] theorem plaintext_nil : plaintext [] = [] := rfl

@[simp] theorem plaintext_cons (f : Sealed) (frames : List Sealed) :
    plaintext (f :: frames) = f.plain ++ plaintext frames := rfl

@[simp] theorem plaintext_append (E F : List Sealed) :
    plaintext (E ++ F) = plaintext E ++ plaintext F := by
  simp [plaintext]

/-- Less than `total` bytes can be obtained, `out` being obtained already. Too few are left
in the frames that can be opened, or too few in the stream to open them all, or a timeout
is still ahead that falls inside a frame. -/
private structure Behind {A : Aead σ} (P : Peer A) (total : ℕ) (out : List UInt8)
    (c : HtxfChannel σ) : Prop where
  active : c.aeadActive = true
  pos_le : c.rxPlainPos ≤ c.rxPlain.length
  short : ∃ frames, P.Ready c.decode frames ∧
    (out.length + (c.rxPlain.length - c.rxPlainPos) + (plaintext frames).length < total ∨
    out.length + (c.rxPlain.length - c.rxPlainPos) + (plaintext frames).length ≤ total ∧
      ((carried c.inner).length < (wire frames).length ∨
        Delivers c.inner ∧ carried c.inner = wire frames ∧ ¬ Unbroken frames c.inner))

private theorem plaintext_length_pos {A : Aead σ} {P : Peer A} {d : σ} {f : Sealed}
    {frames : List Sealed} (h : P.Ready d (f :: frames)) : 0 < f.plain.length :=
  List.length_pos_iff.mpr (P.shape h).1

private theorem Behind.lt {A : Aead σ} {P : Peer A} {total : ℕ} {out : List UInt8}
    {c : HtxfChannel σ} (h : Behind P total out c) : out.length < total := by
  obtain ⟨frames, hready, hless | ⟨hle, hmissing⟩⟩ := h.short
  · omega
  · cases frames with
    | nil =>
      rcases hmissing with hlt | ⟨-, -, hbroken⟩
      · simp at hlt
      · exact absurd (fun t _ E f F hframes => by simp at hframes) hbroken
    | cons f frames =>
      have hpos := plaintext_length_pos hready
      simp only [plaintext_cons, List.length_append] at hle
      omega

private theorem Behind.serve {A : Aead σ} {P : Peer A} {total : ℕ} {out : List UInt8}
    {c : HtxfChannel σ} (h : Behind P total out c) (room : ℕ) :
    Behind P total (out ++ (c.serve room).1) (c.serve room).2 := by
  obtain ⟨frames, hready, hshort⟩ := h.short
  have hpos := h.pos_le
  have hheld : (out ++ (c.serve room).1).length +
      ((c.serve room).2.rxPlain.length - (c.serve room).2.rxPlainPos) =
      out.length + (c.rxPlain.length - c.rxPlainPos) := by
    have hlen := congrArg List.length (c.serve_append room)
    simp only [List.length_append, List.length_drop, HtxfChannel.serve_rxPlain] at hlen ⊢
    omega
  refine ⟨h.active, c.serve_pos_le hpos room, frames, hready, ?_⟩
  rw [hheld]
  exact hshort

/-- A timeout inside a frame past the first is still ahead when the first is read. -/
private theorem unbroken_cons {f : Sealed} {frames : List Sealed} {s s' : Source UInt8}
    (hoffsets : timeoutOffsets s = (timeoutOffsets s').map (· + f.framed.length))
    (h : Unbroken frames s') : Unbroken (f :: frames) s := by
  intro t ht E g F hframes
  rw [hoffsets] at ht
  obtain ⟨t', ht', rfl⟩ := List.mem_map.mp ht
  cases E with
  | nil =>
    obtain ⟨rfl, -⟩ := List.cons_eq_cons.mp hframes
    exact .inr (by simp)
  | cons e E =>
    obtain ⟨rfl, hrest⟩ := List.cons.inj hframes
    have hsplit := h t' ht' E g F hrest
    simp only [wire_cons, List.length_append]
    omega

/-- With too few bytes or too few frames left, reading on cannot make up for it. -/
private theorem Behind.fillOneFrame_of_lt {A : Aead σ} {P : Peer A} {total : ℕ}
    {out : List UInt8} {c : HtxfChannel σ} {frames : List Sealed} (hactive : c.aeadActive = true)
    (hpos : c.rxPlainPos ≤ c.rxPlain.length) (hdrained : c.rxPlain.length ≤ c.rxPlainPos)
    (hready : P.Ready c.decode frames)
    (hshort : out.length + (plaintext frames).length < total ∨
      out.length + (plaintext frames).length ≤ total ∧
        (carried c.inner).length < (wire frames).length) :
    (c.fillOneFrame A).1 = .error .invalidData ∨ Behind P total out (c.fillOneFrame A).2 := by
  obtain ⟨r, inner, -, hsuffix, hfill⟩ |
    ⟨framed, ptLen, inner, hcarried, ⟨hauth, hfill⟩ | ⟨hauth, hfill⟩⟩ := c.fillOneFrame_cases A
  · rw [hfill]
    have hle := hsuffix.length_le
    refine .inr ⟨hactive, hpos, frames, hready, ?_⟩
    dsimp only
    omega
  · obtain ⟨skipped, f, rest, rfl, rfl, hout, hnext⟩ := P.onlySealed hready hauth
    rw [hfill]
    refine .inr ⟨hactive, Nat.zero_le _, rest, hnext, ?_⟩
    have hlen := congrArg List.length hcarried
    simp only [plaintext_append, plaintext_cons, wire_append, wire_cons, List.length_append]
      at hshort hlen
    rw [hout]
    cases skipped with
    | nil =>
      simp only [plaintext_nil, wire_nil, List.length_nil] at hshort
      dsimp only
      omega
    | cons e skipped =>
      have hpos := plaintext_length_pos hready
      simp only [plaintext_cons, List.length_append] at hshort
      left
      dsimp only
      omega
  · exact .inl (by rw [hfill])

/-- Reading the next frame does not make up for what is missing. -/
private theorem Behind.fillOneFrame {A : Aead σ} {P : Peer A} {total : ℕ} {out : List UInt8}
    {c : HtxfChannel σ} (h : Behind P total out c) (hdrained : c.rxPlain.length ≤ c.rxPlainPos) :
    (c.fillOneFrame A).1 = .error .invalidData ∨ Behind P total out (c.fillOneFrame A).2 := by
  have hpos := h.pos_le
  obtain ⟨frames, hready, hless | ⟨hle, hlt | ⟨harrives, hcarried, hbroken⟩⟩⟩ := h.short
  · exact Behind.fillOneFrame_of_lt h.active hpos hdrained hready (.inl (by omega))
  · exact Behind.fillOneFrame_of_lt h.active hpos hdrained hready (.inr ⟨by omega, hlt⟩)
  cases frames with
  | nil => exact absurd (fun t _ E f F hframes => by simp at hframes) hbroken
  | cons f frames =>
    have hheld : (plaintext (f :: frames)).length = f.plain.length + (plaintext frames).length := by
      simp
    obtain ⟨inner, decode, hnext, harrives, hrest, hoffsets, hfill, -⟩ |
      ⟨kind, inner, lost, htimeout, harrives, hlost, hlen, hquiet, hoffsets, hfill⟩ :=
      fillOneFrame_of_ready P hready harrives (hcarried.trans (wire_cons f frames))
    · rw [hfill]
      refine .inr ⟨h.active, Nat.zero_le _, frames, hnext, .inr ⟨?_, .inr ⟨harrives, hrest, ?_⟩⟩⟩
      · dsimp only
        omega
      · exact fun hframes => hbroken (unbroken_cons hoffsets hframes)
    · rw [hfill]
      refine .inr ⟨h.active, hpos, f :: frames, hready, .inr ⟨hle, ?_⟩⟩
      by_cases hnil : lost = []
      · subst hnil
        refine .inr ⟨harrives, by simpa [hlost] using hcarried, fun hframes => hbroken ?_⟩
        intro t ht
        rw [hoffsets] at ht
        rcases List.mem_cons.mp ht with rfl | ht
        · exact fun _ _ _ _ => .inl (Nat.zero_le _)
        · exact hframes t (by simpa using ht)
      · have hlost := congrArg List.length (hlost.symm.trans hcarried)
        have hpos := List.length_pos_iff.mpr hnil
        simp only [List.length_append] at hlost
        left
        dsimp only
        omega

/-- A call that does not fail keeps the shortfall. -/
private theorem Behind.read {A : Aead σ} {P : Peer A} {total : ℕ} {out : List UInt8}
    {c : HtxfChannel σ} (h : Behind P total out c) (room : ℕ) :
    isFatal (c.read A room).1 = true ∨
      Behind P total (out ++ obtained [(c.read A room).1]) (c.read A room).2 := by
  by_cases hroom : room = 0
  · exact .inr (by simpa [HtxfChannel.read, hroom, obtained] using h)
  by_cases hdrained : c.rxPlain.length ≤ c.rxPlainPos
  · have hnext := h.fillOneFrame hdrained
    rcases hfill : c.fillOneFrame A with ⟨kind | _ | _, d⟩ <;> rw [hfill] at hnext
    · cases htimeout : kind.isTimeout with
      | true =>
        have hne : kind ≠ .invalidData := by rintro rfl; cases htimeout
        refine .inr ?_
        simpa [HtxfChannel.read, hroom, h.active, hdrained, hfill, obtained, htimeout, hne] using
          hnext
      | false =>
        exact .inl (by simp [HtxfChannel.read, hroom, h.active, hdrained, hfill, isFatal, htimeout])
    · refine .inr ?_
      simpa [HtxfChannel.read, hroom, h.active, hdrained, hfill, obtained] using hnext
    · have hd : Behind P total out d := by simpa using hnext
      refine .inr ?_
      simpa [HtxfChannel.read, hroom, h.active, hdrained, hfill, obtained] using hd.serve room
  · refine .inr ?_
    simpa [HtxfChannel.read, hroom, h.active, hdrained, obtained] using h.serve room

/-- A run that is behind never obtains everything. -/
private theorem Behind.obtained_lt {A : Aead σ} {P : Peer A} {total : ℕ} {c : HtxfChannel σ}
    (h : Behind P total [] c) (rooms : List ℕ) :
    (obtained ((c.reading A).emitted rooms)).length < total := by
  have hrun : ((c.reading A).emitted rooms).any isFatal = true ∧
        (obtained ((c.reading A).emitted rooms)).length < total ∨
      ((c.reading A).emitted rooms).any isFatal = false ∧
        Behind P total (obtained ((c.reading A).emitted rooms)) ((c.reading A).after rooms) := by
    induction rooms using List.reverseRecOn with
    | nil => exact .inr ⟨rfl, h⟩
    | append_singleton rooms room ih =>
      rw [Reactive.Machine.after_snoc, Reactive.Machine.emitted_snoc]
      obtain ⟨hfatal, hlt⟩ | ⟨hlive, hbehind⟩ := ih
      · refine .inl ⟨by simp [hfatal], ?_⟩
        rw [HtxfChannel.reading_step, obtained_snoc, if_pos hfatal]
        exact hlt
      · rw [HtxfChannel.reading_step, obtained_snoc, hlive]
        have hnext := hbehind.read room
        cases hfatal : isFatal (((c.reading A).after rooms).read A room).1 with
        | true =>
          refine .inl ⟨by simp [hfatal], ?_⟩
          have hnone : obtained [(((c.reading A).after rooms).read A room).1] = [] := by
            revert hfatal
            rcases (((c.reading A).after rooms).read A room).1 with kind | bytes
            · intro hfatal
              simp only [isFatal, Bool.not_eq_true'] at hfatal
              simp [obtained, hfatal]
            · intro hfatal
              cases hfatal
          simpa [hnone] using hbehind.lt
        | false =>
          refine .inr ⟨by simp [hlive, hfatal], ?_⟩
          simpa [hfatal] using hnext
  rcases hrun with ⟨-, hlt⟩ | ⟨-, hbehind⟩
  · exact hlt
  · exact hbehind.lt

/-- However many timeouts there are, calls can be made until any number of them has been
answered. -/
private theorem exists_answered (A : Aead σ) (c : HtxfChannel σ) (m : ℕ) :
    ∃ rooms, c.answered A rooms = List.replicate m 1 := by
  induction m with
  | zero => exact ⟨[], rfl⟩
  | succ m ih =>
    obtain ⟨rooms, hrooms⟩ := ih
    -- A call that times out leaves a shorter script for the next one.
    induction hn : ((c.reading A).after rooms).inner.length using Nat.strong_induction_on
      generalizing rooms with
    | _ n ih =>
      rcases hread : ((c.reading A).after rooms).read A 1 with ⟨kind | bytes, c'⟩
      · cases htimeout : kind.isTimeout with
        | true =>
          have hshorter := HtxfChannel.read_timedOut hread htimeout
          refine ih _ (hn ▸ hshorter) (rooms ++ [1]) ?_ ?_
          · simp [hread, timedOut, htimeout, hrooms]
          · simp [hread]
        | false =>
          refine ⟨rooms ++ [1], ?_⟩
          simp [hread, timedOut, htimeout, hrooms, List.replicate_succ']
      · exact ⟨rooms ++ [1], by simp [hread, timedOut, hrooms, List.replicate_succ']⟩

/-- A channel with nothing in its way, some of `all` obtained and the rest still to come. -/
private structure Pacing {A : Aead σ} (P : Peer A) (all out : List UInt8) (c : HtxfChannel σ) :
    Prop where
  active : c.aeadActive = true
  arrives : Delivers c.inner
  untimed : timeoutOffsets c.inner = []
  ahead : ∃ frames tail, SealedStream P c.decode frames tail c.inner ∧
    out ++ c.rxPlain.drop c.rxPlainPos ++ plaintext frames = all

/-- A call with room for one byte obtains the next one. -/
private theorem Pacing.read {A : Aead σ} {P : Peer A} {all out : List UInt8} {c : HtxfChannel σ}
    (h : Pacing P all out c) (hmore : out.length < all.length) :
    ∃ b c', c.read A 1 = (.ok [b], c') ∧ Pacing P all (out ++ [b]) c' := by
  obtain ⟨frames, tail, hstream, hall⟩ := h.ahead
  have hserve : ∀ d : HtxfChannel σ, d.aeadActive = true → d.rxPlainPos < d.rxPlain.length →
      Delivers d.inner → timeoutOffsets d.inner = [] →
      (∃ frames tail, SealedStream P d.decode frames tail d.inner ∧
        out ++ d.rxPlain.drop d.rxPlainPos ++ plaintext frames = all) →
      ∃ b, (d.serve 1).1 = [b] ∧ Pacing P all (out ++ [b]) (d.serve 1).2 := by
    rintro d hactive hlt harrives huntimed ⟨frames, tail, hstream, hall⟩
    have hone : (d.serve 1).1.length = 1 := by
      simp only [HtxfChannel.serve, List.length_take, List.length_drop]
      omega
    obtain ⟨b, hb⟩ := List.length_eq_one_iff.mp hone
    have hsplit := d.serve_append 1
    refine ⟨b, hb, hactive, harrives, huntimed, frames, tail, hstream, ?_⟩
    rw [hb] at hsplit
    rw [← hall, ← hsplit]
    simp
  by_cases hdrained : c.rxPlain.length ≤ c.rxPlainPos
  · have hheld : out ++ plaintext frames = all := by
      simpa [List.drop_of_length_le hdrained] using hall
    cases frames with
    | nil => simp [← hheld] at hmore
    | cons f frames =>
      obtain ⟨cut, hready, hcut⟩ := hstream.ready
      have hcarried : carried c.inner = f.framed ++ (wire frames ++ tail) := by
        rw [hstream.carries, wire_cons, List.append_assoc]
      obtain ⟨inner, decode, hnext, harrives, hrest, hoffsets, hfill, -⟩ |
        ⟨_, _, lost, _, _, _, _, _, hoffsets, _⟩ :=
        fillOneFrame_of_ready P hready h.arrives hcarried
      · rw [h.untimed] at hoffsets
        obtain ⟨b, hb, hpacing⟩ := hserve
          { c with inner, decode, rxPlain := f.plain, rxPlainPos := 0 } h.active
          (plaintext_length_pos hready) harrives (List.map_eq_nil_iff.mp hoffsets.symm)
          ⟨frames, tail, ⟨hrest, cut, hnext, hcut⟩, by simpa using hheld⟩
        refine ⟨b, _, ?_, hpacing⟩
        simpa [HtxfChannel.read, h.active, hdrained, hfill] using hb
      · rw [h.untimed] at hoffsets
        cases hoffsets
  · obtain ⟨b, hb, hpacing⟩ := hserve c h.active (by omega) h.arrives h.untimed
      ⟨frames, tail, hstream, hall⟩
    refine ⟨b, _, ?_, hpacing⟩
    simp [HtxfChannel.read, h.active, hdrained, hb]

/-- With no timeout, calls with room for one byte obtain one byte each, to the last. -/
private theorem Pacing.obtained_replicate {A : Aead σ} {P : Peer A} {all : List UInt8}
    {c : HtxfChannel σ} (h : Pacing P all [] c) {m : ℕ} (hm : m ≤ all.length) :
    (obtained ((c.reading A).emitted (List.replicate m 1))).length = m := by
  have hrun : ((c.reading A).emitted (List.replicate m 1)).any isFatal = false ∧
      (obtained ((c.reading A).emitted (List.replicate m 1))).length = m ∧
      Pacing P all (obtained ((c.reading A).emitted (List.replicate m 1)))
        ((c.reading A).after (List.replicate m 1)) := by
    induction m with
    | zero => exact ⟨rfl, rfl, h⟩
    | succ m ih =>
      obtain ⟨hlive, hlen, hpacing⟩ := ih (by omega)
      obtain ⟨b, c', hread, hnext⟩ := hpacing.read (by omega)
      rw [List.replicate_succ', Reactive.Machine.after_snoc, Reactive.Machine.emitted_snoc,
        HtxfChannel.reading_step, obtained_snoc, hlive, hread]
      refine ⟨by simp [hlive, isFatal], by simp [obtained, hlen], ?_⟩
      simpa [obtained] using hnext
  exact hrun.2.1

private theorem abreast_untimed {c : HtxfChannel σ} (h : Delivers c.inner) :
    Abreast c c.untimed :=
  ⟨rfl, quiet_untimed _, h, h.untimed, timeoutOffsets_untimed _⟩

/-- For every stream that arrives, in whatever pieces and with timeouts anywhere, read by
whatever calls: nothing is lost when the channel passes the stream through, or when no
timeout falls inside a frame, a frame the stream ends in the middle of aside; and when the
stream ends at the end of a frame, nothing is lost in no other case. -/
theorem nothing_lost_iff (A : Aead σ) (P : Peer A) (inner : Source UInt8) (decode : σ)
    (active : Bool) (whole : List Sealed) (tail : List UInt8) (harrives : Delivers inner)
    (hstream : active = true → SealedStream P decode whole tail inner) :
    (active = false ∨ Unbroken whole inner → NothingLost A ⟨inner, decode, active, [], 0⟩) ∧
    (tail = [] → NothingLost A ⟨inner, decode, active, [], 0⟩ →
      active = false ∨ Unbroken whole inner) := by
  constructor
  · intro hmode
    refine nothingLost_of_together (P := P) ⟨abreast_untimed harrives, ?_⟩
    cases active with
    | false => exact .inl rfl
    | true =>
      have hunbroken := hmode.resolve_left Bool.noConfusion
      exact .inr ⟨rfl, whole, tail, hstream rfl, hunbroken⟩
  · rintro rfl hnothing
    cases active with
    | false => exact .inl rfl
    | true =>
      right
      by_contra hbroken
      obtain ⟨cut, hready, ⟨rfl, -⟩ | ⟨g, -, hne, -⟩⟩ := (hstream rfl).ready
      · have hcarries : carried inner = wire whole := by simpa using (hstream rfl).carries
        set c : HtxfChannel σ := ⟨inner, decode, true, [], 0⟩ with hc
        obtain ⟨rooms, hrooms⟩ := exists_answered A c (plaintext whole).length
        have hbehind : Behind P (plaintext whole).length [] c :=
          ⟨rfl, le_refl _, whole, by simpa using hready,
            .inr ⟨by simp [hc], .inr ⟨harrives, hcarries, hbroken⟩⟩⟩
        have hpacing : Pacing P (plaintext whole) [] c.untimed := by
          refine ⟨rfl, harrives.untimed, timeoutOffsets_untimed _, whole, [],
            ⟨?_, (hstream rfl).ready⟩, by simp [HtxfChannel.untimed, hc]⟩
          rw [← carried_quiet, HtxfChannel.untimed, quiet_untimed, carried_quiet]
          exact (hstream rfl).carries
        have hlt := hbehind.obtained_lt rooms
        have hall := hpacing.obtained_replicate le_rfl
        rw [hnothing rooms, hrooms, hall] at hlt
        exact lt_irrefl _ hlt
      · exact hne rfl

/-- A record layer that knows the frames the peer sealed and opens the next one. -/
def rosterAead : Aead (List Sealed) where
  peekFrameSize := zeroTagAead.peekFrameSize
  openInto d framed out :=
    match d with
    | f :: rest =>
      if framed = f.framed ∧ out.length = f.plain.length then ⟨rest, f.plain, true⟩
      else ⟨d, out, false⟩
    | [] => ⟨[], out, false⟩
  peekFrameSize_ge := zeroTagAead.peekFrameSize_ge
  openInto_length d framed out := by
    cases d with
    | nil => rfl
    | cons f rest =>
      by_cases h : framed = f.framed ∧ out.length = f.plain.length
      · simp [h]
      · simp [h]

/-- The peer of a roster: what is on it, if every frame on it has a frame's shape. -/
def rosterPeer : Peer rosterAead where
  Ready d frames := d = frames ∧ ∀ f ∈ frames, f.plain ≠ [] ∧
    f.framed.length = AEAD_LENGTH_PREFIX + f.plain.length + AEAD_TAG_SIZE ∧
    rosterAead.peekFrameSize (f.framed.take AEAD_LENGTH_PREFIX) = some f.framed.length
  shape h := h.2 _ List.mem_cons_self
  opens := by
    rintro d f frames ⟨rfl, hshape⟩
    exact ⟨frames, by simp [rosterAead], rfl, fun g hg => hshape g (List.mem_cons_of_mem _ hg)⟩
  onlySealed := by
    rintro d frames framed out ⟨rfl, hshape⟩ hauth
    cases d with
    | nil => simp [rosterAead] at hauth
    | cons f rest =>
      by_cases h : framed = f.framed ∧ out.length = f.plain.length
      · refine ⟨[], f, rest, rfl, h.1, ?_⟩
        simpa [rosterAead, h] using fun g hg => hshape g (List.mem_cons_of_mem _ hg)
      · simp [rosterAead, h] at hauth

/-- A frame with one byte in it. -/
private def oneByteFrame : Sealed := ⟨BigEndian.ofU32 17 ++ 7 :: List.replicate 16 0, [7]⟩

/-- A timeout before a frame, and one after it, lose nothing. -/
theorem nothing_lost_between_frames :
    NothingLost rosterAead ⟨[.error .timedOut, .bytes oneByteFrame.framed, .error .timedOut],
      [oneByteFrame], true, [], 0⟩ := by
  refine (nothing_lost_iff rosterAead rosterPeer _ _ true [oneByteFrame] [] ?_ ?_).1 (.inr ?_)
  · simp [Delivers, ErrorKind.isTimeout, oneByteFrame]
  · exact fun _ => ⟨rfl, [], ⟨rfl, by decide⟩, .inl ⟨rfl, rfl⟩⟩
  · intro t ht E f F hframes
    have hone : E = [] ∧ f = oneByteFrame := by
      cases E with
      | nil => simpa using (List.cons.inj hframes).1.symm
      | cons e E => simp at hframes
    obtain ⟨rfl, rfl⟩ := hone
    have hoffsets : t = 0 ∨ t = oneByteFrame.framed.length := by
      simpa [timeoutOffsets, ErrorKind.isTimeout] using ht
    rcases hoffsets with rfl | rfl
    · exact .inl (by decide)
    · exact .inr (by decide)

/-- A timeout inside a frame loses it: the call after the timeout reads on in the middle. -/
theorem timeout_inside_frame_loses :
    let inner : Source UInt8 := [.bytes (oneByteFrame.framed.take 5), .error .timedOut,
      .bytes (oneByteFrame.framed.drop 5)]
    Delivers inner ∧ SealedStream rosterPeer [oneByteFrame] [oneByteFrame] [] inner ∧
      ¬ NothingLost rosterAead ⟨inner, [oneByteFrame], true, [], 0⟩ := by
  refine ⟨?_, ⟨by decide, [], ⟨rfl, by decide⟩, .inl ⟨rfl, rfl⟩⟩, fun h => ?_⟩
  · simp [Delivers, ErrorKind.isTimeout, oneByteFrame, BigEndian.ofU32]
  · have hcalls := h [1, 1]
    revert hcalls
    decide

end Gtkhx.Htxf
