import Gtkhx.Htxf.Channel
import Mathlib.Algebra.Group.Nat.Defs

/-!
# What was sealed is read back

The writing half of the channel, and the stream of frames a list of byte strings is sealed
into. Read back, however the stream is cut into pieces and whatever room the calls have,
the strings come out in order; how the stream's end and an empty frame show is compared
with what a call of `read` promises.
-/

namespace Gtkhx.Htxf

open Reader

variable {σ : Type*} {A : Aead σ}

/-- The part of `AeadState` that writing uses, which a reader of the same key, direction
and counter undoes. -/
structure Sealing (A : Aead σ) where
  /-- Seal a string into a frame, if it fits one. -/
  sealInto : σ → List UInt8 → Option (List UInt8 × σ)
  /-- A frame is a prefix, the string enciphered, and a tag. -/
  length_frame : ∀ {s plain frame s'}, sealInto s plain = some (frame, s') →
    frame.length = AEAD_LENGTH_PREFIX + plain.length + AEAD_TAG_SIZE
  /-- The prefix of a frame gives its length. -/
  peekFrameSize_frame : ∀ {s plain frame s'}, sealInto s plain = some (frame, s') →
    A.peekFrameSize (frame.take AEAD_LENGTH_PREFIX) = some frame.length
  /-- Opening a frame gives the string back, and follows the counter. -/
  openInto_frame : ∀ {s plain frame s'}, sealInto s plain = some (frame, s') →
    A.openInto s frame (List.replicate plain.length 0) = ⟨s', plain, true⟩

/-- The frames that strings are sealed into, one after the other. -/
def Sealing.sealAll (S : Sealing A) : σ → List (List UInt8) → Option (List UInt8 × σ)
  | s, [] => some ([], s)
  | s, plain :: plains =>
    (S.sealInto s plain).bind fun sealed =>
      (S.sealAll sealed.2 plains).map fun rest => (sealed.1 ++ rest.1, rest.2)

/-- The writing half of `HtxfChannel`, with what it has put on the wire. -/
structure Writer (σ : Type*) where
  /-- Seals outgoing strings. -/
  encode : σ
  /-- What has been written. -/
  wire : List UInt8

/-- `HtxfChannel::write` of an AEAD channel over a transport that takes everything. -/
def Writer.write (S : Sealing A) (w : Writer σ) (buf : List UInt8) : Option (ℕ × Writer σ) :=
  if buf = [] then some (0, w)
  else (S.sealInto w.encode buf).map fun sealed => (buf.length, ⟨sealed.2, w.wire ++ sealed.1⟩)

/-- One write after the other. -/
def Writer.writeAll (S : Sealing A) : Writer σ → List (List UInt8) → Option (Writer σ)
  | w, [] => some w
  | w, buf :: bufs => (w.write S buf).bind fun written => written.2.writeAll S bufs

theorem Sealing.sealAll_cons {S : Sealing A} {s s₂ : σ} {plain wire : List UInt8}
    {plains : List (List UInt8)} (h : S.sealAll s (plain :: plains) = some (wire, s₂)) :
    ∃ frame s₁ rest, S.sealInto s plain = some (frame, s₁) ∧
      S.sealAll s₁ plains = some (rest, s₂) ∧ wire = frame ++ rest := by
  obtain ⟨⟨frame, s₁⟩, hseal, hmap⟩ := Option.bind_eq_some_iff.mp h
  obtain ⟨⟨rest, s₂'⟩, hrest, heq⟩ := Option.map_eq_some_iff.mp hmap
  obtain ⟨rfl, rfl⟩ := Prod.mk.inj heq
  exact ⟨frame, s₁, rest, hseal, hrest, rfl⟩

/-- A stream of frames goes on where its beginning ended. -/
theorem Sealing.sealAll_append {S : Sealing A} {s s₂ : σ} {before after : List (List UInt8)}
    {wire : List UInt8} (h : S.sealAll s (before ++ after) = some (wire, s₂)) :
    ∃ front s₁ rest, S.sealAll s before = some (front, s₁) ∧
      S.sealAll s₁ after = some (rest, s₂) ∧ wire = front ++ rest := by
  induction before generalizing s wire with
  | nil => exact ⟨[], s, wire, rfl, h, rfl⟩
  | cons plain before ih =>
    obtain ⟨frame, s', rest, hseal, hrest, rfl⟩ := sealAll_cons h
    obtain ⟨front, s₁, rest, hfront, hafter, rfl⟩ := ih hrest
    refine ⟨frame ++ front, s₁, rest, ?_, hafter, (List.append_assoc _ _ _).symm⟩
    rw [sealAll, hseal, Option.bind_some, hfront, Option.map_some]

/-- One more string adds its frame. -/
theorem Sealing.sealAll_snoc {S : Sealing A} {s s₁ s₂ : σ} {done : List (List UInt8)}
    {plain front frame : List UInt8} (hdone : S.sealAll s done = some (front, s₁))
    (hseal : S.sealInto s₁ plain = some (frame, s₂)) :
    S.sealAll s (done ++ [plain]) = some (front ++ frame, s₂) := by
  induction done generalizing s front with
  | nil =>
    obtain ⟨rfl, rfl⟩ := Prod.mk.inj (Option.some.inj hdone)
    rw [List.nil_append, sealAll, hseal, Option.bind_some, sealAll, Option.map_some,
      List.append_nil, List.nil_append]
  | cons first done ih =>
    obtain ⟨frame', s', rest, hfirst, hrest, rfl⟩ := sealAll_cons hdone
    rw [List.cons_append, sealAll, hfirst, Option.bind_some, ih hrest, Option.map_some,
      List.append_assoc]

/-- A stream that is cut off is some of the frames, and perhaps the beginning of the next. -/
theorem Sealing.exists_cut {S : Sealing A} {s s' : σ} {plains : List (List UInt8)}
    {total bytes : List UInt8} (hsealed : S.sealAll s plains = some (total, s'))
    (hcut : bytes <+: total) :
    ∃ front wire s₁ part, front <+: plains ∧ S.sealAll s front = some (wire, s₁) ∧
      bytes = wire ++ part ∧
      (part = [] ∨ ∃ plain frame s₂, front ++ [plain] <+: plains ∧
        S.sealInto s₁ plain = some (frame, s₂) ∧ part <+: frame ∧ part ≠ frame) := by
  induction plains generalizing s total bytes with
  | nil =>
    obtain ⟨rfl, -⟩ := Prod.mk.inj (Option.some.inj hsealed)
    exact ⟨[], [], s, [], List.prefix_refl _, rfl, List.prefix_nil.mp hcut, .inl rfl⟩
  | cons plain plains ih =>
    obtain ⟨frame, s₁, rest, hseal, hrest, rfl⟩ := sealAll_cons hsealed
    by_cases hlt : bytes.length < frame.length
    · have hpart := List.prefix_of_prefix_length_le hcut (List.prefix_append _ _) hlt.le
      have hne : bytes ≠ frame := fun heq => hlt.ne (congrArg List.length heq)
      refine ⟨[], [], s, bytes, List.nil_prefix, rfl, rfl, .inr ⟨plain, frame, s₁, ?_, hseal, ?_⟩⟩
      · exact ⟨plains, rfl⟩
      · exact ⟨hpart, hne⟩
    · obtain ⟨more, rfl⟩ :=
        List.prefix_of_prefix_length_le (List.prefix_append _ _) hcut (Nat.le_of_not_lt hlt)
      rw [List.prefix_append_right_inj] at hcut
      obtain ⟨front, wire, s₂, part, hfront, hwire, rfl, hpart⟩ := ih hrest hcut
      refine ⟨plain :: front, frame ++ wire, s₂, part, ?_, ?_, ?_, ?_⟩
      · exact (List.prefix_cons_inj plain).mpr hfront
      · rw [sealAll, hseal, Option.bind_some, hwire, Option.map_some]
      · rw [List.append_assoc]
      · refine hpart.imp_right ?_
        rintro ⟨next, frame', s₃, hnext, hrest'⟩
        exact ⟨next, frame', s₃, (List.prefix_cons_inj plain).mpr hnext, hrest'⟩

/-- What is written is the frames of the strings that have something in them. -/
theorem Writer.writeAll_eq {S : Sealing A} {w w' : Writer σ} {bufs : List (List UInt8)}
    (h : w.writeAll S bufs = some w') :
    ∃ wire, S.sealAll w.encode (bufs.filter (· ≠ [])) = some (wire, w'.encode) ∧
      w'.wire = w.wire ++ wire := by
  induction bufs generalizing w with
  | nil =>
    obtain rfl := Option.some.inj h
    exact ⟨[], rfl, (List.append_nil _).symm⟩
  | cons buf bufs ih =>
    obtain ⟨⟨n, w₁⟩, hwrite, hrest⟩ := Option.bind_eq_some_iff.mp h
    rw [write] at hwrite
    by_cases hnil : buf = []
    · rw [if_pos hnil] at hwrite
      obtain ⟨-, rfl⟩ := Prod.mk.inj (Option.some.inj hwrite)
      rw [List.filter_cons_of_neg (by simpa using hnil)]
      exact ih hrest
    · rw [if_neg hnil] at hwrite
      obtain ⟨⟨frame, s₁⟩, hseal, heq⟩ := Option.map_eq_some_iff.mp hwrite
      obtain ⟨-, rfl⟩ := Prod.mk.inj heq
      obtain ⟨wire, hwire, hall⟩ := ih hrest
      rw [List.filter_cons_of_pos (by simpa using hnil)]
      refine ⟨frame ++ wire, ?_, ?_⟩
      · rw [Sealing.sealAll, hseal, Option.bind_some, hwire, Option.map_some]
      · rw [hall, List.append_assoc]

/-- The next frame is read and opened. -/
theorem HtxfChannel.fillOneFrame_whole {S : Sealing A} {c : HtxfChannel σ} {s : σ}
    {plain frame rest : List UInt8} (harrives : Arrives c.inner)
    (hseal : S.sealInto c.decode plain = some (frame, s))
    (hinner : carried c.inner = frame ++ rest) :
    ∃ inner, c.fillOneFrame A = (.ok true, ⟨inner, s, c.aeadActive, plain, 0⟩) ∧
      carried inner = rest ∧ Arrives inner := by
  have hlen := S.length_frame hseal
  have htotal : (carried c.inner).length = frame.length + rest.length := by
    rw [hinner, List.length_append]
  obtain ⟨inner₁, hlead, hcarried₁, harrives₁⟩ :=
    harrives.readExactOrEof_of_le (show AEAD_LENGTH_PREFIX ≤ _ by omega)
  have hbody : carried inner₁ = frame.drop AEAD_LENGTH_PREFIX ++ rest := by
    rw [hcarried₁, hinner, List.drop_append_of_le_length (by omega)]
  have hbodyLen : (carried inner₁).length = frame.length - AEAD_LENGTH_PREFIX + rest.length := by
    rw [hbody, List.length_append, List.length_drop]
  obtain ⟨inner, hrest, hcarried, harrives'⟩ :=
    harrives₁.readExact_of_le (show frame.length - AEAD_LENGTH_PREFIX ≤ _ by omega)
  have hbodyTake : (carried inner₁).take (frame.length - AEAD_LENGTH_PREFIX) =
      frame.drop AEAD_LENGTH_PREFIX := by
    rw [hbody, ← List.length_drop, List.take_left]
  have hptLen : frame.length - AEAD_LENGTH_PREFIX - AEAD_TAG_SIZE = plain.length := by omega
  refine ⟨inner, ?_, ?_, harrives'⟩
  · rw [hinner, List.take_append_of_le_length (by omega)] at hlead
    simp only [fillOneFrame, hlead, S.peekFrameSize_frame hseal, hrest, hbodyTake,
      List.take_append_drop, hptLen, S.openInto_frame hseal, if_true]
  · rw [hcarried, hbody, ← List.length_drop, List.drop_left]

/-- A stream that ends inside a frame is an error. -/
theorem HtxfChannel.fillOneFrame_cut {S : Sealing A} {c : HtxfChannel σ} {s : σ}
    {plain frame : List UInt8} (harrives : Arrives c.inner)
    (hseal : S.sealInto c.decode plain = some (frame, s)) (hinner : carried c.inner <+: frame)
    (hne : carried c.inner ≠ []) (hshort : carried c.inner ≠ frame) :
    c.fillOneFrame A = (.error .unexpectedEof, { c with inner := [] }) := by
  have hlt : (carried c.inner).length < frame.length :=
    lt_of_le_of_ne hinner.length_le fun heq => hshort (hinner.eq_of_length heq)
  by_cases hlead_len : (carried c.inner).length < AEAD_LENGTH_PREFIX
  · rcases harrives.readExactOrEof_of_lt hlead_len with ⟨hnil, -⟩ | ⟨-, hlead⟩
    · exact absurd hnil hne
    · simp only [fillOneFrame, hlead]
  · obtain ⟨inner₁, hlead, hcarried₁, harrives₁⟩ :=
      harrives.readExactOrEof_of_le (show AEAD_LENGTH_PREFIX ≤ _ by omega)
    have htake : (carried c.inner).take AEAD_LENGTH_PREFIX = frame.take AEAD_LENGTH_PREFIX := by
      obtain ⟨rest, hrest⟩ := hinner
      rw [← hrest, List.take_append_of_le_length (by omega)]
    have hbody : (carried inner₁).length < frame.length - AEAD_LENGTH_PREFIX := by
      rw [hcarried₁, List.length_drop]
      omega
    rw [htake] at hlead
    simp only [fillOneFrame, hlead, S.peekFrameSize_frame hseal, harrives₁.readExact_of_lt hbody]

/-- A stream that has ended is an end. -/
theorem HtxfChannel.fillOneFrame_ended {c : HtxfChannel σ} (harrives : Arrives c.inner)
    (hinner : carried c.inner = []) :
    c.fillOneFrame A = (.ok false, { c with inner := [] }) := by
  have hlt : (carried c.inner).length < AEAD_LENGTH_PREFIX := by
    rw [hinner]
    decide
  rcases harrives.readExactOrEof_of_lt hlt with ⟨-, hlead⟩ | ⟨hne, -⟩
  · simp only [fillOneFrame, hlead]
  · exact absurd hinner hne

/-- The run of a fresh AEAD channel. -/
def freshReading (A : Aead σ) (s : σ) (source : Source UInt8) :=
  (HtxfChannel.newAead source s).reading A

/-- What a call of `read` promises, `out` having been handed out before it and `left` being
what the transport has after it: a piece of the strings; or no bytes, at the end of the
stream and between two frames; or an error, where the stream ends within a frame. -/
inductive RightAnswer (S : Sealing A) (s : σ) (plains : List (List UInt8)) (source : Source UInt8)
    (out : List UInt8) (left : Source UInt8) : Except ErrorKind (List UInt8) → Prop
  /-- A piece of the strings. -/
  | piece {bytes} (hne : bytes ≠ []) (hfront : out ++ bytes <+: plains.flatten) :
      RightAnswer S s plains source out left (.ok bytes)
  /-- The end. -/
  | finished {front wire s'} (hfront : front <+: plains)
      (hwire : S.sealAll s front = some (wire, s')) (hall : carried source = wire)
      (hleft : carried left = []) (hout : out = front.flatten) :
      RightAnswer S s plains source out left (.ok [])
  /-- A frame cut off. -/
  | cutOff {front wire s₁ plain frame s₂ part} (hfront : front ++ [plain] <+: plains)
      (hwire : S.sealAll s front = some (wire, s₁)) (hseal : S.sealInto s₁ plain = some (frame, s₂))
      (hall : carried source = wire ++ part) (hpart : part <+: frame) (hne : part ≠ [])
      (hshort : part ≠ frame) (hout : out = front.flatten) :
      RightAnswer S s plains source out left (.error .unexpectedEof)

/-- Every call of a run keeps the promise. -/
def ReadsBack (S : Sealing A) (s : σ) (plains : List (List UInt8)) (source : Source UInt8)
    (rooms : List ℕ) : Prop :=
  ∀ before room, before ++ [room] <+: rooms →
    RightAnswer S s plains source (returned ((freshReading A s source).emitted before))
      (((freshReading A s source).after before).read A room).2.inner
      (((freshReading A s source).after before).read A room).1

/-- No call is made after one that failed. -/
def StopsAtError (A : Aead σ) (s : σ) (source : Source UInt8) (rooms : List ℕ) : Prop :=
  ∀ before room, before ++ [room] <+: rooms →
    ∀ r ∈ (freshReading A s source).emitted before, r.isOk = true

/-- A frame of no bytes arrives, and more of the stream behind it. -/
def EmptyInside (S : Sealing A) (s : σ) (plains : List (List UInt8)) (source : Source UInt8) :
    Prop :=
  ∃ front wire s', front ++ [[]] <+: plains ∧ S.sealAll s (front ++ [[]]) = some (wire, s') ∧
    wire <+: carried source ∧ wire ≠ carried source

/-- The stream ends between two frames. -/
def EndsOnBoundary (S : Sealing A) (s : σ) (plains : List (List UInt8)) (source : Source UInt8) :
    Prop :=
  ∃ front s', front <+: plains ∧ S.sealAll s front = some (carried source, s')

/-- Where a channel is between two calls: the frames of `front` have been opened, and all
that was in them is handed out or in the buffer. -/
structure InStep (S : Sealing A) (s : σ) (plains : List (List UInt8)) (source : Source UInt8)
    (front : List (List UInt8)) (wire : List UInt8) (c : HtxfChannel σ) (out : List UInt8) :
    Prop where
  active : c.aeadActive = true
  pos_le : c.rxPlainPos ≤ c.rxPlain.length
  out_eq : out ++ c.rxPlain.drop c.rxPlainPos = front.flatten
  front_le : front <+: plains
  sealed : S.sealAll s front = some (wire, c.decode)
  source_eq : carried source = wire ++ carried c.inner
  arrives : Arrives c.inner

section Reading

variable {S : Sealing A} {s : σ} {plains : List (List UInt8)} {source : Source UInt8}

/-- A fresh channel has opened nothing. -/
theorem InStep.fresh (harrives : Arrives source) :
    InStep S s plains source [] [] (HtxfChannel.newAead source s) [] :=
  ⟨rfl, le_rfl, rfl, List.nil_prefix, rfl, rfl, harrives⟩

variable {front : List (List UInt8)} {wire out : List UInt8} {c : HtxfChannel σ} {room : ℕ}

/-- What the transport brings next: the end, the next frame cut off, or the next frame. -/
theorem InStep.next (h : InStep S s plains source front wire c out) {total : List UInt8} {s' : σ}
    (hsealed : S.sealAll s plains = some (total, s')) (hcut : carried source <+: total) :
    carried c.inner = [] ∨
    ∃ plain frame s₂, front ++ [plain] <+: plains ∧ S.sealInto c.decode plain = some (frame, s₂) ∧
      ((carried c.inner <+: frame ∧ carried c.inner ≠ [] ∧ carried c.inner ≠ frame) ∨
        ∃ more, carried c.inner = frame ++ more) := by
  obtain ⟨todo, rfl⟩ := h.front_le
  obtain ⟨wire', s₁, rest, hfront, htodo, rfl⟩ := Sealing.sealAll_append hsealed
  obtain ⟨rfl, rfl⟩ := Prod.mk.inj (Option.some.inj (hfront.symm.trans h.sealed))
  rw [h.source_eq, List.prefix_append_right_inj] at hcut
  cases todo with
  | nil =>
    obtain ⟨rfl, -⟩ := Prod.mk.inj (Option.some.inj htodo)
    exact .inl (List.prefix_nil.mp hcut)
  | cons plain todo =>
    obtain ⟨frame, s₂, rest', hseal, -, rfl⟩ := Sealing.sealAll_cons htodo
    by_cases hnil : carried c.inner = []
    · exact .inl hnil
    refine .inr ⟨plain, frame, s₂, ⟨todo, by simp⟩, hseal, ?_⟩
    rcases List.prefix_or_prefix_of_prefix hcut (List.prefix_append frame rest') with
      hpart | ⟨more, hmore⟩
    · by_cases heq : carried c.inner = frame
      · exact .inr ⟨[], by simpa using heq⟩
      · exact .inl ⟨hpart, hnil, heq⟩
    · exact .inr ⟨more, hmore.symm⟩

/-- A call with something in the buffer hands out some of it. -/
theorem InStep.read_buffered (h : InStep S s plains source front wire c out) (hroom : 0 < room)
    (hlt : c.rxPlainPos < c.rxPlain.length) :
    ∃ bytes c', c.read A room = (.ok bytes, c') ∧ bytes ≠ [] ∧
      InStep S s plains source front wire c' (out ++ bytes) := by
  refine ⟨_, (c.serve room).2, ?_, c.serve_ne_nil hroom hlt, ?_⟩
  · rw [HtxfChannel.read, if_neg (by omega), if_neg (by simp [h.active]), if_neg (by omega)]
  · refine ⟨h.active, c.serve_pos_le h.pos_le room, ?_, h.front_le, h.sealed, h.source_eq,
      h.arrives⟩
    rw [List.append_assoc, HtxfChannel.serve_rxPlain, c.serve_append, h.out_eq]

/-- With the buffer handed out, all that was opened has been. -/
theorem InStep.drained (h : InStep S s plains source front wire c out)
    (hdrained : c.rxPlain.length ≤ c.rxPlainPos) : out = front.flatten := by
  rw [← h.out_eq, List.drop_of_length_le hdrained, List.append_nil]

/-- A call with the buffer handed out is one for the next frame. -/
theorem InStep.read_eq (h : InStep S s plains source front wire c out) (hroom : 0 < room)
    (hdrained : c.rxPlain.length ≤ c.rxPlainPos) {r : Except ErrorKind Bool} {c' : HtxfChannel σ}
    (hfill : c.fillOneFrame A = (r, c')) :
    (∀ e, r = .error e → c.read A room = (.error e, c')) ∧
      (r = .ok false → c.read A room = (.ok [], c')) ∧
      (r = .ok true → c.read A room = (.ok (c'.serve room).1, (c'.serve room).2)) := by
  rw [HtxfChannel.read, if_neg (by omega), if_neg (by simp [h.active]), if_pos hdrained, hfill]
  refine ⟨?_, ?_, ?_⟩
  · rintro e rfl
    rfl
  · rintro rfl
    rfl
  · rintro rfl
    rfl

/-- A call for the next frame, when it has arrived, hands out its beginning. -/
theorem InStep.read_whole (h : InStep S s plains source front wire c out) (hroom : 0 < room)
    (hdrained : c.rxPlain.length ≤ c.rxPlainPos) {plain frame more : List UInt8} {s₂ : σ}
    (hnext : front ++ [plain] <+: plains) (hseal : S.sealInto c.decode plain = some (frame, s₂))
    (hinner : carried c.inner = frame ++ more) :
    ∃ c', c.read A room = (.ok (plain.take room), c') ∧ carried c'.inner = more ∧
      c'.rxPlain = plain ∧ c'.rxPlainPos = min room plain.length ∧
      InStep S s plains source (front ++ [plain]) (wire ++ frame) c' (out ++ plain.take room) := by
  obtain ⟨inner, hfill, hcarried, harrives⟩ :=
    HtxfChannel.fillOneFrame_whole (S := S) h.arrives hseal hinner
  have hread := (h.read_eq hroom hdrained hfill).2.2 rfl
  have hpos : (((⟨inner, s₂, c.aeadActive, plain, 0⟩ : HtxfChannel σ).serve room).2).rxPlainPos =
      min room plain.length := by
    simp [HtxfChannel.serve]
  refine ⟨_, hread, hcarried, rfl, hpos, h.active, ?_, ?_, hnext, ?_, ?_, harrives⟩
  · exact HtxfChannel.serve_pos_le (Nat.zero_le _) room
  · rw [h.drained hdrained, List.flatten_append, List.flatten_singleton, List.append_assoc]
    exact congrArg (front.flatten ++ ·) (HtxfChannel.serve_append ⟨inner, s₂, _, plain, 0⟩ room)
  · exact Sealing.sealAll_snoc h.sealed hseal
  · rw [HtxfChannel.serve_inner, hcarried, h.source_eq, hinner, List.append_assoc]

/-- A call at the end of the stream brings nothing. -/
theorem InStep.read_ended (h : InStep S s plains source front wire c out) (hroom : 0 < room)
    (hdrained : c.rxPlain.length ≤ c.rxPlainPos) (hinner : carried c.inner = []) :
    c.read A room = (.ok [], { c with inner := [] }) :=
  (h.read_eq hroom hdrained (HtxfChannel.fillOneFrame_ended h.arrives hinner)).2.1 rfl

/-- A call for a frame that is cut off fails. -/
theorem InStep.read_cut (h : InStep S s plains source front wire c out) (hroom : 0 < room)
    (hdrained : c.rxPlain.length ≤ c.rxPlainPos) {plain frame : List UInt8} {s₂ : σ}
    (hseal : S.sealInto c.decode plain = some (frame, s₂)) (hpart : carried c.inner <+: frame)
    (hne : carried c.inner ≠ []) (hshort : carried c.inner ≠ frame) :
    c.read A room = (.error .unexpectedEof, { c with inner := [] }) := by
  have hfill := HtxfChannel.fillOneFrame_cut (S := S) h.arrives hseal hpart hne hshort
  exact (h.read_eq hroom hdrained hfill).1 _ rfl

/-- A stream that is cut off inside a frame ends between no two. -/
theorem InStep.not_endsOnBoundary (h : InStep S s plains source front wire c out)
    {plain frame : List UInt8} {s₂ : σ} (hnext : front ++ [plain] <+: plains)
    (hseal : S.sealInto c.decode plain = some (frame, s₂)) (hpart : carried c.inner <+: frame)
    (hne : carried c.inner ≠ []) (hshort : carried c.inner ≠ frame) :
    ¬ EndsOnBoundary S s plains source := by
  rintro ⟨front', s', hfront', hwire'⟩
  have hlt : (carried c.inner).length < frame.length :=
    lt_of_le_of_ne hpart.length_le fun heq => hshort (hpart.eq_of_length heq)
  have hpos := List.length_pos_iff.mpr hne
  have hlen := congrArg List.length h.source_eq
  rw [List.length_append] at hlen
  by_cases hle : front'.length ≤ front.length
  · obtain ⟨more, rfl⟩ := List.prefix_of_prefix_length_le hfront' h.front_le hle
    obtain ⟨front₁, s₁, rest, hfront₁, -, hsplit⟩ := Sealing.sealAll_append h.sealed
    obtain ⟨hsame, -⟩ := Prod.mk.inj (Option.some.inj (hfront₁.symm.trans hwire'))
    rw [hsplit, hsame, List.length_append] at hlen
    omega
  · have hlong : (front ++ [plain]).length ≤ front'.length := by
      rw [List.length_append, List.length_singleton]
      omega
    obtain ⟨more, rfl⟩ := List.prefix_of_prefix_length_le hnext hfront' hlong
    obtain ⟨front₁, s₁, rest, hfront₁, -, hsplit⟩ := Sealing.sealAll_append hwire'
    obtain ⟨hsame, -⟩ := Prod.mk.inj (Option.some.inj
      (hfront₁.symm.trans (Sealing.sealAll_snoc h.sealed hseal)))
    rw [hsplit, hsame, List.length_append, List.length_append] at hlen
    omega

theorem InStep.front_of_piece (h : InStep S s plains source front wire c out) :
    out <+: plains.flatten := by
  have hout : out <+: front.flatten := h.out_eq ▸ List.prefix_append _ _
  obtain ⟨todo, rfl⟩ := h.front_le
  rw [List.flatten_append]
  exact hout.trans (List.prefix_append _ _)

/-- One call: it fails as promised, or goes on, as promised unless it opened an empty frame
with more behind it. -/
theorem InStep.read (h : InStep S s plains source front wire c out) {total : List UInt8} {s' : σ}
    (hsealed : S.sealAll s plains = some (total, s')) (hcut : carried source <+: total)
    (hroom : 0 < room) :
    (∃ bytes front' wire', (c.read A room).1 = .ok bytes ∧
      InStep S s plains source front' wire' (c.read A room).2 (out ++ bytes) ∧
      (RightAnswer S s plains source out (c.read A room).2.inner (c.read A room).1 ∨
        EmptyInside S s plains source)) ∨
    ((c.read A room).1 = .error .unexpectedEof ∧ ¬ EndsOnBoundary S s plains source ∧
      RightAnswer S s plains source out (c.read A room).2.inner (c.read A room).1) := by
  by_cases hdrained : c.rxPlain.length ≤ c.rxPlainPos
  · rcases h.next hsealed hcut with hinner |
      ⟨plain, frame, s₂, hnext, hseal, ⟨hpart, hne, hshort⟩ | ⟨more, hinner⟩⟩
    · rw [h.read_ended hroom hdrained hinner]
      have hall : carried source = wire := by rw [h.source_eq, hinner, List.append_nil]
      refine .inl ⟨[], front, wire, rfl, ?_, .inl (.finished h.front_le h.sealed hall rfl ?_)⟩
      · refine ⟨h.active, h.pos_le, ?_, h.front_le, h.sealed, ?_, .nil⟩
        · rw [List.append_nil, h.out_eq]
        · rw [hall, carried_nil, List.append_nil]
      · exact h.drained hdrained
    · rw [h.read_cut hroom hdrained hseal hpart hne hshort]
      exact .inr ⟨rfl, h.not_endsOnBoundary hnext hseal hpart hne hshort,
        .cutOff hnext h.sealed hseal h.source_eq hpart hne hshort (h.drained hdrained)⟩
    · obtain ⟨c', hread, hmore, -, -, hstep⟩ := h.read_whole hroom hdrained hnext hseal hinner
      rw [hread]
      refine .inl ⟨_, _, _, rfl, hstep, ?_⟩
      by_cases hplain : plain = []
      · subst hplain
        by_cases hnil : more = []
        · refine .inl ?_
          rw [List.take_nil]
          refine .finished hnext hstep.sealed ?_ (hmore.trans hnil) ?_
          · rw [hstep.source_eq, hmore, hnil, List.append_nil]
          · rw [h.drained hdrained, List.flatten_append, List.flatten_singleton, List.append_nil]
        · refine .inr ⟨front, wire ++ frame, _, hnext, hstep.sealed, ?_, ?_⟩
          · exact ⟨carried c'.inner, hstep.source_eq.symm⟩
          · rw [hstep.source_eq, hmore]
            simpa using hnil
      · refine .inl (.piece ?_ hstep.front_of_piece)
        rw [Ne, List.take_eq_nil_iff]
        exact fun hnil => hnil.elim hroom.ne' hplain
  · obtain ⟨bytes, c', hread, hne, hstep⟩ := h.read_buffered hroom (Nat.lt_of_not_le hdrained)
    rw [hread]
    exact .inl ⟨bytes, front, wire, rfl, hstep, .inl (.piece hne hstep.front_of_piece)⟩

/-- As long as no call fails, the channel is in step. -/
theorem inStep_after (harrives : Arrives source) {total : List UInt8} {s' : σ}
    (hsealed : S.sealAll s plains = some (total, s')) (hcut : carried source <+: total)
    {rooms : List ℕ} (hrooms : ∀ room ∈ rooms, 0 < room)
    (hok : ∀ r ∈ (freshReading A s source).emitted rooms, r.isOk = true) :
    ∃ front wire, InStep S s plains source front wire ((freshReading A s source).after rooms)
      (returned ((freshReading A s source).emitted rooms)) := by
  induction rooms using List.reverseRecOn with
  | nil => exact ⟨_, _, .fresh harrives⟩
  | append_singleton rooms room ih =>
    rw [Reactive.Machine.emitted_snoc] at hok
    obtain ⟨front, wire, hstep⟩ := ih (fun room hroom => hrooms room (by simp [hroom]))
      fun r hr => hok r (List.mem_append_left _ hr)
    have hlast := hok _ (List.mem_append_right _ List.mem_cons_self)
    rcases hstep.read hsealed hcut (hrooms room (by simp)) with
      ⟨bytes, front', wire', hread, hstep', -⟩ | ⟨hread, -⟩
    · refine ⟨front', wire', ?_⟩
      rw [Reactive.Machine.after_snoc, Reactive.Machine.emitted_snoc, returned_append]
      have hreturned : returned
          ((freshReading A s source).step ((freshReading A s source).after rooms) room).2 =
            bytes := by
        change returned [_] = bytes
        rw [hread, returned, returned, List.append_nil]
      rw [hreturned]
      exact hstep'
    · rw [hread] at hlast
      cases hlast

/-- Between two frames the stream ends without an error. -/
theorem stopsAtError_of_endsOnBoundary (harrives : Arrives source) {total : List UInt8} {s' : σ}
    (hsealed : S.sealAll s plains = some (total, s')) (hcut : carried source <+: total)
    (hboundary : EndsOnBoundary S s plains source) {rooms : List ℕ}
    (hrooms : ∀ room ∈ rooms, 0 < room) :
    ∀ r ∈ (freshReading A s source).emitted rooms, r.isOk = true := by
  induction rooms using List.reverseRecOn with
  | nil => exact fun r hr => absurd hr List.not_mem_nil
  | append_singleton rooms room ih =>
    have hbefore := ih fun room hroom => hrooms room (by simp [hroom])
    obtain ⟨front, wire, hstep⟩ := inStep_after harrives hsealed hcut
      (fun room hroom => hrooms room (by simp [hroom])) hbefore
    intro r hr
    rw [Reactive.Machine.emitted_snoc] at hr
    rcases List.mem_append.mp hr with hr | hr
    · exact hbefore r hr
    · obtain rfl := List.mem_singleton.mp hr
      rcases hstep.read hsealed hcut (hrooms room (by simp)) with
        ⟨bytes, front', wire', hread, -⟩ | ⟨-, hnot, -⟩
      · rw [hread]
        rfl
      · exact absurd hboundary hnot

/-- Any beginning of the frames can be read off, to its last byte. -/
theorem exists_rooms (harrives : Arrives source) {front : List (List UInt8)} {wire : List UInt8}
    {s₁ : σ} (hfront : front <+: plains) (hsealed : S.sealAll s front = some (wire, s₁))
    (hwire : wire <+: carried source) :
    ∃ rooms, (∀ room ∈ rooms, 0 < room) ∧
      (∀ r ∈ (freshReading A s source).emitted rooms, r.isOk = true) ∧
      ((freshReading A s source).after rooms).rxPlain.length ≤
        ((freshReading A s source).after rooms).rxPlainPos ∧
      InStep S s plains source front wire ((freshReading A s source).after rooms)
        (returned ((freshReading A s source).emitted rooms)) := by
  induction front using List.reverseRecOn generalizing wire s₁ with
  | nil =>
    obtain ⟨rfl, -⟩ := Prod.mk.inj (Option.some.inj hsealed)
    refine ⟨[], ?_, ?_, le_rfl, .fresh harrives⟩
    · exact fun room hroom => absurd hroom List.not_mem_nil
    · exact fun r hr => absurd hr List.not_mem_nil
  | append_singleton front plain ih =>
    obtain ⟨wire₀, s₀, frame', hsealed₀, hlast, rfl⟩ := Sealing.sealAll_append hsealed
    obtain ⟨frame, s₂, rest, hseal, hnil, rfl⟩ := Sealing.sealAll_cons hlast
    obtain ⟨rfl, rfl⟩ := Prod.mk.inj (Option.some.inj hnil)
    rw [List.append_nil] at hwire hsealed ⊢
    obtain ⟨rooms, hrooms, hok, hdrained, hstep⟩ :=
      ih ((List.prefix_append _ _).trans hfront) hsealed₀ ((List.prefix_append _ _).trans hwire)
    obtain rfl : s₀ = _ :=
      (Prod.mk.inj (Option.some.inj (hsealed₀.symm.trans hstep.sealed))).2
    obtain ⟨more, hmore⟩ : ∃ more, carried ((freshReading A s source).after rooms).inner =
        frame ++ more := by
      obtain ⟨more, hmore⟩ := hwire
      rw [hstep.source_eq, List.append_assoc, List.append_cancel_left_eq] at hmore
      exact ⟨more, hmore.symm⟩
    have hroom : 0 < plain.length + 1 := Nat.succ_pos _
    obtain ⟨c', hread, -, hplain, hpos, hstep'⟩ :=
      hstep.read_whole hroom hdrained hfront hseal hmore
    refine ⟨rooms ++ [plain.length + 1], ?_, ?_, ?_, ?_⟩
    · intro room hmem
      rcases List.mem_append.mp hmem with hmem | hmem
      · exact hrooms room hmem
      · rw [List.mem_singleton.mp hmem]
        exact hroom
    · intro r hr
      rw [Reactive.Machine.emitted_snoc] at hr
      rcases List.mem_append.mp hr with hr | hr
      · exact hok r hr
      · rw [List.mem_singleton.mp hr, hread]
        rfl
    · rw [Reactive.Machine.after_snoc]
      change (HtxfChannel.read A _ _).2.rxPlain.length ≤ (HtxfChannel.read A _ _).2.rxPlainPos
      rw [hread, hplain, hpos]
      omega
    · rw [Reactive.Machine.after_snoc, Reactive.Machine.emitted_snoc, returned_append]
      change InStep S s plains source _ _ (HtxfChannel.read A _ _).2
        (_ ++ returned [(HtxfChannel.read A _ _).1])
      rw [hread, returned, returned, List.append_nil]
      exact hstep'

/-- Calls that all succeeded may be followed by one more. -/
theorem stopsAtError_snoc {rooms : List ℕ} {room : ℕ}
    (hok : ∀ r ∈ (freshReading A s source).emitted rooms, r.isOk = true) :
    StopsAtError A s source (rooms ++ [room]) := by
  intro before last hbefore r hr
  have hlen := hbefore.length_le
  rw [List.length_append, List.length_append, List.length_singleton, List.length_singleton] at hlen
  have hrooms := List.prefix_of_prefix_length_le ((List.prefix_append before [last]).trans hbefore)
    (List.prefix_append rooms [room]) (by omega)
  exact hok r (((freshReading A s source).emitted_of_begin hrooms).subset hr)

/-- A frame of no bytes, with more behind it, reads as the end. -/
theorem not_emptyInside (harrives : Arrives source)
    (hreads : ∀ rooms, (∀ room ∈ rooms, 0 < room) → StopsAtError A s source rooms →
      ReadsBack S s plains source rooms) : ¬ EmptyInside S s plains source := by
  rintro ⟨front, wire, s', hfront, hsealed, hwire, hne⟩
  obtain ⟨wire₀, s₀, frame', hsealed₀, hlast, rfl⟩ := Sealing.sealAll_append hsealed
  obtain ⟨frame, s₂, rest, hseal, hnil, rfl⟩ := Sealing.sealAll_cons hlast
  obtain ⟨rfl, rfl⟩ := Prod.mk.inj (Option.some.inj hnil)
  rw [List.append_nil] at hwire hne
  obtain ⟨rooms, hrooms, hok, hdrained, hstep⟩ :=
    exists_rooms harrives ((List.prefix_append _ _).trans hfront) hsealed₀
      ((List.prefix_append _ _).trans hwire)
  obtain rfl : s₀ = _ := (Prod.mk.inj (Option.some.inj (hsealed₀.symm.trans hstep.sealed))).2
  obtain ⟨more, hmore⟩ := hwire
  have hinner : carried ((freshReading A s source).after rooms).inner = frame ++ more := by
    rw [hstep.source_eq, List.append_assoc, List.append_cancel_left_eq] at hmore
    exact hmore.symm
  obtain ⟨c', hread, hleft, -, -, -⟩ := hstep.read_whole one_pos hdrained hfront hseal hinner
  have hpos : ∀ room ∈ rooms ++ [1], 0 < room := by
    intro room hmem
    rcases List.mem_append.mp hmem with hmem | hmem
    · exact hrooms room hmem
    · rw [List.mem_singleton.mp hmem]
      exact one_pos
  have hright := hreads _ hpos (stopsAtError_snoc hok) rooms 1 (List.prefix_refl _)
  rw [hread, List.take_nil] at hright
  cases hright with
  | piece hbytes _ => exact hbytes rfl
  | finished _ _ _ hend _ =>
    rw [hleft] at hend
    rw [hend, List.append_nil] at hmore
    exact hne hmore

/-- Called on after an error, the channel reports an end that is not between two frames. -/
theorem endsOnBoundary_of_reads (harrives : Arrives source) {total : List UInt8} {s' : σ}
    (hsealed : S.sealAll s plains = some (total, s')) (hcut : carried source <+: total)
    (hreads : ∀ rooms, (∀ room ∈ rooms, 0 < room) → ReadsBack S s plains source rooms) :
    EndsOnBoundary S s plains source := by
  obtain ⟨front, wire, s₁, part, hfront, hwire, hall, hpart⟩ :=
    Sealing.exists_cut hsealed hcut
  by_cases hnil : part = []
  · exact ⟨front, s₁, hfront, by rw [hall, hnil, List.append_nil, hwire]⟩
  obtain ⟨plain, frame, s₂, hnext, hseal, hbegin, hshort⟩ := hpart.resolve_left hnil
  obtain ⟨rooms, hrooms, -, hdrained, hstep⟩ := exists_rooms harrives hfront hwire ⟨part, hall.symm⟩
  obtain rfl : s₁ = _ := (Prod.mk.inj (Option.some.inj (hwire.symm.trans hstep.sealed))).2
  have hinner : carried ((freshReading A s source).after rooms).inner = part := by
    have heq := hstep.source_eq
    rw [hall, List.append_cancel_left_eq] at heq
    exact heq.symm
  have hread := hstep.read_cut one_pos hdrained hseal (hinner ▸ hbegin) (hinner ▸ hnil)
    (hinner ▸ hshort)
  have hpos : ∀ room ∈ rooms ++ [1] ++ [1], 0 < room := by
    intro room hmem
    simp only [List.mem_append, List.mem_singleton, or_assoc, or_self] at hmem
    rcases hmem with hmem | rfl
    · exact hrooms room hmem
    · exact one_pos
  have hright := hreads _ hpos (rooms ++ [1]) 1 (List.prefix_refl _)
  have hagain : (((freshReading A s source).after (rooms ++ [1])).read A 1).1 = .ok [] := by
    rw [Reactive.Machine.after_snoc]
    change ((HtxfChannel.read A _ 1).2.read A 1).1 = _
    have hended := HtxfChannel.fillOneFrame_ended (A := A)
      (c := { (freshReading A s source).after rooms with inner := [] }) .nil rfl
    rw [hread, HtxfChannel.read, if_neg one_ne_zero, if_neg (by simp [hstep.active]),
      if_pos (show _ ≥ _ from hdrained), hended]
  rw [hagain] at hright
  cases hright with
  | piece hbytes _ => exact absurd rfl hbytes
  | finished hfront' hwire' hall' _ _ => exact ⟨_, _, hfront', by rw [hall', hwire']⟩

/-- Every call keeps the promise, unless it meets an empty frame with more behind it. -/
theorem readsBack_of_not_emptyInside (harrives : Arrives source) {total : List UInt8} {s' : σ}
    (hsealed : S.sealAll s plains = some (total, s')) (hcut : carried source <+: total)
    (hempty : ¬ EmptyInside S s plains source) {rooms : List ℕ}
    (hrooms : ∀ room ∈ rooms, 0 < room) (hstops : StopsAtError A s source rooms) :
    ReadsBack S s plains source rooms := by
  intro before room hbefore
  have hsub := hbefore.subset
  obtain ⟨front, wire, hstep⟩ := inStep_after harrives hsealed hcut
    (fun r hr => hrooms r (hsub (List.mem_append_left _ hr))) (hstops before room hbefore)
  have hroom := hrooms room (hsub (List.mem_append_right _ List.mem_cons_self))
  rcases hstep.read hsealed hcut hroom with ⟨-, -, -, -, -, hright⟩ | ⟨-, -, hright⟩
  · exact hright.resolve_right hempty
  · exact hright

/-- For every list of strings, every way the stream of their frames is cut into pieces and
ended, and whatever room the calls have: every call keeps the promise exactly when no empty
frame arrives with more behind it and the stream ends between two frames; and if no call is
made after one that failed, exactly when no empty frame arrives with more behind it. -/
theorem reads_back_iff (harrives : Arrives source) {total : List UInt8} {s' : σ}
    (hsealed : S.sealAll s plains = some (total, s')) (hcut : carried source <+: total) :
    ((∀ rooms, (∀ room ∈ rooms, 0 < room) → ReadsBack S s plains source rooms) ↔
      ¬ EmptyInside S s plains source ∧ EndsOnBoundary S s plains source) ∧
    ((∀ rooms, (∀ room ∈ rooms, 0 < room) → StopsAtError A s source rooms →
        ReadsBack S s plains source rooms) ↔
      ¬ EmptyInside S s plains source) := by
  refine ⟨⟨fun hreads => ⟨?_, ?_⟩, ?_⟩, not_emptyInside harrives, ?_⟩
  · exact not_emptyInside harrives fun rooms hrooms _ => hreads rooms hrooms
  · exact endsOnBoundary_of_reads harrives hsealed hcut hreads
  · rintro ⟨hempty, hboundary⟩ rooms hrooms
    refine readsBack_of_not_emptyInside harrives hsealed hcut hempty hrooms ?_
    intro before room hbefore
    refine stopsAtError_of_endsOnBoundary harrives hsealed hcut hboundary ?_
    exact fun r hr => hrooms r (hbefore.subset (List.mem_append_left _ hr))
  · intro hempty rooms hrooms hstops
    exact readsBack_of_not_emptyInside harrives hsealed hcut hempty hrooms hstops

/-- What `write` puts on the wire is read back. -/
theorem written_reads_back (harrives : Arrives source) {bufs : List (List UInt8)} {w' : Writer σ}
    (hwrite : (⟨s, []⟩ : Writer σ).writeAll S bufs = some w') (hall : carried source = w'.wire)
    {rooms : List ℕ} (hrooms : ∀ room ∈ rooms, 0 < room) :
    ReadsBack S s (bufs.filter (· ≠ [])) source rooms := by
  obtain ⟨wire, hsealed, hwire⟩ := Writer.writeAll_eq hwrite
  rw [List.nil_append] at hwire
  have hboundary : EndsOnBoundary S s (bufs.filter (· ≠ [])) source :=
    ⟨_, _, List.prefix_refl _, by rw [hall, hwire, hsealed]⟩
  have hcut : carried source <+: wire := by rw [hall, hwire]
  refine ((reads_back_iff harrives hsealed hcut).1.mpr ⟨?_, hboundary⟩) rooms hrooms
  rintro ⟨front, -, -, ⟨more, hmore⟩, -⟩
  have hmem : ([] : List UInt8) ∈ bufs.filter (· ≠ []) := by
    rw [← hmore]
    simp
  simp at hmem

end Reading

/-- A string under a tag of sixteen zero bytes, behind its length. -/
def zeroTagSealInto (s : Unit) (plain : List UInt8) : Option (List UInt8 × Unit) :=
  if plain.length + AEAD_TAG_SIZE < 2 ^ 32 then
    some (BigEndian.ofU32 (.ofNat (plain.length + AEAD_TAG_SIZE)) ++
      (plain ++ List.replicate AEAD_TAG_SIZE 0), s)
  else none

theorem length_zeroTagSealInto {s s' : Unit} {plain frame : List UInt8}
    (h : zeroTagSealInto s plain = some (frame, s')) :
    frame.length = AEAD_LENGTH_PREFIX + plain.length + AEAD_TAG_SIZE := by
  obtain ⟨-, heq⟩ := Option.ite_none_right_eq_some.mp h
  obtain ⟨rfl, -⟩ := Prod.mk.inj (Option.some.inj heq)
  simp only [List.length_append, List.length_replicate, BigEndian.ofU32, List.length_cons,
    List.length_nil, AEAD_LENGTH_PREFIX]
  omega

theorem peekFrameSize_zeroTagSealInto {s s' : Unit} {plain frame : List UInt8}
    (h : zeroTagSealInto s plain = some (frame, s')) :
    zeroTagAead.peekFrameSize (frame.take AEAD_LENGTH_PREFIX) = some frame.length := by
  obtain ⟨hlt, heq⟩ := Option.ite_none_right_eq_some.mp h
  obtain ⟨rfl, -⟩ := Prod.mk.inj (Option.some.inj heq)
  have hlead_len : AEAD_LENGTH_PREFIX =
      (BigEndian.ofU32 (.ofNat (plain.length + AEAD_TAG_SIZE))).length := rfl
  have hlen : (UInt32.ofNat (plain.length + AEAD_TAG_SIZE)).toNat =
      plain.length + AEAD_TAG_SIZE := by
    rw [UInt32.toNat_ofNat', Nat.mod_eq_of_lt hlt]
  have htake := BigEndian.takeU32_ofU32_append (.ofNat (plain.length + AEAD_TAG_SIZE)) []
  rw [List.append_nil] at htake
  rw [hlead_len, List.take_left]
  simp only [zeroTagAead, htake, hlen, if_pos (Nat.le_add_left _ _), List.length_append,
    List.length_replicate, ← hlead_len]

theorem openInto_zeroTagSealInto {s s' : Unit} {plain frame : List UInt8}
    (h : zeroTagSealInto s plain = some (frame, s')) :
    zeroTagAead.openInto s frame (List.replicate plain.length 0) = ⟨s', plain, true⟩ := by
  obtain ⟨-, heq⟩ := Option.ite_none_right_eq_some.mp h
  obtain ⟨rfl, rfl⟩ := Prod.mk.inj (Option.some.inj heq)
  have hlead_len : AEAD_LENGTH_PREFIX =
      (BigEndian.ofU32 (.ofNat (plain.length + AEAD_TAG_SIZE))).length := rfl
  have hbody : (plain ++ List.replicate AEAD_TAG_SIZE (0 : UInt8)).drop plain.length =
      List.replicate AEAD_TAG_SIZE 0 := List.drop_left
  simp only [zeroTagAead, List.length_replicate]
  rw [← List.drop_drop, hlead_len, List.drop_left, List.take_left, hbody]
  simp

/-- The record layer of sixteen zero bytes seals what it opens. -/
def zeroTagSealing : Sealing zeroTagAead where
  sealInto := zeroTagSealInto
  length_frame := length_zeroTagSealInto
  peekFrameSize_frame := peekFrameSize_zeroTagSealInto
  openInto_frame := openInto_zeroTagSealInto

/-- Two frames, the first of no bytes. -/
def emptyFrameFirst : Source UInt8 :=
  [.bytes (BigEndian.ofU32 16 ++ List.replicate 16 0),
    .bytes (BigEndian.ofU32 17 ++ 7 :: List.replicate 16 0)]

/-- A frame of one byte, in two pieces. -/
def oneFrame : Source UInt8 :=
  [.bytes [0, 0], .bytes ([0, 17, 7] ++ List.replicate 16 0)]

theorem oneFrame_arrives : Arrives oneFrame := by
  refine ⟨?_, rfl⟩
  intro d hd
  simp only [oneFrame, List.mem_cons, List.not_mem_nil, or_false] at hd
  rcases hd with rfl | rfl <;> simp

/-- The empty frame reads as the end of the stream, before the second frame. -/
theorem empty_frame_ends :
    zeroTagSealing.sealAll () [[], [7]] = some (carried emptyFrameFirst, ()) ∧
      ¬ ReadsBack zeroTagSealing () [[], [7]] emptyFrameFirst [4] := by
  refine ⟨by decide, ?_⟩
  intro h
  have hright := h [] 4 (List.prefix_refl _)
  have hread : (((freshReading zeroTagAead () emptyFrameFirst).after []).read zeroTagAead 4).1 =
      .ok [] := by decide
  have hleft : carried
      (((freshReading zeroTagAead () emptyFrameFirst).after []).read zeroTagAead 4).2.inner ≠ [] := by
    decide
  rw [hread] at hright
  cases hright with
  | piece hne _ => exact hne rfl
  | finished _ _ _ hnil _ => exact hleft hnil

/-- One frame, in two pieces, is read back. -/
theorem oneFrame_reads_back :
    (∀ rooms, (∀ room ∈ rooms, 0 < room) → ReadsBack zeroTagSealing () [[7]] oneFrame rooms) ↔
      ¬ EmptyInside zeroTagSealing () [[7]] oneFrame ∧
        EndsOnBoundary zeroTagSealing () [[7]] oneFrame := by
  have hsealed : zeroTagSealing.sealAll () [[7]] =
      some (BigEndian.ofU32 17 ++ 7 :: List.replicate 16 0, ()) := rfl
  exact (reads_back_iff oneFrame_arrives hsealed (by decide)).1

end Gtkhx.Htxf
