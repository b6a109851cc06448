import Mathlib.Data.List.Basic
import Mathlib.Data.List.Infix

/-!
# Scripted byte readers

A reader is the script of what its `read` calls meet: a piece of the stream, from
which a call takes as much as it has room for, or an error. Past the end of the script
every call returns no bytes, which is the end of the stream. A script determines every
run over it and every run is the run of some script, so a statement about all scripts
is a statement about every way a stream can be cut into short reads and errors.
-/

namespace Reader

variable {β : Type*}

/-- The kinds of error a read returns. -/
inductive ErrorKind where
  /-- A signal arrived; the call is to be made again. -/
  | interrupted
  /-- A read timeout ran out. -/
  | wouldBlock
  /-- A read timeout ran out. -/
  | timedOut
  /-- The stream ended inside something that had begun. -/
  | unexpectedEof
  /-- The bytes that came are not what the format allows. -/
  | invalidData
  /-- Any other kind. -/
  | other (code : ℕ)
  deriving DecidableEq, Repr

/-- The two kinds under which a read timeout surfaces. -/
def ErrorKind.isTimeout : ErrorKind → Bool
  | .wouldBlock | .timedOut => true
  | _ => false

/-- What one call of `read` meets. -/
inductive Delivery (β : Type*) where
  /-- A piece of the stream. An empty piece reads as the end of the stream. -/
  | bytes (piece : List β)
  /-- An error, after which the script goes on. -/
  | error (kind : ErrorKind)
  deriving DecidableEq, Repr

/-- A reader, as what its calls are going to meet. -/
abbrev Source (β : Type*) := List (Delivery β)

/-- The bytes of one delivery. -/
def Delivery.carried : Delivery β → List β
  | .bytes piece => piece
  | .error _ => []

/-- Every byte the script delivers, in order. -/
def carried (s : Source β) : List β := s.flatMap Delivery.carried

@[simp] theorem carried_nil : carried ([] : Source β) = [] := rfl

@[simp] theorem carried_bytes_cons (piece : List β) (s : Source β) :
    carried (.bytes piece :: s) = piece ++ carried s := rfl

@[simp] theorem carried_error_cons (kind : ErrorKind) (s : Source β) :
    carried (.error kind :: s) = carried s := rfl

@[simp] theorem carried_append (s t : Source β) : carried (s ++ t) = carried s ++ carried t := by
  simp [carried]

/-- One call of `read` with room for `room` bytes. -/
def read (room : ℕ) : Source β → Except ErrorKind (List β) × Source β
  | [] => (.ok [], [])
  | .error kind :: s => (.error kind, s)
  | .bytes piece :: s =>
    (.ok (piece.take room), if piece.length ≤ room then s else .bytes (piece.drop room) :: s)

/-- `read`, called again for as long as a signal interrupts it. -/
def readRetrying (room : ℕ) : Source β → Except ErrorKind (List β) × Source β
  | .error .interrupted :: s => readRetrying room s
  | s => read room s

/-- How filling a buffer ended. -/
inductive Fill (β : Type*) where
  /-- The buffer is full. -/
  | full (buffer : List β)
  /-- The stream ended, with this much in the buffer. -/
  | ended (got : List β)
  /-- A read failed, with this much in the buffer. -/
  | failed (got : List β) (kind : ErrorKind)
  deriving DecidableEq, Repr

/-- Read until the buffer holds `size` bytes, `got` being in it already. A read that a
signal interrupted is made again. -/
def fill (size : ℕ) (got : List β) : Source β → Fill β × Source β
  | [] => if size ≤ got.length then (.full got, []) else (.ended got, [])
  | d :: s =>
    if size ≤ got.length then (.full got, d :: s)
    else match d with
      | .error .interrupted => fill size got s
      | .error kind => (.failed got kind, s)
      | .bytes [] => (.ended got, s)
      | .bytes (b :: piece) =>
        if got.length + (piece.length + 1) ≤ size then fill size (got ++ b :: piece) s
        else (.full (got ++ (b :: piece).take (size - got.length)),
          .bytes ((b :: piece).drop (size - got.length)) :: s)

/-- `read_exact`: fill a buffer, the stream's end being an error. -/
def readExact (size : ℕ) (s : Source β) : Except ErrorKind (List β) × Source β :=
  match fill size [] s with
  | (.full buffer, s') => (.ok buffer, s')
  | (.ended _, s') => (.error .unexpectedEof, s')
  | (.failed _ kind, s') => (.error kind, s')

/-- Fill a buffer, the stream's end before its first byte being `none`. -/
def readExactOrEof (size : ℕ) (s : Source β) : Except ErrorKind (Option (List β)) × Source β :=
  match fill size [] s with
  | (.full buffer, s') => (.ok (some buffer), s')
  | (.ended got, s') => if got = [] then (.ok none, s') else (.error .unexpectedEof, s')
  | (.failed _ kind, s') => (.error kind, s')

/-- What a read returned is the front of what was to come. -/
theorem readRetrying_ok {room : ℕ} {got : List β} {s s' : Source β}
    (h : readRetrying room s = (.ok got, s')) :
    carried s = got ++ carried s' ∧ got.length ≤ room := by
  induction s with
  | nil =>
    obtain ⟨hgot, rfl⟩ := Prod.mk.inj h
    obtain rfl := Except.ok.inj hgot
    exact ⟨rfl, Nat.zero_le _⟩
  | cons d s ih =>
    match d with
    | .error .interrupted => exact ih h
    | .error .wouldBlock | .error .timedOut | .error .unexpectedEof | .error .invalidData
    | .error (.other _) => cases h
    | .bytes piece =>
      obtain ⟨hgot, hs⟩ := Prod.mk.inj h
      obtain rfl := Except.ok.inj hgot
      by_cases hroom : piece.length ≤ room
      · rw [if_pos hroom] at hs
        simp [← hs, List.take_of_length_le hroom, hroom]
      · rw [if_neg hroom] at hs
        refine ⟨?_, by simp [Nat.min_le_left]⟩
        rw [← hs, carried_bytes_cons, carried_bytes_cons, ← List.append_assoc,
          List.take_append_drop]

/-- A full buffer needs no read. -/
theorem fill_of_le {size : ℕ} {got : List β} (h : size ≤ got.length) (s : Source β) :
    fill size got s = (.full got, s) := by
  cases s <;> simp [fill, h]

/-- While there is room left, filling is one `read` and then filling on: the loop of
`read_exact`, one iteration at a time. -/
theorem fill_eq_read {size : ℕ} {got : List β} (h : got.length < size) (s : Source β) :
    fill size got s =
      match read (size - got.length) s with
      | (.ok [], s') => (.ended got, s')
      | (.ok (b :: piece), s') => fill size (got ++ b :: piece) s'
      | (.error .interrupted, s') => fill size got s'
      | (.error kind, s') => (.failed got kind, s') := by
  have hroom : ¬ size ≤ got.length := by omega
  obtain ⟨k, hk⟩ : ∃ k, size - got.length = k + 1 := ⟨size - got.length - 1, by omega⟩
  match s with
  | [] => simp [fill, read, hroom]
  | .error kind :: s => cases kind <;> simp [fill, read, hroom]
  | .bytes [] :: s => simp [fill, read, hroom]
  | .bytes (b :: piece) :: s =>
    simp only [fill, read, hroom, if_false, hk, List.take_succ_cons, List.length_cons]
    by_cases hfit : piece.length + 1 ≤ k + 1
    · have htake : piece.take k = piece := List.take_of_length_le (by omega)
      simp only [htake, if_pos hfit, if_pos (show got.length + (piece.length + 1) ≤ size by omega)]
    · have hfull : size ≤ (got ++ b :: piece.take k).length := by
        simp only [List.length_append, List.length_cons, List.length_take]
        omega
      rw [if_neg hfit, if_neg (by omega), fill_of_le hfull]

/-- What a full buffer holds, and what is left, is what there was. -/
theorem fill_full {size : ℕ} {got buffer : List β} {s s' : Source β}
    (h : fill size got s = (.full buffer, s')) :
    got ++ carried s = buffer ++ carried s' ∧ (got.length ≤ size → buffer.length = size) := by
  induction s generalizing got with
  | nil =>
    simp only [fill] at h
    split at h
    · cases h
      exact ⟨rfl, fun hle => by omega⟩
    · simp at h
  | cons d s ih =>
    simp only [fill] at h
    split at h
    · cases h
      exact ⟨rfl, fun hle => by omega⟩
    · split at h
      · obtain ⟨hbytes, hlen⟩ := ih h
        exact ⟨by simpa using hbytes, hlen⟩
      · simp at h
      · simp at h
      · rename_i b piece
        split at h
        · rename_i hfit
          obtain ⟨hbytes, hlen⟩ := ih h
          refine ⟨by simpa using hbytes, fun _ => hlen ?_⟩
          simpa using hfit
        · simp only [Prod.mk.injEq, Fill.full.injEq] at h
          obtain ⟨rfl, rfl⟩ := h
          have hpiece := List.take_append_drop (size - got.length) (b :: piece)
          constructor
          · rw [carried_bytes_cons, carried_bytes_cons, List.append_assoc,
              ← List.append_assoc (List.take _ _), hpiece]
          · intro hle
            simp only [List.length_append, List.length_take, List.length_cons]
            omega

/-- A read that fails inside the buffer takes the script up to the error, and the bytes
before it, with it. -/
theorem fill_failed {size : ℕ} {got got' : List β} {kind : ErrorKind} {s s' : Source β}
    (h : fill size got s = (.failed got' kind, s')) :
    ∃ before, s = before ++ .error kind :: s' ∧ got' = got ++ carried before ∧
      got'.length < size := by
  induction s generalizing got with
  | nil => simp only [fill] at h; split at h <;> simp at h
  | cons d s ih =>
    simp only [fill] at h
    split at h
    · simp at h
    · rename_i hroom
      split at h
      · obtain ⟨before, rfl, hgot, hlen⟩ := ih h
        exact ⟨.error .interrupted :: before, rfl, hgot, hlen⟩
      · cases h
        exact ⟨[], rfl, by simp, by omega⟩
      · simp at h
      · rename_i b piece
        split at h
        · obtain ⟨before, rfl, hgot, hlen⟩ := ih h
          exact ⟨.bytes (b :: piece) :: before, rfl, by simp [hgot], hlen⟩
        · simp at h

/-- Filling a buffer takes bytes off the front of the stream and nothing else. -/
theorem fill_carried (size : ℕ) (got : List β) (s : Source β) :
    ∃ used, carried s = used ++ carried (fill size got s).2 := by
  induction s generalizing got with
  | nil => exact ⟨[], by simp only [fill]; split <;> rfl⟩
  | cons d s ih =>
    simp only [fill]
    split
    · exact ⟨[], rfl⟩
    · split
      · exact ih got
      · exact ⟨[], rfl⟩
      · exact ⟨[], rfl⟩
      · rename_i b piece
        split
        · obtain ⟨used, hused⟩ := ih (got ++ b :: piece)
          exact ⟨b :: piece ++ used, by rw [carried_bytes_cons, hused, List.append_assoc]⟩
        · refine ⟨(b :: piece).take (size - got.length), ?_⟩
          rw [carried_bytes_cons, carried_bytes_cons, ← List.append_assoc, List.take_append_drop]

theorem readExact_ok {size : ℕ} {buffer : List β} {s s' : Source β}
    (h : readExact size s = (.ok buffer, s')) :
    carried s = buffer ++ carried s' ∧ buffer.length = size := by
  rw [readExact] at h
  rcases hfill : fill size [] s with ⟨_ | _ | _, _⟩ <;> rw [hfill] at h <;> cases h
  obtain ⟨hbytes, hlen⟩ := fill_full hfill
  exact ⟨hbytes, hlen (Nat.zero_le _)⟩

theorem readExactOrEof_some {size : ℕ} {buffer : List β} {s s' : Source β}
    (h : readExactOrEof size s = (.ok (some buffer), s')) :
    carried s = buffer ++ carried s' ∧ buffer.length = size := by
  rw [readExactOrEof] at h
  rcases hfill : fill size [] s with ⟨_ | _ | _, _⟩ <;> rw [hfill] at h
  · cases h
    obtain ⟨hbytes, hlen⟩ := fill_full hfill
    exact ⟨hbytes, hlen (Nat.zero_le _)⟩
  · dsimp only at h
    split at h <;> cases h
  · cases h

/-- Whatever becomes of a `read_exact`, it leaves an end of the stream. -/
theorem readExact_suffix (size : ℕ) (s : Source β) :
    carried (readExact size s).2 <:+ carried s := by
  obtain ⟨used, hused⟩ := fill_carried size [] s
  refine ⟨used, ?_⟩
  rw [hused, readExact]
  rcases fill size [] s with ⟨_ | _ | _, _⟩ <;> rfl

theorem readExactOrEof_suffix (size : ℕ) (s : Source β) :
    carried (readExactOrEof size s).2 <:+ carried s := by
  obtain ⟨used, hused⟩ := fill_carried size [] s
  refine ⟨used, ?_⟩
  rw [hused, readExactOrEof]
  rcases fill size [] s with ⟨_ | got | _, _⟩
  · rfl
  · by_cases hgot : got = [] <;> simp [hgot]
  · rfl

/-- The script has pieces with bytes in them, signals and timeouts, and no other error:
the stream arrives, however slowly. -/
def Delivers (s : Source β) : Prop :=
  ∀ d ∈ s, match d with
    | .bytes piece => piece ≠ []
    | .error kind => kind = .interrupted ∨ kind.isTimeout = true

/-- The same stream with no timeout in it. -/
def untimed : Source β → Source β
  | [] => []
  | .bytes piece :: s => .bytes piece :: untimed s
  | .error kind :: s => if kind.isTimeout then untimed s else .error kind :: untimed s

/-- The same stream with no error in it. -/
def quiet : Source β → Source β
  | [] => []
  | .bytes piece :: s => .bytes piece :: quiet s
  | .error _ :: s => quiet s

/-- How many bytes of the stream come before each timeout. -/
def timeoutOffsets : Source β → List ℕ
  | [] => []
  | .bytes piece :: s => (timeoutOffsets s).map (· + piece.length)
  | .error kind :: s => if kind.isTimeout then 0 :: timeoutOffsets s else timeoutOffsets s

@[simp] theorem carried_quiet (s : Source β) : carried (quiet s) = carried s := by
  induction s with
  | nil => rfl
  | cons d s ih => cases d <;> simp [quiet, ih]

@[simp] theorem quiet_untimed (s : Source β) : quiet (untimed s) = quiet s := by
  induction s with
  | nil => rfl
  | cons d s ih =>
    cases d with
    | bytes piece => simp [untimed, quiet, ih]
    | error kind => cases h : kind.isTimeout <;> simp [untimed, quiet, ih, h]

@[simp] theorem timeoutOffsets_untimed (s : Source β) : timeoutOffsets (untimed s) = [] := by
  induction s with
  | nil => rfl
  | cons d s ih =>
    cases d with
    | bytes piece => simp [untimed, timeoutOffsets, ih]
    | error kind => cases h : kind.isTimeout <;> simp [untimed, timeoutOffsets, ih, h]

theorem Delivers.tail {d : Delivery β} {s : Source β} (h : Delivers (d :: s)) : Delivers s :=
  fun d' hd' => h d' (List.mem_cons_of_mem _ hd')

theorem Delivers.untimed {s : Source β} (h : Delivers s) : Delivers (untimed s) := by
  induction s with
  | nil => exact h
  | cons d s ih =>
    have hs := ih h.tail
    have hd := h d List.mem_cons_self
    cases d with
    | bytes piece =>
      intro d' hd'
      rcases List.mem_cons.mp hd' with rfl | hd'
      · exact hd
      · exact hs d' hd'
    | error kind =>
      cases htimeout : kind.isTimeout with
      | true => simpa [Reader.untimed, htimeout] using hs
      | false =>
        intro d' hd'
        simp only [Reader.untimed, htimeout] at hd'
        rcases List.mem_cons.mp hd' with rfl | hd'
        · exact hd
        · exact hs d' hd'

/-- What is left of a stream that arrives still arrives. -/
theorem Delivers.fill {s : Source β} (h : Delivers s) (size : ℕ) (got : List β) :
    Delivers (fill size got s).2 := by
  induction s generalizing got with
  | nil => simp only [Reader.fill]; split <;> exact h
  | cons d s ih =>
    simp only [Reader.fill]
    split
    · exact h
    · split
      · exact ih h.tail got
      · exact h.tail
      · exact h.tail
      · rename_i b piece
        split
        · exact ih h.tail _
        · rename_i hroom hfit
          intro d' hd'
          rcases List.mem_cons.mp hd' with rfl | hd'
          · simp only [ne_eq, List.drop_eq_nil_iff, List.length_cons]
            omega
          · exact h.tail d' hd'

/-- A buffer that fills meets no timeout on the way. -/
theorem timeoutOffsets_of_fill_full {size : ℕ} {got buffer : List β} {s s' : Source β}
    (h : Delivers s) (hfill : fill size got s = (.full buffer, s')) :
    timeoutOffsets s = (timeoutOffsets s').map (· + (buffer.length - got.length)) := by
  induction s generalizing got with
  | nil =>
    simp only [fill] at hfill
    split at hfill
    · cases hfill
      simp [timeoutOffsets]
    · simp at hfill
  | cons d s ih =>
    simp only [fill] at hfill
    split at hfill
    · cases hfill
      simp
    · split at hfill
      · simpa [timeoutOffsets, ErrorKind.isTimeout] using ih h.tail hfill
      · simp at hfill
      · simp at hfill
      · rename_i hroom _ b piece
        split at hfill
        · have hlen : (got ++ b :: piece).length ≤ buffer.length := by
            obtain ⟨used, hused⟩ := fill_carried size (got ++ b :: piece) s
            rw [hfill] at hused
            have hkept := congrArg List.length (fill_full hfill).1
            have hused := congrArg List.length hused
            simp only [List.length_append] at hkept hused ⊢
            omega
          rw [timeoutOffsets, ih h.tail hfill, List.map_map]
          refine List.map_congr_left fun t _ => ?_
          simp only [Function.comp_apply, List.length_append] at hlen ⊢
          omega
        · cases hfill
          simp only [timeoutOffsets, List.map_map]
          refine List.map_congr_left fun t _ => ?_
          simp only [Function.comp_apply, List.length_append, List.length_take, List.length_drop,
            List.length_cons]
          omega

/-- A buffer that fills is filled with the same bytes when there are no errors to meet. -/
theorem fill_quiet {size : ℕ} {got buffer : List β} {s s' : Source β}
    (hfill : fill size got s = (.full buffer, s')) :
    fill size got (quiet s) = (.full buffer, quiet s') := by
  induction s generalizing got with
  | nil =>
    simp only [fill] at hfill
    split at hfill
    · rename_i hfull
      cases hfill
      exact fill_of_le hfull _
    · simp at hfill
  | cons d s ih =>
    simp only [fill] at hfill
    split at hfill
    · rename_i hfull
      cases hfill
      exact fill_of_le hfull _
    · rename_i hroom
      split at hfill
      · exact ih hfill
      · simp at hfill
      · simp at hfill
      · rename_i b piece
        split at hfill
        · rename_i hfit
          simpa only [quiet, fill, if_neg hroom, if_pos hfit] using ih hfill
        · rename_i hfit
          cases hfill
          simp only [quiet, fill, if_neg hroom, if_neg hfit]

/-- In a stream that arrives, a buffer that does not fill meets a timeout, which costs it
the bytes before, or the end of the stream. -/
theorem Delivers.fill_failed {size : ℕ} {got got' : List β} {kind : ErrorKind}
    {s s' : Source β} (h : Delivers s)
    (hfill : Reader.fill size got s = (.failed got' kind, s')) :
    kind.isTimeout = true ∧ ∃ lost, carried s = lost ++ carried s' ∧
      got.length + lost.length < size ∧ (lost = [] → quiet s = quiet s') ∧
      timeoutOffsets s = lost.length :: (timeoutOffsets s').map (· + lost.length) := by
  induction s generalizing got with
  | nil => simp only [Reader.fill] at hfill; split at hfill <;> simp at hfill
  | cons d s ih =>
    have hd := h d List.mem_cons_self
    simp only [Reader.fill] at hfill
    split at hfill
    · simp at hfill
    · rename_i hroom
      split at hfill
      · obtain ⟨htimeout, lost, hlost, hlen, hquiet, hoffsets⟩ := ih h.tail hfill
        exact ⟨htimeout, lost, hlost, hlen, hquiet, hoffsets⟩
      · rename_i hkind
        cases hfill
        have htimeout : kind.isTimeout = true := hd.resolve_left hkind
        refine ⟨htimeout, [], rfl, by simpa using hroom, fun _ => rfl, ?_⟩
        simp [timeoutOffsets, htimeout]
      · simp at hfill
      · rename_i b piece
        split at hfill
        · obtain ⟨htimeout, lost, hlost, hlen, -, hoffsets⟩ := ih h.tail hfill
          refine ⟨htimeout, b :: piece ++ lost, by simp [hlost], ?_, by simp, ?_⟩
          · simp only [List.length_append, List.length_cons] at hlen ⊢
            omega
          · simp only [timeoutOffsets, hoffsets, List.map_cons, List.map_map, List.length_append]
            refine List.cons_eq_cons.mpr ⟨by omega, List.map_congr_left fun t _ => ?_⟩
            simp only [Function.comp_apply]
            omega
        · simp at hfill

/-- In a stream that arrives, a buffer meets the end only when the stream has too few
bytes for it. -/
theorem Delivers.fill_ended {size : ℕ} {got got' : List β} {s s' : Source β}
    (h : Delivers s) (hfill : Reader.fill size got s = (.ended got', s')) :
    got' = got ++ carried s ∧ got'.length < size ∧ s' = [] := by
  induction s generalizing got with
  | nil =>
    simp only [Reader.fill] at hfill
    split at hfill
    · simp at hfill
    · cases hfill
      exact ⟨by simp, by omega, rfl⟩
  | cons d s ih =>
    have hd := h d List.mem_cons_self
    simp only [Reader.fill] at hfill
    split at hfill
    · simp at hfill
    · split at hfill
      · simpa using ih h.tail hfill
      · simp at hfill
      · exact absurd rfl hd
      · split at hfill
        · obtain ⟨rfl, hlen, hs⟩ := ih h.tail hfill
          exact ⟨by simp, hlen, hs⟩
        · simp at hfill

/-- In a stream that arrives, a read that is made again on a signal returns what it would
return with no errors to meet, or times out. -/
theorem Delivers.readRetrying {s : Source β} (h : Delivers s) (room : ℕ) :
    (∃ got s', Reader.readRetrying room s = (.ok got, s') ∧ Delivers s' ∧
      Reader.readRetrying room (quiet s) = (.ok got, quiet s') ∧
      (timeoutOffsets s = [] → timeoutOffsets s' = [])) ∨
    (∃ kind s', Reader.readRetrying room s = (.error kind, s') ∧ kind.isTimeout = true ∧
      Delivers s' ∧ quiet s = quiet s' ∧ timeoutOffsets s ≠ []) := by
  induction s with
  | nil => exact .inl ⟨[], [], rfl, h, rfl, id⟩
  | cons d s ih =>
    have hd := h d List.mem_cons_self
    match d, hd with
    | .error .interrupted, _ =>
      obtain ⟨got, s', hread, hs', hquiet, hoffsets⟩ | ⟨kind, s', hread, hrest⟩ := ih h.tail
      · exact .inl ⟨got, s', hread, hs', hquiet, hoffsets⟩
      · exact .inr ⟨kind, s', hread, hrest⟩
    | .error .wouldBlock, _ =>
      exact .inr ⟨.wouldBlock, s, rfl, rfl, h.tail, rfl,
        by simp [timeoutOffsets, ErrorKind.isTimeout]⟩
    | .error .timedOut, _ =>
      exact .inr ⟨.timedOut, s, rfl, rfl, h.tail, rfl,
        by simp [timeoutOffsets, ErrorKind.isTimeout]⟩
    | .bytes piece, hpiece =>
      by_cases hfit : piece.length ≤ room
      · refine .inl ⟨piece.take room, s, by simp [Reader.readRetrying, read, hfit], h.tail,
          by simp [Reader.readRetrying, read, quiet, hfit], ?_⟩
        simp [timeoutOffsets]
      · refine .inl ⟨piece.take room, .bytes (piece.drop room) :: s,
          by simp [Reader.readRetrying, read, hfit], ?_,
          by simp [Reader.readRetrying, read, quiet, hfit], ?_⟩
        · intro d' hd'
          rcases List.mem_cons.mp hd' with rfl | hd'
          · simp only [ne_eq, List.drop_eq_nil_iff]
            omega
          · exact h.tail d' hd'
        · simp [timeoutOffsets]

/-- Filling a buffer never makes the script longer. -/
theorem fill_script_length_le (size : ℕ) (got : List β) (s : Source β) :
    (fill size got s).2.length ≤ s.length := by
  induction s generalizing got with
  | nil => simp only [fill]; split <;> simp
  | cons d s ih =>
    simp only [fill]
    split
    · simp
    · split
      · exact (ih got).trans (by simp)
      · simp
      · simp
      · split
        · exact (ih _).trans (by simp)
        · simp

/-- An error is taken off the script. -/
theorem fill_failed_script_length {size : ℕ} {got got' : List β} {kind : ErrorKind}
    {s s' : Source β} (h : fill size got s = (.failed got' kind, s')) :
    s'.length < s.length := by
  obtain ⟨before, rfl, -⟩ := fill_failed h
  simp only [List.length_append, List.length_cons]
  omega

theorem readExactOrEof_script_length_le (size : ℕ) (s : Source β) :
    (readExactOrEof size s).2.length ≤ s.length := by
  have hle := fill_script_length_le size [] s
  rw [readExactOrEof]
  rcases hfill : fill size [] s with ⟨_ | got | _, _⟩ <;> rw [hfill] at hle
  · exact hle
  · by_cases hgot : got = [] <;> simpa [hgot] using hle
  · exact hle

theorem readExactOrEof_timedOut {size : ℕ} {kind : ErrorKind} {s s' : Source β}
    (h : readExactOrEof size s = (.error kind, s')) (htimeout : kind.isTimeout = true) :
    s'.length < s.length := by
  rw [readExactOrEof] at h
  rcases hfill : fill size [] s with ⟨_ | got | _, _⟩ <;> rw [hfill] at h
  · cases h
  · dsimp only at h
    split at h <;> cases h
    cases htimeout
  · cases h
    exact fill_failed_script_length hfill

theorem readExact_timedOut {size : ℕ} {kind : ErrorKind} {s s' : Source β}
    (h : readExact size s = (.error kind, s')) (htimeout : kind.isTimeout = true) :
    s'.length < s.length := by
  rw [readExact] at h
  rcases hfill : fill size [] s with ⟨_ | got | _, _⟩ <;> rw [hfill] at h <;> cases h
  · cases htimeout
  · exact fill_failed_script_length hfill

theorem readRetrying_timedOut {room : ℕ} {kind : ErrorKind} {s s' : Source β}
    (h : readRetrying room s = (.error kind, s')) : s'.length < s.length := by
  induction s with
  | nil => cases h
  | cons d s ih =>
    match d with
    | .error .interrupted => exact (ih h).trans (by simp)
    | .error .wouldBlock | .error .timedOut | .error .unexpectedEof | .error .invalidData
    | .error (.other code) =>
      cases h
      simp
    | .bytes piece => cases h

/-- The stream arrives without a timeout: pieces with bytes in them, and signals. -/
def Arrives (s : Source β) : Prop := Delivers s ∧ timeoutOffsets s = []

theorem Arrives.nil : Arrives ([] : Source β) := ⟨fun _ hd => absurd hd List.not_mem_nil, rfl⟩

/-- In a stream that arrives, a read with room brings something while anything is left. -/
theorem Delivers.readRetrying_ne_nil {room : ℕ} (hroom : 0 < room) {got : List β}
    {s s' : Source β} (h : Delivers s) (hne : carried s ≠ [])
    (hread : Reader.readRetrying room s = (.ok got, s')) : got ≠ [] := by
  induction s with
  | nil => exact absurd rfl hne
  | cons d s ih =>
    have hd := h d List.mem_cons_self
    match d with
    | .error .interrupted => exact ih h.tail hne hread
    | .error .wouldBlock | .error .timedOut | .error .unexpectedEof | .error .invalidData
    | .error (.other _) => cases hread
    | .bytes piece =>
      obtain ⟨hgot, -⟩ := Prod.mk.inj hread
      obtain rfl := Except.ok.inj hgot
      simp only [ne_eq, List.take_eq_nil_iff, not_or]
      exact ⟨hroom.ne', hd⟩

/-- A read with room brings a front of the stream, while anything is left. -/
theorem Arrives.readRetrying_of_ne {s : Source β} (h : Arrives s) (hne : carried s ≠ [])
    {room : ℕ} (hroom : 0 < room) :
    ∃ got s', Reader.readRetrying room s = (.ok got, s') ∧ got ≠ [] ∧ got.length ≤ room ∧
      carried s = got ++ carried s' ∧ Arrives s' := by
  obtain ⟨got, s', hread, hs', -, hoffsets⟩ | ⟨-, -, -, -, -, -, hoffsets⟩ := h.1.readRetrying room
  · obtain ⟨hbytes, hlen⟩ := readRetrying_ok hread
    exact ⟨got, s', hread, h.1.readRetrying_ne_nil hroom hne hread, hlen, hbytes, hs',
      hoffsets h.2⟩
  · exact absurd h.2 hoffsets

/-- A buffer that the stream has enough for fills with its front. -/
theorem Arrives.fill_of_le {size : ℕ} {s : Source β} (h : Arrives s)
    (hle : size ≤ (carried s).length) :
    ∃ s', fill size [] s = (.full ((carried s).take size), s') ∧
      carried s' = (carried s).drop size ∧ Arrives s' := by
  have hrest := h.1.fill size []
  rcases hfill : fill size [] s with ⟨buffer | got | ⟨got, kind⟩, s'⟩ <;> rw [hfill] at hrest
  · obtain ⟨hbytes, hlen⟩ := fill_full hfill
    have hsize := hlen (Nat.zero_le _)
    have hoffsets := timeoutOffsets_of_fill_full h.1 hfill
    rw [h.2] at hoffsets
    rw [List.nil_append] at hbytes
    refine ⟨s', ?_, ?_, hrest, List.map_eq_nil_iff.mp hoffsets.symm⟩
    · rw [hbytes, ← hsize, List.take_left]
    · rw [hbytes, ← hsize, List.drop_left]
  · obtain ⟨hgot, hlen, -⟩ := h.1.fill_ended hfill
    rw [List.nil_append] at hgot
    rw [hgot] at hlen
    omega
  · obtain ⟨-, lost, -, -, -, hoffsets⟩ := h.1.fill_failed hfill
    rw [h.2] at hoffsets
    cases hoffsets

/-- A buffer that the stream has too little for meets its end. -/
theorem Arrives.fill_of_lt {size : ℕ} {s : Source β} (h : Arrives s)
    (hlt : (carried s).length < size) : fill size [] s = (.ended (carried s), []) := by
  rcases hfill : fill size [] s with ⟨buffer | got | ⟨got, kind⟩, s'⟩
  · obtain ⟨hbytes, hlen⟩ := fill_full hfill
    have hsize := hlen (Nat.zero_le _)
    have hlength := congrArg List.length hbytes
    rw [List.nil_append, List.length_append] at hlength
    omega
  · obtain ⟨hgot, -, rfl⟩ := h.1.fill_ended hfill
    rw [hgot, List.nil_append]
  · obtain ⟨-, lost, -, -, -, hoffsets⟩ := h.1.fill_failed hfill
    rw [h.2] at hoffsets
    cases hoffsets

theorem Arrives.readExact_of_le {s : Source β} (h : Arrives s) {size : ℕ}
    (hle : size ≤ (carried s).length) :
    ∃ s', readExact size s = (.ok ((carried s).take size), s') ∧
      carried s' = (carried s).drop size ∧ Arrives s' := by
  obtain ⟨s', hfill, hrest⟩ := h.fill_of_le hle
  exact ⟨s', by rw [readExact, hfill], hrest⟩

theorem Arrives.readExact_of_lt {size : ℕ} {s : Source β} (h : Arrives s)
    (hlt : (carried s).length < size) : readExact size s = (.error .unexpectedEof, []) := by
  rw [readExact, h.fill_of_lt hlt]

theorem Arrives.readExactOrEof_of_le {s : Source β} (h : Arrives s) {size : ℕ}
    (hle : size ≤ (carried s).length) :
    ∃ s', readExactOrEof size s = (.ok (some ((carried s).take size)), s') ∧
      carried s' = (carried s).drop size ∧ Arrives s' := by
  obtain ⟨s', hfill, hrest⟩ := h.fill_of_le hle
  exact ⟨s', by rw [readExactOrEof, hfill], hrest⟩

/-- The end before the first byte is no error; after it, it is. -/
theorem Arrives.readExactOrEof_of_lt {size : ℕ} {s : Source β} (h : Arrives s)
    (hlt : (carried s).length < size) :
    (carried s = [] ∧ readExactOrEof size s = (.ok none, [])) ∨
      (carried s ≠ [] ∧ readExactOrEof size s = (.error .unexpectedEof, [])) := by
  rw [readExactOrEof, h.fill_of_lt hlt]
  by_cases hnil : carried s = []
  · exact .inl ⟨hnil, if_pos hnil⟩
  · exact .inr ⟨hnil, if_neg hnil⟩

end Reader
