import Gtkhx.Library.Reactive
import Mathlib.Algebra.GroupWithZero.Nat
import Mathlib.Data.List.TakeDrop
import Mathlib.Logic.Function.Basic

/-!
# The streaming range reader

A player reads a remote file a range at a time. Each range is a download resumed at
its offset, read by a worker of its own into a window of bytes; the player's source
element takes bytes out of that window, waits for the worker, or starts another
range. `State` is what the reader's lock guards, and each section run under the lock
is one definition here: a pass of `fetch`, a pass of `keep`, and the short ones. The
server delivers the file's bytes from a range's offset on and may stop at any point.

Offsets and lengths are 32-bit numbers on the wire, so no sum of them overflows the
64 bits the program keeps them in, and they are natural numbers here.
-/

namespace Gtkhx.Preview

/-- How far past what the range has read a read can land and still wait for it. -/
def SKIP_AHEAD : ℕ := 2 <<< 20

/-- How far the worker reads ahead of the player. -/
def AHEAD : ℕ := 8 <<< 20

/-- How much already played stays in the window. -/
def BEHIND : ℕ := 1 <<< 20

/-- How far before a read a new range starts. -/
def BACK_OFF : ℕ := 256 <<< 10

/-- How much of the earlier ranges is kept. -/
def KEPT : ℕ := 32 <<< 20

/-- The most bytes a worker reads at once. -/
def READ_CHUNK : ℕ := 64 <<< 10

/-- Why a range could not be read. -/
inductive Problem
  | connect
  | notAFile
  | stopped
  | noResume
  deriving DecidableEq, Repr

/-- Why a fetch has no bytes to give. -/
inductive Short
  | flushing
  | «end»
  | failed (problem : Problem)
  deriving DecidableEq, Repr

/-- Bytes at an offset. -/
abbrev Segment := ℕ × List UInt8

/-- What the reader's lock guards. -/
structure State where
  /-- Bumped by every new range and by closing. -/
  range : ℕ := 0
  /-- The current range's worker is still going, or about to be. -/
  active : Bool := false
  /-- Where the window starts. -/
  start : ℕ := 0
  /-- The bytes the current range holds. -/
  window : List UInt8 := []
  /-- What earlier ranges read, newest last. -/
  kept : List Segment := []
  /-- How far the player has taken. -/
  taken : ℕ := 0
  /-- The end of a read waiting on the worker. -/
  waitingTo : ℕ := 0
  /-- The file's length, once a header says it. -/
  len : ℕ := 0
  /-- Why the current range failed. -/
  failed : Option Problem := none
  /-- The element is flushing. -/
  flushing : Bool := false
  /-- The player closed. -/
  closed : Bool := false
  deriving DecidableEq, Repr

/-- How far the current range has read. -/
def State.readTo (s : State) : ℕ := s.start + s.window.length

/-- A segment has the bytes from `offset` to `last`. -/
def Segment.covers (offset last : ℕ) (segment : Segment) : Bool :=
  segment.1 ≤ offset && last ≤ segment.1 + segment.2.length

/-- The bytes of a segment from `offset` to `last`. -/
def Segment.cut (offset last : ℕ) (segment : Segment) : List UInt8 :=
  (segment.2.drop (offset - segment.1)).take (last - offset)

/-- `State::bytes`: the bytes from `offset` to `last`, from the window or a kept range,
the newest first. -/
def State.bytes (s : State) (offset last : ℕ) : Option (List UInt8) :=
  (((s.start, s.window) :: s.kept.reverse).find? (Segment.covers offset last)).map
    (Segment.cut offset last)

/-- How many bytes segments hold. -/
def total (kept : List Segment) : ℕ := (kept.map fun segment => segment.2.length).sum

/-- Let the oldest segments go while there are more than `KEPT` bytes. -/
def trim : List Segment → List Segment
  | [] => []
  | oldest :: newer => if KEPT < total (oldest :: newer) then trim newer else oldest :: newer

/-- `State::restart`: end the current range, keeping what it read, and start one at
`offset`. -/
def State.restart (s : State) (offset : ℕ) : State :=
  { s with
    kept := if s.window = [] then s.kept else trim (s.kept ++ [(s.start, s.window)])
    window := []
    range := s.range + 1
    active := true
    start := offset
    taken := offset
    waitingTo := 0
    failed := none }

/-- What a pass of a fetch comes to. -/
inductive Outcome
  | ok (bytes : List UInt8)
  | err (short : Short)
  | waits
  deriving DecidableEq, Repr

/-- A pass of a fetch: what it comes to, the state after it, and the offset of the range
it asks for, if it does. -/
structure Pass where
  outcome : Outcome
  state : State
  asks : Option ℕ := none
  deriving DecidableEq, Repr

/-- Where the read of a fetch ends. -/
def State.lastOf (s : State) (offset : ℕ) (length : UInt32) : ℕ :=
  min (offset + length.toNat) s.len

/-- Reading on reaches `offset`. -/
def State.reachable (s : State) (offset : ℕ) : Bool :=
  s.active && s.start ≤ offset && offset ≤ s.readTo + SKIP_AHEAD

/-- The lock-holding part of `Reader::fetch`'s loop, the first time and after a wait. -/
def State.fetch (s : State) (offset : ℕ) (length : UInt32) : Pass :=
  if s.closed || s.flushing then ⟨.err .flushing, s, none⟩
  else if s.len ≤ offset then ⟨.err .end, s, none⟩
  else match s.bytes offset (s.lastOf offset length) with
    | some bytes =>
      if s.start ≤ offset ∧ offset ≤ s.readTo then
        ⟨.ok bytes, { s with taken := max s.taken (s.lastOf offset length) }, none⟩
      else ⟨.ok bytes, s, none⟩
    | none =>
      match s.failed with
      | some problem => ⟨.err (.failed problem), s, none⟩
      | none =>
        if s.reachable offset then
          ⟨.waits, { s with taken := max s.taken offset,
                            waitingTo := s.lastOf offset length }, none⟩
        else
          ⟨.waits, { s.restart (offset - BACK_OFF) with waitingTo := s.lastOf offset length },
            some (offset - BACK_OFF)⟩

/-- What a pass of `keep` comes to. -/
inductive Kept
  | ended
  | waits
  | kept (state : State)
  /-- More is drained than the window holds: the worker panics, its chunk in the window. -/
  | panics (state : State)
  deriving DecidableEq, Repr

/-- How many bytes `keep` drains of the window. -/
def State.drained (s : State) : ℕ :=
  if 2 * BEHIND < s.taken - s.start then s.taken - s.start - BEHIND else 0

/-- The lock-holding part of `Reader::keep`'s loop. -/
def State.keep (s : State) (range : ℕ) (chunk : List UInt8) : Kept :=
  if s.range ≠ range ∨ s.closed = true then .ended
  else if max (s.taken + AHEAD) s.waitingTo ≤ s.readTo then .waits
  else if s.drained ≤ (s.window ++ chunk).length then
    .kept { s with window := (s.window ++ chunk).drop s.drained, start := s.start + s.drained }
  else .panics { s with window := s.window ++ chunk }

/-- Where the worker of a range is. -/
inductive Phase
  /-- The range was asked for; the server has not granted it. -/
  | asked
  /-- The transfer connection is being opened. -/
  | connecting
  /-- The flattened file's header is being read. -/
  | opened
  /-- The data fork is being read. -/
  | streaming
  /-- A chunk was read and is being kept. -/
  | keeping (chunk : List UInt8)
  /-- The worker is about to say what went wrong. -/
  | ending (problem : Option Problem)
  deriving DecidableEq, Repr

/-- The worker of a range. -/
structure Worker where
  /-- Where the range was asked for from. -/
  offset : ℕ
  /-- How far it has read. -/
  next : ℕ
  /-- Where it is. -/
  phase : Phase
  deriving DecidableEq, Repr

/-- The reader, and the workers of its ranges by their numbers. -/
structure System where
  reader : State := {}
  workers : ℕ → Option Worker := fun _ => none

/-- The worker of a range changes. -/
def System.setWorker (sys : System) (range : ℕ) (worker : Option Worker) : System :=
  { sys with workers := Function.update sys.workers range worker }

/-- The current range is asked for from `offset` on. -/
def System.ask (sys : System) (offset : ℕ) : System :=
  sys.setWorker sys.reader.range (some ⟨offset, offset, .asked⟩)

/-- What can happen: the sections under the lock, and what the server and the transfer
connections do between them. -/
inductive Action
  /-- `Reader::begin`, and its request. -/
  | begin
  /-- A pass of `Reader::fetch`. -/
  | fetch (offset : ℕ) (length : UInt32)
  /-- The server grants a range, or refuses it. -/
  | answer (range : ℕ) (granted : Bool)
  /-- The transfer connection opened, or did not, and the range is looked at. -/
  | connect (range : ℕ) (opened : Bool)
  /-- The header was read, or was not one, and the length is noted. -/
  | header (range : ℕ) (read : Bool)
  /-- `n` bytes of the data fork arrived. -/
  | receive (range n : ℕ)
  /-- A pass of `Reader::keep`. -/
  | keep (range : ℕ)
  /-- The data fork's end, or no more bytes of it. -/
  | stop (range : ℕ)
  /-- `Reader::read`'s last section. -/
  | finish (range : ℕ)
  /-- `Reader::set_flushing`. -/
  | setFlushing (flushing : Bool)
  /-- `Reader::close`. -/
  | close
  deriving DecidableEq, Repr

/-- The section that notes the data fork's length, and the phase after it. -/
def State.note (s : State) (last : ℕ) : State × Phase :=
  if s.len = 0 then ({ s with len := last }, .streaming)
  else if last ≠ s.len then (s, .ending (some .noResume))
  else (s, .streaming)

/-- `Reader::read`'s last section. -/
def State.finish (s : State) (range : ℕ) (problem : Option Problem) : State :=
  if s.range ≠ range ∨ s.closed = true then s
  else { s with active := false, failed := problem }

/-- `Reader::close`. -/
def State.close (s : State) : State := { s with closed := true, range := s.range + 1 }

/-- Where a range of the file ends, by the header the server sends for it. -/
def Worker.last (file : List UInt8) (w : Worker) : ℕ := w.offset + (file.length - w.offset)

/-- The worker of a range goes on to a phase. -/
def System.advance (sys : System) (range : ℕ) (w : Worker) (phase : Phase) : System :=
  sys.setWorker range (some { w with phase := phase })

/-- A worker's step, by the phase it is in. -/
def System.work (file : List UInt8) (sys : System) (range : ℕ) (w : Worker) :
    Action → Option System
  | .answer _ granted =>
    if w.phase = .asked then
      some (if granted then sys.advance range w .connecting else sys.setWorker range none)
    else none
  | .connect _ opened =>
    if w.phase = .connecting then
      some (sys.advance range w
        (if opened = false then .ending (some .connect)
        else if sys.reader.range = range ∧ sys.reader.closed = false then .opened
        else .ending none))
    else none
  | .header _ read =>
    if w.phase = .opened then
      some (if read then
        { sys.advance range w (sys.reader.note (w.last file)).2
          with reader := (sys.reader.note (w.last file)).1 }
      else sys.advance range w (.ending (some .notAFile)))
    else none
  | .receive _ n =>
    if w.phase = .streaming ∧ 0 < n ∧ n ≤ min (w.last file - w.next) READ_CHUNK then
      some (sys.advance range w (.keeping ((file.drop w.next).take n)))
    else none
  | .keep _ =>
    match w.phase with
    | .keeping chunk =>
      some (match sys.reader.keep range chunk with
        | .ended => sys.advance range w (.ending none)
        | .waits => sys
        | .kept s =>
          { sys.advance range { w with next := w.next + chunk.length } .streaming with reader := s }
        | .panics s => { sys.setWorker range none with reader := s })
    | _ => none
  | .stop _ =>
    if w.phase = .streaming then
      some (sys.advance range w
        (.ending (if w.next < w.last file ∧ w.next = w.offset then some .stopped else none)))
    else none
  | .finish _ =>
    match w.phase with
    | .ending problem =>
      some { sys.setWorker range none with reader := sys.reader.finish range problem }
    | _ => none
  | _ => none

/-- One atomic step, if it can happen. -/
def System.step (file : List UInt8) (sys : System) (action : Action) : Option System :=
  match action with
  | .begin => some (System.ask { sys with reader := sys.reader.restart 0 } 0)
  | .fetch offset length =>
    let pass := sys.reader.fetch offset length
    match pass.asks with
    | none => some { sys with reader := pass.state }
    | some offset => some (System.ask { sys with reader := pass.state } offset)
  | .setFlushing flushing => some { sys with reader := { sys.reader with flushing := flushing } }
  | .close => some { sys with reader := sys.reader.close }
  | .answer range _ | .connect range _ | .header range _ | .receive range _ | .keep range
  | .stop range | .finish range =>
    (sys.workers range).bind fun w => sys.work file range w action

/-- A player reading a file. -/
def reading (file : List UInt8) : Reactive.Process System Action where
  start := {}
  step := System.step file

end Gtkhx.Preview
