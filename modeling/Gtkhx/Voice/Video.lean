import Mathlib.Order.Lattice
import Mathlib.Order.Basic
import Mathlib.Data.Prod.Lex

/-!
# The video extension's vocabulary

The definitions of `hxvoice::video`: stream kinds, publications, receive streams, and
the grammar of the mids that name media sections.
-/

namespace Gtkhx.Voice

/-- A stream kind. The wire values are camera 1, screen 2. -/
inductive VideoKind
  | camera
  | screen
  deriving DecidableEq, Repr

namespace VideoKind

/-- Both kinds, in wire order. -/
def all : List VideoKind := [.camera, .screen]

/-- The `DATA_VIDEO_KIND` value. -/
def wire : VideoKind → UInt16
  | .camera => 1
  | .screen => 2

/-- Decode a wire value; zero and every reserved value are `none`. -/
def fromWire (v : UInt16) : Option VideoKind :=
  if v = 1 then some .camera else if v = 2 then some .screen else none

/-- Slot index for per-kind arrays. The arrays themselves are modelled as functions of
the kind. -/
def index : VideoKind → ℕ
  | .camera => 0
  | .screen => 1

/-- Decoding the wire value of a kind gives the kind back. -/
@[simp] theorem fromWire_wire (k : VideoKind) : fromWire k.wire = some k := by
  cases k <;> rfl

/-- Kinds with the same slot are the same kind. -/
theorem index_injective : Function.Injective index := by
  intro a b hab
  cases a <;> cases b <;> simp_all [index]

@[simp] theorem mem_all (k : VideoKind) : k ∈ all := by
  cases k <;> simp [all]

instance : LinearOrder VideoKind := LinearOrder.lift' index index_injective

end VideoKind

/-- One publication in the room, as a 611 reports it. -/
structure Publication where
  /-- The publishing user. -/
  userId : UInt16
  /-- Camera or screen. -/
  kind : VideoKind
  /-- Whether the publication is paused. -/
  paused : Bool
  deriving DecidableEq, Repr

/-- One stream this client wants to receive. -/
structure Stream where
  /-- The publishing user. -/
  userId : UInt16
  /-- Camera or screen. -/
  kind : VideoKind
  deriving DecidableEq, Repr

namespace Stream

/-- The derived order of the source compares the user first and then the kind. -/
def key (s : Stream) : ℕ ×ₗ ℕ := toLex (s.userId.toNat, s.kind.index)

/-- Streams with the same key are equal. -/
theorem key_injective : Function.Injective key := by
  rintro ⟨u, k⟩ ⟨v, l⟩ h
  have hpair : (u.toNat, k.index) = (v.toNat, l.index) := toLex.injective h
  obtain ⟨hu, hk⟩ := Prod.mk.inj hpair
  rw [UInt16.toNat_inj.mp hu, VideoKind.index_injective hk]

instance : LinearOrder Stream := LinearOrder.lift' key key_injective

end Stream

/-- What a media section carries, read off its mid. -/
inductive Track
  | mic
  | audio (userId : UInt16)
  | videoSend (kind : VideoKind)
  | video (userId : UInt16) (kind : VideoKind)
  deriving DecidableEq, Repr

/-- The remote user a receive section belongs to. -/
def Track.userId : Track → Option UInt16
  | .audio u => some u
  | .video u _ => some u
  | _ => none

/-- True for a section carrying somebody else's media to this client. -/
def Track.isReceive : Track → Bool
  | .audio _ => true
  | .video _ _ => true
  | _ => false

/-- The ceiling on a mid: 16 bytes. Longer mids are rejected, not truncated. -/
def midMaxLen : ℕ := 16

/-- The value of a string of decimal digits. -/
def digitsValue (digits : List Char) : ℕ :=
  digits.foldl (fun n c => 10 * n + (c.toNat - '0'.toNat)) 0

/-- A user id inside a mid: decimal digits with no leading zero, at most 65535. The
intermediate parse is to 32 bits. -/
def parseUid (rest : List Char) : Option UInt16 :=
  if rest = [] ∨ rest.head? = some '0' ∨ ¬rest.all Char.isDigit then none
  else if digitsValue rest < 4294967296 then
    if 1 ≤ digitsValue rest ∧ digitsValue rest ≤ 65535 then
      some (UInt16.ofNat (digitsValue rest))
    else none
  else none

/-- What follows a literal beginning, if the text starts with it. -/
def stripBeginning : List Char → List Char → Option (List Char)
  | [], rest => some rest
  | _ :: _, [] => none
  | c :: cs, d :: ds => if c = d then stripBeginning cs ds else none

/-- Map a mid to the track it names; `none` for a mid this client must mirror in its
answer but never map to a user or play. -/
def parseMid (mid : String) : Option Track :=
  if mid.utf8ByteSize > midMaxLen then none
  else if mid = "send" then some .mic
  else if mid = "cam-send" then some (.videoSend .camera)
  else if mid = "scr-send" then some (.videoSend .screen)
  else match stripBeginning "user-".toList mid.toList with
  | some rest => (parseUid rest).map .audio
  | none => match stripBeginning "cam-user-".toList mid.toList with
    | some rest => (parseUid rest).map (.video · .camera)
    | none => match stripBeginning "scr-user-".toList mid.toList with
      | some rest => (parseUid rest).map (.video · .screen)
      | none => none

end Gtkhx.Voice
