import Mathlib.Data.Nat.Basic
import Mathlib.Tactic.NormNum

/-!
# Big-endian integers

The network byte order of 16- and 32-bit integers, and readers that take one off the
front of a byte string and return the rest.
-/

namespace BigEndian

/-- The two bytes of a 16-bit integer, most significant first. -/
def ofU16 (v : UInt16) : List UInt8 :=
  [UInt8.ofNat (v.toNat / 256), UInt8.ofNat v.toNat]

/-- The four bytes of a 32-bit integer, most significant first. -/
def ofU32 (v : UInt32) : List UInt8 :=
  [UInt8.ofNat (v.toNat / 16777216), UInt8.ofNat (v.toNat / 65536),
    UInt8.ofNat (v.toNat / 256), UInt8.ofNat v.toNat]

/-- Take a 16-bit integer off the front. -/
def takeU16 : List UInt8 → Option (UInt16 × List UInt8)
  | a :: b :: rest => some (UInt16.ofNat (a.toNat * 256 + b.toNat), rest)
  | _ => none

/-- Take a 32-bit integer off the front. -/
def takeU32 : List UInt8 → Option (UInt32 × List UInt8)
  | a :: b :: c :: d :: rest =>
    some (UInt32.ofNat (a.toNat * 16777216 + b.toNat * 65536 + c.toNat * 256 + d.toNat), rest)
  | _ => none

/-- Reading what was written returns the integer and leaves the rest. -/
@[simp] theorem takeU16_ofU16_append (v : UInt16) (rest : List UInt8) :
    takeU16 (ofU16 v ++ rest) = some (v, rest) := by
  have hv : v.toNat < 65536 := v.toNat_lt
  have hbytes : (UInt8.ofNat (v.toNat / 256)).toNat * 256 + (UInt8.ofNat v.toNat).toNat =
      v.toNat := by
    simp only [UInt8.toNat_ofNat']
    omega
  simp only [ofU16, List.cons_append, List.nil_append, takeU16, hbytes, UInt16.ofNat_toNat]

/-- Reading what was written returns the integer and leaves the rest. -/
@[simp] theorem takeU32_ofU32_append (v : UInt32) (rest : List UInt8) :
    takeU32 (ofU32 v ++ rest) = some (v, rest) := by
  have hv : v.toNat < 4294967296 := v.toNat_lt
  have hbytes : (UInt8.ofNat (v.toNat / 16777216)).toNat * 16777216 +
      (UInt8.ofNat (v.toNat / 65536)).toNat * 65536 +
      (UInt8.ofNat (v.toNat / 256)).toNat * 256 + (UInt8.ofNat v.toNat).toNat = v.toNat := by
    simp only [UInt8.toNat_ofNat']
    omega
  simp only [ofU32, List.cons_append, List.nil_append, takeU32, hbytes, UInt32.ofNat_toNat]

end BigEndian
