import Gtkhx.Htxf.Worker

/-!
# The flattened file format

A codec of the format: the fork headers with their kind and length, the info block that
ends with the data fork's header, and the resume list.
-/

namespace Gtkhx.Htxf

/-- The four bytes of an integer, most significant first. -/
def be32 (n : ℕ) : List UInt8 := BigEndian.ofU32 (.ofNat n)

/-- Some of the bytes. -/
def slice (bytes : List UInt8) (start length : ℕ) : List UInt8 := (bytes.drop start).take length

/-- `DATA`. -/
def dataKind : List UInt8 := [68, 65, 84, 65]

/-- `MACR`. -/
def macrKind : List UInt8 := [77, 65, 67, 82]

/-- The length in a fork header. -/
def flatForkLen (header : List UInt8) (large : Bool) : ℕ :=
  if large then readBe32 header 8 * 2 ^ 32 + readBe32 header 12 else readBe32 header 12

/-- The codec. -/
def flatFfo : Ffo where
  infoBlockLen hi lo := some (hi.toNat * 256 + lo.toNat + FORK_HEADER_LEN)
  parseFilpInfo info large :=
    if info.length < 93 then none
    else some {
      typeCreator := slice info 4 8
      createTime := slice info 56 4
      modifyTime := slice info 64 4
      comment := slice info 77 (info.length - 93)
      dataForkLen := flatForkLen (info.drop (info.length - 16)) large }
  forkLen := flatForkLen
  packForkHeader kind len large :=
    if len < 2 ^ 32 ∨ large = true ∧ len < 2 ^ 64 then
      some (kind ++ List.replicate 4 0 ++ be32 (len / 2 ^ 32) ++ be32 len)
    else none
  encodeRflt data resource :=
    [82, 70, 76, 84, 0, 1] ++ List.replicate 34 0 ++ [0, 2] ++
      (dataKind ++ be32 data ++ List.replicate 8 0) ++
      (macrKind ++ be32 resource ++ List.replicate 8 0)
  rfltLen := 74

/-- The header of a file of two forks without a comment. -/
def flatHeader : List UInt8 := List.replicate 39 0 ++ [77]

/-- Its info block: the modify date, and the data fork's header. -/
def flatInfo (modified : List UInt8) (len : ℕ) : List UInt8 :=
  List.replicate 64 0 ++ modified.take 4 ++ List.replicate (13 - (modified.take 4).length) 0 ++
    (dataKind ++ List.replicate 4 0 ++ be32 (len / 2 ^ 32) ++ be32 len)

/-- A file without a comment and a resource fork, flattened. -/
def flatFile (modified fork : List UInt8) : List UInt8 :=
  flatHeader ++ (flatInfo modified fork.length ++ fork)

end Gtkhx.Htxf
