import Gtkhx.Library.BigEndian
import Gtkhx.Library.Feed
import Gtkhx.Library.Reader

/-!
# A tracker's listing

What a tracker answers a connection with, read off the connected stream. The parsers of single
headers and records are the protocol library's, and are parameters here.
-/

namespace Gtkhx.Tracker

/-- What goes wrong while a tracker is fetched. -/
inductive TrackerError
  | io (kind : Reader.ErrorKind)
  | shortRead
  | badMagic
  | unsupportedVersion (version : UInt16)
  | badV3Header
  | malformedV3Header (totalSize : UInt32) (recordCount : UInt16)
  | payloadTooLarge (totalSize cap : UInt32)
  | malformedV3Record (index count : UInt16)
  | v3TrailingBytes (n : ℕ)
  | excessivePadding
  deriving DecidableEq

/-- One server of a listing. -/
structure TrackerRecord where
  addrType : UInt8
  address : List UInt8
  port : UInt16
  nusers : UInt16
  name : List UInt8
  desc : List UInt8
  tlvCount : UInt16
  tlvBytes : List UInt8
  deriving DecidableEq

/-- A tracker's listing: the shape of its records, how many the header promised, and they. -/
structure TrackerListing where
  version : UInt8
  expected : UInt16
  records : List TrackerRecord
  deriving DecidableEq

/-- The fixed part of a record, as the protocol library reads it. -/
structure RecordFixed where
  port : UInt16
  nusers : UInt16
  nameLen : UInt8
  deriving DecidableEq

/-- The header of a version 3 listing. -/
structure V3ResponseHeader where
  totalSize : UInt32
  recordCount : UInt16

/-- The parsers of the protocol library. -/
structure Proto where
  parseTrackerHeader : List UInt8 → Option UInt16
  parseTrackerRecordFixed : List UInt8 → Option RecordFixed
  trackerRecordIsPadding : List UInt8 → Bool
  trackerNormalizeText : List UInt8 → List UInt8
  /-- How long a version 3 response header is. -/
  RESP_HDR_LEN : ℕ
  parseTrackerV3ResponseHeader : List UInt8 → Option V3ResponseHeader
  /-- The record at an offset, its text not normalized, and how long it is. -/
  parseTrackerV3Record : List UInt8 → ℕ → Option (TrackerRecord × ℕ)

def HTRK_MAGIC : List UInt8 := [72, 84, 82, 75]

def HTRK_VERSION_V1 : UInt16 := 1

def HTRK_VERSION_V2 : UInt16 := 2

def HTRK_VERSION_V3 : UInt16 := 3

/-- The cap on the records of a version 3 listing. -/
def V3_MAX_PAYLOAD : UInt32 := 16777216

/-- The cap on the batch headers of a version 1 listing. -/
def MAX_V1_PADDING_SLOTS : ℕ := 65535

def ADDR_IPV4 : UInt8 := 4

/-- A stream to a tracker, as what is to come on it. -/
abbrev Incoming := Feed UInt8 Reader.ErrorKind

/-- How a stream that ends too early is reported. -/
def endedEarly : Option Reader.ErrorKind → TrackerError
  | none | some .unexpectedEof => .shortRead
  | some kind => .io kind

/-- `read_exact_or_short`. -/
def readExactOrShort (n : ℕ) : Fallible TrackerError Incoming (List UInt8) :=
  Feed.exactly endedEarly n

/-- The record a version 1 listing gives of the three parts it reads: the fixed part's bytes and
its fields, the name and the description. -/
def v1Record (P : Proto) (fixed : List UInt8) (rec : RecordFixed) (name desc : List UInt8) :
    TrackerRecord where
  addrType := ADDR_IPV4
  address := fixed.take 4
  port := rec.port
  nusers := rec.nusers
  name := P.trackerNormalizeText name
  desc := P.trackerNormalizeText desc
  tlvCount := 0
  tlvBytes := []

/-- The rest of a record, its first eight bytes being there. -/
def readRecord (P : Proto) (head8 : List UInt8) : Fallible TrackerError Incoming TrackerRecord := do
  let rest3 ← readExactOrShort 3
  let rec ← Fallible.ofOption .shortRead (P.parseTrackerRecordFixed (head8 ++ rest3))
  let name ← readExactOrShort rec.nameLen.toNat
  let descLen ← readExactOrShort 1
  let desc ← readExactOrShort (descLen.headD 0).toNat
  return v1Record P (head8 ++ rest3) rec name desc

/-- The loop of `read_v1_listing`: so many records are still to come, and so many batch headers
have been. -/
def readRecords (P : Proto) (remaining paddingSlots : ℕ) (records : List TrackerRecord) :
    Fallible TrackerError Incoming (List TrackerRecord) :=
  match remaining with
  | 0 => pure records
  | remaining + 1 => do
    let head8 ← readExactOrShort 8
    if P.trackerRecordIsPadding head8 then
      if MAX_V1_PADDING_SLOTS < paddingSlots + 1 then .fail .excessivePadding
      else readRecords P (remaining + 1) (paddingSlots + 1) records
    else do
      let rec ← readRecord P head8
      readRecords P remaining paddingSlots (records ++ [rec])
termination_by (remaining, MAX_V1_PADDING_SLOTS - paddingSlots)

/-- `read_v1_listing`, the first six bytes of the reply having been read. -/
def readV1Listing (P : Proto) (resp6 : List UInt8) :
    Fallible TrackerError Incoming TrackerListing := do
  let hdr ← readExactOrShort 8
  let nservers ← Fallible.ofOption .shortRead (P.parseTrackerHeader (resp6 ++ hdr))
  let records ← readRecords P nservers.toNat 0 []
  return ⟨1, nservers, records⟩

/-- The records of a version 3 listing from an offset on, and the offset after them. -/
def readV3Records (P : Proto) (count : UInt16) (payload : List UInt8) :
    (left i off : ℕ) → Fallible TrackerError Incoming (List TrackerRecord × ℕ)
  | 0, _, off => return ([], off)
  | left + 1, i, off => do
    let (rec, consumed) ← Fallible.ofOption (.malformedV3Record (.ofNat i) count)
      (P.parseTrackerV3Record payload off)
    let (records, off) ← readV3Records P count payload left (i + 1) (off + consumed)
    return ({ rec with
      name := P.trackerNormalizeText rec.name
      desc := P.trackerNormalizeText rec.desc } :: records, off)

/-- `read_v3_listing`, its request going through. -/
def readV3Listing (P : Proto) : Fallible TrackerError Incoming TrackerListing := do
  let _ ← readExactOrShort 2
  let hdr ← readExactOrShort P.RESP_HDR_LEN
  let h ← Fallible.ofOption .badV3Header (P.parseTrackerV3ResponseHeader hdr)
  if h.totalSize = 0 ∧ h.recordCount = 0 then return ⟨3, 0, []⟩
  else if h.totalSize = 0 ∨ h.recordCount = 0 then
    .fail (.malformedV3Header h.totalSize h.recordCount)
  else if V3_MAX_PAYLOAD < h.totalSize then .fail (.payloadTooLarge h.totalSize V3_MAX_PAYLOAD)
  else do
    let payload ← readExactOrShort h.totalSize.toNat
    let (records, off) ← readV3Records P h.recordCount payload h.recordCount.toNat 0 0
    if off ≠ payload.length then .fail (.v3TrailingBytes (payload.length - off))
    else return ⟨3, h.recordCount, records⟩

/-- `dispatch_after_response`. -/
def dispatchAfterResponse (P : Proto) (resp6 : List UInt8) :
    Fallible TrackerError Incoming TrackerListing :=
  if resp6.take 4 ≠ HTRK_MAGIC then .fail .badMagic
  else
    match BigEndian.takeU16 (resp6.drop 4) with
    | some (version, _) =>
      if version = HTRK_VERSION_V3 then readV3Listing P
      else if version = HTRK_VERSION_V1 ∨ version = HTRK_VERSION_V2 then readV1Listing P resp6
      else .fail (.unsupportedVersion version)
    | none => .fail .badMagic

/-- `run_v1`, its handshake going through. -/
def runV1 (P : Proto) : Fallible TrackerError Incoming TrackerListing := do
  let resp6 ← readExactOrShort 6
  dispatchAfterResponse P resp6

end Gtkhx.Tracker
