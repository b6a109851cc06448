import Gtkhx.Tracker.Listing
import Mathlib.Algebra.Order.Group.Nat
import Mathlib.Algebra.BigOperators.Group.List.Basic

/-!
# Version 1 listings, decoded

What a tracker puts on the wire for a list of servers, with a header before any batch of them, and
that the client reads back exactly that list, fails on any part of it, and stops on whatever else
a peer sends.
-/

namespace Gtkhx.Tracker

/-- What the protocol library documents of the parsers a version 1 listing is read with. -/
structure Proto.Documented (P : Proto) : Prop where
  /-- The number of servers is big-endian at offset 10. -/
  header : ∀ before after nservers, before.length = 10 → after.length = 2 →
    P.parseTrackerHeader (before ++ (BigEndian.ofU16 nservers ++ after)) = some nservers
  /-- A record is its address, its port, its users, two reserved bytes and its name's length. -/
  record : ∀ address port nusers reserved nameLen, address.length = 4 → reserved.length = 2 →
    P.parseTrackerRecordFixed (address ++ (BigEndian.ofU16 port ++ (BigEndian.ofU16 nusers ++
      (reserved ++ [nameLen])))) = some ⟨port, nusers, nameLen⟩
  /-- A batch header begins with a zero byte. -/
  padding : ∀ first rest, P.trackerRecordIsPadding (first :: rest) = decide (first = 0)

/-- A server as a tracker lists it. -/
structure Server where
  first : UInt8
  /-- The rest of its address. -/
  address : List UInt8
  port : UInt16
  nusers : UInt16
  reserved : List UInt8
  name : List UInt8
  desc : List UInt8
  hfirst : first ≠ 0
  haddress : address.length = 3
  hreserved : reserved.length = 2
  hname : name.length ≤ 255
  hdesc : desc.length ≤ 255

/-- What follows the leading zero byte of a batch header. -/
structure BatchHeader where
  rest : List UInt8
  hrest : rest.length = 7

/-- The servers of a listing, each with the batch headers before it. -/
structure Listed where
  servers : List (List BatchHeader × Server)
  hservers : servers.length ≤ 65535
  hheaders : (servers.map fun s => s.1.length).sum ≤ 65535

/-- The first eight bytes of a record. -/
def Server.head (s : Server) : List UInt8 :=
  s.first :: (s.address ++ (BigEndian.ofU16 s.port ++ BigEndian.ofU16 s.nusers))

/-- The three bytes after them. -/
def Server.middle (s : Server) : List UInt8 := s.reserved ++ [UInt8.ofNat s.name.length]

/-- A server's record. -/
def Server.encode (s : Server) : List UInt8 :=
  s.head ++ (s.middle ++ (s.name ++ ([UInt8.ofNat s.desc.length] ++ s.desc)))

/-- A server's record with its batch headers. -/
def encodeOne (s : List BatchHeader × Server) : List UInt8 :=
  (s.1.flatMap fun b => 0 :: b.rest) ++ s.2.encode

/-- The records of a listing. -/
def Listed.body (l : Listed) : List UInt8 := l.servers.flatMap encodeOne

/-- The second part of a listing's header: the batch's kind and size, how many servers there are,
and how many of them in the batch. -/
structure SizeHeader where
  size : List UInt8
  batch : List UInt8
  hsize : size.length = 4
  hbatch : batch.length = 2

/-- What follows the first six bytes of a reply. -/
def Listed.encode (l : Listed) (h : SizeHeader) : List UInt8 :=
  (h.size ++ (BigEndian.ofU16 (.ofNat l.servers.length) ++ h.batch)) ++ l.body

/-- The record a server is shown by. -/
def Server.shown (P : Proto) (s : Server) : TrackerRecord where
  addrType := ADDR_IPV4
  address := s.first :: s.address
  port := s.port
  nusers := s.nusers
  name := P.trackerNormalizeText s.name
  desc := P.trackerNormalizeText s.desc
  tlvCount := 0
  tlvBytes := []

section Reading

variable {P : Proto} {rest : List UInt8} {failure : Option Reader.ErrorKind}

private theorem toNat_ofNat_length {l : List UInt8} (h : l.length ≤ 255) :
    (UInt8.ofNat l.length).toNat = l.length := by
  rw [UInt8.toNat_ofNat']
  omega

private theorem length_head (s : Server) : s.head.length = 8 := by
  simp [Server.head, BigEndian.ofU16, s.haddress]

private theorem length_middle (s : Server) : s.middle.length = 3 := by
  simp [Server.middle, s.hreserved]

/-- Reading that many bytes reads them. -/
private theorem run_read {n : ℕ} {front : List UInt8} (hn : front.length = n) (rest : List UInt8)
    (failure : Option Reader.ErrorKind) :
    (readExactOrShort n).run ⟨front ++ rest, failure⟩ = (.ok front, ⟨rest, failure⟩) :=
  Feed.run_exactly_append hn rest failure

/-- The rest of a record gives the server's. -/
theorem run_readRecord (hP : P.Documented) (s : Server) (rest : List UInt8)
    (failure : Option Reader.ErrorKind) :
    (readRecord P s.head).run ⟨s.middle ++ (s.name ++ ([UInt8.ofNat s.desc.length] ++ s.desc)) ++
      rest, failure⟩ = (.ok (s.shown P), ⟨rest, failure⟩) := by
  have hfixed : P.parseTrackerRecordFixed (s.head ++ s.middle) =
      some ⟨s.port, s.nusers, UInt8.ofNat s.name.length⟩ := by
    have h := hP.record (s.first :: s.address) s.port s.nusers s.reserved
      (UInt8.ofNat s.name.length) (by rw [List.length_cons, s.haddress]) s.hreserved
    simpa [Server.head, Server.middle, List.append_assoc] using h
  have htake : (s.head ++ s.middle).take 4 = s.first :: s.address := by
    simp [Server.head, s.haddress]
  unfold readRecord
  simp only [List.append_assoc]
  rw [Fallible.run_bind_ok (run_read (length_middle s) _ _), hfixed, Fallible.ofOption_some,
    Fallible.run_bind_ok (Fallible.run_pure _ _)]
  dsimp only
  rw [Fallible.run_bind_ok (run_read (toNat_ofNat_length s.hname).symm _ _),
    Fallible.run_bind_ok (run_read List.length_singleton _ _), List.headD_cons,
    Fallible.run_bind_ok (run_read (toNat_ofNat_length s.hdesc).symm _ _), Fallible.run_pure]
  simp only [v1Record, Server.shown, htake]

/-- A batch header is skipped. -/
theorem run_readRecords_header (hP : P.Documented) (b : BatchHeader) {remaining slots : ℕ}
    (hslots : slots + 1 ≤ MAX_V1_PADDING_SLOTS) (records : List TrackerRecord) (rest : List UInt8)
    (failure : Option Reader.ErrorKind) :
    (readRecords P (remaining + 1) slots records).run ⟨(0 :: b.rest) ++ rest, failure⟩ =
      (readRecords P (remaining + 1) (slots + 1) records).run ⟨rest, failure⟩ := by
  have hlen : ((0 : UInt8) :: b.rest).length = 8 := by rw [List.length_cons, b.hrest]
  conv_lhs => rw [readRecords]
  rw [Fallible.run_bind_ok (run_read hlen rest failure), hP.padding, if_pos (by simp),
    if_neg (by omega)]

/-- And so are all of them. -/
theorem run_readRecords_headers (hP : P.Documented) (headers : List BatchHeader)
    {remaining slots : ℕ} (hslots : slots + headers.length ≤ MAX_V1_PADDING_SLOTS)
    (records : List TrackerRecord) (rest : List UInt8) (failure : Option Reader.ErrorKind) :
    (readRecords P (remaining + 1) slots records).run
        ⟨(headers.flatMap fun b => 0 :: b.rest) ++ rest, failure⟩ =
      (readRecords P (remaining + 1) (slots + headers.length) records).run ⟨rest, failure⟩ := by
  induction headers generalizing slots with
  | nil => rfl
  | cons b headers ih =>
    rw [List.length_cons] at hslots ⊢
    rw [List.flatMap_cons, List.append_assoc, run_readRecords_header hP b (by omega),
      ih (by omega)]
    congr 2
    omega

/-- The loop returns the servers in order and leaves what follows them. -/
theorem run_readRecords (hP : P.Documented) (servers : List (List BatchHeader × Server))
    {slots : ℕ} (hslots : slots + (servers.map fun s => s.1.length).sum ≤ MAX_V1_PADDING_SLOTS)
    (records : List TrackerRecord) (rest : List UInt8) (failure : Option Reader.ErrorKind) :
    (readRecords P servers.length slots records).run ⟨servers.flatMap encodeOne ++ rest, failure⟩ =
      (.ok (records ++ servers.map fun s => s.2.shown P), ⟨rest, failure⟩) := by
  induction servers generalizing slots records with
  | nil =>
    rw [List.length_nil, readRecords, Fallible.run_pure, List.map_nil, List.append_nil]
    rfl
  | cons s servers ih =>
    rw [List.map_cons, List.sum_cons] at hslots
    have hhead : P.trackerRecordIsPadding s.2.head = false := by
      rw [Server.head, hP.padding, decide_eq_false s.2.hfirst]
    rw [List.length_cons, List.flatMap_cons, encodeOne, List.append_assoc, List.append_assoc,
      run_readRecords_headers hP s.1 (by omega), readRecords, Server.encode, List.append_assoc,
      Fallible.run_bind_ok (run_read (length_head s.2) _ _), hhead, if_neg (by simp),
      Fallible.run_bind_ok (run_readRecord hP s.2 _ _), ih (by omega), List.map_cons,
      List.append_assoc]
    rfl

end Reading

section Bounds

variable {P : Proto}

private theorem within_read (n : ℕ) : Feed.Within n (readExactOrShort n) := Feed.Within.exactly n

private theorem cut_read (n : ℕ) : Feed.Cut .shortRead (readExactOrShort n) :=
  @Feed.Cut.exactly _ _ _ endedEarly n

private theorem within_ofOption {α : Type} (e : TrackerError) (o : Option α) :
    Feed.Within 0 (Fallible.ofOption e o : Fallible TrackerError Incoming α) := by
  cases o with
  | none => exact Feed.Within.fail e 0
  | some a => exact Feed.Within.pure a 0

private theorem cut_ofOption {α : Type} (e : TrackerError) (o : Option α) :
    Feed.Cut .shortRead (Fallible.ofOption e o : Fallible TrackerError Incoming α) := by
  cases o with
  | none => exact Feed.Cut.fail e
  | some a => exact Feed.Cut.pure a

/-- The rest of a record is at most 514 bytes. -/
theorem within_readRecord (head8 : List UInt8) : Feed.Within 514 (readRecord P head8) := by
  have hbyte (b : UInt8) : Feed.Within 255 (readExactOrShort b.toNat) :=
    (within_read _).mono (by have := b.toNat_lt; omega)
  refine ((within_read 3).bind (j := 511) fun rest3 => ?_).mono (by omega)
  refine ((within_ofOption _ _).bind (j := 511) fun rec => ?_).mono (by omega)
  refine ((hbyte _).bind (j := 256) fun name => ?_).mono (by omega)
  refine ((within_read 1).bind (j := 255) fun descLen => ?_).mono (by omega)
  exact ((hbyte _).bind (j := 0) fun desc => Feed.Within.pure _ _).mono (by omega)

theorem cut_readRecord (head8 : List UInt8) : Feed.Cut .shortRead (readRecord P head8) := by
  refine (cut_read 3).bind fun rest3 => ?_
  refine (cut_ofOption _ _).bind fun rec => ?_
  refine (cut_read _).bind fun name => ?_
  refine (cut_read 1).bind fun descLen => ?_
  exact (cut_read _).bind fun desc => Feed.Cut.pure _

/-- The loop takes at most 522 bytes for each record, and eight for each batch header. -/
theorem within_readRecords (remaining slots : ℕ) (hslots : slots ≤ MAX_V1_PADDING_SLOTS)
    (records : List TrackerRecord) :
    Feed.Within (remaining * 522 + (MAX_V1_PADDING_SLOTS + 1 - slots) * 8)
      (readRecords P remaining slots records) := by
  induction remaining, slots, records using readRecords.induct with
  | case1 slots records =>
    rw [readRecords]
    exact Feed.Within.pure _ _
  | case2 slots records remaining ihheader ihrecord =>
    rw [readRecords]
    refine ((within_read 8).bind (j := (remaining + 1) * 522 +
      (MAX_V1_PADDING_SLOTS - slots) * 8) fun head8 => ?_).mono (by omega)
    refine Feed.Within.ite (fun _ => Feed.Within.ite (fun _ => Feed.Within.fail _ _) ?_) fun _ => ?_
    · intro hmore
      exact (ihheader hmore (by omega)).mono (by omega)
    · exact ((within_readRecord head8).bind fun rec => ihrecord rec hslots).mono (by omega)

theorem cut_readRecords (remaining slots : ℕ) (records : List TrackerRecord) :
    Feed.Cut .shortRead (readRecords P remaining slots records) := by
  induction remaining, slots, records using readRecords.induct with
  | case1 slots records =>
    rw [readRecords]
    exact Feed.Cut.pure _
  | case2 slots records remaining ihheader ihrecord =>
    rw [readRecords]
    refine (cut_read 8).bind fun head8 => ?_
    refine Feed.Cut.ite (fun _ => Feed.Cut.ite (fun _ => Feed.Cut.fail _) ihheader) fun _ => ?_
    exact (cut_readRecord head8).bind ihrecord

end Bounds

/-- What a listing is read as. -/
def Listed.shown (P : Proto) (l : Listed) : TrackerListing where
  version := 1
  expected := .ofNat l.servers.length
  records := l.servers.map fun s => s.2.shown P

/-- How many servers a reply promises, none if its header is cut short. -/
def declared (P : Proto) (resp6 bytes : List UInt8) : ℕ :=
  if 8 ≤ bytes.length then ((P.parseTrackerHeader (resp6 ++ bytes.take 8)).map UInt16.toNat).getD 0
  else 0

section Listings

variable {P : Proto} {resp6 : List UInt8}

/-- A listing is read as it is, and nothing after it is. -/
theorem run_readV1Listing (hP : P.Documented) (h6 : resp6.length = 6) (l : Listed) (h : SizeHeader)
    (rest : List UInt8) (failure : Option Reader.ErrorKind) :
    (readV1Listing P resp6).run ⟨l.encode h ++ rest, failure⟩ =
      (.ok (l.shown P), ⟨rest, failure⟩) := by
  have hlen : (h.size ++ (BigEndian.ofU16 (.ofNat l.servers.length) ++ h.batch)).length = 8 := by
    simp [BigEndian.ofU16, h.hsize, h.hbatch]
  have hheader : P.parseTrackerHeader
      (resp6 ++ (h.size ++ (BigEndian.ofU16 (.ofNat l.servers.length) ++ h.batch))) =
      some (.ofNat l.servers.length) := by
    rw [← List.append_assoc]
    refine hP.header _ _ _ ?_ h.hbatch
    rw [List.length_append, h6, h.hsize]
  have hcount : (UInt16.ofNat l.servers.length).toNat = l.servers.length := by
    have hle := l.hservers
    rw [UInt16.toNat_ofNat']
    omega
  have hslots : 0 + (l.servers.map fun s => s.1.length).sum ≤ MAX_V1_PADDING_SLOTS := by
    have hle := l.hheaders
    unfold MAX_V1_PADDING_SLOTS
    omega
  unfold readV1Listing Listed.encode
  rw [List.append_assoc, Fallible.run_bind_ok (run_read hlen _ _), hheader, Fallible.ofOption_some,
    Fallible.run_bind_ok (Fallible.run_pure _ _), hcount]
  unfold Listed.body
  rw [Fallible.run_bind_ok (run_readRecords hP l.servers hslots [] rest failure), List.nil_append]
  rfl

theorem cut_readV1Listing (resp6 : List UInt8) :
    Feed.Cut .shortRead (readV1Listing P resp6) := by
  refine (cut_read 8).bind fun hdr => ?_
  refine (cut_ofOption _ _).bind fun nservers => ?_
  exact (cut_readRecords _ _ _).bind fun records => Feed.Cut.pure _

/-- Some of a listing is too short a read. -/
theorem short_readV1Listing (hP : P.Documented) (h6 : resp6.length = 6) {l : Listed}
    {h : SizeHeader} {bytes missing : List UInt8} (hbytes : bytes ++ missing = l.encode h)
    (hmissing : missing ≠ []) :
    ((readV1Listing P resp6).run ⟨bytes, none⟩).1 = .error .shortRead := by
  refine (cut_readV1Listing resp6).short hmissing ?_
  have hall := run_readV1Listing hP h6 l h [] none
  rw [List.append_nil] at hall
  rw [hbytes, hall]

/-- A version 1 or 2 reply is read as its listing. -/
theorem run_dispatch {version : UInt16}
    (hversion : version = HTRK_VERSION_V1 ∨ version = HTRK_VERSION_V2) :
    dispatchAfterResponse P (HTRK_MAGIC ++ BigEndian.ofU16 version) =
      readV1Listing P (HTRK_MAGIC ++ BigEndian.ofU16 version) := by
  have hdrop : (HTRK_MAGIC ++ BigEndian.ofU16 version).drop 4 = BigEndian.ofU16 version ++ [] := by
    rw [List.append_nil]
    rfl
  have htake : (HTRK_MAGIC ++ BigEndian.ofU16 version).take 4 = HTRK_MAGIC := rfl
  unfold dispatchAfterResponse
  rw [if_neg (not_not_intro htake), hdrop, BigEndian.takeU16_ofU16_append]
  dsimp only
  rw [if_neg, if_pos hversion]
  rcases hversion with rfl | rfl <;> decide

private theorem length_response (version : UInt16) :
    (HTRK_MAGIC ++ BigEndian.ofU16 version).length = 6 := rfl

theorem run_runV1 (hP : P.Documented) {version : UInt16}
    (hversion : version = HTRK_VERSION_V1 ∨ version = HTRK_VERSION_V2) (l : Listed)
    (h : SizeHeader) (rest : List UInt8) (failure : Option Reader.ErrorKind) :
    (runV1 P).run ⟨(HTRK_MAGIC ++ BigEndian.ofU16 version) ++ (l.encode h ++ rest), failure⟩ =
      (.ok (l.shown P), ⟨rest, failure⟩) := by
  unfold runV1
  rw [Fallible.run_bind_ok (run_read (length_response version) _ _), run_dispatch hversion]
  exact run_readV1Listing hP (length_response version) l h rest failure

/-- Some of a reply is too short a read. -/
theorem short_runV1 (hP : P.Documented) {version : UInt16}
    (hversion : version = HTRK_VERSION_V1 ∨ version = HTRK_VERSION_V2) {l : Listed}
    {h : SizeHeader} {bytes missing : List UInt8}
    (hbytes : bytes ++ missing = (HTRK_MAGIC ++ BigEndian.ofU16 version) ++ l.encode h)
    (hmissing : missing ≠ []) : ((runV1 P).run ⟨bytes, none⟩).1 = .error .shortRead := by
  unfold runV1
  rcases List.append_eq_append_iff.mp hbytes with ⟨front, hresponse, -⟩ | ⟨back, rfl, hback⟩
  · have hlen := length_response version
    rw [hresponse, List.length_append] at hlen
    by_cases hfront : front = []
    · subst hfront
      rw [List.append_nil] at hresponse
      rw [← hresponse, ← List.append_nil (HTRK_MAGIC ++ _),
        Fallible.run_bind_ok (run_read (length_response version) _ _), run_dispatch hversion]
      refine short_readV1Listing hP (length_response version)
        (show [] ++ l.encode h = l.encode h from rfl) ?_
      intro hnil
      have hsize := congrArg List.length hnil
      simp [Listed.encode, BigEndian.ofU16] at hsize
    · have hpos := List.length_pos_iff.mpr hfront
      have hread : (readExactOrShort 6).run ⟨bytes, none⟩ = (.error .shortRead, ⟨[], none⟩) := by
        rw [readExactOrShort, Feed.run_exactly, if_neg (show ¬6 ≤ bytes.length by omega)]
        rfl
      rw [Fallible.run_bind_error hread]
  · rw [Fallible.run_bind_ok (run_read (length_response version) _ _), run_dispatch hversion]
    exact short_readV1Listing hP (length_response version) hback.symm hmissing

/-- What a listing takes is bounded by the servers its header promises. -/
theorem bounded_readV1Listing (resp6 : List UInt8) (s : Incoming) :
    s.bytes.length ≤ ((readV1Listing P resp6).run s).2.bytes.length +
      (8 + 65536 * 8 + declared P resp6 s.bytes * 522) := by
  unfold readV1Listing declared
  rw [Fallible.run_bind, readExactOrShort, Feed.run_exactly]
  split_ifs with hlen
  · dsimp only
    rw [Fallible.run_bind]
    have hdrop : (s.bytes.drop 8).length = s.bytes.length - 8 := List.length_drop
    cases P.parseTrackerHeader (resp6 ++ s.bytes.take 8) with
    | none =>
      rw [Fallible.ofOption_none, Fallible.run_fail]
      dsimp only
      omega
    | some nservers =>
      rw [Fallible.ofOption_some, Fallible.run_pure]
      have hrecords := ((within_readRecords (P := P) nservers.toNat 0 (Nat.zero_le _) []).bind
        (j := 0) fun records => Feed.Within.pure (TrackerListing.mk 1 nservers records) 0)
        ⟨s.bytes.drop 8, s.failure⟩
      have hle := hrecords.2
      dsimp only [Option.map_some, Option.getD_some, MAX_V1_PADDING_SLOTS] at hle ⊢
      omega
  · dsimp only
    omega

/-- The listing reader decodes exactly the listing format: it returns the servers of every listing
and takes nothing after them, it fails on any part of one, and on any stream it stops after what
the header promises. -/
theorem listing_decodes (hP : P.Documented) :
    (∀ resp6 : List UInt8, resp6.length = 6 → ∀ (l : Listed) (h : SizeHeader),
      (∀ rest failure, (readV1Listing P resp6).run ⟨l.encode h ++ rest, failure⟩ =
        (.ok (l.shown P), ⟨rest, failure⟩)) ∧
      ∀ bytes missing, bytes ++ missing = l.encode h → missing ≠ [] →
        ((readV1Listing P resp6).run ⟨bytes, none⟩).1 = .error .shortRead) ∧
    (∀ version, version = HTRK_VERSION_V1 ∨ version = HTRK_VERSION_V2 →
      ∀ (l : Listed) (h : SizeHeader),
      (∀ rest failure,
        (runV1 P).run ⟨(HTRK_MAGIC ++ BigEndian.ofU16 version) ++ (l.encode h ++ rest), failure⟩ =
          (.ok (l.shown P), ⟨rest, failure⟩)) ∧
      ∀ bytes missing, bytes ++ missing = (HTRK_MAGIC ++ BigEndian.ofU16 version) ++ l.encode h →
        missing ≠ [] → ((runV1 P).run ⟨bytes, none⟩).1 = .error .shortRead) ∧
    ∀ (resp6 : List UInt8) (s : Incoming), s.bytes.length ≤
      ((readV1Listing P resp6).run s).2.bytes.length +
        (8 + 65536 * 8 + declared P resp6 s.bytes * 522) := by
  refine ⟨fun resp6 h6 l h => ⟨?_, ?_⟩, fun version hversion l h => ⟨?_, ?_⟩, ?_⟩
  · exact run_readV1Listing hP h6 l h
  · exact fun bytes missing => short_readV1Listing hP h6
  · exact run_runV1 hP hversion l h
  · exact fun bytes missing => short_runV1 hP hversion
  · exact bounded_readV1Listing

end Listings

/-- Parsers that do what is documented, for text without escape sequences. -/
def plainProto : Proto where
  parseTrackerHeader hdr := (BigEndian.takeU16 (hdr.drop 10)).map Prod.fst
  parseTrackerRecordFixed fixed := do
    let (port, rest) ← BigEndian.takeU16 (fixed.drop 4)
    let (nusers, rest) ← BigEndian.takeU16 rest
    let nameLen ← rest[2]?
    return ⟨port, nusers, nameLen⟩
  trackerRecordIsPadding head := head.head? = some 0
  trackerNormalizeText text := text.map fun b => if b = 13 then 10 else b
  RESP_HDR_LEN := 10
  parseTrackerV3ResponseHeader _ := none
  parseTrackerV3Record _ _ := none

theorem plainProto_documented : plainProto.Documented where
  header before after nservers hbefore _ := by
    simp [plainProto, ← hbefore]
  record address port nusers reserved nameLen haddress hreserved := by
    simp [plainProto, ← haddress, ← hreserved]
  padding first rest := by
    simp [plainProto]

/-- A listing of one server, after two batch headers. -/
def oneServer : Listed where
  servers := [([⟨[1, 0, 20, 0, 1, 0, 1], rfl⟩, ⟨[0, 0, 0, 0, 0, 0, 0], rfl⟩],
    ⟨1, [2, 3, 4], 5500, 3, [0, 0], [104, 105], [13], by decide, rfl, rfl, by decide, by decide⟩)]
  hservers := by decide
  hheaders := by decide

theorem oneServer_decodes :
    (runV1 plainProto).run ⟨(HTRK_MAGIC ++ BigEndian.ofU16 HTRK_VERSION_V1) ++
      (oneServer.encode ⟨[0, 1, 0, 20], [0, 1], rfl, rfl⟩ ++ [7]), none⟩ =
        (.ok (oneServer.shown plainProto), ⟨[7], none⟩) :=
  ((listing_decodes plainProto_documented).2.1 HTRK_VERSION_V1 (Or.inl rfl) oneServer
    ⟨[0, 1, 0, 20], [0, 1], rfl, rfl⟩).1 [7] none

end Gtkhx.Tracker
