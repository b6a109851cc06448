import Gtkhx.Library.Pieces
import Gtkhx.Library.Reactive
import Gtkhx.Library.Tickets
import Gtkhx.Requests.Path
import Gtkhx.Requests.Ranges

/-!
# Inline media

A picture goes up whole or in parts, and comes down part by part. Each part is a request of
its own, and what is kept between the parts lies under the connection and the number of the
request in flight. The send of a part can close its connection.

The session that reads the replies is outside the repository: it numbers the requests of a
connection, each with a number of its own, and answers each once, as what it was expected to
be. Whether the chunks of a request can be built is a parameter.
-/

namespace Gtkhx.Pictures

open Requests (CUT_SHORT MAX_CHUNK)
open Tickets (cut find put)

/-- `CHUNK_SIZE`. -/
def CHUNK_SIZE : ℕ := 60000

/-- `MAX_TOKEN`. -/
def MAX_TOKEN : ℕ := 1024

/-- `UNTYPED`: application/octet-stream. -/
def UNTYPED : List UInt8 :=
  [97, 112, 112, 108, 105, 99, 97, 116, 105, 111, 110, 47, 111, 99, 116, 101, 116, 45, 115, 116,
    114, 101, 97, 109]

/-- The requests of `hxrequest::media`. -/
inductive MediaRequest
  /-- `upload`. -/
  | upload (payload : List UInt8) (mime : Option (List UInt8))
  /-- `upload_first`. -/
  | uploadFirst (payload : List UInt8) (mime : Option (List UInt8)) (parts : UInt16)
  /-- `upload_next`. -/
  | uploadNext (token payload : List UInt8) (index : UInt16) (last : Bool)
  /-- `download`. -/
  | download (id : List UInt8) (part : Option UInt16)
  deriving DecidableEq

/-- The part of a picture that goes up in a request. -/
def MediaRequest.payload : MediaRequest → List UInt8
  | .upload payload _ | .uploadFirst payload .. | .uploadNext _ payload .. => payload
  | .download .. => []

/-- `from_built`, where `built` tells whether the request's chunks can be built. -/
def MediaRequest.fromBuilt (built : MediaRequest → Bool) (req : MediaRequest) :
    Option MediaRequest :=
  if built req then some req else none

/-- What the session expects of a reply. -/
inductive Expect
  | mediaUpload (last : Bool)
  | mediaDownload
  deriving DecidableEq

/-- `MediaPart`. -/
structure MediaPart where
  payload : List UInt8
  mime : List UInt8
  parts : UInt16
  last : Bool
  deriving DecidableEq

/-- `ChatMedia`. -/
structure ChatMedia where
  id : List UInt8
  mime : List UInt8
  width : Option UInt32
  height : Option UInt32
  bytes : Option UInt32
  deriving DecidableEq

/-- Why a picture failed: the extension's code, and a text. -/
structure MediaFailure where
  code : UInt16
  message : Option String
  deriving DecidableEq

/-- `MediaErrorCode::Generic`. -/
def GENERIC : UInt16 := 0

/-- `c_reason`. -/
def cReason (text : Option String) : Option String :=
  (text.filter (· ≠ "")).map fun t => String.ofList (t.toList.filter (· ≠ '\x00'))

/-- `CString::new`, of what has no NUL in it. -/
def cString (bytes : List UInt8) : Option (List UInt8) := if 0 ∈ bytes then none else some bytes

/-- `Parts`. -/
structure Parts where
  payload : List UInt8
  chunk : ℕ
  count : UInt16
  next : UInt16
  token : Option (List UInt8)
  deriving DecidableEq

/-- `Parts::slice`. -/
def Parts.slice (p : Parts) (index : UInt16) : List UInt8 :=
  let start := min (index.toNat * p.chunk) p.payload.length
  let stop := min (start + p.chunk) p.payload.length
  (p.payload.take stop).drop start

variable {κ : Type*}

/-- `Upload`, with what it was begun with and what has gone out and come in of it. -/
structure UploadJob (κ : Type*) where
  /-- Uploads are numbered as they begin. -/
  number : ℕ
  conn : κ
  /-- The login of the connection that it was begun in. -/
  login : ℕ
  payload : List UInt8
  mime : Option (List UInt8)
  chunk : ℕ
  /-- `Upload::parts`. -/
  parts : Option Parts
  /-- The requests that went out. -/
  sent : List MediaRequest
  /-- What was given as the token, by each reply that asked for another part. -/
  tokens : List (Option (List UInt8))
  /-- The last send closed the connection. -/
  stranded : Bool
  deriving DecidableEq

/-- `Download`, with what has gone out and come in of it. -/
structure DownloadJob (κ : Type*) where
  handle : ℕ
  id : List UInt8
  next : UInt16
  payload : List UInt8
  mime : Option (List UInt8)
  conn : κ
  /-- The login of the connection that it was begun in. -/
  login : ℕ
  /-- The requests that went out. -/
  sent : List MediaRequest
  /-- The parts that came. -/
  got : List MediaPart
  /-- The last send closed the connection. -/
  stranded : Bool
  deriving DecidableEq

/-- How an upload ends. -/
inductive UploadEnd
  /-- `on_done` hears of it. -/
  | heard (result : Except MediaFailure ChatMedia)
  /-- The caller's state goes to `user_data_free`. -/
  | freed

/-- How a download ends. -/
inductive DownloadEnd
  /-- `on_done` hears of it: the picture and its type. -/
  | heard (result : Except MediaFailure (List UInt8 × List UInt8))
  /-- `inline_media_download_cancel`. -/
  | cancelled
  /-- Its connection is forgotten. -/
  | forgotten

/-- A connection. -/
structure MediaConn where
  live : Bool := false
  /-- How many logins it has had. -/
  logins : ℕ := 0
  /-- The numbers its session has given. -/
  used : List UInt32 := []
  /-- `inline_media_cap_ok`. -/
  agreed : Bool := false
  /-- `hx_conn_media_chunk_size`. -/
  chunkSize : UInt32 := 0

/-- `DOWNLOADS`, `UPLOADS` and `HANDLES`, the connections and what their sessions expect, and
what has ended. -/
structure Media (κ : Type*) where
  conns : κ → MediaConn := fun _ => {}
  expects : List ((κ × UInt32) × Expect) := []
  downloads : List ((κ × UInt32) × DownloadJob κ) := []
  uploads : List ((κ × UInt32) × UploadJob κ) := []
  handles : ℕ := 0
  /-- How many uploads have begun. -/
  begun : ℕ := 0
  fetched : List (DownloadJob κ × DownloadEnd) := []
  stored : List (UploadJob κ × UploadEnd) := []

/-- What happens. The request that goes out has the number `trans`, or `next` when it answers
a reply, and its send closes the connection or not. -/
inductive MediaAction (κ : Type*)
  /-- `inline_media_download_start`. -/
  | fetch (c : κ) (id : List UInt8) (trans : UInt32) (closes : Bool)
  /-- `inline_media_download_cancel`. -/
  | cancel (handle : ℕ)
  /-- `hx_send_upload_media`. -/
  | store (c : κ) (payload : List UInt8) (mime : Option (List UInt8)) (trans : UInt32)
      (closes : Bool)
  /-- A reply has a part of a download. -/
  | part (c : κ) (trans : UInt32) (part : MediaPart) (next : UInt32) (closes : Bool)
  /-- A reply asks for the next part of an upload. -/
  | uploading (c : κ) (trans : UInt32) (token : Option (List UInt8)) (next : UInt32)
      (closes : Bool)
  /-- A reply names the picture that went up. -/
  | uploaded (c : κ) (trans : UInt32) (media : ChatMedia)
  /-- A request failed. -/
  | failed (c : κ) (trans : UInt32) (code : UInt16) (reason : Option String)
  /-- The server accepted a login, and said whether it has inline media and the parts' size. -/
  | loggedIn (c : κ) (agreed : Bool) (chunkSize : UInt32)
  /-- The connection closes. -/
  | close (c : κ)
  /-- The connection opens. -/
  | connect (c : κ)

/-- The connection opens, with a session that numbers its requests afresh. -/
def MediaConn.opened (conn : MediaConn) : MediaConn := { conn with live := true, used := [] }

/-- A login is accepted. -/
def MediaConn.loggedIn (conn : MediaConn) (agreed : Bool) (chunkSize : UInt32) : MediaConn :=
  { conn with logins := conn.logins + 1, agreed := agreed, chunkSize := chunkSize }

/-- The session gives a number. -/
def MediaConn.gives (conn : MediaConn) (trans : UInt32) : MediaConn :=
  { conn with used := trans :: conn.used }

/-- The connection closes. -/
def MediaConn.closed (conn : MediaConn) : MediaConn :=
  { conn with live := false, agreed := false, chunkSize := 0 }

section
variable [DecidableEq κ]

/-- A connection changes. -/
def Media.setConn (s : Media κ) (c : κ) (conn : MediaConn) : Media κ :=
  { s with conns := Function.update s.conns c conn }

/-- `forget`. -/
def Media.forget (s : Media κ) (c : κ) : Media κ :=
  { s with
    downloads := s.downloads.filter fun entry => !decide (entry.1.1 = c)
    fetched := s.fetched ++
      (s.downloads.filter fun entry => entry.1.1 = c).map fun entry => (entry.2, .forgotten)
    uploads := s.uploads.filter fun entry => !decide (entry.1.1 = c)
    stored := s.stored ++
      (s.uploads.filter fun entry => entry.1.1 = c).map fun entry => (entry.2, .freed) }

/-- `hx_htlc_close`. -/
def Media.close (s : Media κ) (c : κ) : Media κ :=
  { s with expects := s.expects.filter fun entry => !decide (entry.1.1 = c) }.forget c |>.setConn c
    (s.conns c).closed

/-- `send`, whose request goes out with the session's next number. -/
def Media.send (s : Media κ) (c : κ) (trans : UInt32) (what : Expect) (closes : Bool) :
    Media κ :=
  let expected := { s with expects := put (c, trans) what s.expects }.setConn c
    ((s.conns c).gives trans)
  if closes then expected.close c else expected

/-- A download lies under a key. -/
def Media.putDownload (s : Media κ) (key : κ × UInt32) (d : DownloadJob κ) : Media κ :=
  { s with downloads := put key d s.downloads }

/-- The download under a key is taken out. -/
def Media.cutDownload (s : Media κ) (key : κ × UInt32) : Media κ :=
  { s with downloads := cut key s.downloads }

/-- An upload lies under a key. -/
def Media.putUpload (s : Media κ) (key : κ × UInt32) (u : UploadJob κ) : Media κ :=
  { s with uploads := put key u s.uploads }

/-- The upload under a key is taken out. -/
def Media.cutUpload (s : Media κ) (key : κ × UInt32) : Media κ :=
  { s with uploads := cut key s.uploads }

/-- `chunk_size`. -/
def MediaConn.partSize (conn : MediaConn) : ℕ :=
  if conn.chunkSize = 0 then CHUNK_SIZE else min conn.chunkSize.toNat CHUNK_SIZE

variable (built : MediaRequest → Bool)

/-- `inline_media_download_start`. -/
def Media.fetch (s : Media κ) (c : κ) (id : List UInt8) (trans : UInt32) (closes : Bool) :
    Media κ :=
  if (s.conns c).agreed then
    match (MediaRequest.download id none).fromBuilt built with
    | none => s
    | some req =>
      ({ s with handles := s.handles + 1 }.send c trans .mediaDownload closes).putDownload
        (c, trans)
        { handle := s.handles + 1, id := id, next := 1, payload := [], mime := none, conn := c,
          login := (s.conns c).logins, sent := [req], got := [], stranded := closes }
  else s

/-- `inline_media_download_cancel`. -/
def Media.cancel (s : Media κ) (handle : ℕ) : Media κ :=
  { s with
    downloads := s.downloads.filter fun entry => !decide (entry.2.handle = handle)
    fetched := s.fetched ++
      (s.downloads.filter fun entry => entry.2.handle = handle).map fun entry =>
        (entry.2, .cancelled) }

/-- A download's callback is called. -/
def Media.fetchEnds (s : Media κ) (d : DownloadJob κ)
    (result : Except MediaFailure (List UInt8 × List UInt8)) : Media κ :=
  { s with fetched := s.fetched ++ [(d, .heard result)] }

/-- A download with another part. -/
def DownloadJob.take (d : DownloadJob κ) (part : MediaPart) : DownloadJob κ :=
  { d with
    mime := if d.mime = none ∧ part.mime ≠ [] then some part.mime else d.mime
    payload := d.payload ++ part.payload
    got := d.got ++ [part] }

/-- The picture of a download that has all its parts. The array takes a 32-bit length. -/
def DownloadJob.picture (d : DownloadJob κ) : List UInt8 × List UInt8 :=
  (d.payload.take (d.payload.length % 2 ^ 32), (cString (d.mime.getD UNTYPED)).getD UNTYPED)

/-- `part`. -/
def Media.part (s : Media κ) (c : κ) (trans : UInt32) (part : MediaPart) (next : UInt32)
    (closes : Bool) : Media κ :=
  match find (c, trans) s.downloads with
  | none => s
  | some d =>
    let rest := s.cutDownload (c, trans)
    let d := d.take part
    if part.last then rest.fetchEnds d (.ok d.picture)
    else if d.next < part.parts then
      match (MediaRequest.download d.id (some d.next)).fromBuilt built with
      | none => rest.fetchEnds d (.error ⟨GENERIC, none⟩)
      | some req =>
        (rest.send c next .mediaDownload closes).putDownload (c, next)
          { d with next := d.next + 1, sent := d.sent ++ [req], stranded := closes }
    else rest.fetchEnds d (.error ⟨GENERIC, none⟩)

/-- An upload's first request goes out. -/
def Media.begin (s : Media κ) (c : κ) (payload : List UInt8) (mime : Option (List UInt8))
    (parts : Option Parts) (req : Option MediaRequest) (trans : UInt32) (closes : Bool) :
    Media κ :=
  match req with
  | none => s
  | some req =>
    ({ s with begun := s.begun + 1 }.send c trans (.mediaUpload parts.isNone) closes).putUpload
      (c, trans)
      { number := s.begun, conn := c, login := (s.conns c).logins, payload := payload,
        mime := mime, chunk := (s.conns c).partSize, parts := parts, sent := [req],
        tokens := [], stranded := closes }

/-- `hx_send_upload_media`. -/
def Media.store (s : Media κ) (c : κ) (payload : List UInt8) (mime : Option (List UInt8))
    (trans : UInt32) (closes : Bool) : Media κ :=
  let chunk := (s.conns c).partSize
  if (s.conns c).agreed = false ∨ payload = [] then s
  else if payload.length ≤ chunk then
    s.begin c payload mime none ((MediaRequest.upload payload mime).fromBuilt built) trans closes
  else if 2 ^ 16 ≤ payload.length ⌈/⌉ chunk then s
  else
    let parts : Parts :=
      { payload := payload, chunk := chunk, count := .ofNat (payload.length ⌈/⌉ chunk),
        next := 1, token := none }
    s.begin c payload mime (some parts)
      ((MediaRequest.uploadFirst (parts.slice 0) mime parts.count).fromBuilt built) trans closes

/-- An upload's callback is called. -/
def Media.storeEnds (s : Media κ) (u : UploadJob κ) (result : Except MediaFailure ChatMedia) :
    Media κ :=
  { s with stored := s.stored ++ [(u, .heard result)] }

/-- The token of an upload after a reply. -/
def Parts.learn (p : Parts) (token : Option (List UInt8)) : Parts :=
  match token with
  | none | some [] => p
  | some (b :: t) => { p with token := if (b :: t).length ≤ MAX_TOKEN then some (b :: t) else none }

/-- Whether the part to send next is the last. -/
def Parts.atLast (p : Parts) : Bool := p.count ≤ p.next + 1

/-- The request of the next part, if it can be made. -/
def Parts.nextRequest (p : Parts) : Option MediaRequest :=
  p.token.bind fun token =>
    (MediaRequest.uploadNext token (p.slice p.next) p.next p.atLast).fromBuilt built

/-- `uploading`. -/
def Media.uploading (s : Media κ) (c : κ) (trans : UInt32) (token : Option (List UInt8))
    (next : UInt32) (closes : Bool) : Media κ :=
  match find (c, trans) s.uploads with
  | none => s
  | some u =>
    let rest := s.cutUpload (c, trans)
    let parts := u.parts.map (Parts.learn · token)
    let u := { u with parts := parts, tokens := u.tokens ++ [token] }
    match parts.bind fun p => (p.nextRequest built).map fun req => (p, req) with
    | none => rest.storeEnds u (.error ⟨GENERIC, none⟩)
    | some (p, req) =>
      (rest.send c next (.mediaUpload p.atLast) closes).putUpload (c, next)
        { u with
          parts := some { p with next := p.next + 1 }
          sent := u.sent ++ [req]
          stranded := closes }

/-- `uploaded`. -/
def Media.uploaded (s : Media κ) (c : κ) (trans : UInt32) (media : ChatMedia) : Media κ :=
  match find (c, trans) s.uploads with
  | none => s
  | some u =>
    (s.cutUpload (c, trans)).storeEnds u
      (.ok { media with mime := (cString media.mime).getD [] })

/-- `failed`. -/
def Media.failed (s : Media κ) (c : κ) (trans : UInt32) (code : UInt16)
    (reason : Option String) : Media κ :=
  let failure : MediaFailure := ⟨code, cReason (reason.filter (· ≠ CUT_SHORT))⟩
  match find (c, trans) s.downloads with
  | some d => (s.cutDownload (c, trans)).fetchEnds d (.error failure)
  | none =>
    match find (c, trans) s.uploads with
    | some u => (s.cutUpload (c, trans)).storeEnds u (.error failure)
    | none => s

/-- The session has answered a request. -/
def Media.answered (s : Media κ) (c : κ) (trans : UInt32) : Media κ :=
  { s with expects := cut (c, trans) s.expects }

/-- A request can go out: the connection is live and its session gives another number. -/
def Media.CanAsk (s : Media κ) (c : κ) (trans : UInt32) : Prop :=
  (s.conns c).live = true ∧ trans ∉ (s.conns c).used

instance (s : Media κ) (c : κ) (trans : UInt32) : Decidable (s.CanAsk c trans) := by
  unfold Media.CanAsk
  infer_instance

/-- One step, if it can happen. The session answers a request as what was expected of it, and
no part is longer than a chunk of a reply. -/
def Media.step (s : Media κ) : MediaAction κ → Option (Media κ)
  | .fetch c id number closes =>
    if s.CanAsk c number then some (s.fetch built c id number closes) else none
  | .cancel handle => some (s.cancel handle)
  | .store c payload mime number closes =>
    if s.CanAsk c number then some (s.store built c payload mime number closes) else none
  | .part c number part next closes =>
    if find (c, number) s.expects = some .mediaDownload ∧ s.CanAsk c next ∧
        part.payload.length ≤ MAX_CHUNK then
      some ((s.answered c number).part built c number part next closes)
    else none
  | .uploading c number token next closes =>
    if find (c, number) s.expects = some (.mediaUpload false) ∧ s.CanAsk c next then
      some ((s.answered c number).uploading built c number token next closes)
    else none
  | .uploaded c number media =>
    if find (c, number) s.expects = some (.mediaUpload true) then
      some ((s.answered c number).uploaded c number media)
    else none
  | .failed c number code reason =>
    if find (c, number) s.expects = none then none
    else some ((s.answered c number).failed c number code reason)
  | .loggedIn c agreed chunkSize =>
    if (s.conns c).live then
      some ((s.forget c).setConn c ((s.conns c).loggedIn agreed chunkSize))
    else none
  | .close c => if (s.conns c).live then some (s.close c) else none
  | .connect c =>
    if (s.conns c).live then none
    else some (s.setConn c (s.conns c).opened)

/-- The pictures of a program. -/
def exchange (κ : Type*) [DecidableEq κ] (built : MediaRequest → Bool) :
    Reactive.Process (Media κ) (MediaAction κ) where
  start := {}
  step s action := s.step built action

/-- A login of a connection is over. -/
def MediaConn.Over (conn : MediaConn) (login : ℕ) : Prop :=
  login < conn.logins ∨ login = conn.logins ∧ conn.agreed = false

/-- The last token that replies gave. -/
def newest (tokens : List (Option (List UInt8))) : Option (List UInt8) :=
  ((tokens.filterMap id).filter (· ≠ [])).getLast?

/-- The request that a part of an upload goes up in, by the replies that came before it. -/
def UploadJob.request (u : UploadJob κ) (i : ℕ) : Option MediaRequest :=
  if u.payload.length ≤ u.chunk then some (.upload u.payload u.mime)
  else if i = 0 then
    some (.uploadFirst (Pieces.piece u.chunk u.payload 0) u.mime
      (.ofNat (Pieces.count u.chunk u.payload)))
  else (newest (u.tokens.take i)).map fun token =>
    .uploadNext token (Pieces.piece u.chunk u.payload i) (.ofNat i)
      (i + 1 = Pieces.count u.chunk u.payload)

/-- The requests of an upload are those of its first parts, each once and in order, on the last
token the server gave. -/
structure UploadJob.Ordered (u : UploadJob κ) : Prop where
  size : 0 < u.chunk ∧ u.chunk ≤ CHUNK_SIZE
  limit : u.sent.length ≤ Pieces.count u.chunk u.payload
  counted : Pieces.count u.chunk u.payload < 2 ^ 16
  sent : u.sent.map some = (List.range u.sent.length).map u.request
  short : ∀ i < u.sent.length, ∀ token ∈ newest (u.tokens.take i), token.length ≤ MAX_TOKEN

/-- The requests of a download ask for its first parts, each once and in order, and for none
that the reply before it did not count. -/
structure DownloadJob.Ordered (d : DownloadJob κ) : Prop where
  sent : d.sent = (List.range d.sent.length).map fun i =>
    .download d.id (if i = 0 then none else some (.ofNat i))
  limit : d.sent.length < 2 ^ 16
  behind : d.got.length ≤ d.sent.length ∧ d.sent.length ≤ d.got.length + 1
  asked : ∀ i part, d.got[i]? = some part → i + 1 < d.sent.length →
    part.last = false ∧ i + 1 < part.parts.toNat

/-- A picture and its type are what the parts of a download make, the last of which says so. -/
structure DownloadJob.Whole (d : DownloadJob κ) (picture mime : List UInt8) : Prop where
  all : d.got.length = d.sent.length
  ends : ∃ before part, d.got = before ++ [part] ∧ part.last = true ∧
    ∀ earlier ∈ before, earlier.last = false
  picture : picture = (d.got.map MediaPart.payload).flatten
  mime : mime = (cString (((d.got.map MediaPart.mime).find? (· ≠ [])).getD UNTYPED)).getD UNTYPED

/-- Every upload has ended once, or is in flight once. One that is in flight is of its
connection's present login, unless a send of its own closed the connection; its caller hears
of success only when the whole picture went up in order, and gets its state back only when the
login is over. -/
structure Media.Stored (s : Media κ) : Prop where
  once : Tickets.Kept UploadJob.number s.begun (s.stored.map fun e => e.1.number) s.uploads
  here : ∀ entry ∈ s.uploads, entry.1.1 = entry.2.conn ∧
    if entry.2.stranded then (s.conns entry.1.1).agreed = false
    else (s.conns entry.1.1).agreed = true ∧ entry.2.login = (s.conns entry.1.1).logins
  inFlight : ∀ entry ∈ s.uploads, entry.2.Ordered
  ended : ∀ e ∈ s.stored, e.1.Ordered
  whole : ∀ u media, (u, .heard (.ok media)) ∈ s.stored →
    (u.sent.map MediaRequest.payload).flatten = u.payload
  heard : ∀ u result, (u, .heard result) ∈ s.stored → u.stranded = false
  freed : ∀ u, (u, .freed) ∈ s.stored → (s.conns u.conn).Over u.login

/-- Every download has ended once, or is in flight once. Its caller hears of success only with
the whole picture, and nothing only when it canceled the download or the login is over. -/
structure Media.Fetched (s : Media κ) : Prop where
  once : Tickets.Kept (fun d : DownloadJob κ => d.handle - 1) s.handles
    (s.fetched.map fun e => e.1.handle - 1) s.downloads
  here : ∀ entry ∈ s.downloads, entry.1.1 = entry.2.conn ∧
    if entry.2.stranded then (s.conns entry.1.1).agreed = false
    else (s.conns entry.1.1).agreed = true ∧ entry.2.login = (s.conns entry.1.1).logins
  inFlight : ∀ entry ∈ s.downloads, entry.2.Ordered
  ended : ∀ e ∈ s.fetched, e.1.Ordered
  whole : ∀ d picture mime, (d, .heard (.ok (picture, mime))) ∈ s.fetched →
    d.Whole picture mime
  heard : ∀ d result, (d, .heard result) ∈ s.fetched → d.stranded = false
  forgotten : ∀ d, (d, .forgotten) ∈ s.fetched → (s.conns d.conn).Over d.login

end

end Gtkhx.Pictures
