import Gtkhx.Pictures.Filed
import Mathlib.Algebra.Order.BigOperators.Group.List

/-!
# What goes out and comes in of a picture

A picture that goes up in parts has sent the parts before the next (`UploadJob.Going`), and one
that comes down has got what it asked for but the last part (`DownloadJob.Going`). Each reply
keeps that or ends the job, which then has sent what it should (`Done`).
-/

namespace Gtkhx.Pictures

open Requests (MAX_CHUNK)

variable {κ : Type*}

/-- The last part has gone out. -/
def UploadJob.onLast (u : UploadJob κ) : Bool :=
  match u.parts with
  | none => true
  | some p => p.next = p.count

instance : Job κ (UploadJob κ) where
  number := UploadJob.number
  conn := UploadJob.conn
  login := UploadJob.login
  stranded := UploadJob.stranded
  expect u := .mediaUpload u.onLast

instance : Job κ (DownloadJob κ) where
  number d := d.handle - 1
  conn := DownloadJob.conn
  login := DownloadJob.login
  stranded := DownloadJob.stranded
  expect _ := .mediaDownload

/-- A slice is a piece of the picture. -/
theorem Parts.slice_eq (p : Parts) (index : UInt16) :
    p.slice index = Pieces.piece p.chunk p.payload index.toNat := by
  unfold Parts.slice Pieces.piece
  dsimp only
  rw [List.drop_take]
  rcases Nat.le_total (index.toNat * p.chunk) p.payload.length with hle | hle
  · rw [Nat.min_eq_left hle, List.take_eq_take_iff, List.length_drop]
    omega
  · rw [Nat.min_eq_right hle, List.drop_of_length_le le_rfl, List.drop_of_length_le hle]
    simp

theorem newest_snoc_cons (tokens : List (Option (List UInt8))) (b : UInt8) (t : List UInt8) :
    newest (tokens ++ [some (b :: t)]) = some (b :: t) := by
  simp [newest]

theorem newest_snoc_none (tokens : List (Option (List UInt8))) :
    newest (tokens ++ [none]) = newest tokens := by
  simp [newest]

theorem newest_snoc_nil (tokens : List (Option (List UInt8))) :
    newest (tokens ++ [some []]) = newest tokens := by
  simp [newest]

/-- What is kept of an upload in parts. -/
structure Parts.Of (p : Parts) (u : UploadJob κ) : Prop where
  payload : p.payload = u.payload
  chunk : p.chunk = u.chunk
  long : u.chunk < u.payload.length
  count : p.count.toNat = Pieces.count u.chunk u.payload
  next : p.next.toNat = u.sent.length
  token : p.token = newest u.tokens

/-- An upload in flight. -/
structure UploadJob.Going (u : UploadJob κ) : Prop extends u.Ordered where
  steady : u.sent.length = u.tokens.length + 1
  fits : u.parts = none → u.payload ≠ [] ∧ u.payload.length ≤ u.chunk
  inParts : ∀ p, u.parts = some p → p.Of u
  kept : ∀ token ∈ newest u.tokens, token.length ≤ MAX_TOKEN

/-- An upload that has ended. -/
structure UploadJob.Done (u : UploadJob κ) (e : UploadEnd) : Prop where
  ordered : u.Ordered
  whole : ∀ media, e = .heard (.ok media) →
    (u.sent.map MediaRequest.payload).flatten = u.payload
  heard : ∀ result, e = .heard result → u.stranded = false

namespace UploadJob

variable {u : UploadJob κ}

/-- The request of a part has that piece of the picture. -/
theorem request_payload (hchunk : 0 < u.chunk) {i : ℕ}
    (hlt : i < Pieces.count u.chunk u.payload) {req : MediaRequest}
    (hreq : u.request i = some req) : req.payload = Pieces.piece u.chunk u.payload i := by
  unfold request at hreq
  split at hreq
  next hfits =>
    obtain rfl := Option.some.inj hreq
    have hone : Pieces.count u.chunk u.payload ≤ 1 := by
      rw [Pieces.count, ceilDiv_le_iff_le_mul hchunk, Nat.mul_one]
      exact hfits
    obtain rfl : i = 0 := by omega
    exact (Pieces.piece_zero hfits).symm
  next =>
    split at hreq
    next hzero =>
      obtain rfl := Option.some.inj hreq
      rw [hzero]
      rfl
    next =>
      obtain ⟨token, -, rfl⟩ := Option.map_eq_some_iff.mp hreq
      rfl

/-- What went out are the first pieces. -/
theorem Ordered.pieces (h : u.Ordered) :
    u.sent.map MediaRequest.payload =
      (List.range u.sent.length).map (Pieces.piece u.chunk u.payload) := by
  refine List.ext_getElem (by simp) fun i hi hi' => ?_
  rw [List.length_map] at hi
  rw [List.getElem_map, List.getElem_map, List.getElem_range]
  refine request_payload h.size.1 (lt_of_lt_of_le hi h.limit) ?_
  have hith := congrArg (·[i]?) h.sent
  simpa [hi] using hith.symm

/-- When the last part has gone out, all of the picture has. -/
theorem Going.whole (h : u.Going) (hlast : u.onLast = true) :
    (u.sent.map MediaRequest.payload).flatten = u.payload := by
  have hall : u.sent.length = Pieces.count u.chunk u.payload := by
    cases hparts : u.parts with
    | none =>
      obtain ⟨hne, hfits⟩ := h.fits hparts
      have hone := Pieces.count_eq_one h.size.1 hne hfits
      have := h.limit
      have := h.steady
      omega
    | some p =>
      have hof := h.inParts p hparts
      have hnext : p.next = p.count := by simpa [onLast, hparts] using hlast
      rw [← hof.next, ← hof.count, hnext]
  rw [h.pieces, hall, Pieces.flatten_all h.size.1]

/-- A reply bears on no request that went out before. -/
theorem request_reply (u : UploadJob κ) (parts : Option Parts) (token : Option (List UInt8))
    {i : ℕ} (hle : i ≤ u.tokens.length) :
    { u with parts := parts, tokens := u.tokens ++ [token] }.request i = u.request i := by
  unfold request
  dsimp only
  rw [List.take_append_of_le_length hle]

theorem Going.reply (h : u.Going) (parts : Option Parts) (token : Option (List UInt8)) :
    { u with parts := parts, tokens := u.tokens ++ [token] }.Ordered where
  size := h.size
  limit := h.limit
  counted := h.counted
  sent := by
    refine h.sent.trans (List.map_congr_left fun i hi => ?_)
    have hlt : i < u.sent.length := List.mem_range.mp hi
    have hsteady := h.steady
    exact (request_reply u parts token (by omega)).symm
  short i hi t ht := by
    change i < u.sent.length at hi
    have hsteady := h.steady
    rw [List.take_append_of_le_length (by omega)] at ht
    exact h.short i hi t ht

/-- The token of the next part is the last that the server gave. -/
theorem learn_token {p : Parts} {tokens : List (Option (List UInt8))}
    (hnewest : p.token = newest tokens)
    (hkept : ∀ t ∈ newest tokens, t.length ≤ MAX_TOKEN) {given : Option (List UInt8)}
    {t : List UInt8} (ht : (p.learn given).token = some t) :
    newest (tokens ++ [given]) = some t ∧ t.length ≤ MAX_TOKEN := by
  unfold Parts.learn at ht
  split at ht
  next =>
    rw [newest_snoc_none, ← hnewest]
    exact ⟨ht, hkept t (hnewest ▸ ht)⟩
  next =>
    rw [newest_snoc_nil, ← hnewest]
    exact ⟨ht, hkept t (hnewest ▸ ht)⟩
  next b rest =>
    obtain ⟨hshort, hgiven⟩ := Option.ite_none_right_eq_some.mp ht
    obtain rfl := Option.some.inj hgiven
    exact ⟨newest_snoc_cons .., hshort⟩

/-- Learning a token changes nothing else. -/
theorem learn_rest (p : Parts) (token : Option (List UInt8)) :
    (p.learn token).payload = p.payload ∧ (p.learn token).chunk = p.chunk ∧
      (p.learn token).count = p.count ∧ (p.learn token).next = p.next := by
  unfold Parts.learn
  split <;> exact ⟨rfl, rfl, rfl, rfl⟩

/-- The part after the one to send next. -/
theorem advance {p : Parts} {n : ℕ} (hnext : p.next.toNat = n) (hmore : n < p.count.toNat) :
    (p.next + 1).toNat = n + 1 ∧ p.atLast = decide (n + 1 = p.count.toNat) := by
  have hsucc : (p.next + 1).toNat = n + 1 := by
    have hlt := p.count.toNat_lt
    rw [UInt16.toNat_add, hnext]
    exact Nat.mod_eq_of_lt (by simpa using by omega)
  refine ⟨hsucc, decide_eq_decide.mpr ?_⟩
  rw [UInt16.le_iff_toNat_le, hsucc]
  omega

/-- There is another part to send as long as the last has not gone out. -/
theorem Going.more (h : u.Going) {p : Parts} (hparts : u.parts = some p)
    (hlast : u.onLast = false) : p.next.toNat < p.count.toNat := by
  have hof := h.inParts p hparts
  have hne : p.next ≠ p.count := by simpa [onLast, hparts] using hlast
  have hle : p.next.toNat ≤ p.count.toNat := by
    rw [hof.next, hof.count]
    exact h.limit
  exact lt_of_le_of_ne hle fun heq => hne (UInt16.toNat_inj.mp heq)

/-- The request of the next part, when it can be made, is the one that is to go out. -/
theorem Going.nextRequest (h : u.Going) (built : MediaRequest → Bool) {p : Parts}
    {token : Option (List UInt8)} {req : MediaRequest} (hparts : u.parts = some p)
    (hlast : u.onLast = false) (hreq : (p.learn token).nextRequest built = some req)
    (parts : Option Parts) :
    { u with parts := parts, tokens := u.tokens ++ [token] }.request u.sent.length = some req ∧
      ∃ t, (p.learn token).token = some t ∧ newest (u.tokens ++ [token]) = some t ∧
        t.length ≤ MAX_TOKEN := by
  have hof := h.inParts p hparts
  obtain ⟨hpayload, hchunk, hcount, hnext⟩ := learn_rest p token
  obtain ⟨t, htoken, hbuilt⟩ := Option.bind_eq_some_iff.mp hreq
  obtain ⟨-, hreq⟩ := Option.ite_none_right_eq_some.mp hbuilt
  obtain ⟨hnewest, hshort⟩ := learn_token hof.token h.kept htoken
  refine ⟨?_, t, htoken, hnewest, hshort⟩
  have hsent : (p.learn token).next.toNat = u.sent.length := hnext ▸ hof.next
  have hcounted : (p.learn token).count.toNat = Pieces.count u.chunk u.payload :=
    hcount ▸ hof.count
  have hmore := h.more hparts hlast
  rw [← hnext, ← hcount] at hmore
  have hatLast := (advance hsent (hsent ▸ hmore)).2
  have hlong : ¬u.payload.length ≤ u.chunk := not_le.mpr hof.long
  have hsteady := h.steady
  have hpos : u.sent.length ≠ 0 := by omega
  have htake : (u.tokens ++ [token]).take u.sent.length = u.tokens ++ [token] :=
    List.take_of_length_le (by simp [hsteady])
  unfold request
  simp only [hlong, hpos, if_false]
  rw [htake, hnewest, ← Option.some.inj hreq, Parts.slice_eq, hpayload, hchunk, hof.payload,
    hof.chunk, hatLast, hcounted, hsent, Option.map_some, ← hsent, UInt16.ofNat_toNat]

/-- The next part goes out. -/
theorem Going.next (h : u.Going) (built : MediaRequest → Bool) {p q : Parts}
    {token : Option (List UInt8)} {req : MediaRequest} (hparts : u.parts = some p)
    (hq : p.learn token = q) (hlast : u.onLast = false)
    (hreq : q.nextRequest built = some req) (stranded : Bool) :
    { u with
      parts := some { q with next := q.next + 1 }
      tokens := u.tokens ++ [token]
      sent := u.sent ++ [req]
      stranded := stranded }.Going := by
  have hof := h.inParts p hparts
  have hsteady := h.steady
  have hmore := h.more hparts hlast
  obtain ⟨hpayload, hchunk, hcount, hnext⟩ := learn_rest p token
  have hordered := h.reply (some { q with next := q.next + 1 }) token
  obtain ⟨hrequest, t, htoken, hnewest, hshort⟩ := h.nextRequest built hparts hlast (hq ▸ hreq)
    (some { q with next := q.next + 1 })
  rw [hq] at hpayload hchunk hcount hnext htoken
  exact {
    size := h.size
    limit := by
      rw [List.length_append, List.length_singleton, ← hof.next, ← hof.count]
      exact hmore
    counted := h.counted
    sent := by
      rw [List.map_append, List.length_append, List.length_singleton, List.range_succ,
        List.map_append, List.map_singleton, List.map_singleton]
      exact congrArg₂ _ hordered.sent (congrArg (fun r => [r]) hrequest.symm)
    short := fun i hi t' ht' => by
      rw [List.length_append, List.length_singleton] at hi
      rcases Nat.lt_succ_iff_lt_or_eq.mp hi with hlt | rfl
      · exact hordered.short i hlt t' ht'
      · rw [List.take_of_length_le (by simp [hsteady]), hnewest] at ht'
        exact Option.some.inj ht' ▸ hshort
    steady := by simp [hsteady]
    fits := fun hnone => by simp at hnone
    inParts := fun p' hp' => by
      obtain rfl := Option.some.inj hp'
      exact {
        payload := hpayload.trans hof.payload
        chunk := hchunk.trans hof.chunk
        long := hof.long
        count := hcount ▸ hof.count
        next := by
          rw [List.length_append, List.length_singleton, ← hof.next]
          exact (advance (congrArg UInt16.toNat hnext) (hcount ▸ hmore)).1
        token := htoken.trans hnewest.symm }
    kept := fun t' ht' => by
      change t' ∈ newest (u.tokens ++ [token]) at ht'
      rw [hnewest] at ht'
      exact Option.some.inj ht' ▸ hshort }

/-- The reply to the next part is expected as what it is. -/
theorem Going.atLast (h : u.Going) {p q : Parts} (hparts : u.parts = some p)
    {token : Option (List UInt8)} (hq : p.learn token = q) (hlast : u.onLast = false) :
    q.atLast = decide (q.next + 1 = q.count) := by
  obtain ⟨-, -, hcount, hnext⟩ := learn_rest p token
  rw [hq] at hcount hnext
  have hmore := h.more hparts hlast
  rw [← hnext, ← hcount] at hmore
  obtain ⟨hsucc, hatLast⟩ := advance rfl hmore
  rw [hatLast]
  exact decide_eq_decide.mpr (by rw [← UInt16.toNat_inj, hsucc])

/-- An upload begins with a picture that fits in one part. -/
theorem going_whole {number : ℕ} {conn : κ} {login : ℕ} {payload : List UInt8}
    {mime : Option (List UInt8)} {chunk : ℕ} {stranded : Bool} (hne : payload ≠ [])
    (hsize : 0 < chunk ∧ chunk ≤ CHUNK_SIZE) (hfits : payload.length ≤ chunk) :
    UploadJob.Going ⟨number, conn, login, payload, mime, chunk, none, [.upload payload mime], [],
      stranded⟩ := by
  have hone := Pieces.count_eq_one hsize.1 hne hfits
  exact {
    size := hsize
    limit := hone.ge
    counted := by
      change Pieces.count chunk payload < _
      rw [hone]
      decide
    sent := by simp [request, hfits]
    short := by simp [newest]
    steady := rfl
    fits := fun _ => ⟨hne, hfits⟩
    inParts := by simp
    kept := by simp [newest] }

/-- An upload begins with the first part of a picture. -/
theorem going_first {number : ℕ} {conn : κ} {login : ℕ} {payload : List UInt8}
    {mime : Option (List UInt8)} {chunk : ℕ} {stranded : Bool} {p : Parts}
    (hsize : 0 < chunk ∧ chunk ≤ CHUNK_SIZE) (hlong : chunk < payload.length)
    (hcounted : Pieces.count chunk payload < 2 ^ 16)
    (hp : p = ⟨payload, chunk, .ofNat (Pieces.count chunk payload), 1, none⟩) :
    UploadJob.Going ⟨number, conn, login, payload, mime, chunk, some p,
      [.uploadFirst (p.slice 0) mime p.count], [], stranded⟩ := by
  subst hp
  have hmany := Pieces.one_lt_count hsize.1 hlong
  exact {
    size := hsize
    limit := hmany.le
    counted := hcounted
    sent := by simp [request, not_le.mpr hlong, Parts.slice_eq]
    short := by simp [newest]
    steady := rfl
    fits := by simp
    inParts := fun p' hp' => by
      obtain rfl := Option.some.inj hp'
      exact {
        payload := rfl
        chunk := rfl
        long := hlong
        count := UInt16.toNat_ofNat_of_lt' hcounted
        next := rfl
        token := rfl }
    kept := by simp [newest] }

end UploadJob

/-- A download in flight. -/
structure DownloadJob.Going (d : DownloadJob κ) : Prop extends d.Ordered where
  next : d.next.toNat = d.sent.length
  waits : d.sent.length = d.got.length + 1
  payload : d.payload = (d.got.map MediaPart.payload).flatten
  mime : d.mime = (d.got.map MediaPart.mime).find? (· ≠ [])
  more : ∀ part ∈ d.got, part.last = false
  small : ∀ part ∈ d.got, part.payload.length ≤ MAX_CHUNK

/-- A download that has ended. -/
structure DownloadJob.Done (d : DownloadJob κ) (e : DownloadEnd) : Prop where
  ordered : d.Ordered
  whole : ∀ picture mime, e = .heard (.ok (picture, mime)) → d.Whole picture mime
  heard : ∀ result, e = .heard result → d.stranded = false

namespace DownloadJob

variable {d : DownloadJob κ} {part : MediaPart}

/-- What a download has got with another part. -/
theorem Going.taken (h : d.Going) (part : MediaPart) (hsmall : part.payload.length ≤ MAX_CHUNK) :
    (d.take part).payload = ((d.got ++ [part]).map MediaPart.payload).flatten ∧
      (d.take part).mime = ((d.got ++ [part]).map MediaPart.mime).find? (· ≠ []) ∧
      (d.take part).payload.length < 2 ^ 32 := by
  have hpayload : (d.take part).payload =
      ((d.got ++ [part]).map MediaPart.payload).flatten := by
    rw [List.map_append, List.flatten_append, ← h.payload]
    simp [take]
  refine ⟨hpayload, ?_, ?_⟩
  · rw [List.map_append, List.find?_append, ← h.mime]
    unfold take
    cases d.mime with
    | none => by_cases hmime : part.mime = [] <;> simp [hmime]
    | some mime => simp
  · have hcount : (d.got ++ [part]).length < 2 ^ 16 := by
      rw [List.length_append, List.length_singleton, ← h.waits]
      exact h.limit
    have hle : (d.take part).payload.length ≤ (d.got ++ [part]).length * MAX_CHUNK := by
      rw [hpayload, List.length_flatten]
      refine (List.sum_le_card_nsmul _ MAX_CHUNK fun n hn => ?_).trans (by simp)
      obtain ⟨_, hmem, rfl⟩ := List.mem_map.mp hn
      obtain ⟨earlier, hearlier, rfl⟩ := List.mem_map.mp hmem
      rcases List.mem_append.mp hearlier with hin | hin
      · exact h.small earlier hin
      · exact List.mem_singleton.mp hin ▸ hsmall
    calc (d.take part).payload.length
        ≤ (d.got ++ [part]).length * MAX_CHUNK := hle
      _ ≤ (2 ^ 16 - 1) * MAX_CHUNK := Nat.mul_le_mul_right _ (by omega)
      _ < 2 ^ 32 := by decide

/-- Another part came. -/
theorem Going.take (h : d.Going) (part : MediaPart) : (d.take part).Ordered where
  sent := h.sent
  limit := h.limit
  behind := by
    have hwaits := h.waits
    change (d.got ++ [part]).length ≤ d.sent.length ∧ d.sent.length ≤ (d.got ++ [part]).length + 1
    rw [List.length_append, List.length_singleton]
    omega
  asked i earlier hearlier hlt := by
    have hwaits := h.waits
    change (d.got ++ [part])[i]? = some earlier at hearlier
    change i + 1 < d.sent.length at hlt
    rw [List.getElem?_append_left (by omega)] at hearlier
    exact h.asked i earlier hearlier hlt

/-- The last part came: the picture is whole. -/
theorem Going.whole (h : d.Going) (hsmall : part.payload.length ≤ MAX_CHUNK)
    (hlast : part.last = true) :
    (d.take part).Whole (d.take part).picture.1 (d.take part).picture.2 := by
  obtain ⟨hpayload, hmime, hlength⟩ := h.taken part hsmall
  exact {
    all := by
      change (d.got ++ [part]).length = d.sent.length
      rw [h.waits, List.length_append, List.length_singleton]
    ends := ⟨d.got, part, rfl, hlast, h.more⟩
    picture := by
      change (d.take part).payload.take _ = _
      rw [Nat.mod_eq_of_lt hlength, List.take_length]
      exact hpayload
    mime := by
      change (cString ((d.take part).mime.getD UNTYPED)).getD UNTYPED = _
      rw [hmime]
      rfl }

/-- The next part is asked for. -/
theorem Going.asks (h : d.Going) (hsmall : part.payload.length ≤ MAX_CHUNK)
    (hmore : part.last = false) (hlt : d.next < part.parts) {d' : DownloadJob κ}
    (hd' : d.take part = d') (stranded : Bool) :
    { d' with
      next := d'.next + 1
      sent := d'.sent ++ [MediaRequest.download d'.id (some d'.next)]
      stranded := stranded }.Going := by
  obtain ⟨hpayload, hmime, -⟩ := h.taken part hsmall
  have hwaits := h.waits
  have hnumber : d.sent.length < part.parts.toNat := h.next ▸ UInt16.lt_iff_toNat_lt.mp hlt
  have hbound := part.parts.toNat_lt
  have hpos : d.sent.length ≠ 0 := by omega
  have hsucc : (d.next + 1).toNat = d.sent.length + 1 := by
    rw [UInt16.toNat_add, h.next]
    exact Nat.mod_eq_of_lt (by simpa using by omega)
  have hindex : UInt16.ofNat d.sent.length = d.next := by rw [← h.next, UInt16.ofNat_toNat]
  subst hd'
  exact {
    sent := by
      change d.sent ++ [MediaRequest.download d.id (some d.next)] = _
      rw [List.length_append, List.length_singleton, List.range_succ, List.map_append]
      refine congrArg₂ _ h.sent ?_
      change _ = [MediaRequest.download d.id
        (if d.sent.length = 0 then none else some (.ofNat d.sent.length))]
      rw [if_neg hpos, hindex]
    limit := by
      change (d.sent ++ [_]).length < _
      rw [List.length_append, List.length_singleton]
      omega
    behind := by
      change (d.got ++ [part]).length ≤ (d.sent ++ [_]).length ∧
        (d.sent ++ [_]).length ≤ (d.got ++ [part]).length + 1
      simp only [List.length_append, List.length_singleton]
      omega
    asked := fun i earlier hearlier hi => by
      change (d.got ++ [part])[i]? = some earlier at hearlier
      change i + 1 < (d.sent ++ [_]).length at hi
      rw [List.length_append, List.length_singleton] at hi
      rcases Nat.lt_or_ge i d.got.length with hold | hnew
      · rw [List.getElem?_append_left hold] at hearlier
        exact h.asked i earlier hearlier (by omega)
      · obtain rfl : i = d.got.length := by omega
        rw [List.getElem?_concat_length] at hearlier
        obtain rfl := Option.some.inj hearlier
        exact ⟨hmore, by omega⟩
    next := by
      change (d.next + 1).toNat = (d.sent ++ [_]).length
      rw [hsucc, List.length_append, List.length_singleton]
    waits := by
      change (d.sent ++ [_]).length = (d.got ++ [part]).length + 1
      simp only [List.length_append, List.length_singleton]
      omega
    payload := hpayload
    mime := hmime
    more := fun earlier hmem => by
      rcases List.mem_append.mp hmem with hin | hin
      · exact h.more earlier hin
      · exact List.mem_singleton.mp hin ▸ hmore
    small := fun earlier hmem => by
      rcases List.mem_append.mp hmem with hin | hin
      · exact h.small earlier hin
      · exact List.mem_singleton.mp hin ▸ hsmall }

/-- A download begins. -/
theorem going_first {handle : ℕ} {id : List UInt8} {conn : κ} {login : ℕ} {stranded : Bool} :
    DownloadJob.Going ⟨handle, id, 1, [], none, conn, login, [.download id none], [],
      stranded⟩ where
  sent := by simp
  limit := by simp
  behind := by simp
  asked := by simp
  next := rfl
  waits := rfl
  payload := rfl
  mime := rfl
  more := by simp
  small := by simp

end DownloadJob

end Gtkhx.Pictures
