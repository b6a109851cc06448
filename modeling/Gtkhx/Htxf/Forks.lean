import Gtkhx.Htxf.Received

/-!
# Both forks and the sidecar

A flattened file on a stream that arrives, in pieces of any size: `file_recv` puts the data
fork behind what was held of it, the resource fork behind what was held of that, and writes
into the sidecar what the info block says, unless the disk refuses something.
-/

namespace Gtkhx.Htxf

open Reader Fallible

variable {ω : Type}

/-- What the operations on a file do to its resource fork. -/
structure ForkLaws (os : Os ω) (data : ω → PathBuf → Option (List UInt8))
    (rsrc : ω → PathBuf → List UInt8) : Prop extends DataLaws os data where
  /-- Opening the file leaves its resource fork. -/
  rsrc_open : ∀ {p truncate s}, rsrc ((os.openWrite p truncate).run s).2 p = rsrc s p
  /-- So does writing its data fork. -/
  rsrc_data : ∀ {p pos bytes s}, rsrc ((os.writeAll p .data pos bytes).run s).2 p = rsrc s p
  /-- So does writing its sidecar. -/
  rsrc_sidecar : ∀ {p i s}, rsrc (os.hfsinfoWrite p i s) p = rsrc s p
  /-- A resource fork is opened with what is in it. -/
  rsrc_opened : ∀ {p s}, rsrc ((os.resourceOpen p).run s).2 p = rsrc s p
  /-- Bytes are written where they were to go. -/
  rsrc_written : ∀ {p pos bytes s s'}, (os.writeAll p .resource pos bytes).run s = (.ok (), s') →
    rsrc s' p = overwrite (rsrc s p) pos bytes

/-- A disk that refuses nothing at a path. -/
structure Willing (os : Os ω) (data : ω → PathBuf → Option (List UInt8)) (path : PathBuf) :
    Prop where
  openWrite : ∀ truncate s, ((os.openWrite path truncate).run s).1 = .ok ()
  seek : ∀ fork pos s, os.seek s path fork pos = true
  writeData : ∀ pos bytes s, data s path ≠ none →
    ((os.writeAll path .data pos bytes).run s).1 = .ok ()
  resourceOpen : ∀ s, ((os.resourceOpen path).run s).1 = .ok true
  writeResource : ∀ pos bytes s, ((os.writeAll path .resource pos bytes).run s).1 = .ok ()

theorem Willing.seeks {os : Os ω} {data : ω → PathBuf → Option (List UInt8)} {path : PathBuf}
    (h : Willing os data path) {fork : Fork} {pos : ℕ} {w : World ω} :
    (seekTo os path fork pos).run w = (.ok (), w) := by
  unfold Fallible.run seekTo
  rw [h.seek]
  simp

/-- The bytes of a FILP up to its data fork: a header and an info block that says `pi`. -/
def Describes (ffo : Ffo) (large : Bool) (head : List UInt8) (pi : FilpInfo) : Prop :=
  ∃ hdr info, head = hdr ++ info ∧ hdr.length = 40 ∧
    ffo.infoBlockLen (hdr.getD 38 0) (hdr.getD 39 0) = some info.length ∧
    ffo.parseFilpInfo info large = some pi

/-- Where a worker stands on its subchannel: what is still to come, and that it arrives. -/
structure World.Awaits (w : World ω) (bytes : List UInt8) : Prop where
  arrives : Arrives w.conn.inner
  carried_eq : carried w.conn.inner = bytes

/-- A read with room brings a piece, while there is something to bring. -/
theorem xferRead_awaits {w : World ω} {bytes : List UInt8} (h : w.Awaits bytes)
    (hne : bytes ≠ []) {room : ℕ} (hroom : 0 < room) :
    ∃ piece rest inner, bytes = piece ++ rest ∧ piece ≠ [] ∧ piece.length ≤ room ∧
      (xferRead room).run w = (.ok piece, w.reading inner) ∧ (w.reading inner).Awaits rest := by
  obtain ⟨piece, inner, hread, hpiece, hlen, hbytes, harrives⟩ :=
    h.arrives.readRetrying_of_ne (h.carried_eq ▸ hne) hroom
  refine ⟨piece, carried inner, inner, h.carried_eq ▸ hbytes, hpiece, hlen, ?_, harrives, rfl⟩
  obtain ⟨b, piece, rfl⟩ := List.exists_cons_of_ne_nil hpiece
  unfold Fallible.run xferRead
  dsimp only
  rw [hread]
  rfl

/-- Filling a buffer brings the front of what is to come. -/
theorem fillBuffer_awaits {w : World ω} {front rest : List UInt8} (h : w.Awaits (front ++ rest)) :
    ∃ inner, (fillBuffer front.length).run w = (.ok (.full front), w.reading inner) ∧
      (w.reading inner).Awaits rest := by
  obtain ⟨inner, hfill, hrest, harrives⟩ := h.arrives.fill_of_le
    (show front.length ≤ (carried w.conn.inner).length by simp [h.carried_eq])
  rw [h.carried_eq, List.take_left] at hfill
  rw [h.carried_eq, List.drop_left] at hrest
  refine ⟨inner, ?_, harrives, hrest⟩
  unfold Fallible.run fillBuffer
  rw [hfill]
  rfl

/-- So does reading a buffer whole. -/
theorem readFull_awaits {w : World ω} {front rest : List UInt8} (h : w.Awaits (front ++ rest)) :
    ∃ inner, (readFull front.length).run w = (.ok front, w.reading inner) ∧
      (w.reading inner).Awaits rest := by
  obtain ⟨inner, hfill, hrest⟩ := fillBuffer_awaits h
  refine ⟨inner, ?_, hrest⟩
  rw [readFull, run_bind_ok hfill]
  rfl

/-- Copying bytes that are to come: `Copied got` says that `got` has been put where it goes,
and only putting a piece can fail. -/
theorem rdWrRecv_awaits (put : ℕ → List UInt8 → Work ω Unit) (start : ℕ)
    (Copied : List UInt8 → ω → Prop) (Refused : Prop)
    (hput : ∀ {got piece w}, Copied got w.disk →
      Ends ((put (start + got.length) piece).run w)
        (fun _ w' => Copied (got ++ piece) w'.disk ∧ w'.conn = w.conn) (fun _ _ => Refused))
    {fuel : ℕ} {bytes rest : List UInt8} (hfuel : bytes.length ≤ fuel) (got : List UInt8)
    {w : World ω} (hw : Copied got w.disk) (h : w.Awaits (bytes ++ rest)) :
    Ends ((rdWrRecv put fuel (start + got.length) bytes.length).run w)
      (fun _ w' => Copied (got ++ bytes) w'.disk ∧ w'.Awaits rest ∧
        w'.conn.timeouts = w.conn.timeouts)
      (fun _ _ => Refused) := by
  induction fuel generalizing bytes got w with
  | zero =>
    obtain rfl := List.length_eq_zero_iff.mp (Nat.le_zero.mp hfuel)
    exact ⟨by simpa using hw, h, rfl⟩
  | succ fuel ih =>
    by_cases hdone : bytes = []
    · subst hdone
      exact ⟨by simpa using hw, h, rfl⟩
    have hpos : 0 < bytes.length := List.length_pos_iff.mpr hdone
    obtain ⟨piece, rest', inner, hbytes, hne, hlen, hread, hrest⟩ :=
      xferRead_awaits h (by simp [hdone]) (show 0 < min 0xf000 bytes.length by omega)
    have hle : piece.length ≤ bytes.length := hlen.trans (Nat.min_le_right _ _)
    obtain ⟨more, rfl⟩ : piece <+: bytes :=
      List.prefix_of_prefix_length_le ⟨rest', hbytes.symm⟩ (List.prefix_append _ _) hle
    rw [List.append_assoc, List.append_cancel_left_eq] at hbytes
    subst hbytes
    rw [rdWrRecv, if_neg hpos.ne', run_bind_ok hread]
    refine Ends.bind (hput (w := w.reading inner) hw) ?_
    rintro - w₁ - ⟨hcopied, hconn⟩
    have hmore : more.length ≤ fuel := by
      have hpiece := List.length_pos_iff.mpr hne
      rw [List.length_append] at hfuel
      omega
    have hnext := ih hmore _ hcopied
      ⟨by rw [hconn]; exact hrest.arrives, by rw [hconn]; exact hrest.carried_eq⟩
    rw [List.length_append, ← Nat.add_assoc] at hnext
    rw [List.length_append, Nat.add_sub_cancel_left]
    refine hnext.mono (fun _ w' _ hend => ⟨?_, hend.2.1, ?_⟩) fun _ _ _ hend => hend
    · rw [← List.append_assoc]
      exact hend.1
    · rw [hend.2.2, hconn]
      rfl

/-- A FILP that is to come is read. -/
theorem readFilp_awaits {ffo : Ffo} {p : HxnetXferParams} {w : World ω} {pi : FilpInfo}
    {hdr block rest : List UInt8} (hhdr : hdr.length = 40)
    (hblock : ffo.infoBlockLen (hdr.getD 38 0) (hdr.getD 39 0) = some block.length)
    (hparse : ffo.parseFilpInfo block p.optLarge = some pi)
    (h : w.Awaits (hdr ++ (block ++ rest))) :
    ∃ inner, (readFilp ffo p).run w = (.ok (hdr, pi, add64 40 block.length), w.reading inner) ∧
      (w.reading inner).Awaits rest := by
  obtain ⟨inner, hread, hawaits⟩ := readFull_awaits h
  rw [hhdr] at hread
  obtain ⟨inner', hread', hawaits'⟩ := readFull_awaits hawaits
  refine ⟨inner', ?_, hawaits'⟩
  rw [readFilp, run_bind_ok hread, hblock, ofOption_some, run_bind_ok (run_pure _ _),
    run_bind_ok hread', hparse, ofOption_some, run_bind_ok (run_pure _ _)]
  rfl

/-- What follows the data fork of a file: nothing, or a marker and the resource fork. -/
def Tail (ffo : Ffo) (p : HxnetXferParams) (rfork tail : List UInt8) : Prop :=
  rfork = [] ∧ tail = [] ∨ rfork ≠ [] ∧ p.rsrcPos + rfork.length < 2 ^ 64 ∧
    ∃ marker, tail = marker ++ rfork ∧ marker.length = FORK_HEADER_LEN ∧
      ffo.forkLen marker p.optLarge = rfork.length

/-- A read timeout is set, or that fails. -/
theorem drainTimeout_ends (w : World ω) :
    Ends ((drainTimeout false).run w)
      (fun _ w' => w'.disk = w.disk ∧ w'.conn.inner = w.conn.inner ∧
        ∀ ok ∈ w'.conn.timeouts, ok ∈ w.conn.timeouts)
      (fun _ _ => ¬ ∀ ok ∈ w.conn.timeouts, ok = true) := by
  rw [drainTimeout, if_neg (by decide)]
  rcases hlist : w.conn.timeouts with _ | ⟨ok, timeouts⟩
  · have hset : (setReadTimeout (ω := ω)).run w = (.ok true, w) := by
      unfold Fallible.run setReadTimeout
      rw [hlist]
    rw [run_bind_ok hset]
    exact ⟨rfl, rfl, by simp [hlist]⟩
  · have hset : (setReadTimeout (ω := ω)).run w =
        (.ok ok, { w with conn := { w.conn with timeouts } }) := by
      unfold Fallible.run setReadTimeout
      rw [hlist]
    rw [run_bind_ok hset]
    cases ok with
    | true => exact ⟨rfl, rfl, by simp⟩
    | false => exact fun hall => by simpa using hall false List.mem_cons_self

/-- A marker that is to come is read, unless the read timeout cannot be set. -/
theorem readMacrMarker_awaits {w : World ω} {marker rest : List UInt8}
    (hmarker : marker.length = FORK_HEADER_LEN) (h : w.Awaits (marker ++ rest)) :
    Ends ((readMacrMarker false).run w)
      (fun got w' => got = some marker ∧ w'.disk = w.disk ∧ w'.Awaits rest)
      (fun _ _ => ¬ ∀ ok ∈ w.conn.timeouts, ok = true) := by
  refine Ends.bind (drainTimeout_ends w) ?_
  rintro - w₁ - ⟨hdisk₁, hinner₁, htimeouts₁⟩
  have hawaits₁ : w₁.Awaits (marker ++ rest) :=
    ⟨by rw [hinner₁]; exact h.arrives, by rw [hinner₁]; exact h.carried_eq⟩
  obtain ⟨inner, hfill, hrest⟩ := fillBuffer_awaits hawaits₁
  rw [hmarker] at hfill
  rw [run_bind_ok hfill]
  refine Ends.bind ((drainTimeout_ends _).mono (fun _ _ _ hend => hend)
    fun _ _ _ hend hall => hend fun ok hok => hall ok (htimeouts₁ ok hok)) ?_
  rintro - w₂ - ⟨hdisk₂, hinner₂, -⟩
  exact ⟨rfl, hdisk₂.trans hdisk₁,
    by rw [hinner₂]; exact hrest.arrives, by rw [hinner₂]; exact hrest.carried_eq⟩

/-- Bytes written behind what is at the front of a file are then at its front too. -/
theorem prefix_overwrite {front old : List UInt8} (h : front <+: old) (bytes : List UInt8) :
    front ++ bytes <+: overwrite old front.length bytes := by
  obtain ⟨more, rfl⟩ := h
  rw [overwrite, List.take_left, Nat.sub_eq_zero_of_le (by simp), List.replicate_zero,
    List.append_nil]
  exact List.prefix_append _ _

/-- A fork that goes where it was asked from has nothing in it that came before. -/
theorem receiveFork_asked (os : Os ω) (p : HxnetXferParams) (pi : FilpInfo) :
    receiveFork os p pi p.dataPos =
      if pi.dataForkLen = 0 then pure ()
      else (do
        onDisk (os.openWrite p.path (p.dataPos == 0))
        seekTo os p.path .data p.dataPos
        rdWrRecv (toFile os p.path .data) pi.dataForkLen p.dataPos pi.dataForkLen
        forksRead pi.dataForkLen) := by
  rw [receiveFork, Nat.sub_self, Nat.zero_min]
  rfl

section Laws

variable {os : Os ω} {data : ω → PathBuf → Option (List UInt8)} {rsrc : ω → PathBuf → List UInt8}
  (hos : ForkLaws os data rsrc)

include hos

/-- The data fork goes behind what was held of it, and is not opened for when empty. -/
theorem ForkLaws.receiveFork_awaits {p : HxnetXferParams} {pi : FilpInfo} {w : World ω}
    {fork rest : List UInt8} (hfork : fork.length = pi.dataForkLen)
    (hheld : p.dataPos = 0 ∨ ∃ old, data w.disk p.path = some old ∧ old.length = p.dataPos)
    (h : w.Awaits (fork ++ rest)) :
    Ends ((receiveFork os p pi p.dataPos).run w)
      (fun _ w' =>
        data w'.disk p.path = (if fork = [] then data w.disk p.path
          else some (((data w.disk p.path).getD []).take p.dataPos ++ fork)) ∧
        rsrc w'.disk p.path = rsrc w.disk p.path ∧ w'.Awaits rest ∧
        w'.conn.timeouts = w.conn.timeouts)
      (fun _ _ => ¬ Willing os data p.path) := by
  by_cases hempty : fork = []
  · subst hempty
    have hzero : pi.dataForkLen = 0 := hfork.symm
    rw [receiveFork_asked, if_pos hzero]
    exact ⟨rfl, rfl, h, rfl⟩
  have hne : pi.dataForkLen ≠ 0 := by
    rw [← hfork]
    exact fun hzero => hempty (List.length_eq_zero_iff.mp hzero)
  rw [receiveFork_asked, if_neg hne, if_neg hempty, ← hfork]
  rcases hopen : (onDisk (os.openWrite p.path (p.dataPos == 0))).run w with ⟨e | u, w₁⟩ <;>
    obtain ⟨disk, hdisk, rfl⟩ := onDisk_run hopen
  · rw [run_bind_error hopen]
    intro hwilling
    have hok := hwilling.openWrite (p.dataPos == 0) w.disk
    rw [hdisk] at hok
    cases hok
  rw [run_bind_ok hopen]
  obtain ⟨kept, hkept, hlen, heq⟩ := hos.kept hheld hdisk
  have hrsrc : rsrc disk p.path = rsrc w.disk p.path := by
    have hopened : rsrc ((os.openWrite p.path (p.dataPos == 0)).run w.disk).2 p.path =
      rsrc w.disk p.path := hos.rsrc_open
    rwa [hdisk] at hopened
  rcases hseek : (seekTo os p.path .data p.dataPos).run { w with disk } with ⟨e | u, w₂⟩
  · rw [run_bind_error hseek]
    intro hwilling
    rw [hwilling.seeks] at hseek
    cases hseek
  rw [run_bind_ok hseek]
  obtain rfl := seekTo_returns hseek
  have hcopy := rdWrRecv_awaits (toFile os p.path .data) p.dataPos
    (fun got s => data s p.path = some (kept ++ got) ∧ rsrc s p.path = rsrc w.disk p.path)
    (¬ Willing os data p.path) ?_ (le_refl fork.length) []
    (w := { w with disk }) ⟨by simpa using hkept, hrsrc⟩ ⟨h.arrives, h.carried_eq⟩
  · refine Ends.bind hcopy ?_
    rintro - w₃ - ⟨⟨hdata, hsame⟩, hrest, htimeouts⟩
    refine ⟨?_, hsame, ⟨hrest.arrives, hrest.carried_eq⟩, htimeouts⟩
    rw [← heq]
    exact hdata
  · rintro got piece w₃ ⟨hdata, hsame⟩
    rcases hwrite : (toFile os p.path .data (p.dataPos + got.length) piece).run w₃ with
      ⟨e | u, w₄⟩ <;> obtain ⟨disk', hdisk', rfl⟩ := onDisk_run hwrite
    · intro hwilling
      have hok := hwilling.writeData (p.dataPos + got.length) piece w₃.disk (by simp [hdata])
      rw [hdisk'] at hok
      cases hok
    · rw [← hlen, ← List.length_append] at hdisk'
      have hwritten := hos.written hdata hdisk'
      rw [overwrite_end, List.append_assoc] at hwritten
      have hkeeps : rsrc ((os.writeAll p.path .data (kept ++ got).length piece).run w₃.disk).2
        p.path = rsrc w₃.disk p.path := hos.rsrc_data
      rw [hdisk'] at hkeeps
      exact ⟨⟨hwritten, hkeeps.trans hsame⟩, rfl⟩

/-- The resource fork goes behind what was held of it. -/
theorem ForkLaws.receiveResource_awaits {ffo : Ffo} {p : HxnetXferParams} {w : World ω}
    {marker rfork rest : List UInt8} {totLen budget : ℕ} (hlt : totLen < budget)
    (hmarker : marker.length = FORK_HEADER_LEN)
    (hlen : ffo.forkLen marker p.optLarge = rfork.length) (hne : rfork ≠ [])
    (hsum : p.rsrcPos + rfork.length < 2 ^ 64)
    (hheld : p.rsrcPos ≤ (rsrc w.disk p.path).length)
    (h : w.Awaits (marker ++ (rfork ++ rest))) :
    Ends ((receiveResource os ffo p totLen budget).run w)
      (fun len w' => len = p.rsrcPos + rfork.length ∧
        data w'.disk p.path = data w.disk p.path ∧
        (rsrc w.disk p.path).take p.rsrcPos ++ rfork <+: rsrc w'.disk p.path)
      (fun _ _ => ¬ (Willing os data p.path ∧ ∀ ok ∈ w.conn.timeouts, ok = true)) := by
  rw [receiveResource, if_neg (by omega)]
  refine Ends.bind ((readMacrMarker_awaits hmarker h).mono (fun _ _ _ hend => hend)
    fun _ _ _ hend hall => hend hall.2) ?_
  rintro - w₁ - ⟨rfl, hdisk₁, hrest⟩
  have hpos : rfork.length ≠ 0 := fun hzero => hne (List.length_eq_zero_iff.mp hzero)
  dsimp only
  rw [hlen, if_neg hpos]
  rcases hopen : (onDisk (os.resourceOpen p.path)).run w₁ with ⟨e | ok, w₂⟩ <;>
    obtain ⟨disk, hdisk, rfl⟩ := onDisk_run hopen
  · rw [run_bind_error hopen]
    rintro ⟨hwilling, -⟩
    have hok := hwilling.resourceOpen w₁.disk
    rw [hdisk] at hok
    cases hok
  rw [run_bind_ok hopen]
  cases ok with
  | false =>
    rintro ⟨hwilling, -⟩
    have hok := hwilling.resourceOpen w₁.disk
    rw [hdisk] at hok
    cases hok
  | true =>
    have hdata : data disk p.path = data w.disk p.path := by
      have hopened : data ((os.resourceOpen p.path).run w₁.disk).2 p.path = data w₁.disk p.path :=
        hos.resource_opened
      rwa [hdisk, hdisk₁] at hopened
    have hrsrc : rsrc disk p.path = rsrc w.disk p.path := by
      have hopened : rsrc ((os.resourceOpen p.path).run w₁.disk).2 p.path = rsrc w₁.disk p.path :=
        hos.rsrc_opened
      rwa [hdisk, hdisk₁] at hopened
    rw [if_pos rfl]
    rcases hseek : (seekTo os p.path .resource p.rsrcPos).run { w₁ with disk } with ⟨e | u, w₂⟩
    · rw [run_bind_error hseek]
      rintro ⟨hwilling, -⟩
      rw [hwilling.seeks] at hseek
      cases hseek
    rw [run_bind_ok hseek]
    obtain rfl := seekTo_returns hseek
    let kept := (rsrc w.disk p.path).take p.rsrcPos
    have hkept : kept.length = p.rsrcPos := by simp [kept, hheld]
    have hcopy := rdWrRecv_awaits (toFile os p.path .resource) p.rsrcPos
      (fun got s => data s p.path = data w.disk p.path ∧ kept ++ got <+: rsrc s p.path)
      (¬ (Willing os data p.path ∧ ∀ ok ∈ w.conn.timeouts, ok = true)) ?_
      (le_refl rfork.length) [] (w := { w₁ with disk })
      ⟨hdata, by simpa [kept, hrsrc] using List.take_prefix _ _⟩ ⟨hrest.arrives, hrest.carried_eq⟩
    · refine Ends.bind hcopy ?_
      rintro - w₃ - ⟨⟨hsame, hfront⟩, -, -⟩
      rw [if_pos hsum]
      exact ⟨rfl, hsame, hfront⟩
    · rintro got piece w₃ ⟨hsame, hfront⟩
      rcases hwrite : (toFile os p.path .resource (p.rsrcPos + got.length) piece).run w₃ with
        ⟨e | u, w₄⟩ <;> obtain ⟨disk', hdisk', rfl⟩ := onDisk_run hwrite
      · rintro ⟨hwilling, -⟩
        have hok := hwilling.writeResource (p.rsrcPos + got.length) piece w₃.disk
        rw [hdisk'] at hok
        cases hok
      · rw [← hkept, ← List.length_append] at hdisk'
        have hkeeps : data ((os.writeAll p.path .resource (kept ++ got).length piece).run
          w₃.disk).2 p.path = data w₃.disk p.path := hos.resource_written
        rw [hdisk'] at hkeeps
        refine ⟨⟨hkeeps.trans hsame, ?_⟩, rfl⟩
        rw [hos.rsrc_written hdisk', ← List.append_assoc]
        exact prefix_overwrite hfront piece

/-- A flattened file that arrives lands, unless the disk or the subchannel refuses
something: its data fork and its resource fork behind what was held of them, and last the
sidecar, with what its info block says. -/
theorem ForkLaws.fileRecv_awaits {ffo : Ffo} {p : HxnetXferParams} {pi : FilpInfo} {w : World ω}
    {head fork rfork tail more : List UInt8} (hpreview : p.optPreview = false)
    (hfolder : p.optFolder = false) (hhead : Describes ffo p.optLarge head pi)
    (hfork : fork.length = pi.dataForkLen)
    (hplaced : dataFrom w.was p.dataPos pi.dataForkLen pi.modifyTime = .ok p.dataPos)
    (hheld : p.dataPos = 0 ∨ ∃ old, data w.disk p.path = some old ∧ old.length = p.dataPos)
    (hrheld : p.rsrcPos ≤ (rsrc w.disk p.path).length) (htail : Tail ffo p rfork tail)
    (hbudget : p.fileBudget = (head ++ (fork ++ tail)).length) (hlt : p.fileBudget < 2 ^ 64)
    (h : w.Awaits (head ++ (fork ++ (tail ++ more)))) :
    Ends ((fileRecv os ffo p).run w)
      (fun _ w' =>
        data w'.disk p.path = (if fork = [] then data w.disk p.path
          else some (((data w.disk p.path).getD []).take p.dataPos ++ fork)) ∧
        (rsrc w.disk p.path).take p.rsrcPos ++ rfork <+: rsrc w'.disk p.path ∧
        ∃ s, w'.disk = os.hfsinfoWrite p.path
          (makeHfsinfo pi.typeCreator pi (p.rsrcPos + rfork.length)) s)
      (fun _ _ => ¬ (Willing os data p.path ∧ ∀ ok ∈ w.conn.timeouts, ok = true)) := by
  obtain ⟨hdr, block, rfl, hhdr, hblock, hparse⟩ := hhead
  rw [List.append_assoc] at h
  obtain ⟨inner, hread, hrest⟩ := readFilp_awaits hhdr hblock hparse h
  simp only [List.length_append] at hbudget
  have htot : add64 (add64 40 block.length) pi.dataForkLen = 40 + block.length + fork.length := by
    rw [← hfork, add64, add64, Nat.mod_eq_of_lt (by omega), Nat.mod_eq_of_lt (by omega)]
  have hwhole : (if p.fileBudget = 0 then 0 else satAdd64 p.fileBudget (p.dataPos - p.dataPos)) =
      p.fileBudget := by
    rw [if_neg (by omega), Nat.sub_self, satAdd64, Nat.add_zero]
    exact Nat.min_eq_left (by omega)
  have hside : data (os.hfsinfoWrite p.path (makeHfsinfo arriving pi p.rsrcPos) w.disk) p.path =
      data w.disk p.path := hos.sidecar
  have hrside : rsrc (os.hfsinfoWrite p.path (makeHfsinfo arriving pi p.rsrcPos) w.disk) p.path =
      rsrc w.disk p.path := hos.rsrc_sidecar
  have hearly : (earlySidecar os p pi).run (w.reading inner) = (.ok (),
      World.reading { w with
        disk := os.hfsinfoWrite p.path (makeHfsinfo arriving pi p.rsrcPos) w.disk } inner) := by
    rw [earlySidecar, hpreview]
    rfl
  rw [fileRecv, run_bind_ok hread]
  dsimp only
  rw [run_bind_ok hearly, hpreview]
  refine Ends.bind (Q := fun start w₂ => start = p.dataPos ∧
    w₂.disk = os.hfsinfoWrite p.path (makeHfsinfo arriving pi p.rsrcPos) w.disk ∧
    w₂.Awaits (fork ++ (tail ++ more)) ∧ w₂.conn.timeouts = w.conn.timeouts) ?_ ?_
  · unfold Fallible.run placeFork
    dsimp only [World.reading]
    rw [hplaced]
    exact ⟨rfl, rfl, ⟨hrest.arrives, hrest.carried_eq⟩, rfl⟩
  rintro - w₂ - ⟨rfl, hdisk₂, hawaits₂, htimeouts₂⟩
  rw [hwhole, htot, if_neg (by decide)]
  have hreceived := hos.receiveFork_awaits hfork (by rwa [hdisk₂, hside]) hawaits₂
  refine Ends.bind (hreceived.mono (fun _ _ _ hend => hend) fun _ _ _ hend hlets => hend hlets.1) ?_
  rintro - w₃ - ⟨hdata₃, hrsrc₃, hawaits₃, htimeouts₃⟩
  rw [hdisk₂, hside] at hdata₃
  rw [hdisk₂, hrside] at hrsrc₃
  rw [receiveTail, hfolder, if_neg (by decide)]
  refine Ends.bind (Q := fun len w₄ => len = p.rsrcPos + rfork.length ∧
    data w₄.disk p.path = data w₃.disk p.path ∧
    (rsrc w.disk p.path).take p.rsrcPos ++ rfork <+: rsrc w₄.disk p.path) ?_ ?_
  · rcases htail with ⟨rfl, rfl⟩ | ⟨hne, hsum, marker, rfl, hmarker, hlen⟩
    · have hle : p.fileBudget ≤ 40 + block.length + fork.length := by
        simp only [List.length_nil] at hbudget
        omega
      rw [receiveResource, if_pos hle]
      refine ⟨rfl, rfl, ?_⟩
      rw [List.append_nil, hrsrc₃]
      exact List.take_prefix _ _
    · have hlt' : 40 + block.length + fork.length < p.fileBudget := by
        have hpos := List.length_pos_iff.mpr hne
        simp only [List.length_append] at hbudget
        omega
      rw [List.append_assoc] at hawaits₃
      have hresource := hos.receiveResource_awaits hlt' hmarker hlen hne hsum
        (by rwa [hrsrc₃]) hawaits₃
      rw [hrsrc₃, htimeouts₃, htimeouts₂] at hresource
      exact hresource
  rintro - w₄ - ⟨rfl, hdata₄, hrsrc₄⟩
  refine ⟨?_, ?_, w₄.disk, rfl⟩
  · rw [← hdata₃, ← hdata₄]
    exact hos.sidecar
  · rw [show rsrc (os.hfsinfoWrite p.path _ w₄.disk) p.path = rsrc w₄.disk p.path from
      hos.rsrc_sidecar]
    exact hrsrc₄

end Laws

namespace MemDisk

/-- The resource fork of the file at a path. -/
def rsrc (d : MemDisk) (p : PathBuf) : List UInt8 := (d.file p).elim [] MemFile.rsrc

/-- The forks of a file in memory are a file's. -/
theorem forkLaws : ForkLaws os data rsrc where
  toDataLaws := dataLaws
  rsrc_open := by
    intro p truncate d
    unfold Fallible.run os
    dsimp only
    split
    · rfl
    · split
      · rfl
      · split
        · rfl
        · cases hfile : d.file p <;> simp [rsrc, hfile]
  rsrc_data := by
    intro p pos bytes d
    unfold Fallible.run os
    dsimp only
    cases hfile : d.file p <;> simp [rsrc, hfile]
  rsrc_sidecar := rfl
  rsrc_opened := rfl
  rsrc_written := by
    intro p pos bytes d d' h
    unfold Fallible.run os at h
    dsimp only at h
    cases hfile : d.file p with
    | none =>
      rw [hfile] at h
      cases h
    | some f =>
      rw [hfile] at h
      obtain ⟨-, rfl⟩ := Prod.mk.inj h
      simp [rsrc, hfile]

end MemDisk

end Gtkhx.Htxf
