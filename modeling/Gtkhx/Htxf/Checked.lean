import Gtkhx.Htxf.Received

/-!
# Receiving under overflow checks

`file_recv` as a build with overflow checks runs it: every addition and subtraction of its
`u64`s that leaves their range stops the worker. It is compared with the build that wraps.
-/

namespace Gtkhx.Htxf

open Reader

variable {ω α β : Type}

/-- What stops a worker with overflow checks. -/
inductive Stop where
  /-- It failed. -/
  | errno (e : Errno)
  /-- An integer left its range. -/
  | overflow
  deriving DecidableEq

/-- A program of a worker with overflow checks. -/
abbrev Checked (ω : Type) (α : Type) := Fallible Stop (World ω) α

/-- The same program, without integers to check. -/
def checked (m : Work ω α) : Checked ω α := fun w =>
  ((m.run w).1.mapError Stop.errno, (m.run w).2)

/-- `+` of two `u64`s. -/
def addU64 (a b : ℕ) : Checked ω ℕ :=
  if a + b < 2 ^ 64 then pure (a + b) else Fallible.fail .overflow

/-- `-` of two `u64`s. -/
def subU64 (a b : ℕ) : Checked ω ℕ :=
  if b ≤ a then pure (a - b) else Fallible.fail .overflow

/-- The FILP. -/
def readFilpChecked (ffo : Ffo) (p : HxnetXferParams) :
    Checked ω (List UInt8 × FilpInfo × ℕ) := do
  let hdr ← checked (readFull 40)
  let infoLen ← checked (Fallible.ofOption EIO (ffo.infoBlockLen (hdr.getD 38 0) (hdr.getD 39 0)))
  let totLen ← addU64 40 infoLen
  let info ← checked (readFull infoLen)
  let pi ← checked (Fallible.ofOption EIO (ffo.parseFilpInfo info p.optLarge))
  pure (hdr, pi, totLen)

/-- Place the data fork. -/
def placeForkChecked (p : HxnetXferParams) (pi : FilpInfo) : Checked ω ℕ := do
  let w ← Fallible.state
  match dataFrom w.was p.dataPos pi.dataForkLen pi.modifyTime with
  | .error e => do
    Fallible.change fun w => { w with was := none }
    Fallible.fail (.errno e)
  | .ok start => do
    let len ← addU64 start pi.dataForkLen
    Fallible.change fun w => { w with was := some ⟨len, pi.modifyTime⟩ }
    pure start

/-- `rd_wr_recv`, and `preview_get`. -/
def rdWrRecvChecked (put : ℕ → List UInt8 → Work ω Unit) : (fuel pos dataLen : ℕ) → Checked ω Unit
  | 0, _, _ => pure ()
  | fuel + 1, pos, dataLen => do
    if dataLen = 0 then pure ()
    else do
      let got ← checked (xferRead (min 0xf000 dataLen))
      checked (put pos got)
      let left ← subU64 dataLen got.length
      rdWrRecvChecked put fuel (pos + got.length) left

/-- A preview. -/
def previewForkChecked (p : HxnetXferParams) (pi : FilpInfo) : Checked ω Unit :=
  match p.preview with
  | none => pure ()
  | some setInfo => do
    let wanted := min (setInfo pi.typeCreator pi.dataForkLen) pi.dataForkLen
    rdWrRecvChecked sink wanted 0 wanted
    if wanted < pi.dataForkLen then Fallible.fail (.errno HXNET_XFER_STOPPED) else pure ()

/-- The data fork, `again` of which the file already has. -/
def receiveForkChecked (os : Os ω) (p : HxnetXferParams) (pi : FilpInfo) (start again : ℕ) :
    Checked ω Unit :=
  if pi.dataForkLen = 0 then pure ()
  else do
    checked (onDisk (os.openWrite p.path (start == 0)))
    checked (seekTo os p.path .data start)
    let again := min again pi.dataForkLen
    rdWrRecvChecked (toFile os p.path .data) again start again
    let left ← subU64 pi.dataForkLen again
    rdWrRecvChecked (toFile os p.path .data) left (start + again) left
    let read ← subU64 pi.dataForkLen again
    checked (forksRead read)

/-- The resource fork of a folder's file whose size was announced as 0. -/
def skipResourceChecked (ffo : Ffo) (p : HxnetXferParams) (hdr : List UInt8) :
    Checked ω Unit := do
  match ← checked
      (readMacrMarker (3 ≤ (hdr.getD 22 0).toNat * 256 + (hdr.getD 23 0).toNat)) with
  | some marker =>
    rdWrRecvChecked sink (ffo.forkLen marker p.optLarge) 0 (ffo.forkLen marker p.optLarge)
  | none => pure ()

/-- Read past `remaining` bytes. -/
def drainChecked : (fuel remaining : ℕ) → Checked ω Unit
  | 0, _ => pure ()
  | fuel + 1, remaining =>
    if remaining = 0 then pure ()
    else do
      match ← checked (Fallible.attempt (xferRead (min 2048 remaining))) with
      | .ok got => do
        let left ← subU64 remaining got.length
        drainChecked fuel left
      | .error _ => pure ()

/-- What a folder's file was announced with past its data fork. -/
def drainResourceChecked (totLen budget : ℕ) : Checked ω Unit :=
  if totLen < budget then do
    if ← checked setReadTimeout then do
      let remaining ← subU64 budget totLen
      drainChecked remaining remaining
      if ← checked setReadTimeout then pure () else Fallible.fail (.errno EIO)
    else pure ()
  else pure ()

/-- The resource fork of a file of its own. Its end is added with `checked_add`. -/
def receiveResourceChecked (os : Os ω) (ffo : Ffo) (p : HxnetXferParams) (totLen budget : ℕ) :
    Checked ω ℕ :=
  if budget ≤ totLen then pure p.rsrcPos
  else do
    match ← checked (readMacrMarker false) with
    | none => pure p.rsrcPos
    | some marker =>
      let rforkLen := ffo.forkLen marker p.optLarge
      if rforkLen = 0 then pure p.rsrcPos
      else if ← checked (onDisk (os.resourceOpen p.path)) then do
        checked (seekTo os p.path .resource p.rsrcPos)
        rdWrRecvChecked (toFile os p.path .resource) rforkLen p.rsrcPos rforkLen
        if p.rsrcPos + rforkLen < 2 ^ 64 then pure (p.rsrcPos + rforkLen)
        else Fallible.fail (.errno EFBIG)
      else Fallible.fail (.errno EIO)

/-- What follows the data fork of a folder's file. -/
def skipRestChecked (ffo : Ffo) (p : HxnetXferParams) (hdr : List UInt8) (totLen budget : ℕ) :
    Checked ω Unit :=
  if p.fileBudget = 0 then skipResourceChecked ffo p hdr else drainResourceChecked totLen budget

/-- What follows the data fork, and the sidecar. -/
def receiveTailChecked (os : Os ω) (ffo : Ffo) (p : HxnetXferParams) (hdr : List UInt8)
    (pi : FilpInfo) (totLen budget : ℕ) : Checked ω Unit :=
  if p.optFolder then do
    skipRestChecked ffo p hdr totLen budget
    checked (finish os p pi 0)
  else do
    let rsrclen ← receiveResourceChecked os ffo p totLen budget
    checked (finish os p pi rsrclen)

/-- `file_recv` with overflow checks. -/
def fileRecvChecked (os : Os ω) (ffo : Ffo) (p : HxnetXferParams) : Checked ω Unit := do
  let (hdr, pi, infoLen) ← readFilpChecked ffo p
  checked (earlySidecar os p pi)
  let start ← placeForkChecked p pi
  let again ← subU64 p.dataPos start
  let budget := if p.fileBudget = 0 then 0 else satAdd64 p.fileBudget again
  let totLen ← addU64 infoLen pi.dataForkLen
  if p.optPreview then previewForkChecked p pi
  else do
    receiveForkChecked os p pi start again
    receiveTailChecked os ffo p hdr pi totLen budget

theorem checked_run (m : Work ω α) (w : World ω) :
    (checked m).run w = ((m.run w).1.mapError Stop.errno, (m.run w).2) := rfl

theorem checked_run_ok {m : Work ω α} {w w' : World ω} {a : α} (h : m.run w = (.ok a, w')) :
    (checked m).run w = (.ok a, w') := by
  rw [checked_run, h]
  rfl

theorem checked_run_error {m : Work ω α} {w w' : World ω} {e : Errno}
    (h : m.run w = (.error e, w')) : (checked m).run w = (.error (.errno e), w') := by
  rw [checked_run, h]
  rfl

/-- A worker without integers to check does not overflow. -/
theorem checked_ne_overflow (m : Work ω α) (w : World ω) :
    ((checked m).run w).1 ≠ .error .overflow := by
  rcases hm : m.run w with ⟨e | a, w'⟩
  · rw [checked_run_error hm]
    intro h
    cases h
  · rw [checked_run_ok hm]
    intro h
    cases h

theorem checked_pure (a : α) : checked (pure a : Work ω α) = pure a := rfl

theorem checked_fail (e : Errno) :
    checked (Fallible.fail e : Work ω α) = Fallible.fail (.errno e) := rfl

theorem checked_bind (m : Work ω α) (f : α → Work ω β) :
    checked (m >>= f) = checked m >>= fun a => checked (f a) := by
  funext w
  change (checked (m >>= f)).run w = (checked m >>= fun a => checked (f a)).run w
  rcases hm : m.run w with ⟨e | a, w'⟩
  · rw [checked_run_error (Fallible.run_bind_error hm),
      Fallible.run_bind_error (checked_run_error hm)]
  · rw [Fallible.run_bind_ok (checked_run_ok hm), checked_run, checked_run,
      Fallible.run_bind_ok hm]

/-- What follows a program matters for what it returns only. -/
theorem checked_bind_congr {m : Work ω α} {k k' : α → Checked ω β}
    (h : ∀ {w a w'}, m.run w = (.ok a, w') → k a = k' a) : checked m >>= k = checked m >>= k' := by
  funext w
  change (checked m >>= k).run w = (checked m >>= k').run w
  rcases hm : m.run w with ⟨e | a, w'⟩
  · rw [Fallible.run_bind_error (checked_run_error hm),
      Fallible.run_bind_error (checked_run_error hm)]
  · rw [Fallible.run_bind_ok (checked_run_ok hm), Fallible.run_bind_ok (checked_run_ok hm), h hm]

theorem checked_ite (c : Prop) [Decidable c] (m m' : Work ω α) :
    checked (if c then m else m') = if c then checked m else checked m' :=
  apply_ite checked c m m'

theorem subU64_eq {a b : ℕ} (hle : b ≤ a) : (subU64 a b : Checked ω ℕ) = pure (a - b) := if_pos hle

theorem addU64_eq {a b : ℕ} (hlt : a + b < 2 ^ 64) : (addU64 a b : Checked ω ℕ) = pure (a + b) :=
  if_pos hlt

/-- Copying counts down by what a read brought, which is no more than what is left. -/
theorem rdWrRecvChecked_eq (put : ℕ → List UInt8 → Work ω Unit) (fuel pos dataLen : ℕ) :
    rdWrRecvChecked put fuel pos dataLen = checked (rdWrRecv put fuel pos dataLen) := by
  induction fuel generalizing pos dataLen with
  | zero => rfl
  | succ fuel ih =>
    rw [rdWrRecvChecked, rdWrRecv, checked_ite, checked_pure, checked_bind]
    congr 1
    refine checked_bind_congr fun hread => ?_
    obtain ⟨-, -, -, -, hroom⟩ := xferRead_returns hread
    rw [checked_bind]
    congr 1
    funext _
    rw [subU64_eq (hroom.trans (Nat.min_le_right _ _))]
    exact ih _ _

theorem drainChecked_eq (fuel remaining : ℕ) :
    (drainChecked fuel remaining : Checked ω Unit) = checked (drain fuel remaining) := by
  induction fuel generalizing remaining with
  | zero => rfl
  | succ fuel ih =>
    rw [drainChecked, drain, checked_ite, checked_pure, checked_bind]
    congr 1
    refine checked_bind_congr fun {w a w'} hread => ?_
    rw [Fallible.run_attempt] at hread
    obtain ⟨ha, -⟩ := Prod.mk.inj hread
    obtain rfl := Except.ok.inj ha
    rcases hpiece : (xferRead (min 2048 remaining)).run w with ⟨e | got, w₁⟩
    · rfl
    · obtain ⟨-, -, -, -, hroom⟩ := xferRead_returns hpiece
      change (subU64 remaining got.length >>= fun left => drainChecked fuel left) = _
      rw [subU64_eq (hroom.trans (Nat.min_le_right _ _))]
      exact ih _

theorem previewForkChecked_eq (p : HxnetXferParams) (pi : FilpInfo) :
    (previewForkChecked p pi : Checked ω Unit) = checked (previewFork p pi) := by
  unfold previewForkChecked previewFork
  cases p.preview with
  | none => rfl
  | some setInfo =>
    dsimp only
    rw [checked_bind, rdWrRecvChecked_eq]
    congr 1
    funext _
    rw [checked_ite]
    rfl

/-- A fork is sent again in part at most. -/
theorem receiveForkChecked_eq (os : Os ω) (p : HxnetXferParams) (pi : FilpInfo) (start : ℕ) :
    receiveForkChecked os p pi start (p.dataPos - start) = checked (receiveFork os p pi start) := by
  have hle : min (p.dataPos - start) pi.dataForkLen ≤ pi.dataForkLen := Nat.min_le_right _ _
  unfold receiveForkChecked receiveFork
  simp only [checked_ite, checked_pure, checked_bind, rdWrRecvChecked_eq, subU64_eq hle]
  rfl

theorem skipResourceChecked_eq (ffo : Ffo) (p : HxnetXferParams) (hdr : List UInt8) :
    (skipResourceChecked ffo p hdr : Checked ω Unit) = checked (skipResource ffo p hdr) := by
  unfold skipResourceChecked skipResource
  rw [checked_bind]
  congr 1
  funext marker
  cases marker with
  | none => rfl
  | some marker => exact rdWrRecvChecked_eq _ _ _ _

/-- What is left of the announced size is counted where there is any. -/
theorem drainResourceChecked_eq (totLen budget : ℕ) :
    (drainResourceChecked totLen budget : Checked ω Unit) =
      checked (drainResource totLen budget) := by
  unfold drainResourceChecked drainResource
  by_cases hlt : totLen < budget
  · rw [if_pos hlt, if_pos hlt]
    simp only [checked_ite, checked_pure, checked_bind, checked_fail, subU64_eq hlt.le,
      ← drainChecked_eq]
    rfl
  · rw [if_neg hlt, if_neg hlt]
    rfl

theorem receiveResourceChecked_eq (os : Os ω) (ffo : Ffo) (p : HxnetXferParams)
    (totLen budget : ℕ) :
    receiveResourceChecked os ffo p totLen budget =
      checked (receiveResource os ffo p totLen budget) := by
  unfold receiveResourceChecked receiveResource
  rw [checked_ite, checked_pure, checked_bind]
  congr 1
  congr 1
  funext marker
  cases marker with
  | none => rfl
  | some marker =>
    simp only [checked_ite, checked_pure, checked_bind, checked_fail, rdWrRecvChecked_eq]

theorem receiveTailChecked_eq (os : Os ω) (ffo : Ffo) (p : HxnetXferParams) (hdr : List UInt8)
    (pi : FilpInfo) (totLen budget : ℕ) :
    receiveTailChecked os ffo p hdr pi totLen budget =
      checked (receiveTail os ffo p hdr pi totLen budget) := by
  unfold receiveTailChecked receiveTail skipRestChecked skipRest
  simp only [checked_ite, checked_bind, skipResourceChecked_eq, drainResourceChecked_eq,
    receiveResourceChecked_eq]

/-- The length of an info block, from its two bytes and the fork header that ends it. -/
def InfoBlockBounded (ffo : Ffo) : Prop :=
  ∀ {hi lo n}, ffo.infoBlockLen hi lo = some n → n ≤ 256 * hi.toNat + lo.toNat + FORK_HEADER_LEN

theorem infoBlock_fits {ffo : Ffo} (hffo : InfoBlockBounded ffo) {hi lo : UInt8} {n : ℕ}
    (h : ffo.infoBlockLen hi lo = some n) : 40 + n < 2 ^ 64 := by
  have hn := hffo h
  have hhi : hi.toNat < 256 := hi.toNat_lt
  have hlo : lo.toNat < 256 := lo.toNat_lt
  have hfork : FORK_HEADER_LEN = 16 := rfl
  omega

theorem readFilpChecked_eq {ffo : Ffo} (hffo : InfoBlockBounded ffo) (p : HxnetXferParams) :
    (readFilpChecked ffo p : Checked ω _) = checked (readFilp ffo p) := by
  unfold readFilpChecked readFilp
  rw [checked_bind]
  congr 1
  funext hdr
  rw [checked_bind]
  refine checked_bind_congr fun {w n w'} hlen => ?_
  rcases hblock : ffo.infoBlockLen (hdr.getD 38 0) (hdr.getD 39 0) with _ | m <;>
    rw [hblock] at hlen
  · cases hlen
  · obtain rfl := Except.ok.inj (Prod.mk.inj hlen).1
    have hfits := infoBlock_fits hffo hblock
    rw [addU64_eq hfits, checked_bind, add64, Nat.mod_eq_of_lt hfits]
    simp only [checked_bind]
    rfl

/-- The lengths that a FILP announces, if it arrives and its data fork can be placed, add up
below 2^64: the fork with where it is placed, and with what came before it. -/
def LengthsFit (ffo : Ffo) (p : HxnetXferParams) (w : World ω) : Prop :=
  ∀ hdr pi infoLen w', (readFilp ffo p).run w = (.ok (hdr, pi, infoLen), w') →
    ∀ start, dataFrom w.was p.dataPos pi.dataForkLen pi.modifyTime = .ok start →
      start + pi.dataForkLen < 2 ^ 64 ∧ infoLen + pi.dataForkLen < 2 ^ 64

/-- Placing a fork whose end fits, in either build. -/
theorem placeFork_run_ok {p : HxnetXferParams} {pi : FilpInfo} {w : World ω} {start : ℕ}
    (h : dataFrom w.was p.dataPos pi.dataForkLen pi.modifyTime = .ok start)
    (hfits : start + pi.dataForkLen < 2 ^ 64) :
    (placeFork p pi).run w =
        (.ok start, { w with was := some ⟨start + pi.dataForkLen, pi.modifyTime⟩ }) ∧
      (placeForkChecked p pi).run w =
        (.ok start, { w with was := some ⟨start + pi.dataForkLen, pi.modifyTime⟩ }) := by
  constructor
  · unfold Fallible.run placeFork
    simp only [h, add64, Nat.mod_eq_of_lt hfits]
  · rw [placeForkChecked, Fallible.run_bind_ok (Fallible.run_state w), h]
    simp only [addU64_eq hfits]
    rfl

/-- Placing a fork whose end does not fit. -/
theorem placeForkChecked_run_overflow {p : HxnetXferParams} {pi : FilpInfo} {w : World ω}
    {start : ℕ} (h : dataFrom w.was p.dataPos pi.dataForkLen pi.modifyTime = .ok start)
    (hlong : ¬ start + pi.dataForkLen < 2 ^ 64) :
    (placeForkChecked p pi).run w = (.error .overflow, w) := by
  rw [placeForkChecked, Fallible.run_bind_ok (Fallible.run_state w), h]
  simp only [addU64, if_neg hlong]
  rfl

/-- A fork that cannot be placed fails in either build. -/
theorem placeFork_run_error {p : HxnetXferParams} {pi : FilpInfo} {w : World ω} {e : Errno}
    (h : dataFrom w.was p.dataPos pi.dataForkLen pi.modifyTime = .error e) :
    (placeFork p pi).run w = (.error e, { w with was := none }) ∧
      (placeForkChecked p pi).run w = (.error (.errno e), { w with was := none }) := by
  constructor
  · unfold Fallible.run placeFork
    rw [h]
  · rw [placeForkChecked, Fallible.run_bind_ok (Fallible.run_state w), h]
    rfl

theorem earlySidecar_run (os : Os ω) (p : HxnetXferParams) (pi : FilpInfo) (w : World ω) :
    ∃ w', (earlySidecar os p pi).run w = (.ok (), w') ∧ w'.was = w.was := by
  unfold earlySidecar
  split
  · exact ⟨w, rfl, rfl⟩
  · exact ⟨_, rfl, rfl⟩

/-- What follows the FILP, in the build with overflow checks. -/
theorem fileRecvChecked_run {os : Os ω} {ffo : Ffo} (hffo : InfoBlockBounded ffo)
    {p : HxnetXferParams} {w w₁ w₂ : World ω} {hdr : List UInt8} {pi : FilpInfo} {infoLen : ℕ}
    (hfilp : (readFilp ffo p).run w = (.ok (hdr, pi, infoLen), w₁))
    (hearly : (earlySidecar os p pi).run w₁ = (.ok (), w₂)) :
    (fileRecvChecked os ffo p).run w =
      (placeForkChecked p pi >>= fun start => do
        let again ← subU64 p.dataPos start
        let totLen ← addU64 infoLen pi.dataForkLen
        if p.optPreview then checked (previewFork p pi)
        else do
          receiveForkChecked os p pi start again
          checked (receiveTail os ffo p hdr pi totLen
            (if p.fileBudget = 0 then 0 else satAdd64 p.fileBudget again))).run w₂ := by
  rw [fileRecvChecked, readFilpChecked_eq hffo, Fallible.run_bind_ok (checked_run_ok hfilp)]
  dsimp only
  rw [Fallible.run_bind_ok (checked_run_ok hearly)]
  simp only [previewForkChecked_eq, receiveTailChecked_eq]

/-- What follows the FILP, in the other. -/
theorem fileRecv_run {os : Os ω} {ffo : Ffo} {p : HxnetXferParams} {w w₁ w₂ : World ω}
    {hdr : List UInt8} {pi : FilpInfo} {infoLen : ℕ}
    (hfilp : (readFilp ffo p).run w = (.ok (hdr, pi, infoLen), w₁))
    (hearly : (earlySidecar os p pi).run w₁ = (.ok (), w₂)) :
    (fileRecv os ffo p).run w =
      (placeFork p pi >>= fun start =>
        if p.optPreview then previewFork p pi
        else do
          receiveFork os p pi start
          receiveTail os ffo p hdr pi (add64 infoLen pi.dataForkLen)
            (if p.fileBudget = 0 then 0
              else satAdd64 p.fileBudget (p.dataPos - start))).run w₂ := by
  rw [fileRecv, Fallible.run_bind_ok hfilp]
  dsimp only
  rw [Fallible.run_bind_ok hearly]

/-- The two builds of `file_recv`: they do the same where the lengths fit, and where they do
not the one with overflow checks stops. -/
theorem fileRecvChecked_placed {os : Os ω} {ffo : Ffo} (hffo : InfoBlockBounded ffo)
    {p : HxnetXferParams} {w w₁ : World ω} {hdr : List UInt8} {pi : FilpInfo} {infoLen start : ℕ}
    (hfilp : (readFilp ffo p).run w = (.ok (hdr, pi, infoLen), w₁))
    (hplaced : dataFrom w.was p.dataPos pi.dataForkLen pi.modifyTime = .ok start) :
    (start + pi.dataForkLen < 2 ^ 64 ∧ infoLen + pi.dataForkLen < 2 ^ 64 →
      (fileRecvChecked os ffo p).run w = (checked (fileRecv os ffo p)).run w) ∧
    (¬ (start + pi.dataForkLen < 2 ^ 64 ∧ infoLen + pi.dataForkLen < 2 ^ 64) →
      ((fileRecvChecked os ffo p).run w).1 = .error .overflow) := by
  obtain ⟨w₂, hearly, hwas⟩ := earlySidecar_run os p pi w₁
  obtain ⟨-, inner, rfl, -⟩ := readFilp_returns hfilp
  have hplaced₂ : dataFrom w₂.was p.dataPos pi.dataForkLen pi.modifyTime = .ok start := by
    rw [hwas]
    exact hplaced
  have hle : start ≤ p.dataPos := by
    rcases dataFrom_ok hplaced with rfl | rfl
    · exact le_rfl
    · exact Nat.zero_le _
  rw [fileRecvChecked_run hffo hfilp hearly]
  by_cases hstart : start + pi.dataForkLen < 2 ^ 64
  · obtain ⟨hplace, hchecked⟩ := placeFork_run_ok hplaced₂ hstart
    rw [Fallible.run_bind_ok hchecked, subU64_eq hle]
    by_cases htotal : infoLen + pi.dataForkLen < 2 ^ 64
    · refine ⟨fun _ => ?_, fun hnot => absurd ⟨hstart, htotal⟩ hnot⟩
      have hadd : add64 infoLen pi.dataForkLen = infoLen + pi.dataForkLen :=
        Nat.mod_eq_of_lt htotal
      rw [checked_run, fileRecv_run hfilp hearly, Fallible.run_bind_ok hplace, ← checked_run,
        addU64_eq htotal, hadd, checked_ite, checked_bind, ← receiveForkChecked_eq]
      rfl
    · refine ⟨fun hboth => absurd hboth.2 htotal, fun _ => ?_⟩
      rw [addU64, if_neg htotal]
      rfl
  · refine ⟨fun hboth => absurd hboth.1 hstart, fun _ => ?_⟩
    rw [Fallible.run_bind_error (placeForkChecked_run_overflow hplaced₂ hstart)]

/-- For everything a server can send: no `u64` of `file_recv` leaves its range exactly when
the lengths of the FILP fit, and then the build that wraps does what the build with overflow
checks does. -/
theorem no_overflow_iff (os : Os ω) {ffo : Ffo} (hffo : InfoBlockBounded ffo)
    (p : HxnetXferParams) (w : World ω) :
    (((fileRecvChecked os ffo p).run w).1 ≠ .error .overflow ↔ LengthsFit ffo p w) ∧
      (LengthsFit ffo p w →
        (fileRecvChecked os ffo p).run w = (checked (fileRecv os ffo p)).run w) := by
  have hsame : LengthsFit ffo p w →
      (fileRecvChecked os ffo p).run w = (checked (fileRecv os ffo p)).run w := by
    intro hfit
    rcases hfilp : (readFilp ffo p).run w with ⟨e | ⟨hdr, pi, infoLen⟩, w₁⟩
    · rw [fileRecvChecked, readFilpChecked_eq hffo,
        Fallible.run_bind_error (checked_run_error hfilp), checked_run, fileRecv,
        Fallible.run_bind_error hfilp]
      rfl
    · rcases hplaced : dataFrom w.was p.dataPos pi.dataForkLen pi.modifyTime with e | start
      · obtain ⟨w₂, hearly, hwas⟩ := earlySidecar_run os p pi w₁
        obtain ⟨-, inner, rfl, -⟩ := readFilp_returns hfilp
        have hplaced₂ : dataFrom w₂.was p.dataPos pi.dataForkLen pi.modifyTime = .error e := by
          rw [hwas]
          exact hplaced
        obtain ⟨hplace, hchecked⟩ := placeFork_run_error hplaced₂
        rw [fileRecvChecked_run hffo hfilp hearly, Fallible.run_bind_error hchecked, checked_run,
          fileRecv_run hfilp hearly, Fallible.run_bind_error hplace]
        rfl
      · exact (fileRecvChecked_placed hffo hfilp hplaced).1
          (hfit hdr pi infoLen w₁ hfilp start hplaced)
  refine ⟨⟨?_, ?_⟩, hsame⟩
  · intro hno hdr pi infoLen w₁ hfilp start hplaced
    by_contra hnot
    exact hno ((fileRecvChecked_placed hffo hfilp hplaced).2 hnot)
  · intro hfit
    rw [hsame hfit]
    exact checked_ne_overflow _ _

theorem infoBlockBounded_flatFfo : InfoBlockBounded flatFfo := by
  intro hi lo n h
  obtain rfl := Option.some.inj h
  rw [Nat.mul_comm hi.toNat]

/-- A download in large-file mode, from its start. -/
def largeFile : HxnetXferParams :=
  { wholeFile ⟨[], true, [[102]]⟩ 200 with optLarge := true }

/-- A file announced with a data fork of 2^64 - 1 bytes. -/
theorem longest_fork_overflows :
    ((fileRecvChecked MemDisk.os flatFfo largeFile).run
      (receiver ⟨[], true, [[102]]⟩ none (flatHeader ++ flatInfo [] (2 ^ 64 - 1)))).1 =
        .error .overflow := by
  decide +kernel

/-- A file of one byte. -/
theorem one_byte_no_overflow :
    (((fileRecvChecked MemDisk.os flatFfo (wholeFile ⟨[], true, [[102]]⟩ 134)).run
        (receiver ⟨[], true, [[102]]⟩ none (flatFile [] [9]))).1 ≠ .error .overflow ↔
      LengthsFit flatFfo (wholeFile ⟨[], true, [[102]]⟩ 134)
        (receiver ⟨[], true, [[102]]⟩ none (flatFile [] [9]))) ∧
    ((fileRecvChecked MemDisk.os flatFfo (wholeFile ⟨[], true, [[102]]⟩ 134)).run
        (receiver ⟨[], true, [[102]]⟩ none (flatFile [] [9]))).1 ≠ .error .overflow :=
  ⟨(no_overflow_iff MemDisk.os infoBlockBounded_flatFfo _ _).1, by decide +kernel⟩

end Gtkhx.Htxf
