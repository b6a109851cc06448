import Gtkhx.Htxf.Disk
import Gtkhx.Htxf.Flattened
import Gtkhx.Htxf.Frames

/-!
# What a received file holds

After a file was received its data fork is what the server sent, from where the fork was
placed, except that an empty fork is never opened for: what was at the path stays.
-/

namespace Gtkhx.Htxf

open Reader Fallible

variable {ω : Type}

/-- A stream begins with a file: a header, an info block that says `pi`, and a data fork. -/
def Carries (ffo : Ffo) (large : Bool) (stream : List UInt8) (pi : FilpInfo)
    (fork : List UInt8) : Prop :=
  ∃ hdr info rest, stream = hdr ++ (info ++ (fork ++ rest)) ∧ hdr.length = 40 ∧
    ffo.infoBlockLen (hdr.getD 38 0) (hdr.getD 39 0) = some info.length ∧
    ffo.parseFilpInfo info large = some pi ∧ fork.length = pi.dataForkLen

/-- What a FILP that was read is made of. -/
theorem readFilp_returns {ffo : Ffo} {p : HxnetXferParams} {w w' : World ω}
    {out : List UInt8 × FilpInfo × ℕ} (h : (readFilp ffo p).run w = (.ok out, w')) :
    ∃ info inner, w' = w.reading inner ∧
      carried w.conn.inner = out.1 ++ (info ++ carried inner) ∧ out.1.length = 40 ∧
      ffo.infoBlockLen (out.1.getD 38 0) (out.1.getD 39 0) = some info.length ∧
      ffo.parseFilpInfo info p.optLarge = some out.2.1 ∧ out.2.2 = add64 40 info.length := by
  obtain ⟨hdr, w₁, hhdr, h⟩ := bind_returns h
  obtain ⟨inner, rfl, hbytes, hlength⟩ := readFull_returns hhdr
  obtain ⟨infoLen, w₂, hlen, h⟩ := bind_returns h
  rcases hblock : ffo.infoBlockLen (hdr.getD 38 0) (hdr.getD 39 0) with _ | n <;>
    rw [hblock] at hlen
  · cases hlen
  obtain ⟨hn, rfl⟩ := Prod.mk.inj hlen
  obtain rfl := Except.ok.inj hn
  obtain ⟨info, w₃, hinfo, h⟩ := bind_returns h
  obtain ⟨inner', rfl, hbytes', hlength'⟩ := readFull_returns hinfo
  obtain ⟨pi, w₄, hparse, h⟩ := bind_returns h
  rcases hpi : ffo.parseFilpInfo info p.optLarge with _ | fi <;> rw [hpi] at hparse
  · cases hparse
  obtain ⟨hfi, rfl⟩ := Prod.mk.inj hparse
  obtain rfl := Except.ok.inj hfi
  obtain ⟨hout, rfl⟩ := Prod.mk.inj h
  obtain rfl := Except.ok.inj hout
  refine ⟨info, inner', rfl, ?_, hlength, by rw [hblock, hlength'], hpi, by rw [hlength']⟩
  rw [hbytes]
  exact congrArg _ hbytes'

/-- A stream begins with one file only. -/
theorem Carries.unique {ffo : Ffo} {large : Bool} {stream hdr info rest : List UInt8}
    {pi pi' : FilpInfo} {fork : List UInt8} (h : Carries ffo large stream pi fork)
    (hstream : stream = hdr ++ (info ++ rest)) (hhdr : hdr.length = 40)
    (hblock : ffo.infoBlockLen (hdr.getD 38 0) (hdr.getD 39 0) = some info.length)
    (hparse : ffo.parseFilpInfo info large = some pi') :
    pi' = pi ∧ fork <+: rest := by
  obtain ⟨hdr', info', rest', heq, hhdr', hblock', hparse', -⟩ := h
  rw [hstream] at heq
  obtain ⟨rfl, htail⟩ := List.append_inj heq (by rw [hhdr, hhdr'])
  have hlength : info.length = info'.length := Option.some.inj (hblock.symm.trans hblock')
  obtain ⟨rfl, rfl⟩ := List.append_inj htail hlength
  exact ⟨Option.some.inj (hparse.symm.trans hparse'), List.prefix_append _ _⟩

section Laws

variable {os : Os ω} {data : ω → PathBuf → Option (List UInt8)} (hos : DataLaws os data)

include hos

/-- What follows the data fork leaves it alone. -/
theorem DataLaws.tailKeeps (path : PathBuf) (content : Option (List UInt8)) :
    TailKeeps os path fun w => data w.disk path = content where
  conn := fun _ _ hw => hw
  sidecar := fun info => .change fun w hw => by rw [← hw]; exact hos.sidecar
  resourceOpen := Keeps.onDisk (Q := fun s => data s path = content) fun s hs =>
    hos.resource_opened.trans hs
  writeResource := fun pos bytes => Keeps.onDisk (Q := fun s => data s path = content)
    fun s hs => hos.resource_written.trans hs

/-- Bytes copied to the end of a file are appended to it. -/
theorem DataLaws.copy {path : PathBuf} {fuel dataLen : ℕ} {old : List UInt8} {w w' : World ω}
    (hfuel : dataLen ≤ fuel) (hold : data w.disk path = some old)
    (h : (rdWrRecv (toFile os path .data) fuel old.length dataLen).run w = (.ok (), w')) :
    ∃ bytes, bytes.length = dataLen ∧ carried w.conn.inner = bytes ++ carried w'.conn.inner ∧
      data w'.disk path = some (old ++ bytes) := by
  have hrun := rdWrRecv_run (toFile os path .data) old.length
    (fun got w => data w.disk path = some (old ++ got)) (fun _ _ => True) (fun inner hw => hw)
    (fun _ => trivial) ?_ hfuel [] (w := w)
    (by simpa using hold)
  · rw [List.length_nil, Nat.add_zero, h] at hrun
    simpa using hrun
  · intro got bytes w hw
    rcases hput : (toFile os path .data (old.length + got.length) bytes).run w with ⟨e | u, w'⟩
    · trivial
    · obtain ⟨disk, hwrite, rfl⟩ := onDisk_run hput
      have hwritten := hos.written hw hwrite
      rw [← List.length_append, overwrite_end, List.append_assoc] at hwritten
      exact ⟨hwritten, rfl⟩

/-- What opening a file for a fork leaves of it is what it held up to where the fork
goes. -/
theorem DataLaws.kept {path : PathBuf} {start : ℕ} {s s' : ω}
    (hstart : start = 0 ∨ ∃ old, data s path = some old ∧ old.length = start)
    (h : (os.openWrite path (start == 0)).run s = (.ok (), s')) :
    ∃ kept, data s' path = some kept ∧ kept.length = start ∧
      kept = ((data s path).getD []).take start := by
  have hopened := hos.opened h
  rcases hstart with rfl | ⟨old, hold, rfl⟩
  · exact ⟨[], hopened, rfl, rfl⟩
  · rw [hold] at hopened
    refine ⟨old, ?_, rfl, by simp [hold]⟩
    cases old with
    | nil => simpa using hopened
    | cons b old => simpa using hopened

/-- A fork of any bytes ends up behind what was kept of the file. -/
theorem DataLaws.receiveFork {p : HxnetXferParams} {pi : FilpInfo} {start : ℕ} {w w' : World ω}
    (hne : pi.dataForkLen ≠ 0)
    (hstart : start = 0 ∨ ∃ old, data w.disk p.path = some old ∧ old.length = start)
    (h : (receiveFork os p pi start).run w = (.ok (), w')) :
    ∃ fork, fork.length = pi.dataForkLen ∧ fork <+: carried w.conn.inner ∧
      data w'.disk p.path = some (((data w.disk p.path).getD []).take start ++ fork) := by
  rw [Htxf.receiveFork, if_neg hne] at h
  obtain ⟨u, w₁, hopen, h⟩ := bind_returns h
  obtain ⟨disk, hdisk, rfl⟩ := onDisk_run hopen
  obtain ⟨u, w₂, hseek, h⟩ := bind_returns h
  obtain rfl := seekTo_returns hseek
  obtain ⟨kept, hkept, rfl, heq⟩ := hos.kept hstart hdisk
  obtain ⟨u, w₃, hagain, h⟩ := bind_returns h
  obtain ⟨first, hfirst, hbytes, hdata⟩ := hos.copy le_rfl hkept hagain
  obtain ⟨u, w₄, hrest, h⟩ := bind_returns h
  rw [← hfirst, ← List.length_append] at hrest
  obtain ⟨second, hsecond, hbytes', hdata'⟩ := hos.copy le_rfl hdata hrest
  obtain ⟨-, rfl⟩ := Prod.mk.inj h
  refine ⟨first ++ second, ?_, ?_, ?_⟩
  · rw [List.length_append, hsecond, hfirst]
    omega
  · exact ⟨carried w₄.conn.inner, by rw [List.append_assoc, ← hbytes', ← hbytes]⟩
  · rw [← heq, ← List.append_assoc]
    exact hdata'

end Laws

/-- **What a received file holds**: the bytes that were kept of it, and then the fork,
exactly unless the fork is empty, goes to the start, and found no empty file there. -/
theorem received_iff {os : Os ω} {data : ω → PathBuf → Option (List UInt8)}
    (hos : DataLaws os data) (ffo : Ffo) {p : HxnetXferParams} (hpreview : p.optPreview = false)
    {w w' : World ω} {pi : FilpInfo} {fork : List UInt8}
    (hcall : w.was = none ∧ p.dataPos = 0 ∨
      0 < p.dataPos ∧ ∃ old, data w.disk p.path = some old ∧ old.length = p.dataPos)
    (hstream : Carries ffo p.optLarge (carried w.conn.inner) pi fork)
    (hrun : (fileRecv os ffo p).run w = (.ok (), w')) :
    ∃ start, dataFrom w.was p.dataPos pi.dataForkLen pi.modifyTime = .ok start ∧
      (data w'.disk p.path = some (((data w.disk p.path).getD []).take start ++ fork) ↔
        pi.dataForkLen ≠ 0 ∨ start ≠ 0 ∨ data w.disk p.path = some []) := by
  obtain ⟨out, w₁, hfilp, hrun⟩ := bind_returns hrun
  obtain ⟨info, inner, rfl, hbytes, hhdr, hblock, hparse, -⟩ := readFilp_returns hfilp
  obtain ⟨heq, hpre⟩ := hstream.unique hbytes hhdr hblock hparse
  obtain ⟨hdr, pi', infoLen⟩ := out
  obtain rfl : pi' = pi := heq
  obtain ⟨u, w₂, hside, hrun⟩ := bind_returns hrun
  obtain ⟨hdata, hconn, hwas⟩ : data w₂.disk p.path = data w.disk p.path ∧
      w₂.conn.inner = inner ∧ w₂.was = w.was := by
    rw [earlySidecar, hpreview] at hside
    obtain ⟨-, rfl⟩ := Prod.mk.inj hside
    exact ⟨hos.sidecar, rfl, rfl⟩
  obtain ⟨start, w₃, hplace, hrun⟩ := bind_returns hrun
  obtain ⟨hstart, rfl⟩ := placeFork_returns hplace
  rw [hwas] at hstart
  dsimp only at hrun
  rw [hpreview] at hrun
  obtain ⟨u, w₄, hfork, hrun⟩ := bind_returns hrun
  have htail := (hos.tailKeeps p.path (data w₄.disk p.path)).receiveTail ffo hdr pi'
    (add64 infoLen pi'.dataForkLen)
    (if p.fileBudget = 0 then 0 else satAdd64 p.fileBudget (p.dataPos - start)) w₄ rfl
  rw [hrun] at htail
  refine ⟨start, hstart, ?_⟩
  change data w'.disk p.path = data w₄.disk p.path at htail
  rw [htail]
  have hlength : fork.length = pi'.dataForkLen := by
    obtain ⟨-, -, -, -, -, -, -, hlength⟩ := hstream
    exact hlength
  have hheld : start = 0 ∨ ∃ old, data w.disk p.path = some old ∧ old.length = start := by
    rcases dataFrom_ok hstart with rfl | rfl
    · exact hcall.imp And.right And.right
    · exact .inl rfl
  by_cases hempty : pi'.dataForkLen = 0
  · rw [Htxf.receiveFork, if_pos hempty] at hfork
    obtain ⟨-, rfl⟩ := Prod.mk.inj hfork
    obtain rfl : fork = [] := List.eq_nil_of_length_eq_zero (hlength.trans hempty)
    rw [hdata, List.append_nil]
    rcases hheld with rfl | ⟨old, hold, rfl⟩
    · simp [hempty]
    · simp only [hold, Option.getD_some, List.take_length, true_iff, Option.some.injEq,
        List.length_eq_zero_iff, ne_eq]
      exact .inr (em (old = [])).symm
  · rw [← hdata] at hheld ⊢
    obtain ⟨fork', hlength', hpre', hend⟩ := hos.receiveFork
      (w := { w₂ with was := some ⟨add64 start pi'.dataForkLen, pi'.modifyTime⟩ })
      hempty hheld hfork
    have hsame : fork' = fork := by
      refine (List.prefix_of_prefix_length_le hpre' ?_ (by omega)).eq_of_length (by omega)
      rw [show carried w₂.conn.inner = carried inner from congrArg carried hconn]
      exact hpre
    rw [hend, hsame]
    exact iff_of_true rfl (.inl hempty)

/-- A worker with a file to receive over what is at a path. -/
def receiver (path : PathBuf) (old : Option (List UInt8)) (stream : List UInt8) :
    World MemDisk where
  conn := ⟨[.bytes stream], [], [], [], 0, 0, 0⟩
  disk := ⟨[], old.toList.map fun data => (path, ⟨data, [], 0⟩), [], 1⟩
  was := none
  ledger := fun _ => none
  received := 0

/-- A call for a file of its own. -/
def wholeFile (path : PathBuf) (fileBudget : ℕ) : HxnetXferParams where
  path := path
  fileBudget := fileBudget
  dataPos := 0
  rsrcPos := 0
  optPreview := false
  optFolder := false
  optLarge := false
  preview := none

/-- A byte for `/f`, where two were. -/
theorem received_one_byte :
    ∃ start, dataFrom none 0 1 (List.replicate 4 0) = .ok start ∧
      (MemDisk.data ((fileRecv MemDisk.os flatFfo (wholeFile ⟨[], true, [[102]]⟩ 134)).run
          (receiver ⟨[], true, [[102]]⟩ (some [7, 7]) (flatFile [] [9]))).2.disk
          ⟨[], true, [[102]]⟩ = some ([7, 7].take start ++ [9]) ↔
        (1 : ℕ) ≠ 0 ∨ start ≠ 0 ∨ some [7, 7] = some ([] : List UInt8)) := by
  obtain ⟨start, hstart, hiff⟩ := received_iff MemDisk.dataLaws flatFfo
    (p := wholeFile ⟨[], true, [[102]]⟩ 134)
    (w := receiver ⟨[], true, [[102]]⟩ (some [7, 7]) (flatFile [] [9]))
    rfl (.inl ⟨rfl, rfl⟩)
    (show Carries flatFfo false (flatFile [] [9]) ⟨List.replicate 8 0, List.replicate 4 0,
      List.replicate 4 0, [], 1⟩ [9] from
      ⟨flatHeader, flatInfo [] 1, [], by decide, by decide, by decide, by decide, by decide⟩)
    (run_eq_of_fst (by decide +kernel))
  exact ⟨start, hstart, hiff⟩

/-- An empty file for `/f`, where two bytes were: the call returns 0, and they are still
there. -/
theorem empty_file_leaves_old :
    Carries flatFfo false (flatFile [] []) ⟨List.replicate 8 0, List.replicate 4 0,
      List.replicate 4 0, [], 0⟩ [] ∧
    ((fileRecv MemDisk.os flatFfo (wholeFile ⟨[], true, [[102]]⟩ 133)).run
      (receiver ⟨[], true, [[102]]⟩ (some [7, 7]) (flatFile [] []))).1.isOk = true ∧
    MemDisk.data ((fileRecv MemDisk.os flatFfo (wholeFile ⟨[], true, [[102]]⟩ 133)).run
      (receiver ⟨[], true, [[102]]⟩ (some [7, 7]) (flatFile [] []))).2.disk
      ⟨[], true, [[102]]⟩ ≠ some [] :=
  ⟨⟨flatHeader, flatInfo [] 0, [], by decide, by decide, by decide, by decide, by decide⟩,
    by decide +kernel, by decide +kernel⟩

end Gtkhx.Htxf
