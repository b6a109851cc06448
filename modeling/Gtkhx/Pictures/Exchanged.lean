import Gtkhx.Pictures.Journeys

/-!
# Pictures go up and come down whole

Every step of the connections and of the jobs keeps what holds of them (`Media.Sound`), with
the job that a reply is to in hand while it is at it. So after every run the uploads and the
downloads are as they should be (`exchange_stored`, `exchange_fetched`).
-/

namespace Gtkhx.Pictures

open Requests (MAX_CHUNK)
open Tickets (cut find put)

variable {κ : Type*} [DecidableEq κ]

/-- The connections, and what is expected on them. -/
def Media.lines (s : Media κ) : Lines κ := ⟨s.conns, s.expects⟩

/-- Other lines, with the same jobs. -/
def Media.setLines (s : Media κ) (L : Lines κ) : Media κ :=
  { s with conns := L.conns, expects := L.expects }

/-- What holds of the jobs, some of which may be in hand. -/
structure Media.Sound (s : Media κ) (up down : List ℕ) : Prop where
  live : ∀ c, (s.conns c).agreed = true → (s.conns c).live = true
  numbered : ∀ key what, find key s.expects = some what →
    (s.conns key.1).live = true ∧ key.2 ∈ (s.conns key.1).used
  uploads : Filed s.lines UploadJob.Going UploadJob.Done .freed s.begun up s.stored s.uploads
  downloads : Filed s.lines DownloadJob.Going DownloadJob.Done .forgotten s.handles down
    s.fetched s.downloads

/-- What is to hold of lines. -/
structure Lines.Sound (L : Lines κ) : Prop where
  live : ∀ c, (L.conns c).agreed = true → (L.conns c).live = true
  numbered : ∀ key what, find key L.expects = some what →
    (L.conns key.1).live = true ∧ key.2 ∈ (L.conns key.1).used

/-- A connection changes in its lines. -/
def Lines.setConn (L : Lines κ) (c : κ) (conn : MediaConn) : Lines κ :=
  { L with conns := Function.update L.conns c conn }

@[simp] theorem Lines.setConn_same (L : Lines κ) (c : κ) (conn : MediaConn) :
    (L.setConn c conn).conns c = conn := Function.update_self ..

theorem Lines.setConn_ne (L : Lines κ) {c c' : κ} (hne : c' ≠ c) (conn : MediaConn) :
    (L.setConn c conn).conns c' = L.conns c' := Function.update_of_ne hne ..

theorem Lines.ages_setConn {L : Lines κ} {c : κ} {conn : MediaConn} (h : (L.conns c).Ages conn)
    (expects : List ((κ × UInt32) × Expect)) (c' : κ) :
    (L.conns c').Ages ((Lines.setConn ⟨L.conns, expects⟩ c conn).conns c') := by
  by_cases hc : c' = c
  · subst hc
    rwa [Lines.setConn_same]
  · rw [Lines.setConn_ne _ hc]
    exact MediaConn.Ages.refl _

/-- A change of one connection does not bear on the others. -/
theorem Lines.steady_setConn {L : Lines κ} {c : κ} {key : κ × UInt32} (hne : key.1 ≠ c)
    {conn : MediaConn} {expects : List ((κ × UInt32) × Expect)}
    (hexpects : find key expects = find key L.expects) :
    L.Steady (Lines.setConn ⟨L.conns, expects⟩ c conn) key where
  logins := by rw [Lines.setConn_ne _ hne]
  agreed := by rw [Lines.setConn_ne _ hne]
  used := by
    rw [Lines.setConn_ne _ hne]
    exact id
  expects := hexpects

/-- Lines stay right when a connection changes that nothing is expected on, or that stays live. -/
theorem Lines.Sound.setConn {L : Lines κ} (h : L.Sound) {c : κ} {conn : MediaConn}
    {expects : List ((κ × UInt32) × Expect)}
    (hlive : conn.agreed = true → conn.live = true)
    (hother : ∀ key what, key.1 ≠ c → find key expects = some what →
      find key L.expects = some what)
    (hnumbered : ∀ trans what, find (c, trans) expects = some what →
      conn.live = true ∧ trans ∈ conn.used) :
    (Lines.setConn ⟨L.conns, expects⟩ c conn).Sound where
  live c' hagreed := by
    by_cases hc : c' = c
    · subst hc
      rw [Lines.setConn_same] at hagreed ⊢
      exact hlive hagreed
    · rw [Lines.setConn_ne _ hc] at hagreed ⊢
      exact h.live c' hagreed
  numbered key what hfind := by
    obtain ⟨c', trans⟩ := key
    by_cases hc : c' = c
    · subst hc
      rw [Lines.setConn_same]
      exact hnumbered trans what hfind
    · rw [Lines.setConn_ne _ hc]
      exact h.numbered _ _ (hother _ _ hc hfind)

namespace Media

variable {s : Media κ} {up down : List ℕ} {c : κ} {trans : UInt32} {key : κ × UInt32}
  {what : Expect} {closes : Bool} {built : MediaRequest → Bool}

theorem Sound.lines (h : s.Sound up down) : s.lines.Sound := ⟨h.live, h.numbered⟩

/-- The lines go on. -/
theorem Sound.setLines (h : s.Sound up down) {L : Lines κ} (hsound : L.Sound)
    (hages : ∀ c, (s.conns c).Ages (L.conns c))
    (hup : ∀ entry ∈ s.uploads, L.Placed entry.1 entry.2)
    (hdown : ∀ entry ∈ s.downloads, L.Placed entry.1 entry.2) : (s.setLines L).Sound up down where
  live := hsound.live
  numbered := hsound.numbered
  uploads := h.uploads.lines hages hup
  downloads := h.downloads.lines hages hdown

/-- A connection is forgotten, and its line changes. -/
theorem Sound.forget (h : s.Sound up down) (c : κ) {L : Lines κ} (hsound : L.Sound)
    (hages : ∀ c, (s.conns c).Ages (L.conns c))
    (hsteady : ∀ key : κ × UInt32, key.1 ≠ c → s.lines.Steady L key)
    (hover : ∀ login ≤ (s.conns c).logins, (L.conns c).Over login) :
    ((s.forget c).setLines L).Sound up down where
  live := hsound.live
  numbered := hsound.numbered
  uploads := h.uploads.forget c hages hsteady hover fun _ hgoing =>
    ⟨hgoing.toOrdered, by simp, by simp⟩
  downloads := h.downloads.forget c hages hsteady hover fun _ hgoing =>
    ⟨hgoing.toOrdered, by simp, by simp⟩

/-- The connection closes. -/
theorem Sound.close (h : s.Sound up down) (c : κ) : (s.close c).Sound up down := by
  have hother (key : κ × UInt32) (hne : key.1 ≠ c) :
      find key (s.expects.filter fun entry => !decide (entry.1.1 = c)) = find key s.expects := by
    rw [Tickets.find_filter fun k : κ × UInt32 => !decide (k.1 = c)]
    simp [hne]
  refine h.forget c (L := Lines.setConn ⟨s.conns, _⟩ c (s.conns c).closed) ?_ ?_ ?_ ?_
  · refine h.lines.setConn (fun hopen => absurd hopen Bool.false_ne_true)
      (fun key what hne hfind => (hother key hne) ▸ hfind) ?_
    intro trans what hfind
    rw [Tickets.find_filter fun k : κ × UInt32 => !decide (k.1 = c)] at hfind
    simp at hfind
  · exact Lines.ages_setConn (L := s.lines) (s.conns c).ages_closed _
  · exact fun key hne => Lines.steady_setConn (L := s.lines) hne (hother key hne)
  · intro login hle
    rw [Lines.setConn_same]
    exact (lt_or_eq_of_le hle).imp id fun heq => ⟨heq, rfl⟩

/-- The server accepts a login. -/
theorem Sound.loggedIn (h : s.Sound up down) (hlive : (s.conns c).live = true) (agreed : Bool)
    (chunkSize : UInt32) :
    ((s.forget c).setConn c ((s.conns c).loggedIn agreed chunkSize)).Sound up down := by
  refine h.forget c
    (L := Lines.setConn ⟨s.conns, _⟩ c ((s.conns c).loggedIn agreed chunkSize)) ?_ ?_ ?_ ?_
  · exact h.lines.setConn (fun _ => hlive) (fun _ _ _ hfind => hfind)
      (fun trans what hfind => h.numbered _ what hfind)
  · exact Lines.ages_setConn (L := s.lines) ((s.conns c).ages_loggedIn agreed chunkSize) _
  · exact fun key hne => Lines.steady_setConn (L := s.lines) hne rfl
  · intro login hle
    rw [Lines.setConn_same]
    exact Or.inl (Nat.lt_succ_of_le hle)

/-- The connection opens. -/
theorem Sound.connect (h : s.Sound up down) (hclosed : (s.conns c).live = false) :
    (s.setConn c (s.conns c).opened).Sound up down := by
  have hshut : (s.conns c).agreed = false := by
    by_contra hopen
    rw [h.live c (by simpa using hopen)] at hclosed
    cases hclosed
  have hnone (trans : UInt32) (what : Expect) : find (c, trans) s.expects ≠ some what :=
    fun hwhat => by
      rw [(h.numbered _ what hwhat).1] at hclosed
      cases hclosed
  -- what lies under the connection is stranded
  have hplaced {ν : Type _} [Job κ ν] {key : κ × UInt32} {v : ν} (h : s.lines.Placed key v) :
      (Lines.setConn ⟨s.conns, s.expects⟩ c (s.conns c).opened).Placed key v := by
    obtain ⟨c', trans⟩ := key
    by_cases hc : c' = c
    · subst hc
      exact {
        conn := h.conn
        login := by
          rw [Lines.setConn_same]
          exact h.login
        up := fun hstranded => by
          have hopen : (s.conns c').agreed = true := (h.up hstranded).1
          rw [hshut] at hopen
          cases hopen
        shut := fun hstranded => by
          rw [Lines.setConn_same]
          exact h.shut hstranded }
    · exact h.steady (Lines.steady_setConn (L := s.lines) hc rfl)
  refine h.setLines (L := Lines.setConn ⟨s.conns, s.expects⟩ c (s.conns c).opened) ?_ ?_ ?_ ?_
  · exact h.lines.setConn (fun _ => rfl) (fun _ _ _ hfind => hfind)
      (fun trans what hfind => absurd hfind (hnone trans what))
  · exact Lines.ages_setConn (L := s.lines) (s.conns c).ages_opened _
  · exact fun entry hmem => hplaced (h.uploads.placed entry hmem)
  · exact fun entry hmem => hplaced (h.downloads.placed entry hmem)

/-- A request goes out with a number of its own. -/
def sending (s : Media κ) (c : κ) (trans : UInt32) (what : Expect) : Lines κ :=
  Lines.setConn ⟨s.conns, put (c, trans) what s.expects⟩ c ((s.conns c).gives trans)

theorem send_eq (s : Media κ) (c : κ) (trans : UInt32) (what : Expect) (closes : Bool) :
    s.send c trans what closes =
      if closes then (s.setLines (s.sending c trans what)).close c
      else s.setLines (s.sending c trans what) := rfl

theorem steady_sending {key : κ × UInt32} (hne : key ≠ (c, trans)) :
    s.lines.Steady (s.sending c trans what) key := by
  have hexpects : find key (put (c, trans) what s.expects) = find key s.expects := by
    rw [Tickets.find_put, if_neg hne]
  by_cases hc : key.1 = c
  · subst hc
    exact {
      logins := by
        rw [sending, Lines.setConn_same]
        rfl
      agreed := by
        rw [sending, Lines.setConn_same]
        rfl
      used := fun hused => by
        rw [sending, Lines.setConn_same]
        exact List.mem_cons_of_mem _ hused
      expects := hexpects }
  · exact Lines.steady_setConn (L := s.lines) hc hexpects

/-- What is asked leaves the jobs in place. -/
theorem Sound.send (h : s.Sound up down) (hask : s.CanAsk c trans)
    (hagreed : (s.conns c).agreed = true) (what : Expect) (closes : Bool) :
    (s.send c trans what closes).Sound up down := by
  have hopen : (s.setLines (s.sending c trans what)).Sound up down := by
    refine h.setLines ?_ ?_ ?_ ?_
    · refine h.lines.setConn (fun _ => hask.1) (fun key what' hne hfind => ?_) ?_
      · rwa [Tickets.find_put, if_neg fun heq => hne (congrArg Prod.fst heq)] at hfind
      · intro trans' what' hfind
        refine ⟨hask.1, ?_⟩
        by_cases heq : trans' = trans
        · exact heq ▸ List.mem_cons_self
        · rw [Tickets.find_put, if_neg fun hkey => heq (congrArg Prod.snd hkey)] at hfind
          exact List.mem_cons_of_mem _ (h.numbered _ what' hfind).2
    · exact Lines.ages_setConn (L := s.lines) ((s.conns c).ages_gives trans) _
    · exact fun entry hmem => (h.uploads.placed entry hmem).steady
        (steady_sending (h.uploads.unused hagreed hask.2 entry hmem))
    · exact fun entry hmem => (h.downloads.placed entry hmem).steady
        (steady_sending (h.downloads.unused hagreed hask.2 entry hmem))
  rw [send_eq]
  split
  · exact hopen.close c
  · exact hopen

/-- No upload lies under the number of what was asked. -/
theorem Sound.send_uploads (h : s.Sound up down) (hask : s.CanAsk c trans)
    (hagreed : (s.conns c).agreed = true) (what : Expect) (closes : Bool) :
    ∀ entry ∈ (s.send c trans what closes).uploads, entry.1 ≠ (c, trans) := by
  intro entry hmem
  cases closes with
  | true =>
    have hother : entry.1.1 ≠ c := by simpa using (List.mem_filter.mp hmem).2
    exact fun hkey => hother (congrArg Prod.fst hkey)
  | false => exact h.uploads.unused hagreed hask.2 entry hmem

theorem Sound.send_downloads (h : s.Sound up down) (hask : s.CanAsk c trans)
    (hagreed : (s.conns c).agreed = true) (what : Expect) (closes : Bool) :
    ∀ entry ∈ (s.send c trans what closes).downloads, entry.1 ≠ (c, trans) := by
  intro entry hmem
  cases closes with
  | true =>
    have hother : entry.1.1 ≠ c := by simpa using (List.mem_filter.mp hmem).2
    exact fun hkey => hother (congrArg Prod.fst hkey)
  | false => exact h.downloads.unused hagreed hask.2 entry hmem

/-- The connection after a request. -/
theorem send_conn (s : Media κ) (c : κ) (trans : UInt32) (what : Expect) (closes : Bool) :
    (s.send c trans what closes).conns c =
      if closes then ((s.conns c).gives trans).closed else (s.conns c).gives trans := by
  cases closes <;> simp [send, close, forget, setConn]

/-- Its reply is expected, unless the connection closed. -/
theorem send_expects (s : Media κ) (c : κ) (trans : UInt32) (what : Expect) (closes : Bool) :
    find (c, trans) (s.send c trans what closes).expects =
      if closes then none else some what := by
  cases closes with
  | true =>
    change find (c, trans) (List.filter _ _) = none
    rw [Tickets.find_filter fun k : κ × UInt32 => !decide (k.1 = c)]
    simp
  | false =>
    change find (c, trans) (put (c, trans) what s.expects) = some what
    rw [Tickets.find_put, if_pos rfl]

/-- The job that was asked for lies under the request's number. -/
theorem send_placed {ν : Type*} [Job κ ν] {v : ν} (hagreed : (s.conns c).agreed = true)
    (hconn : Job.conn v = c) (hlogin : Job.login v = (s.conns c).logins)
    (hstranded : Job.stranded v = closes) :
    (s.send c trans (Job.expect v) closes).lines.Placed (c, trans) v where
  conn := hconn.symm
  login := by
    change _ ≤ ((s.send c trans (Job.expect v) closes).conns c).logins
    rw [send_conn, hlogin]
    cases closes <;> exact le_rfl
  up hnot := by
    change ((s.send c trans _ closes).conns c).agreed = true ∧
      _ = ((s.send c trans _ closes).conns c).logins ∧
      trans ∈ ((s.send c trans _ closes).conns c).used ∧
      find (c, trans) (s.send c trans _ closes).expects = _
    obtain rfl : closes = false := hstranded.symm.trans hnot
    rw [send_conn, send_expects]
    exact ⟨hagreed, hlogin, List.mem_cons_self, rfl⟩
  shut hclosed := by
    change ((s.send c trans _ closes).conns c).agreed = false ∧
      find (c, trans) (s.send c trans _ closes).expects = none
    obtain rfl : closes = true := hstranded.symm.trans hclosed
    rw [send_conn, send_expects]
    exact ⟨rfl, rfl⟩

/-- A job that a reply is to is in hand, and the reply was expected of it alone. -/
theorem Sound.answered (h : s.Sound up down)
    (hup : ∀ entry ∈ s.uploads, entry.1 ≠ (c, trans))
    (hdown : ∀ entry ∈ s.downloads, entry.1 ≠ (c, trans)) :
    (s.answered c trans).Sound up down := by
  have hsteady {key : κ × UInt32} (hne : key ≠ (c, trans)) :
      s.lines.Steady ⟨s.conns, cut (c, trans) s.expects⟩ key := {
    logins := rfl
    agreed := rfl
    used := id
    expects := by rw [Tickets.find_cut, if_neg hne]; rfl }
  refine h.setLines (L := ⟨s.conns, cut (c, trans) s.expects⟩) ?_ ?_ ?_ ?_
  · refine ⟨h.live, fun key what hfind => ?_⟩
    rw [Tickets.find_cut] at hfind
    obtain ⟨-, hfind⟩ := Option.ite_none_left_eq_some.mp hfind
    exact h.numbered key what hfind
  · exact fun c => MediaConn.Ages.refl _
  · exact fun entry hmem => (h.uploads.placed entry hmem).steady (hsteady (hup entry hmem))
  · exact fun entry hmem => (h.downloads.placed entry hmem).steady (hsteady (hdown entry hmem))

/-- A reply to a download's request finds no upload. -/
theorem Sound.no_upload (h : s.Sound up down) (hwhat : find key s.expects = some .mediaDownload) :
    ∀ entry ∈ s.uploads, entry.1 ≠ key := by
  rintro ⟨key', u⟩ hmem rfl
  have hexpect : Expect.mediaUpload u.onLast = .mediaDownload := h.uploads.expect_eq hwhat hmem
  cases hexpect

/-- A reply to an upload's request finds no download. -/
theorem Sound.no_download (h : s.Sound up down) {last : Bool}
    (hwhat : find key s.expects = some (.mediaUpload last)) :
    ∀ entry ∈ s.downloads, entry.1 ≠ key := by
  rintro ⟨key', d⟩ hmem rfl
  have hexpect : Expect.mediaDownload = .mediaUpload last := h.downloads.expect_eq hwhat hmem
  cases hexpect

/-- A download's reply is at hand. -/
theorem Sound.takeDownload (h : s.Sound [] []) {d : DownloadJob κ}
    (hfind : find (c, trans) s.downloads = some d) (hwhat : find (c, trans) s.expects = some what) :
    ((s.answered c trans).cutDownload (c, trans)).Sound [] [d.handle - 1] ∧
      d.Going ∧ d.stranded = false ∧ d.conn = c ∧ d.login = (s.conns c).logins ∧
      (s.conns c).agreed = true := by
  have hmem := Tickets.mem_of_find hfind
  have hplaced := h.downloads.placed _ hmem
  obtain ⟨hstranded, hexpect, hagreed, hlogin⟩ := hplaced.expected hwhat
  refine ⟨?_, h.downloads.going _ hmem, hstranded, hplaced.conn.symm, hlogin, hagreed⟩
  have hdown : what = .mediaDownload := hexpect.symm
  subst hdown
  have htaken : (s.cutDownload (c, trans)).Sound [] [d.handle - 1] :=
    ⟨h.live, h.numbered, h.uploads, h.downloads.take hfind⟩
  refine htaken.answered ?_ ?_
  · exact h.no_upload hwhat
  · exact Tickets.free_cut _ _

/-- An upload's reply is at hand. -/
theorem Sound.takeUpload (h : s.Sound [] []) {u : UploadJob κ}
    (hfind : find (c, trans) s.uploads = some u) (hwhat : find (c, trans) s.expects = some what) :
    ((s.answered c trans).cutUpload (c, trans)).Sound [u.number] [] ∧
      u.Going ∧ what = .mediaUpload u.onLast ∧ u.stranded = false ∧ u.conn = c ∧
      u.login = (s.conns c).logins ∧ (s.conns c).agreed = true := by
  have hmem := Tickets.mem_of_find hfind
  have hplaced := h.uploads.placed _ hmem
  obtain ⟨hstranded, hexpect, hagreed, hlogin⟩ := hplaced.expected hwhat
  refine ⟨?_, h.uploads.going _ hmem, hexpect.symm, hstranded, hplaced.conn.symm, hlogin, hagreed⟩
  have hup : what = .mediaUpload u.onLast := hexpect.symm
  subst hup
  have htaken : (s.cutUpload (c, trans)).Sound [u.number] [] :=
    ⟨h.live, h.numbered, h.uploads.take hfind, h.downloads⟩
  refine htaken.answered ?_ ?_
  · exact Tickets.free_cut _ _
  · exact h.no_download hwhat

/-- The download in hand ends. -/
theorem Sound.fetchEnds {number : ℕ} (h : s.Sound up [number]) {d : DownloadJob κ}
    {result : Except MediaFailure (List UInt8 × List UInt8)} (hdone : d.Done (.heard result))
    (hnumber : d.handle - 1 = number) :
    (s.fetchEnds d result).Sound up [] := by
  subst hnumber
  exact ⟨h.live, h.numbered, h.uploads, h.downloads.finish hdone (by simp)⟩

/-- The upload in hand ends. -/
theorem Sound.storeEnds {number : ℕ} (h : s.Sound [number] down) {u : UploadJob κ}
    {result : Except MediaFailure ChatMedia} (hdone : u.Done (.heard result))
    (hnumber : u.number = number) : (s.storeEnds u result).Sound [] down := by
  subst hnumber
  exact ⟨h.live, h.numbered, h.uploads.finish hdone (by simp), h.downloads⟩

/-- The download in hand asks for another part. -/
theorem Sound.askAgain {number : ℕ} (h : s.Sound up [number]) (hask : s.CanAsk c trans)
    (hagreed : (s.conns c).agreed = true) {d : DownloadJob κ} (hgoing : d.Going)
    (hnumber : d.handle - 1 = number) (hconn : d.conn = c) (hlogin : d.login = (s.conns c).logins)
    (hstranded : d.stranded = closes) :
    ((s.send c trans .mediaDownload closes).putDownload (c, trans) d).Sound up [] := by
  subst hnumber
  have hsend := h.send hask hagreed .mediaDownload closes
  exact ⟨hsend.live, hsend.numbered, hsend.uploads, hsend.downloads.putBack (v := d)
    (h.send_downloads hask hagreed _ _) (send_placed hagreed hconn hlogin hstranded) hgoing⟩

/-- The upload in hand sends another part. -/
theorem Sound.sendAgain {number : ℕ} (h : s.Sound [number] down) (hask : s.CanAsk c trans)
    (hagreed : (s.conns c).agreed = true) {u : UploadJob κ} (hgoing : u.Going)
    (hnumber : u.number = number) (hconn : u.conn = c) (hlogin : u.login = (s.conns c).logins)
    (hstranded : u.stranded = closes) {last : Bool} (hlast : u.onLast = last) :
    ((s.send c trans (.mediaUpload last) closes).putUpload (c, trans) u).Sound [] down := by
  subst hnumber
  subst hlast
  have hsend := h.send hask hagreed (.mediaUpload u.onLast) closes
  exact ⟨hsend.live, hsend.numbered, hsend.uploads.putBack (v := u)
    (h.send_uploads hask hagreed _ _) (send_placed (v := u) hagreed hconn hlogin hstranded) hgoing,
    hsend.downloads⟩

/-- A download begins, and its number is in hand. -/
theorem Sound.nextDownload (h : s.Sound up []) :
    { s with handles := s.handles + 1 }.Sound up [s.handles] :=
  ⟨h.live, h.numbered, h.uploads, h.downloads.issue⟩

/-- An upload begins, and its number is in hand. -/
theorem Sound.nextUpload (h : s.Sound [] down) :
    { s with begun := s.begun + 1 }.Sound [s.begun] down :=
  ⟨h.live, h.numbered, h.uploads.issue, h.downloads⟩

/-- A download is asked for. -/
theorem Sound.fetch (h : s.Sound [] []) (hask : s.CanAsk c trans) (id : List UInt8) :
    (s.fetch built c id trans closes).Sound [] [] := by
  unfold Media.fetch
  split
  next hagreed =>
    split
    next => exact h
    next req hreq =>
      obtain ⟨-, hreq⟩ := Option.ite_none_right_eq_some.mp hreq
      obtain rfl := Option.some.inj hreq
      exact h.nextDownload.askAgain hask hagreed DownloadJob.going_first
        (Nat.add_sub_cancel ..) rfl rfl rfl
  next => exact h

/-- A download is canceled. -/
theorem Sound.cancel (h : s.Sound [] []) (handle : ℕ) : (s.cancel handle).Sound [] [] :=
  ⟨h.live, h.numbered, h.uploads, h.downloads.sweep _
    (fun _ hgoing => ⟨hgoing.toOrdered, by simp, by simp⟩) (by simp)⟩

/-- A part of a download came. -/
theorem Sound.part (h : s.Sound [] []) (hwhat : find (c, trans) s.expects = some .mediaDownload)
    {next : UInt32} (hask : s.CanAsk c next) {part : MediaPart}
    (hsmall : part.payload.length ≤ MAX_CHUNK) :
    ((s.answered c trans).part built c trans part next closes).Sound [] [] := by
  unfold Media.part
  split
  next hnone =>
    exact h.answered (h.no_upload hwhat) (Tickets.free_of_find hnone)
  next d hfind =>
    obtain ⟨hrest, hgoing, hstranded, hconn, hlogin, hagreed⟩ := h.takeDownload hfind hwhat
    have hfails : (d.take part).Done (.heard (.error ⟨GENERIC, none⟩)) :=
      ⟨hgoing.take part, by simp, fun _ _ => hstranded⟩
    dsimp only
    split
    next hlast =>
      refine hrest.fetchEnds ⟨hgoing.take part, ?_, fun _ _ => hstranded⟩ rfl
      intro picture mime heq
      obtain ⟨rfl, rfl⟩ : (d.take part).picture.1 = picture ∧ (d.take part).picture.2 = mime := by
        simpa [Prod.ext_iff] using heq
      exact hgoing.whole hsmall hlast
    next hmore =>
      split
      next hlt =>
        split
        next => exact hrest.fetchEnds hfails rfl
        next req hreq =>
          obtain ⟨-, hreq⟩ := Option.ite_none_right_eq_some.mp hreq
          obtain rfl := Option.some.inj hreq
          have hnext := hgoing.asks hsmall (by simpa using hmore) hlt rfl closes
          exact hrest.askAgain hask hagreed hnext rfl hconn hlogin rfl
      next => exact hrest.fetchEnds hfails rfl

/-- An upload's first request goes out. -/
theorem Sound.begin (h : s.Sound [] []) (hask : s.CanAsk c trans)
    (hagreed : (s.conns c).agreed = true) {payload : List UInt8} {mime : Option (List UInt8)}
    {parts : Option Parts} {req : MediaRequest} {u : UploadJob κ}
    (hu : u = ⟨s.begun, c, (s.conns c).logins, payload, mime, (s.conns c).partSize, parts, [req],
      [], closes⟩) (hgoing : u.Going) (hlast : u.onLast = parts.isNone) :
    (s.begin c payload mime parts (req.fromBuilt built) trans closes).Sound [] [] := by
  subst hu
  unfold Media.begin
  split
  next => exact h
  next req' hreq =>
    obtain ⟨-, hreq⟩ := Option.ite_none_right_eq_some.mp hreq
    obtain rfl := Option.some.inj hreq
    exact h.nextUpload.sendAgain hask hagreed hgoing rfl rfl rfl rfl hlast

/-- A part is never empty, and leaves room for its other fields. -/
theorem partSize_bounds (conn : MediaConn) : 0 < conn.partSize ∧ conn.partSize ≤ CHUNK_SIZE := by
  unfold MediaConn.partSize
  split
  · decide
  next hne =>
    have hpos : 0 < conn.chunkSize.toNat := Nat.pos_of_ne_zero fun hzero =>
      hne (UInt32.toNat_inj.mp hzero)
    exact ⟨lt_min hpos (by decide), min_le_right _ _⟩

/-- A picture is sent. -/
theorem Sound.store (h : s.Sound [] []) (hask : s.CanAsk c trans) (payload : List UInt8)
    (mime : Option (List UInt8)) : (s.store built c payload mime trans closes).Sound [] [] := by
  have hsize := partSize_bounds (s.conns c)
  unfold Media.store
  dsimp only
  split
  next => exact h
  next hcan =>
    rw [not_or, Bool.not_eq_false] at hcan
    obtain ⟨hagreed, hne⟩ := hcan
    split
    next hfits => exact h.begin hask hagreed rfl (UploadJob.going_whole hne hsize hfits) rfl
    next hlong =>
      split
      next => exact h
      next hfew =>
        have hcounted : Pieces.count (s.conns c).partSize payload < 2 ^ 16 := not_le.mp hfew
        have hmany := Pieces.one_lt_count hsize.1 (not_le.mp hlong)
        refine h.begin hask hagreed rfl
          (UploadJob.going_first hsize (not_le.mp hlong) hcounted rfl) ?_
        refine decide_eq_false fun heq : (1 : UInt16) = .ofNat _ => ?_
        have hone := congrArg UInt16.toNat heq
        exact absurd (hone.trans (UInt16.toNat_ofNat_of_lt' hcounted)) hmany.ne

/-- The server asks for the next part of an upload. -/
theorem Sound.uploading (h : s.Sound [] [])
    (hwhat : find (c, trans) s.expects = some (.mediaUpload false)) {next : UInt32}
    (hask : s.CanAsk c next) (token : Option (List UInt8)) :
    ((s.answered c trans).uploading built c trans token next closes).Sound [] [] := by
  unfold Media.uploading
  split
  next hnone => exact h.answered (Tickets.free_of_find hnone) (h.no_download hwhat)
  next u hfind =>
    obtain ⟨hrest, hgoing, hexpect, hstranded, hconn, hlogin, hagreed⟩ :=
      h.takeUpload hfind hwhat
    have hlast : u.onLast = false := (Expect.mediaUpload.inj hexpect).symm
    dsimp only
    split
    next =>
      exact hrest.storeEnds ⟨hgoing.reply _ token, by simp, fun _ _ => hstranded⟩ rfl
    next q req hsome =>
      obtain ⟨q', hlearnt, hpair⟩ := Option.bind_eq_some_iff.mp hsome
      obtain ⟨req', hreq, heq⟩ := Option.map_eq_some_iff.mp hpair
      obtain ⟨rfl, rfl⟩ := Prod.mk.inj heq
      obtain ⟨p, hparts, hq⟩ := Option.map_eq_some_iff.mp hlearnt
      have hnext := hgoing.next built hparts hq hlast hreq closes
      exact hrest.sendAgain hask hagreed hnext rfl hconn hlogin rfl
        (hgoing.atLast hparts hq hlast).symm

/-- A picture went up. -/
theorem Sound.uploaded (h : s.Sound [] [])
    (hwhat : find (c, trans) s.expects = some (.mediaUpload true)) (media : ChatMedia) :
    ((s.answered c trans).uploaded c trans media).Sound [] [] := by
  unfold Media.uploaded
  split
  next hnone => exact h.answered (Tickets.free_of_find hnone) (h.no_download hwhat)
  next u hfind =>
    obtain ⟨hrest, hgoing, hexpect, hstranded, -⟩ := h.takeUpload hfind hwhat
    have hlast : u.onLast = true := (Expect.mediaUpload.inj hexpect).symm
    exact hrest.storeEnds
      ⟨hgoing.toOrdered, fun _ _ => hgoing.whole hlast, fun _ _ => hstranded⟩ rfl

/-- A request failed. -/
theorem Sound.failed (h : s.Sound [] []) (hwhat : find (c, trans) s.expects = some what)
    (code : UInt16) (reason : Option String) :
    ((s.answered c trans).failed c trans code reason).Sound [] [] := by
  unfold Media.failed
  dsimp only
  split
  next d hfind =>
    obtain ⟨hrest, hgoing, hstranded, -⟩ := h.takeDownload hfind hwhat
    exact hrest.fetchEnds ⟨hgoing.toOrdered, by simp, fun _ _ => hstranded⟩ rfl
  next hnodown =>
    split
    next u hfind =>
      obtain ⟨hrest, hgoing, -, hstranded, -⟩ := h.takeUpload hfind hwhat
      exact hrest.storeEnds ⟨hgoing.toOrdered, by simp, fun _ _ => hstranded⟩ rfl
    next hnoup => exact h.answered (Tickets.free_of_find hnoup) (Tickets.free_of_find hnodown)

/-- Every step keeps what holds of the jobs. -/
theorem Sound.step {s' : Media κ} {action : MediaAction κ} (h : s.Sound [] [])
    (hstep : s.step built action = some s') : s'.Sound [] [] := by
  cases action with
  | fetch c id number closes =>
    obtain ⟨hask, hstep⟩ := Option.ite_none_right_eq_some.mp hstep
    exact Option.some.inj hstep ▸ h.fetch hask id
  | cancel handle => exact Option.some.inj hstep ▸ h.cancel handle
  | store c payload mime number closes =>
    obtain ⟨hask, hstep⟩ := Option.ite_none_right_eq_some.mp hstep
    exact Option.some.inj hstep ▸ h.store hask payload mime
  | part c number part next closes =>
    obtain ⟨⟨hwhat, hask, hsmall⟩, hstep⟩ := Option.ite_none_right_eq_some.mp hstep
    exact Option.some.inj hstep ▸ h.part hwhat hask hsmall
  | uploading c number token next closes =>
    obtain ⟨⟨hwhat, hask⟩, hstep⟩ := Option.ite_none_right_eq_some.mp hstep
    exact Option.some.inj hstep ▸ h.uploading hwhat hask token
  | uploaded c number media =>
    obtain ⟨hwhat, hstep⟩ := Option.ite_none_right_eq_some.mp hstep
    exact Option.some.inj hstep ▸ h.uploaded hwhat media
  | failed c number code reason =>
    obtain ⟨hsome, hstep⟩ := Option.ite_none_left_eq_some.mp hstep
    obtain ⟨what, hwhat⟩ := Option.ne_none_iff_exists'.mp hsome
    exact Option.some.inj hstep ▸ h.failed hwhat code reason
  | loggedIn c agreed chunkSize =>
    obtain ⟨hlive, hstep⟩ := Option.ite_none_right_eq_some.mp hstep
    exact Option.some.inj hstep ▸ h.loggedIn hlive agreed chunkSize
  | close c =>
    obtain ⟨-, hstep⟩ := Option.ite_none_right_eq_some.mp hstep
    exact Option.some.inj hstep ▸ h.close c
  | connect c =>
    obtain ⟨hclosed, hstep⟩ := Option.ite_none_left_eq_some.mp hstep
    exact Option.some.inj hstep ▸ h.connect (by simpa using hclosed)

/-- Where the jobs in flight lie. -/
theorem placed_here {ν : Type*} [Job κ ν] {v : ν} (h : s.lines.Placed key v) :
    key.1 = Job.conn v ∧
      if Job.stranded v then (s.conns key.1).agreed = false
      else (s.conns key.1).agreed = true ∧ Job.login v = (s.conns key.1).logins := by
  refine ⟨h.conn, ?_⟩
  cases hstranded : Job.stranded v with
  | true => exact (h.shut hstranded).1
  | false => exact ⟨(h.up hstranded).1, (h.up hstranded).2.1⟩

theorem Sound.start : Sound ({} : Media κ) [] [] where
  live := by simp
  numbered := by simp [find]
  uploads := Filed.start.mpr rfl
  downloads := Filed.start.mpr rfl

/-- The uploads are as they should be when none is in hand. -/
theorem Sound.stored (h : s.Sound [] []) : s.Stored where
  once := by
    have hkept := h.uploads.kept
    rwa [List.append_nil] at hkept
  here entry hmem := placed_here (h.uploads.placed entry hmem)
  inFlight entry hmem := (h.uploads.going entry hmem).toOrdered
  ended e hmem := (h.uploads.done e hmem).ordered
  whole _ media hmem := (h.uploads.done _ hmem).whole media rfl
  heard _ result hmem := (h.uploads.done _ hmem).heard result rfl
  freed := h.uploads.gone

/-- The downloads are as they should be when none is in hand. -/
theorem Sound.fetched (h : s.Sound [] []) : s.Fetched where
  once := by
    have hkept := h.downloads.kept
    rwa [List.append_nil] at hkept
  here entry hmem := placed_here (h.downloads.placed entry hmem)
  inFlight entry hmem := (h.downloads.going entry hmem).toOrdered
  ended e hmem := (h.downloads.done e hmem).ordered
  whole _ picture mime hmem := (h.downloads.done _ hmem).whole picture mime rfl
  heard _ result hmem := (h.downloads.done _ hmem).heard result rfl
  forgotten := h.downloads.gone

end Media

/-- What holds of the jobs holds after every run. -/
theorem exchange_sound {built : MediaRequest → Bool} {actions : List (MediaAction κ)} {s : Media κ}
    (hrun : (exchange κ built).run actions = some s) : s.Sound [] [] :=
  Reactive.Process.invariant (Q := fun s => s.Sound [] []) Media.Sound.start
    (fun _ _ _ h hstep => h.step hstep) hrun

/-- After every run each upload has ended once, or is in flight once, and what it sent are the
first parts of its picture in order. -/
theorem exchange_stored {built : MediaRequest → Bool} {actions : List (MediaAction κ)}
    {s : Media κ} (hrun : (exchange κ built).run actions = some s) : s.Stored :=
  (exchange_sound hrun).stored

/-- A picture goes up in three parts on one connection while it is asked for on another. -/
theorem three_parts_stored :
    ∃ s : Media ℕ, (exchange ℕ fun _ => true).run
        [.connect 0, .connect 1, .loggedIn 0 true 2, .loggedIn 1 true 0,
          .store 0 [1, 2, 3, 4, 5] none 7 false, .fetch 1 [9] 7 false,
          .uploading 0 7 (some [8]) 9 false, .failed 1 7 2 none, .uploading 0 9 none 11 false,
          .uploaded 0 11 ⟨[6], [], none, none, none⟩] = some s ∧
      s.stored.map (fun e => e.1.sent) = [[.uploadFirst [1, 2] none 3,
        .uploadNext [8] [3, 4] 1 false, .uploadNext [8] [5] 2 true]] ∧ s.Stored := by
  have hsent : ((exchange ℕ fun _ => true).run
      [.connect 0, .connect 1, .loggedIn 0 true 2, .loggedIn 1 true 0,
        .store 0 [1, 2, 3, 4, 5] none 7 false, .fetch 1 [9] 7 false,
        .uploading 0 7 (some [8]) 9 false, .failed 1 7 2 none, .uploading 0 9 none 11 false,
        .uploaded 0 11 ⟨[6], [], none, none, none⟩]).map
      (fun s => s.stored.map fun e => e.1.sent) =
      some [[.uploadFirst [1, 2] none 3, .uploadNext [8] [3, 4] 1 false,
        .uploadNext [8] [5] 2 true]] := by decide +kernel
  obtain ⟨s, hrun, hstored⟩ := Option.map_eq_some_iff.mp hsent
  exact ⟨s, hrun, hstored, exchange_stored hrun⟩

/-- After every run each download has ended once, or is in flight once, and its caller hears of
success only with the parts that came, put together. -/
theorem exchange_fetched {built : MediaRequest → Bool} {actions : List (MediaAction κ)}
    {s : Media κ} (hrun : (exchange κ built).run actions = some s) : s.Fetched :=
  (exchange_sound hrun).fetched

/-- A picture comes down in two parts; another is canceled. -/
theorem two_parts_fetched :
    ∃ s : Media ℕ, (exchange ℕ fun _ => true).run
        [.connect 0, .loggedIn 0 true 0, .fetch 0 [9] 7 false, .fetch 0 [8] 8 false,
          .part 0 7 ⟨[1, 2], [3], 2, false⟩ 9 false, .cancel 2, .part 0 9 ⟨[4], [], 2, true⟩ 10 false] =
        some s ∧
      s.fetched.map (fun e => (e.1.id, e.1.picture)) =
        [([8], ([], UNTYPED)), ([9], ([1, 2, 4], [3]))] ∧ s.Fetched := by
  have hends : ((exchange ℕ fun _ => true).run
      [.connect 0, .loggedIn 0 true 0, .fetch 0 [9] 7 false, .fetch 0 [8] 8 false,
        .part 0 7 ⟨[1, 2], [3], 2, false⟩ 9 false, .cancel 2,
        .part 0 9 ⟨[4], [], 2, true⟩ 10 false]).map
      (fun s => s.fetched.map fun e => (e.1.id, e.1.picture)) =
      some [([8], ([], UNTYPED)), ([9], ([1, 2, 4], [3]))] := by decide +kernel
  obtain ⟨s, hrun, hfetched⟩ := Option.map_eq_some_iff.mp hends
  exact ⟨s, hrun, hfetched, exchange_fetched hrun⟩

end Gtkhx.Pictures
