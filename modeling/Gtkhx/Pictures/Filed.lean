import Gtkhx.Pictures.Media

/-!
# Jobs under connections

What uploads and downloads in flight have in common: each lies under its connection and the
number of its last request, and the session of the connection expects the reply to that, unless
the send of the request closed the connection. What becomes of the lines is stated apart from
the jobs, since a job bears on its own line only.
-/

namespace Gtkhx.Pictures

open Tickets (Kept cut find put)

/-- What uploads and downloads have in common. -/
class Job (κ : outParam (Type*)) (ν : Type*) where
  number : ν → ℕ
  conn : ν → κ
  login : ν → ℕ
  stranded : ν → Bool
  /-- What is expected of the reply to its last request. -/
  expect : ν → Expect

/-- The connections, and what their sessions expect. -/
structure Lines (κ : Type*) where
  conns : κ → MediaConn
  expects : List ((κ × UInt32) × Expect)

variable {κ ν ε : Type*}

/-- A connection goes on: a login that is over stays so. -/
def MediaConn.Ages (conn conn' : MediaConn) : Prop :=
  conn.logins ≤ conn'.logins ∧
    (conn'.agreed = true → conn'.logins = conn.logins → conn.agreed = true)

theorem MediaConn.Ages.refl (conn : MediaConn) : conn.Ages conn := ⟨le_rfl, fun h _ => h⟩

theorem MediaConn.Over.ages {conn conn' : MediaConn} {login : ℕ} (h : conn.Over login)
    (hages : conn.Ages conn') : conn'.Over login := by
  obtain ⟨hle, hagreed⟩ := hages
  rcases h with hlt | ⟨rfl, hshut⟩
  · exact Or.inl (lt_of_lt_of_le hlt hle)
  · rcases hle.lt_or_eq with hlt | heq
    · exact Or.inl hlt
    · refine Or.inr ⟨heq, ?_⟩
      by_contra hopen
      rw [Bool.not_eq_false] at hopen
      rw [hagreed hopen heq.symm] at hshut
      cases hshut

theorem MediaConn.ages_opened (conn : MediaConn) : conn.Ages conn.opened :=
  ⟨le_rfl, fun hopen _ => hopen⟩

theorem MediaConn.ages_gives (conn : MediaConn) (trans : UInt32) : conn.Ages (conn.gives trans) :=
  ⟨le_rfl, fun hopen _ => hopen⟩

theorem MediaConn.ages_closed (conn : MediaConn) : conn.Ages conn.closed :=
  ⟨le_rfl, fun hopen _ => absurd hopen (Bool.false_ne_true)⟩

theorem MediaConn.ages_loggedIn (conn : MediaConn) (agreed : Bool) (chunkSize : UInt32) :
    conn.Ages (conn.loggedIn agreed chunkSize) :=
  ⟨Nat.le_succ _, fun _ heq => absurd heq (Nat.succ_ne_self _)⟩

variable [DecidableEq κ] [Job κ ν]

/-- Where a job lies. -/
structure Lines.Placed (L : Lines κ) (key : κ × UInt32) (v : ν) : Prop where
  conn : key.1 = Job.conn v
  login : Job.login v ≤ (L.conns key.1).logins
  /-- Its reply is expected. -/
  up : Job.stranded v = false → (L.conns key.1).agreed = true ∧
    Job.login v = (L.conns key.1).logins ∧ key.2 ∈ (L.conns key.1).used ∧
    find key L.expects = some (Job.expect v)
  /-- None is. -/
  shut : Job.stranded v = true → (L.conns key.1).agreed = false ∧ find key L.expects = none

/-- Nothing that bears on a key changes, but for other requests. -/
structure Lines.Steady (L L' : Lines κ) (key : κ × UInt32) : Prop where
  logins : (L'.conns key.1).logins = (L.conns key.1).logins
  agreed : (L'.conns key.1).agreed = (L.conns key.1).agreed
  used : key.2 ∈ (L.conns key.1).used → key.2 ∈ (L'.conns key.1).used
  expects : find key L'.expects = find key L.expects

theorem Lines.Placed.steady {L L' : Lines κ} {key : κ × UInt32} {v : ν} (h : L.Placed key v)
    (hsteady : L.Steady L' key) : L'.Placed key v where
  conn := h.conn
  login := hsteady.logins ▸ h.login
  up hopen := by
    obtain ⟨hagreed, hlogin, hused, hexpect⟩ := h.up hopen
    refine ⟨hsteady.agreed ▸ hagreed, hsteady.logins ▸ hlogin, hsteady.used hused, ?_⟩
    rw [hsteady.expects, hexpect]
  shut hshut := by
    obtain ⟨hagreed, hexpect⟩ := h.shut hshut
    exact ⟨hsteady.agreed ▸ hagreed, hsteady.expects ▸ hexpect⟩

/-- A job whose reply comes is not stranded. -/
theorem Lines.Placed.expected {L : Lines κ} {key : κ × UInt32} {v : ν} {what : Expect}
    (h : L.Placed key v) (hwhat : find key L.expects = some what) :
    Job.stranded v = false ∧ Job.expect v = what ∧ (L.conns key.1).agreed = true ∧
      Job.login v = (L.conns key.1).logins := by
  cases hstranded : Job.stranded v with
  | true =>
    rw [(h.shut hstranded).2] at hwhat
    cases hwhat
  | false =>
    obtain ⟨hagreed, hlogin, -, hexpect⟩ := h.up hstranded
    exact ⟨rfl, Option.some.inj (hexpect.symm.trans hwhat), hagreed, hlogin⟩

/-- A table of jobs, and the jobs that have ended; `lost` is how they end with their login.
Some numbers may be in hand. -/
structure Filed (L : Lines κ) (going : ν → Prop) (done : ν → ε → Prop) (lost : ε)
    (issued : ℕ) (hand : List ℕ) (ended : List (ν × ε)) (table : List ((κ × UInt32) × ν)) :
    Prop where
  kept : Kept Job.number issued (ended.map (fun e => Job.number e.1) ++ hand) table
  placed : ∀ entry ∈ table, L.Placed entry.1 entry.2
  going : ∀ entry ∈ table, going entry.2
  done : ∀ e ∈ ended, done e.1 e.2
  gone : ∀ v, (v, lost) ∈ ended → (L.conns (Job.conn v)).Over (Job.login v)

namespace Filed

variable {L L' : Lines κ} {going : ν → Prop} {done : ν → ε → Prop} {lost : ε} {issued : ℕ}
  {hand : List ℕ} {ended : List (ν × ε)} {table : List ((κ × UInt32) × ν)} {key : κ × UInt32}
  {v : ν} {e : ε}

theorem start : Filed L going done lost 0 [] [] table ↔ table = [] := by
  constructor
  · intro h
    refine List.eq_nil_iff_forall_not_mem.mpr fun entry hmem => ?_
    exact absurd (h.kept.lt hmem) (Nat.not_lt_zero _)
  · rintro rfl
    exact ⟨Kept.start, by simp, by simp, by simp, by simp⟩

/-- The lines go on. -/
theorem lines (h : Filed L going done lost issued hand ended table)
    (hages : ∀ c, (L.conns c).Ages (L'.conns c))
    (hplaced : ∀ entry ∈ table, L'.Placed entry.1 entry.2) :
    Filed L' going done lost issued hand ended table :=
  { h with
    placed := hplaced
    gone := fun v hmem => (h.gone v hmem).ages (hages _) }

/-- A connection is forgotten. -/
theorem forget (h : Filed L going done lost issued hand ended table) (c : κ)
    (hages : ∀ c, (L.conns c).Ages (L'.conns c))
    (hsteady : ∀ key : κ × UInt32, key.1 ≠ c → L.Steady L' key)
    (hover : ∀ login ≤ (L.conns c).logins, (L'.conns c).Over login)
    (hlost : ∀ v, going v → done v lost) :
    Filed L' going done lost issued hand
      (ended ++ (table.filter fun entry => entry.1.1 = c).map fun entry => (entry.2, lost))
      (table.filter fun entry => !decide (entry.1.1 = c)) where
  kept := by
    refine (h.kept.sweep fun entry => decide (entry.1.1 = c)).perm ?_
    rw [List.map_append, List.map_map]
    rw [List.append_assoc, List.append_assoc]
    exact List.perm_append_comm.append_left _
  placed entry hmem := by
    obtain ⟨hold, hother⟩ := List.mem_filter.mp hmem
    exact (h.placed entry hold).steady (hsteady _ (by simpa using hother))
  going entry hmem := h.going entry (List.mem_of_mem_filter hmem)
  done e hmem := by
    rcases List.mem_append.mp hmem with hmem | hmem
    · exact h.done e hmem
    · obtain ⟨entry, hentry, rfl⟩ := List.mem_map.mp hmem
      exact hlost _ (h.going entry (List.mem_of_mem_filter hentry))
  gone v hmem := by
    rcases List.mem_append.mp hmem with hmem | hmem
    · exact (h.gone v hmem).ages (hages _)
    · obtain ⟨entry, hentry, heq⟩ := List.mem_map.mp hmem
      obtain ⟨hold, hkey⟩ := List.mem_filter.mp hentry
      obtain rfl : entry.2 = v := congrArg Prod.fst heq
      have hplaced := h.placed entry hold
      have hc : entry.1.1 = c := by simpa using hkey
      rw [← hplaced.conn, hc]
      exact hover _ (hc ▸ hplaced.login)

/-- A job is taken in hand. -/
theorem take (h : Filed L going done lost issued [] ended table) (hfind : find key table = some v) :
    Filed L going done lost issued [Job.number v] ended (cut key table) :=
  { h with
    kept := (h.kept.finish hfind).perm (by rw [List.append_nil])
    placed := fun entry hmem => h.placed entry (Tickets.mem_cut.mp hmem).1
    going := fun entry hmem => h.going entry (Tickets.mem_cut.mp hmem).1 }

/-- The job in hand ends. -/
theorem finish (h : Filed L going done lost issued [Job.number v] ended table) (hdone : done v e)
    (hnot : e ≠ lost) : Filed L going done lost issued [] (ended ++ [(v, e)]) table where
  kept := h.kept.perm (by simp)
  placed := h.placed
  going := h.going
  done e' hmem := by
    rcases List.mem_append.mp hmem with hmem | hmem
    · exact h.done e' hmem
    · obtain rfl := List.mem_singleton.mp hmem
      exact hdone
  gone v' hmem := by
    rcases List.mem_append.mp hmem with hmem | hmem
    · exact h.gone v' hmem
    · exact absurd (congrArg Prod.snd (List.mem_singleton.mp hmem)).symm hnot

/-- What is put under a free key. -/
private theorem put_rest (h : Filed L going done lost issued hand ended table)
    (hplaced : L.Placed key v) (hgoing : going v) :
    (∀ entry ∈ put key v table, L.Placed entry.1 entry.2) ∧
      ∀ entry ∈ put key v table, going entry.2 := by
  refine ⟨fun entry hmem => ?_, fun entry hmem => ?_⟩
  · rcases Tickets.mem_put.mp hmem with ⟨hold, -⟩ | rfl
    · exact h.placed entry hold
    · exact hplaced
  · rcases Tickets.mem_put.mp hmem with ⟨hold, -⟩ | rfl
    · exact h.going entry hold
    · exact hgoing

/-- The job in hand goes on. -/
theorem putBack (h : Filed L going done lost issued [Job.number v] ended table)
    (hfree : ∀ entry ∈ table, entry.1 ≠ key) (hplaced : L.Placed key v) (hgoing : going v) :
    Filed L going done lost issued [] ended (put key v table) :=
  { h with
    kept := by
      rw [List.append_nil]
      exact h.kept.reopen hfree
    placed := (h.put_rest hplaced hgoing).1
    going := (h.put_rest hplaced hgoing).2 }

/-- A job's number is given out, and in hand. -/
theorem issue (h : Filed L going done lost issued [] ended table) :
    Filed L going done lost (issued + 1) [issued] ended table :=
  { h with
    kept := by
      have hkept := h.kept
      rw [List.append_nil] at hkept
      exact hkept.issue }

/-- Some jobs end. -/
theorem sweep (h : Filed L going done lost issued [] ended table)
    (p : (κ × UInt32) × ν → Bool) (hdone : ∀ v, going v → done v e) (hnot : e ≠ lost) :
    Filed L going done lost issued []
      (ended ++ (table.filter p).map fun entry => (entry.2, e))
      (table.filter fun entry => !p entry) where
  kept := by
    refine (h.kept.sweep p).perm ?_
    simp [Function.comp_def]
  placed entry hmem := h.placed entry (List.mem_of_mem_filter hmem)
  going entry hmem := h.going entry (List.mem_of_mem_filter hmem)
  done e' hmem := by
    rcases List.mem_append.mp hmem with hmem | hmem
    · exact h.done e' hmem
    · obtain ⟨entry, hentry, rfl⟩ := List.mem_map.mp hmem
      exact hdone _ (h.going entry (List.mem_of_mem_filter hentry))
  gone v' hmem := by
    rcases List.mem_append.mp hmem with hmem | hmem
    · exact h.gone v' hmem
    · obtain ⟨entry, -, heq⟩ := List.mem_map.mp hmem
      exact absurd (congrArg Prod.snd heq) hnot

/-- No job of a login lies under a number that its session has not given. -/
theorem unused (h : Filed L going done lost issued hand ended table) {c : κ} {trans : UInt32}
    (hagreed : (L.conns c).agreed = true) (hfresh : trans ∉ (L.conns c).used) :
    ∀ entry ∈ table, entry.1 ≠ (c, trans) := by
  rintro ⟨key, v⟩ hmem rfl
  have hplaced := h.placed _ hmem
  cases hstranded : Job.stranded v with
  | true =>
    rw [(hplaced.shut hstranded).1] at hagreed
    cases hagreed
  | false => exact hfresh (hplaced.up hstranded).2.2.1

/-- A reply finds only a job that expects it. -/
theorem expect_eq (h : Filed L going done lost issued hand ended table) {what : Expect}
    (hwhat : find key L.expects = some what) (hmem : (key, v) ∈ table) : Job.expect v = what :=
  ((h.placed _ hmem).expected hwhat).2.1

end Filed

end Gtkhx.Pictures
