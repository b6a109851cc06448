import Gtkhx.Library.Paced
import Gtkhx.Library.Reactive
import Gtkhx.Messaging.Requests

/-!
# The listings keep within the server's budget

Pages are asked for one at a time, spaced, and a bounded number to a listing; and a listing
that is wanted is asked for.
-/

namespace Gtkhx.Messaging

open Reactive Paced

/-- The requests of a connection, in time. -/
def asking : Process Asking (ℕ × Call) := ⟨{}, Asking.step⟩

namespace Asking

/-- How many pages were asked for a listing. -/
def pagesOf (s : Asking) (n : ℕ) : ℕ := s.asks.countP (·.listing = n)

/-- What has been asked for, against the clock. -/
structure Spaced (s : Asking) : Prop where
  times : ∀ a ∈ s.asks, a.time ≤ s.clock
  listed : ∀ a ∈ s.asks, a.listing ≤ s.listings
  bounded : ∀ n, s.pagesOf n ≤ PAGE_BOUND
  began : ∀ a ∈ s.asks, a.first = true → ∃ b, s.requests.began = some b ∧ a.time ≤ b
  paced : s.asks.Pairwise (Follows Ask.time Ask.first PAGE_GAP LISTING_GAP)
  followed : ∀ a ∈ s.asks, a.first = false → ∃ t, a.arrived = some t ∧ t + PAGE_GAP ≤ a.time

/-- Where a listing under way stands: a page of it is awaited, or its last has arrived. -/
structure Stands (s : Asking) (l : Listing) : Prop where
  pages_lt : l.pages < PAGE_BOUND
  asked : s.pagesOf s.listings = l.pages + s.awaiting
  awaits : l.next = none → s.awaiting = 1
  rests : l.next ≠ none → s.awaiting = 0 ∧ s.arrived = some l.answered ∧
    ∀ a ∈ s.asks, a.time ≤ l.answered
  owed : s.requests.owed ≠ none → l.follow = true

/-- Everything a run keeps. -/
structure Sound (s : Asking) : Prop where
  spaced : s.Spaced
  idle : s.requests.listing = none → s.awaiting = 0
  stands : ∀ l, s.requests.listing = some l → s.Stands l

/-- Time passes. -/
theorem Sound.tick {s : Asking} (h : s.Sound) {now : ℕ} (hnow : s.clock ≤ now) :
    ({ s with clock := now } : Asking).Sound :=
  ⟨⟨fun a ha => (h.spaced.times a ha).trans hnow, h.spaced.listed, h.spaced.bounded, h.spaced.began,
    h.spaced.paced, h.spaced.followed⟩, h.idle,
    fun l hl => ⟨(h.stands l hl).pages_lt, (h.stands l hl).asked, (h.stands l hl).awaits,
      (h.stands l hl).rests, (h.stands l hl).owed⟩⟩

/-- Changing the requests alone leaves what has been asked for, when the last listing's
beginning stays. -/
theorem Spaced.with_requests {s : Asking} (h : s.Spaced) {r : Requests} {awaiting : ℕ}
    {arrived : Option ℕ} (hbegan : r.began = s.requests.began) :
    ({ s with requests := r, awaiting, arrived } : Asking).Spaced where
  times := h.times
  listed := h.listed
  bounded := h.bounded
  began a ha hfirst := hbegan ▸ h.began a ha hfirst
  paced := h.paced
  followed := h.followed

/-- A listing whose pages stay where they are stands where it stood. -/
theorem Stands.with_requests {s : Asking} {l l' : Listing} (h : s.Stands l) {r : Requests}
    (hpages : l'.pages = l.pages) (hnext : l'.next = l.next) (hanswered : l'.answered = l.answered)
    (howed : r.owed ≠ none → l'.follow = true) :
    ({ s with requests := r } : Asking).Stands l' where
  pages_lt := hpages ▸ h.pages_lt
  asked := by
    rw [hpages]
    exact h.asked
  awaits hnone := h.awaits (hnext ▸ hnone)
  rests hsome := by
    rw [hanswered]
    exact h.rests (hnext ▸ hsome)
  owed := howed

theorem Sound.want {s : Asking} (h : s.Sound) :
    ({ s with requests := s.requests.want } : Asking).Sound := by
  unfold Requests.want
  cases hl : s.requests.listing with
  | none => exact ⟨h.spaced.with_requests rfl, fun _ => h.idle hl, fun l hl' => by simp_all⟩
  | some l =>
    have hstands := h.stands l hl
    by_cases hfollow : l.follow = true
    · simp only [hfollow, if_true]
      refine ⟨h.spaced.with_requests rfl, fun hnone => by simp_all, fun l' hl' => ?_⟩
      obtain rfl := Option.some.inj hl'
      exact hstands.with_requests rfl rfl rfl fun _ => hfollow
    · simp only [hfollow, if_false, Bool.false_eq_true]
      by_cases hnext : l.next = none
      · simp only [hnext, Option.isNone_none, if_true]
        refine ⟨h.spaced.with_requests rfl, fun hnone => by simp_all, fun l' hl' => ?_⟩
        obtain rfl := Option.some.inj hl'
        exact hstands.with_requests rfl hnext.symm rfl fun _ => rfl
      · simp only [Option.isNone_iff_eq_none, hnext, if_false]
        exact ⟨h.spaced.with_requests rfl, fun _ => (hstands.rests hnext).1,
          fun l' hl' => by simp at hl'⟩

theorem Sound.look {s : Asking} (h : s.Sound) :
    ({ s with requests := s.requests.look } : Asking).Sound := by
  unfold Requests.look
  by_cases hidle : s.requests.listing.isNone ∧ s.requests.owed.isNone
  · rw [if_pos hidle]
    have hnone := Option.isNone_iff_eq_none.mp hidle.1
    exact ⟨h.spaced.with_requests rfl, fun _ => h.idle hnone, fun l hl => by simp_all⟩
  · rwa [if_neg hidle]

theorem Sound.changed {s : Asking} (h : s.Sound) (count : ℕ) :
    ({ s with requests := s.requests.changed count } : Asking).Sound := by
  unfold Requests.changed
  cases hl : s.requests.listing with
  | none => exact ⟨h.spaced.with_requests rfl, fun _ => h.idle hl, fun l hl' => by simp_all⟩
  | some l =>
    refine ⟨h.spaced.with_requests rfl, fun hnone => by simp at hnone, fun l' hl' => ?_⟩
    obtain rfl := Option.some.inj hl'
    refine (h.stands l hl).with_requests rfl rfl rfl ?_
    intro howed
    by_contra hfollow
    refine hfollow ((h.stands l hl).owed fun hnone => howed ?_)
    simp only [if_neg hfollow, hnone]

theorem Sound.released {s : Asking} (h : s.Sound) (login : Login) :
    ({ s with requests := (s.requests.released login).2 } : Asking).Sound := by
  unfold Requests.released
  dsimp only
  split
  · exact ⟨h.spaced.with_requests rfl, h.idle,
      fun l hl => (h.stands l hl).with_requests rfl rfl rfl (h.stands l hl).owed⟩
  · exact ⟨h.spaced.with_requests rfl, h.idle,
      fun l hl => (h.stands l hl).with_requests rfl rfl rfl (h.stands l hl).owed⟩

/-- A page that is awaited is the listing's, and it has not arrived. -/
theorem Sound.awaited {s : Asking} (h : s.Sound) (hawaiting : s.awaiting ≠ 0) :
    s.awaiting = 1 ∧ ∃ l, s.requests.listing = some l ∧ l.next = none := by
  cases hl : s.requests.listing with
  | none => exact absurd (h.idle hl) hawaiting
  | some l =>
    by_cases hnext : l.next = none
    · exact ⟨(h.stands l hl).awaits hnext, l, rfl, hnext⟩
    · exact absurd ((h.stands l hl).rests hnext).1 hawaiting

theorem Sound.failed {s : Asking} (h : s.Sound) (hawaiting : s.awaiting ≠ 0) :
    ({ s with requests := s.requests.failed, awaiting := s.awaiting - 1 } : Asking).Sound := by
  obtain ⟨hone, -⟩ := h.awaited hawaiting
  refine ⟨h.spaced.with_requests rfl, fun _ => by simp [hone], fun l hl => ?_⟩
  cases hl

theorem Sound.page {s : Asking} (h : s.Sound) (hawaiting : s.awaiting ≠ 0) (p : Page) :
    ({ s with
      requests := (s.requests.page p s.clock).2
      awaiting := s.awaiting - 1
      arrived := some s.clock } : Asking).Sound := by
  obtain ⟨hone, l, hl, hnext⟩ := h.awaited hawaiting
  have hstands := h.stands l hl
  unfold Requests.page
  rw [hl]
  by_cases hmore : p.cursor.isSome ∧ l.pages + 1 < PAGE_BOUND
  · simp only [if_pos hmore]
    refine ⟨h.spaced.with_requests rfl, fun hnone => (by cases hnone), fun l' hl' => ?_⟩
    obtain rfl := Option.some.inj hl'
    refine ⟨hmore.2, ?_, ?_, fun _ => ⟨by simp [hone], rfl, h.spaced.times⟩, hstands.owed⟩
    · change s.pagesOf s.listings = l.pages + 1 + (s.awaiting - 1)
      rw [hstands.asked, hone]
    · intro hnone
      have hcursor : p.cursor = none := hnone
      rw [hcursor] at hmore
      cases hmore.1
  · simp only [if_neg hmore]
    refine ⟨h.spaced.with_requests rfl, fun _ => by simp [hone], fun l' hl' => ?_⟩
    cases hl'

/-- Another page asked for is counted to its listing. -/
theorem pagesOf_snoc (s : Asking) (a : Ask) (n : ℕ) :
    ({ s with asks := s.asks ++ [a] } : Asking).pagesOf n =
      s.pagesOf n + if a.listing = n then 1 else 0 := by
  unfold pagesOf
  rw [List.countP_append, List.countP_singleton]
  simp

/-- Asking for one more page, spaced from the others. -/
theorem Spaced.ask {s : Asking} (h : s.Spaced) {r : Requests} {a : Ask} {listings : ℕ}
    (htime : a.time = s.clock) (hlistings : s.listings ≤ listings) (hlisting : a.listing = listings)
    (hroom : s.pagesOf listings < PAGE_BOUND)
    (hbegan : a.first = true → r.began = some a.time ∧
      ∀ b ∈ s.asks, b.first = true → b.time + LISTING_GAP ≤ a.time)
    (hfollows : a.first = false → r.began = s.requests.began ∧
      (∀ b ∈ s.asks, b.time + PAGE_GAP ≤ a.time) ∧
      ∃ t, a.arrived = some t ∧ t + PAGE_GAP ≤ a.time) :
    ({ s with
      requests := r, awaiting := s.awaiting + 1, asks := s.asks ++ [a], listings } :
      Asking).Spaced where
  times b hb := by
    rcases List.mem_append.mp hb with hb | hb
    · exact h.times b hb
    · rw [List.mem_singleton.mp hb]
      exact htime.le
  listed b hb := by
    rcases List.mem_append.mp hb with hb | hb
    · exact (h.listed b hb).trans hlistings
    · rw [List.mem_singleton.mp hb]
      exact hlisting.le
  bounded n := by
    change ({ s with asks := s.asks ++ [a] } : Asking).pagesOf n ≤ PAGE_BOUND
    rw [pagesOf_snoc]
    by_cases hn : a.listing = n
    · rw [if_pos hn, ← hn, hlisting]
      exact hroom
    · rw [if_neg hn]
      exact h.bounded n
  began b hb hfirst := by
    rcases List.mem_append.mp hb with hb | hb
    · cases hkind : a.first with
      | true => exact ⟨_, (hbegan hkind).1, htime ▸ h.times b hb⟩
      | false =>
        obtain ⟨t, ht, hle⟩ := h.began b hb hfirst
        exact ⟨t, (hfollows hkind).1.trans ht, hle⟩
    · obtain rfl := List.mem_singleton.mp hb
      exact ⟨_, (hbegan hfirst).1, le_rfl⟩
  paced := by
    refine List.pairwise_append.mpr ⟨h.paced, List.pairwise_singleton _ _, ?_⟩
    intro b hb c hc
    obtain rfl := List.mem_singleton.mp hc
    exact ⟨htime ▸ h.times b hb, fun hfirst => (hfollows hfirst).2.1 b hb,
      fun hb' hc' => (hbegan hc').2 b hb hb'⟩
  followed b hb hfirst := by
    rcases List.mem_append.mp hb with hb | hb
    · exact h.followed b hb hfirst
    · obtain rfl := List.mem_singleton.mp hb
      exact (hfollows hfirst).2.2

theorem poll_none {s : Asking} {now : ℕ} (h : s.requests.next now = (none, s.requests)) :
    s.poll now = s := by
  rw [poll, h]

theorem poll_first {s : Asking} {now : ℕ} {r : Requests}
    (h : s.requests.next now = (some none, r)) :
    s.poll now = { s with
      requests := r
      awaiting := s.awaiting + 1
      asks := s.asks ++ [⟨now, none, s.listings + 1, s.arrived⟩]
      listings := s.listings + 1 } := by
  rw [poll, h]
  rfl

theorem poll_more {s : Asking} {now : ℕ} {r : Requests} {cursor : List UInt8}
    (h : s.requests.next now = (some (some cursor), r)) :
    s.poll now = { s with
      requests := r
      awaiting := s.awaiting + 1
      asks := s.asks ++ [⟨now, some cursor, s.listings, s.arrived⟩] } := by
  rw [poll, h]
  rfl

theorem Sound.poll {s : Asking} (h : s.Sound) : (s.poll s.clock).Sound := by
  rcases s.requests.next_cases s.clock with hnext | ⟨hl, hgap, hnext⟩ |
    ⟨l, cursor, hl, hcursor, hfollow, hgap, hnext⟩
  · rw [poll_none hnext]
    exact h
  · rw [poll_first hnext]
    have hnew : s.pagesOf (s.listings + 1) = 0 := by
      refine List.countP_eq_zero.mpr fun a ha heq => ?_
      have hle := h.spaced.listed a ha
      have heq := of_decide_eq_true heq
      omega
    refine ⟨h.spaced.ask rfl (Nat.le_succ _) rfl (by rw [hnew]; decide) ?_ ?_, ?_, ?_⟩
    · refine fun _ => ⟨rfl, fun b hb hfirst => ?_⟩
      obtain ⟨t, ht, hle⟩ := h.spaced.began b hb hfirst
      exact (Nat.add_le_add_right hle _).trans (hgap t ht)
    · exact fun hfirst => by cases hfirst
    · exact fun hnone => by cases hnone
    · intro l hl'
      obtain rfl := Option.some.inj hl'
      refine ⟨Nat.succ_pos 15, ?_, fun _ => ?_, fun hsome => absurd rfl hsome,
        fun howed => absurd rfl howed⟩
      · change ({ s with asks := _ } : Asking).pagesOf (s.listings + 1) = 0 + (s.awaiting + 1)
        rw [pagesOf_snoc, hnew, if_pos rfl, h.idle hl]
      · change s.awaiting + 1 = 1
        rw [h.idle hl]
  · rw [poll_more hnext]
    have hstands := h.stands l hl
    have hsome : l.next ≠ none := by
      rw [hcursor]
      exact Option.some_ne_none _
    obtain ⟨hawaiting, harrived, hbefore⟩ := hstands.rests hsome
    refine ⟨h.spaced.ask rfl le_rfl rfl ?_ ?_ ?_, ?_, ?_⟩
    · rw [hstands.asked, hawaiting]
      exact hstands.pages_lt
    · exact fun hfirst => by cases hfirst
    · exact fun _ => ⟨rfl, fun b hb => (Nat.add_le_add_right (hbefore b hb) _).trans hgap,
        _, harrived, hgap⟩
    · exact fun hnone => by cases hnone
    · intro l' hl'
      obtain rfl := Option.some.inj hl'
      refine ⟨hstands.pages_lt, ?_, fun _ => ?_, fun hsome' => absurd rfl hsome', fun _ => hfollow⟩
      · change ({ s with asks := _ } : Asking).pagesOf s.listings = l.pages + (s.awaiting + 1)
        rw [pagesOf_snoc, if_pos rfl, hstands.asked, Nat.add_assoc]
      · change s.awaiting + 1 = 1
        rw [hawaiting]

/-- A step keeps everything. -/
theorem Sound.step {s s' : Asking} {input : ℕ × Call} (h : s.Sound)
    (hstep : s.step input = some s') : s'.Sound := by
  obtain ⟨now, call⟩ := input
  unfold Asking.step at hstep
  by_cases hback : now < s.clock
  · rw [if_pos hback] at hstep
    cases hstep
  rw [if_neg hback] at hstep
  have htick := h.tick (Nat.le_of_not_lt hback)
  cases call with
  | want =>
    obtain rfl := Option.some.inj hstep
    exact htick.want
  | look =>
    obtain rfl := Option.some.inj hstep
    exact htick.look
  | changed count =>
    obtain rfl := Option.some.inj hstep
    exact htick.changed count
  | released login =>
    obtain rfl := Option.some.inj hstep
    exact htick.released login
  | next =>
    obtain rfl := Option.some.inj hstep
    exact htick.poll
  | page p =>
    obtain ⟨hawaiting, heq⟩ := Option.ite_none_left_eq_some.mp hstep
    obtain rfl := Option.some.inj heq
    exact htick.page hawaiting p
  | failed =>
    obtain ⟨hawaiting, heq⟩ := Option.ite_none_left_eq_some.mp hstep
    obtain rfl := Option.some.inj heq
    exact htick.failed hawaiting

end Asking

/-- What has been asked for keeps within the budget, and what is owed is due. -/
structure WithinBudget (s : Asking) : Prop where
  /-- Two first pages are asked for a listing's gap apart. -/
  listings_apart : s.asks.Pairwise fun a b =>
    a.first = true → b.first = true → a.time + LISTING_GAP ≤ b.time
  /-- A page that follows is asked for a page's gap after the one before it arrived. -/
  pages_apart : ∀ a ∈ s.asks, a.first = false →
    ∃ arrived, a.arrived = some arrived ∧ arrived + PAGE_GAP ≤ a.time
  /-- One page at most is awaited. -/
  one_awaited : s.awaiting ≤ 1
  /-- A listing asks for no more than its bound. -/
  bounded : ∀ n, s.pagesOf n ≤ PAGE_BOUND
  /-- Within five seconds six pages are asked for at most. -/
  window : ∀ start,
    (s.asks.filter fun a => start ≤ a.time ∧ a.time < start + 5000000000).length ≤ 6
  /-- With none under way, a listing that is owed is due, and asked for from then on. -/
  owed_due : s.requests.listing = none → s.requests.owed ≠ none → ∀ now, ∃ instant,
    s.requests.due now = some instant ∧
      ∀ later, now ≤ later → instant ≤ later → (s.requests.next later).1 = some none

/-- A listing wanted when the state was `s₀` was the one whose first page was awaited, which
is followed from then on; or one has begun by `s`; or it is owed, a page is awaited or one is
due, and no more pages were asked for since than a listing has. -/
def Heeded (s₀ s : Asking) : Prop :=
  (∃ l, s₀.requests.listing = some l ∧ l.follow = false ∧ l.next = none ∧
    s₀.requests.want.listing = some { l with follow := true }) ∨
  s₀.listings < s.listings ∨
  (s.requests.owed = some true ∧ s.asks.length ≤ s₀.asks.length + PAGE_BOUND ∧
    (s.awaiting = 1 ∨ ∃ instant, s.requests.due s.clock = some instant ∧
      ∀ later, s.clock ≤ later → instant ≤ later → (s.requests.next later).1.isSome))

namespace Asking

theorem sound_start : asking.start.Sound where
  spaced := by
    refine ⟨?_, ?_, fun _ => Nat.zero_le _, ?_, .nil, ?_⟩ <;>
      exact fun a ha => absurd ha List.not_mem_nil
  idle _ := rfl
  stands l hl := by cases hl

theorem sound_run {inputs : List (ℕ × Call)} {s : Asking} (hrun : asking.run inputs = some s) :
    s.Sound :=
  Process.invariant sound_start (fun _ _ _ h hstep => h.step hstep) hrun

/-- A listing that is owed, with none under way, is asked for once it is due. -/
theorem owed_due {r : Requests} (hl : r.listing = none) (howed : r.owed ≠ none) (now : ℕ) :
    ∃ instant, r.due now = some instant ∧
      ∀ later, now ≤ later → instant ≤ later → (r.next later).1 = some none := by
  obtain ⟨follow, hfollow⟩ := Option.ne_none_iff_exists'.mp howed
  refine ⟨r.began.elim now (· + LISTING_GAP), ?_, fun later hlater hinstant => ?_⟩
  · rw [Requests.due, hl, hfollow]
    rfl
  · have hnot : ¬ later < r.began.elim later (· + LISTING_GAP) := by
      cases hbegan : r.began with
      | none => exact lt_irrefl _
      | some b =>
        rw [hbegan] at hinstant
        exact Nat.not_lt.mpr hinstant
    rw [Requests.next, Requests.due, hl, hfollow]
    simp only [Option.map_some, if_neg hnot]

/-- The next page of a listing that is followed is asked for once it is due. -/
theorem page_due {r : Requests} {l : Listing} (hl : r.listing = some l) (hnext : l.next ≠ none)
    (hfollow : l.follow = true) (now : ℕ) :
    ∃ instant, r.due now = some instant ∧
      ∀ later, instant ≤ later → (r.next later).1.isSome := by
  have hready : l.next.isSome ∧ l.follow = true := ⟨Option.isSome_iff_ne_none.mpr hnext, hfollow⟩
  refine ⟨l.answered + PAGE_GAP, ?_, fun later hlater => ?_⟩
  · simp only [Requests.due, hl, if_pos hready]
  · simp only [Requests.next, Requests.due, hl, if_pos hready, if_neg (Nat.not_lt.mpr hlater)]
    rw [Option.isSome_map]
    exact hready.1

theorem Sound.withinBudget {s : Asking} (h : s.Sound) : WithinBudget s where
  listings_apart := h.spaced.paced.imp fun hab => hab.groupGap
  pages_apart := h.spaced.followed
  one_awaited := by
    cases hl : s.requests.listing with
    | none => exact (h.idle hl).le.trans (Nat.zero_le _)
    | some l =>
      by_cases hnext : l.next = none
      · exact ((h.stands l hl).awaits hnext).le
      · exact ((h.stands l hl).rests hnext).1.le.trans (Nat.zero_le _)
  bounded := h.spaced.bounded
  window _ := length_window_le (show LISTING_GAP = 5 * PAGE_GAP from rfl) h.spaced.paced
  owed_due hl howed now := Asking.owed_due hl howed now

/-- What is owed waits for a page or is due. -/
theorem Sound.owed_waits {s : Asking} (h : s.Sound) (howed : s.requests.owed ≠ none) :
    s.awaiting = 1 ∨ ∃ instant, s.requests.due s.clock = some instant ∧
      ∀ later, s.clock ≤ later → instant ≤ later → (s.requests.next later).1.isSome := by
  cases hl : s.requests.listing with
  | none =>
    obtain ⟨instant, hdue, hlater⟩ := owed_due hl howed s.clock
    refine .inr ⟨instant, hdue, fun later hclock hinstant => ?_⟩
    rw [hlater later hclock hinstant]
    rfl
  | some l =>
    have hstands := h.stands l hl
    by_cases hnext : l.next = none
    · exact .inl (hstands.awaits hnext)
    · obtain ⟨instant, hdue, hlater⟩ := page_due hl hnext (hstands.owed howed) s.clock
      exact .inr ⟨instant, hdue, fun later _ => hlater later⟩

/-- Pages asked for since `s₀`, all of the listing that was the last then. -/
def MoreOf (s₀ s : Asking) : Prop :=
  s.listings = s₀.listings ∧ ∃ new, s.asks = s₀.asks ++ new ∧ ∀ a ∈ new, a.listing = s₀.listings

theorem MoreOf.refl (s : Asking) : s.MoreOf s :=
  ⟨rfl, [], (List.append_nil _).symm, fun _ ha => absurd ha List.not_mem_nil⟩

theorem MoreOf.trans {s₁ s₂ s₃ : Asking} (h : s₁.MoreOf s₂) (h' : s₂.MoreOf s₃) : s₁.MoreOf s₃ := by
  obtain ⟨hlistings, new, hasks, hnew⟩ := h
  obtain ⟨hlistings', new', hasks', hnew'⟩ := h'
  refine ⟨hlistings'.trans hlistings, new ++ new', ?_, fun a ha => ?_⟩
  · rw [hasks', hasks, List.append_assoc]
  · rcases List.mem_append.mp ha with ha | ha
    · exact hnew a ha
    · exact (hnew' a ha).trans hlistings

/-- A step begins a listing, or asks for no page but of the last. -/
theorem step_moreOf {s s' : Asking} {input : ℕ × Call} (hstep : s.step input = some s') :
    s.listings < s'.listings ∨ (s.MoreOf s' ∧
      (s.requests.owed = some true → s'.requests.owed = some true)) := by
  obtain ⟨now, call⟩ := input
  unfold Asking.step at hstep
  obtain ⟨-, hstep⟩ := Option.ite_none_left_eq_some.mp hstep
  cases call with
  | want =>
    obtain rfl := Option.some.inj hstep
    refine .inr ⟨.refl s, fun howed => ?_⟩
    simp only [Requests.want]
    repeat' split
    all_goals first | rfl | exact howed
  | look =>
    obtain rfl := Option.some.inj hstep
    refine .inr ⟨.refl s, fun howed => ?_⟩
    simp [Requests.look, howed]
  | changed count =>
    obtain rfl := Option.some.inj hstep
    refine .inr ⟨.refl s, fun howed => ?_⟩
    simp only [Requests.changed, howed]
    split
    · exact ite_self _
    · rfl
  | released login =>
    obtain rfl := Option.some.inj hstep
    refine .inr ⟨.refl s, fun howed => ?_⟩
    simp only [Requests.released]
    split <;> exact howed
  | next =>
    obtain rfl := Option.some.inj hstep
    rcases s.requests.next_cases now with hnext | ⟨-, -, hnext⟩ | ⟨l, cursor, -, -, -, -, hnext⟩
    · rw [poll_none (s := { s with clock := now }) hnext]
      exact .inr ⟨.refl s, id⟩
    · rw [poll_first (s := { s with clock := now }) hnext]
      exact .inl (Nat.lt_succ_self _)
    · rw [poll_more (s := { s with clock := now }) hnext]
      refine .inr ⟨⟨rfl, _, rfl, fun a ha => ?_⟩, id⟩
      rw [List.mem_singleton.mp ha]
  | page p =>
    obtain ⟨-, heq⟩ := Option.ite_none_left_eq_some.mp hstep
    obtain rfl := Option.some.inj heq
    refine .inr ⟨.refl s, fun howed => ?_⟩
    simp only [Requests.page]
    repeat' split
    all_goals exact howed
  | failed =>
    obtain ⟨-, heq⟩ := Option.ite_none_left_eq_some.mp hstep
    obtain rfl := Option.some.inj heq
    exact .inr ⟨.refl s, id⟩

theorem listings_le {s s' : Asking} {input : ℕ × Call} (hstep : s.step input = some s') :
    s.listings ≤ s'.listings := by
  rcases step_moreOf hstep with hlt | ⟨⟨hlistings, -⟩, -⟩
  · exact hlt.le
  · exact hlistings.ge

/-- What is wanted is taken up by a listing whose first page is awaited, or owed. -/
theorem want_cases (r : Requests) :
    (∃ l, r.listing = some l ∧ l.follow = false ∧ l.next = none ∧
        r.want.listing = some { l with follow := true }) ∨
      r.want.owed = some true := by
  cases hl : r.listing with
  | none => simp [Requests.want, hl]
  | some l =>
    cases hfollow : l.follow <;> cases hnext : l.next <;> simp [Requests.want, hl, hfollow, hnext]

/-- From a listing that is wanted on, it is owed until one begins. -/
theorem owed_since {before after : List (ℕ × Call)} {now : ℕ} {s₀ s : Asking}
    (hbefore : asking.run before = some s₀) (howed : s₀.requests.want.owed = some true)
    (hrun : asking.run (before ++ (now, .want) :: after) = some s) :
    s₀.listings < s.listings ∨ (s₀.MoreOf s ∧ s.requests.owed = some true) := by
  induction after using List.reverseRecOn generalizing s with
  | nil =>
    obtain ⟨s₁, hs₁, hstep⟩ := Process.run_snoc.mp hrun
    obtain rfl := Option.some.inj (hbefore.symm.trans hs₁)
    unfold asking Asking.step at hstep
    obtain ⟨-, hstep⟩ := Option.ite_none_left_eq_some.mp hstep
    obtain rfl := Option.some.inj hstep
    exact .inr ⟨.refl _, howed⟩
  | append_singleton after input ih =>
    rw [← List.cons_append, ← List.append_assoc] at hrun
    obtain ⟨s₁, hs₁, hstep⟩ := Process.run_snoc.mp hrun
    rcases ih hs₁ with hlt | ⟨hmore, howed'⟩
    · exact .inl (hlt.trans_le (listings_le hstep))
    · rcases step_moreOf hstep with hlt | ⟨hmore', hkeeps⟩
      · exact .inl (hmore.1 ▸ hlt)
      · exact .inr ⟨hmore.trans hmore', hkeeps howed'⟩

end Asking

/-- In every run: the listings keep within the server's budget, what is owed is due, and
every listing wanted along the way has been asked for or is still going to be. -/
theorem listings_within_budget {inputs : List (ℕ × Call)} {s : Asking}
    (hrun : asking.run inputs = some s) :
    WithinBudget s ∧ ∀ before now after s₀, inputs = before ++ (now, .want) :: after →
      asking.run before = some s₀ → Heeded s₀ s := by
  have hsound := Asking.sound_run hrun
  refine ⟨hsound.withinBudget, ?_⟩
  rintro before now after s₀ rfl hbefore
  rcases Asking.want_cases s₀.requests with hupgraded | howed
  · exact .inl hupgraded
  rcases Asking.owed_since hbefore howed hrun with hlt | ⟨⟨hlistings, new, hasks, hnew⟩, howed'⟩
  · exact .inr (.inl hlt)
  · refine .inr (.inr ⟨howed', ?_, hsound.owed_waits (by simp [howed'])⟩)
    have hbound := hsound.spaced.bounded s₀.listings
    have hcount : new.countP (·.listing = s₀.listings) = new.length :=
      List.countP_eq_length.mpr fun a ha => decide_eq_true (hnew a ha)
    rw [Asking.pagesOf, hasks, List.countP_append, hcount] at hbound
    rw [hasks, List.length_append]
    omega

/-- A listing wanted twice, its first page arriving between. -/
private def wantedTwice : List (ℕ × Call) :=
  [(0, .want), (0, .next), (0, .page ⟨none, none, none, [], []⟩), (1, .want), (LISTING_GAP, .next)]

theorem wanted_twice_within_budget :
    ∃ s, asking.run wantedTwice = some s ∧ WithinBudget s ∧ s.asks.length = 2 := by
  have hrun : asking.run wantedTwice = some _ := rfl
  exact ⟨_, hrun, (listings_within_budget hrun).1, rfl⟩

end Gtkhx.Messaging
