import Gtkhx.Requests.Ranges

/-!
# Range readers are answered once

The callbacks that were told and the ones in `ASKED` are together the callbacks of the
calls, each once, and what is in `ASKED` belongs to live connections (`Sound`). Every step
keeps that but a `get_range` whose send closes its connection: that one leaves its callback
in `ASKED` for a closed connection. So the readers are answered once in exactly the runs
without such a send (`answered_once_iff`).
-/

namespace Gtkhx.Requests

variable {κ τ : Type*}

/-- What a search finds is what is erased. -/
theorem perm_cons_eraseP {α : Type*} {p : α → Bool} {l : List α} {a : α}
    (h : l.find? p = some a) : l.Perm (a :: l.eraseP p) := by
  induction l with
  | nil => simp at h
  | cons x l ih =>
    cases hx : p x with
    | true =>
      rw [List.find?_cons_of_pos hx] at h
      cases h
      rw [List.eraseP_cons_of_pos hx]
    | false =>
      have hx' : ¬p x = true := by simp [hx]
      rw [List.find?_cons_of_neg hx'] at h
      rw [List.eraseP_cons_of_neg hx']
      exact ((ih h).cons x).trans (List.Perm.swap a x _)

theorem dones_cons (entry : Entry κ) (entries : List (Entry κ)) :
    dones (entry :: entries) = entry.2.done?.toList ++ dones entries := by
  cases h : entry.2.done? <;> simp [dones, h]

/-- Erasing an entry that has no callback leaves the callbacks. -/
theorem dones_eraseP {p : Entry κ → Bool} {entries : List (Entry κ)}
    (h : ∀ entry ∈ entries, p entry = true → entry.2.done? = none) :
    dones (entries.eraseP p) = dones entries := by
  induction entries with
  | nil => rfl
  | cons entry entries ih =>
    cases hp : p entry with
    | true =>
      rw [List.eraseP_cons_of_pos hp, dones_cons, h entry List.mem_cons_self hp]
      rfl
    | false =>
      have hp' : ¬p entry = true := by simp [hp]
      have hrest := ih fun e he => h e (List.mem_cons_of_mem _ he)
      rw [List.eraseP_cons_of_neg hp', dones_cons, dones_cons, hrest]

/-- What a listing replaces has no callback. -/
theorem Asked.done?_of_replaces {what old : Asked} (h : what.replaces old = true) :
    old.done? = none := by
  cases what <;> cases old <;> simp_all [Asked.replaces, Asked.done?]

theorem dones_not_replaced (what : Asked) (entries : List (Entry κ)) :
    dones (entries.filter fun entry => !what.replaces entry.2) = dones entries := by
  rw [dones, List.filterMap_filter, dones]
  apply List.filterMap_congr
  intro entry _
  cases h : what.replaces entry.2 with
  | true => simp [Asked.done?_of_replaces h]
  | false => simp

/-- The callbacks of the entries that go and of those that stay. -/
theorem dones_perm_filter (p : Entry κ → Bool) (entries : List (Entry κ)) :
    (dones entries).Perm (dones (entries.filter p) ++ dones (entries.filter fun e => !p e)) := by
  have hperm := (List.filter_append_perm p entries).symm
  have hdones := hperm.filterMap fun entry => entry.2.done?
  rwa [List.filterMap_append] at hdones

theorem mem_dones {entries : List (Entry κ)} {done : ℕ} :
    done ∈ dones entries ↔ ∃ key, (key, Asked.range done) ∈ entries := by
  rw [dones, List.mem_filterMap]
  constructor
  · rintro ⟨⟨key, what⟩, hmem, hdone⟩
    cases what <;> cases hdone
    exact ⟨key, hmem⟩
  · rintro ⟨key, hmem⟩
    exact ⟨_, hmem, rfl⟩

variable [DecidableEq κ]

/-- What is in flight belongs to live connections, and with what was told makes up the
calls. -/
structure InFlight.Sound (s : InFlight κ τ) : Prop where
  entries : ∀ c trans done, ((c, trans), Asked.range done) ∈ s.asked →
    (s.conns c).live = true ∧ trans ∈ (s.conns c).used ∧
      s.calls[done]? = some ⟨c, (s.conns c).session, trans⟩
  perm : (s.told.map Told.done ++ dones s.asked).Perm (List.range s.calls.length)
  own : ∀ told ∈ s.told,
    told.reply = none ∧ told.answer = .error none ∨ told.reply = s.calls[told.done]?

omit [DecidableEq κ] in
/-- The entries of a number that no range of its connection has are free. -/
theorem InFlight.Sound.free {s : InFlight κ τ} (h : s.Sound) {c : κ} {trans : UInt32}
    (hfresh : trans ∉ (s.conns c).used) (done : ℕ) :
    ((c, trans), Asked.range done) ∉ s.asked :=
  fun hmem => hfresh (h.entries c trans done hmem).2.1

/-- The callbacks in flight after an entry is made under a free number. -/
theorem InFlight.dones_ask {s : InFlight κ τ} {c : κ} {trans : UInt32}
    (hfree : ∀ done, ((c, trans), Asked.range done) ∉ s.asked) (what : Asked) :
    dones (s.ask c trans what).asked = dones s.asked ++ what.done?.toList := by
  have herase : dones ((s.asked.filter fun entry => !what.replaces entry.2).eraseP
      fun entry => entry.1 = (c, trans)) = dones s.asked := by
    rw [dones_eraseP, dones_not_replaced]
    rintro ⟨key, old⟩ hmem hkey
    obtain rfl : key = (c, trans) := by simpa using hkey
    cases old with
    | range done => exact absurd (List.mem_of_mem_filter hmem) (hfree done)
    | _ => rfl
  have hnew : dones [((c, trans), what)] = what.done?.toList := by
    cases h : what.done? <;> simp [dones, h]
  rw [← hnew, ← herase]
  exact List.filterMap_append

/-- An entry that is there after another is made was there before, or is that one. -/
theorem InFlight.mem_ask {s : InFlight κ τ} {c : κ} {trans : UInt32} {what : Asked}
    {entry : Entry κ} (h : entry ∈ (s.ask c trans what).asked) :
    entry ∈ s.asked ∨ entry = ((c, trans), what) := by
  rcases List.mem_append.mp h with h | h
  · exact .inl (List.mem_of_mem_filter (List.mem_of_mem_eraseP h))
  · exact .inr (List.mem_singleton.mp h)

/-- Another request's entry keeps what is in flight. -/
theorem InFlight.Sound.ask {s : InFlight κ τ} (h : s.Sound) {c : κ} {trans : UInt32}
    (hfree : ∀ done, ((c, trans), Asked.range done) ∉ s.asked) {what : Asked}
    (hwhat : what.done? = none) : (s.ask c trans what).Sound where
  entries := by
    intro c' trans' done hmem
    rcases InFlight.mem_ask hmem with hmem | hmem
    · exact h.entries c' trans' done hmem
    · cases hmem
      cases hwhat
  perm := by
    rw [InFlight.dones_ask hfree, hwhat, Option.toList_none, List.append_nil]
    exact h.perm
  own := h.own

/-- Forgetting a connection keeps what is in flight. -/
theorem InFlight.Sound.forget {s : InFlight κ τ} (h : s.Sound) (c : κ) (keepBanner : Bool) :
    (s.forget c keepBanner).Sound where
  entries := fun c' trans done hmem => h.entries c' trans done (List.mem_of_mem_filter hmem)
  perm := by
    have hsplit := dones_perm_filter (goes c keepBanner) s.asked
    have htold : (s.forget c keepBanner).told.map Told.done =
        s.told.map Told.done ++ dones (s.asked.filter (goes c keepBanner)) := by
      rw [InFlight.forget, List.map_append, List.map_map]
      congr 1
      exact List.map_id _
    rw [htold, List.append_assoc]
    exact ((hsplit.append_left _).symm).trans h.perm
  own := by
    intro told hmem
    rcases List.mem_append.mp hmem with hmem | hmem
    · exact h.own told hmem
    · obtain ⟨done, -, rfl⟩ := List.mem_map.mp hmem
      exact .inl ⟨rfl, rfl⟩

/-- A connection with no range in flight may change in any way, and one with ranges in flight
as long as they stay its own. -/
theorem InFlight.Sound.setConn {s : InFlight κ τ} (h : s.Sound) {c : κ} {conn : Session}
    (hconn : ∀ trans done, ((c, trans), Asked.range done) ∈ s.asked →
      conn.live = true ∧ trans ∈ conn.used ∧ conn.session = (s.conns c).session) :
    (s.setConn c conn).Sound where
  entries := by
    intro c' trans done hmem
    obtain ⟨hlive, hused, hcall⟩ := h.entries c' trans done hmem
    by_cases heq : c' = c
    · subst heq
      obtain ⟨hlive', hused', hsession⟩ := hconn trans done hmem
      simp only [InFlight.setConn, Function.update_self]
      exact ⟨hlive', hused', hsession ▸ hcall⟩
    · simp only [InFlight.setConn, Function.update_of_ne heq]
      exact ⟨hlive, hused, hcall⟩
  perm := h.perm
  own := h.own

/-- Nothing of a connection that was forgotten is in flight. -/
theorem InFlight.not_mem_forget (s : InFlight κ τ) (c : κ) (trans : UInt32) (done : ℕ) :
    ((c, trans), Asked.range done) ∉ (s.forget c false).asked := by
  intro hmem
  have hgoes := (List.mem_filter.mp hmem).2
  simp [goes] at hgoes

/-- Closing a connection keeps what is in flight. -/
theorem InFlight.Sound.close {s : InFlight κ τ} (h : s.Sound) (c : κ) : (s.close c).Sound :=
  (h.forget c false).setConn fun trans done hmem =>
    absurd hmem (s.not_mem_forget c trans done)

theorem InFlight.Sound.number {s : InFlight κ τ} (h : s.Sound) (c : κ) (trans : UInt32) :
    (s.number c trans).Sound := by
  apply h.setConn
  intro trans' done hmem
  obtain ⟨hlive, hused, -⟩ := h.entries c trans' done hmem
  exact ⟨hlive, List.mem_cons_of_mem _ hused, rfl⟩

theorem InFlight.Sound.send {s : InFlight κ τ} (h : s.Sound) (c : κ) (closes : Bool) :
    (s.send c closes).Sound := by
  cases closes with
  | true => exact h.close c
  | false => exact h

/-- A connection that is sent on has no more in flight than before. -/
theorem InFlight.mem_send {s : InFlight κ τ} {c : κ} {closes : Bool} {entry : Entry κ}
    (h : entry ∈ (s.send c closes).asked) : entry ∈ s.asked := by
  cases closes with
  | true => exact List.mem_of_mem_filter h
  | false => exact h

/-- A range whose send leaves its connection open is in flight. -/
theorem InFlight.Sound.getRange {s : InFlight κ τ} (h : s.Sound) {c : κ} {trans : UInt32}
    (hcan : s.CanAsk c trans) : (s.getRange c trans false).Sound := by
  have hnumber := h.number c trans
  have hfree : ∀ done, ((c, trans), Asked.range done) ∉ (s.number c trans).asked :=
    h.free hcan.2
  constructor
  · intro c' trans' done hmem
    rcases InFlight.mem_ask hmem with hmem | hmem
    · obtain ⟨hlive, hused, hcall⟩ := hnumber.entries c' trans' done hmem
      refine ⟨hlive, hused, ?_⟩
      obtain ⟨hlt, -⟩ := List.getElem?_eq_some_iff.mp hcall
      exact (List.getElem?_append_left hlt).trans hcall
    · cases hmem
      simp [InFlight.getRange, InFlight.send, InFlight.ask, InFlight.number,
        InFlight.setConn, hcan.1]
  · have hdones := InFlight.dones_ask hfree (.range s.calls.length)
    have hlen : (s.getRange c trans false).calls.length = s.calls.length + 1 := by
      simp [InFlight.getRange]
    rw [hlen, List.range_succ]
    change (s.told.map Told.done ++ dones ((s.number c trans).ask c trans _).asked).Perm _
    rw [hdones, ← List.append_assoc]
    exact h.perm.append_right [s.calls.length]
  · intro told hmem
    have hlt : told.done < s.calls.length := by
      have hin : told.done ∈ s.told.map Told.done ++ dones s.asked :=
        List.mem_append_left _ (List.mem_map_of_mem hmem)
      exact List.mem_range.mp (h.perm.mem_iff.mp hin)
    rcases h.own told hmem with hnone | hreply
    · exact .inl hnone
    · refine .inr (hreply.trans ?_)
      exact (List.getElem?_append_left hlt).symm

/-- The callback that an answer takes out, and those it leaves. -/
theorem InFlight.dones_answered_perm (s : InFlight κ τ) (c : κ) (trans : UInt32) :
    (dones s.asked).Perm (((s.answered c trans).1.bind Asked.done?).toList ++
      dones (s.answered c trans).2.asked) := by
  rw [InFlight.answered]
  cases hfind : s.asked.find? fun entry => entry.1 = (c, trans) with
  | none =>
    have hnot := List.find?_eq_none.mp hfind
    rw [List.eraseP_of_forall_not hnot]
    exact List.Perm.refl _
  | some entry =>
    have hperm := (perm_cons_eraseP hfind).filterMap fun entry => entry.2.done?
    have hcons := dones_cons entry (s.asked.eraseP fun entry => entry.1 = (c, trans))
    rw [dones] at hcons
    rw [hcons] at hperm
    exact hperm

/-- Taking out an entry with no callback keeps what is in flight. -/
theorem InFlight.Sound.answered {s : InFlight κ τ} (h : s.Sound) {c : κ} {trans : UInt32}
    (hnone : (s.answered c trans).1.bind Asked.done? = none) :
    (s.answered c trans).2.Sound where
  entries := fun c' trans' done hmem => h.entries c' trans' done (List.mem_of_mem_eraseP hmem)
  perm := by
    have hperm := s.dones_answered_perm c trans
    rw [hnone] at hperm
    exact (hperm.append_left _).symm.trans h.perm
  own := h.own

/-- A reply keeps what is in flight. -/
theorem InFlight.Sound.reply {s : InFlight κ τ} (h : s.Sound) (c : κ) (trans : UInt32)
    (answer : Except (Option String) τ) : (s.reply c trans answer).Sound := by
  have hperm := s.dones_answered_perm c trans
  have hanswered : (s.answered c trans).1.bind Asked.done? = none →
      (s.answered c trans).2.Sound := h.answered
  rw [InFlight.reply]
  cases hfound : (s.answered c trans).1 with
  | none =>
    rw [hfound] at hanswered
    have heq : s.answered c trans = (none, (s.answered c trans).2) := by rw [← hfound]
    rw [heq]
    exact hanswered rfl
  | some what =>
    have heq : s.answered c trans = (some what, (s.answered c trans).2) := by rw [← hfound]
    rw [heq]
    cases what with
    | range done =>
      rw [hfound] at hperm
      have hmem : ((c, trans), Asked.range done) ∈ s.asked := by
        obtain ⟨entry, hfind, hentry⟩ := Option.map_eq_some_iff.mp hfound
        have hkey := List.find?_some hfind
        obtain ⟨key, what⟩ := entry
        obtain rfl : key = (c, trans) := by simpa using hkey
        obtain rfl : what = .range done := hentry
        exact List.mem_of_find?_eq_some hfind
      obtain ⟨-, -, hcall⟩ := h.entries c trans done hmem
      constructor
      · exact fun c' trans' done' hmem' =>
          h.entries c' trans' done' (List.mem_of_mem_eraseP hmem')
      · have hall := (hperm.append_left (s.told.map Told.done)).symm.trans h.perm
        rw [← List.append_assoc] at hall
        rw [List.map_append]
        exact hall
      · intro told hmem'
        rcases List.mem_append.mp hmem' with hmem' | hmem'
        · exact h.own told hmem'
        · rw [List.mem_singleton.mp hmem']
          exact .inr hcall.symm
    | listing | info | download | upload | rename | banner =>
      rw [hfound] at hanswered
      exact hanswered rfl

/-- A step that is not a range whose send closes its connection keeps what is in flight. -/
theorem InFlight.Sound.step {s s' : InFlight κ τ} (h : s.Sound) {action : FileAction κ τ}
    (hopen : ∀ c trans, action ≠ .getRange c trans true) (hstep : s.step action = some s') :
    s'.Sound := by
  cases action with
  | getRange c trans closes =>
    obtain rfl : closes = false := by
      cases closes with
      | false => rfl
      | true => exact absurd rfl (hopen c trans)
    obtain ⟨hcan, rfl⟩ := by simpa [InFlight.step] using hstep
    exact h.getRange hcan
  | request c trans what before closes =>
    simp only [InFlight.step, Option.ite_none_right_eq_some] at hstep
    obtain ⟨⟨hcan, hwhat⟩, hstep⟩ := hstep
    have hnumber := h.number c trans
    have hfree := h.free hcan.2
    split at hstep
    · cases hstep
      exact (hnumber.ask hfree hwhat).send c closes
    · cases hstep
      have hfree' : ∀ done, ((c, trans), Asked.range done) ∉
          ((s.number c trans).send c closes).asked :=
        fun done hmem => hfree done (InFlight.mem_send (s := s.number c trans) hmem)
      exact (hnumber.send c closes).ask hfree' hwhat
  | reply c trans answer =>
    obtain ⟨-, rfl⟩ := by simpa [InFlight.step] using hstep
    exact h.reply c trans answer
  | otherReply c trans =>
    simp only [InFlight.step, Option.ite_none_right_eq_some, Option.some.injEq] at hstep
    obtain ⟨⟨-, hnone⟩, rfl⟩ := hstep
    exact h.answered hnone
  | loggedIn c =>
    obtain ⟨-, rfl⟩ := by simpa [InFlight.step] using hstep
    exact h.forget c true
  | close c =>
    obtain ⟨-, rfl⟩ := by simpa [InFlight.step] using hstep
    exact h.close c
  | connect c =>
    simp only [InFlight.step, Option.ite_none_left_eq_some, Option.some.injEq] at hstep
    obtain ⟨hdown, rfl⟩ := hstep
    exact h.setConn fun trans done hmem => absurd (h.entries c trans done hmem).1 hdown

omit [DecidableEq κ] in
/-- What is in flight being right, the readers are answered once. -/
theorem InFlight.Sound.answeredOnce {s : InFlight κ τ} (h : s.Sound) : s.AnsweredOnce where
  once := by
    have hnodup := (h.perm.nodup_iff).mpr List.nodup_range
    exact (List.nodup_append.mp hnodup).1
  own := by
    intro told hmem
    have hin : told.done ∈ s.told.map Told.done ++ dones s.asked :=
      List.mem_append_left _ (List.mem_map_of_mem hmem)
    exact ⟨List.mem_range.mp (h.perm.mem_iff.mp hin), h.own told hmem⟩
  closed := by
    intro done call hcall hgone
    obtain ⟨hlt, -⟩ := List.getElem?_eq_some_iff.mp hcall
    rcases List.mem_append.mp (h.perm.mem_iff.mpr (List.mem_range.mpr hlt)) with htold | hasked
    · exact htold
    · obtain ⟨⟨c, trans⟩, hmem⟩ := mem_dones.mp hasked
      obtain ⟨hlive, -, hcall'⟩ := h.entries c trans done hmem
      obtain rfl := Option.some.inj (hcall.symm.trans hcall')
      rcases hgone with hgone | hgone
      · rw [hlive] at hgone
        cases hgone
      · exact absurd rfl hgone
  left := fun c trans done hmem =>
    ⟨(h.entries c trans done hmem).1, (h.entries c trans done hmem).2.2⟩

/-- A range whose send closes its connection is left in flight for a closed one. -/
theorem InFlight.not_answeredOnce_getRange (s : InFlight κ τ) (c : κ) (trans : UInt32) :
    ¬(s.getRange c trans true).AnsweredOnce := by
  intro h
  have hmem : ((c, trans), Asked.range s.calls.length) ∈ (s.getRange c trans true).asked :=
    List.mem_append_right _ (List.mem_singleton_self _)
  obtain ⟨hlive, -⟩ := h.left c trans _ hmem
  simp [InFlight.getRange, InFlight.send, InFlight.close, InFlight.ask, InFlight.setConn] at hlive

/-- In a run, every range reader is answered once throughout exactly when no range's send
closes its connection. -/
theorem answered_once_iff {actions : List (FileAction κ τ)} {s : InFlight κ τ}
    (hrun : (asking κ τ).run actions = some s) :
    (asking κ τ).Throughout InFlight.AnsweredOnce actions ↔
      ∀ c trans, .getRange c trans true ∉ actions := by
  constructor
  · intro h c trans hmem
    obtain ⟨before, after, rfl⟩ := List.append_of_mem hmem
    have hbegin : before ++ [.getRange c trans true] <+:
        before ++ .getRange c trans true :: after := by
      exact ⟨after, by simp⟩
    obtain ⟨s', hs'⟩ := Reactive.Process.run_of_begin hbegin hrun
    obtain ⟨s₀, -, hstep⟩ := Reactive.Process.run_snoc.mp hs'
    obtain ⟨-, hsome⟩ := Option.ite_none_right_eq_some.mp hstep
    have hlast := h _ s' hbegin hs'
    rw [← Option.some.inj hsome] at hlast
    exact s₀.not_answeredOnce_getRange c trans hlast
  · intro hopen before s₀ hbegin hrun₀
    apply InFlight.Sound.answeredOnce
    have halong : (asking κ τ).Along (fun _ action => ∀ c trans, action ≠ .getRange c trans true)
        before := by
      rintro pre action _ hpre - c trans rfl
      exact hopen c trans (hbegin.subset (hpre.subset (List.mem_append_right _
        (List.mem_singleton_self _))))
    apply Reactive.Process.invariant_along _ _ hrun₀ halong
    · exact ⟨nofun, List.Perm.refl _, nofun⟩
    · exact fun _ _ _ hs hopen hstep => InFlight.Sound.step hs hopen hstep

/-- On a connection that opens, a range is asked for and the connection closes. -/
theorem range_then_close : (asking ℕ ℕ).Throughout InFlight.AnsweredOnce
    [.connect 0, .getRange 0 2 false, .close 0] := by
  apply (answered_once_iff (s := (((InFlight.setConn {} 0 ⟨true, 1, []⟩).getRange 0 2 false).close
    0)) rfl).mpr
  simp

/-- A range whose send closes its connection is left for a closed one. -/
theorem range_closes : ¬(asking ℕ ℕ).Throughout InFlight.AnsweredOnce
    [.connect 0, .getRange 0 2 true] := by
  intro h
  exact InFlight.not_answeredOnce_getRange (InFlight.setConn {} 0 ⟨true, 1, []⟩) 0 2
    (h _ _ (List.prefix_refl _) rfl)

end Gtkhx.Requests
