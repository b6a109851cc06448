import Gtkhx.Messaging.Requests
import Mathlib.Data.List.Nodup

/-!
# What a page adds to a listing

Pages are merged by login: each login is listed once, and none that we approved is. A page
that goes on where the listing stands makes it that much longer.
-/

namespace Gtkhx.Messaging

/-- Each login once, and none that we approved. -/
structure Apart (senders : List Sender) (approvals : Finset Login) : Prop where
  distinct : (senders.map Sender.login).Nodup
  apart : ∀ s ∈ senders, s.login ∉ approvals

/-- A sender who is not listed goes last. -/
theorem addSender_of_notMem {senders : List Sender} {s : Sender}
    (h : s.login ∉ senders.map Sender.login) : addSender senders s = senders ++ [s] := by
  induction senders with
  | nil => rfl
  | cons t senders ih =>
    rw [List.map_cons, List.mem_cons, not_or] at h
    rw [addSender, if_neg (Ne.symm h.1), ih h.2, List.cons_append]

/-- One who is listed stays in place. -/
theorem map_login_addSender_of_mem {senders : List Sender} {s : Sender}
    (h : s.login ∈ senders.map Sender.login) :
    (addSender senders s).map Sender.login = senders.map Sender.login := by
  induction senders with
  | nil => cases h
  | cons t senders ih =>
    by_cases heq : t.login = s.login
    · rw [addSender, if_pos heq, List.map_cons, List.map_cons]
    · rw [List.map_cons, List.mem_cons] at h
      rw [addSender, if_neg heq, List.map_cons, List.map_cons,
        ih (h.resolve_left (Ne.symm heq))]

theorem mem_login_addSender {senders : List Sender} {s : Sender} {login : Login} :
    login ∈ (addSender senders s).map Sender.login ↔
      login ∈ senders.map Sender.login ∨ login = s.login := by
  by_cases h : s.login ∈ senders.map Sender.login
  · rw [map_login_addSender_of_mem h]
    constructor
    · exact Or.inl
    · rintro (hmem | rfl)
      · exact hmem
      · exact h
  · rw [addSender_of_notMem h, List.map_append, List.mem_append, List.map_singleton,
      List.mem_singleton]

theorem nodup_addSender {senders : List Sender} {s : Sender}
    (h : (senders.map Sender.login).Nodup) :
    ((addSender senders s).map Sender.login).Nodup := by
  by_cases hmem : s.login ∈ senders.map Sender.login
  · rwa [map_login_addSender_of_mem hmem]
  · rw [addSender_of_notMem hmem, List.map_append, List.map_singleton]
    exact List.nodup_append.mpr ⟨h, List.nodup_singleton _,
      fun a ha b hb => by
        rw [List.mem_singleton] at hb
        exact fun heq => hmem (hb ▸ heq ▸ ha)⟩

/-- Senders added in turn are listed once each. -/
theorem nodup_foldl_addSender {senders more : List Sender}
    (h : (senders.map Sender.login).Nodup) :
    ((more.foldl addSender senders).map Sender.login).Nodup := by
  induction more generalizing senders with
  | nil => exact h
  | cons s more ih => exact ih (nodup_addSender h)

theorem mem_login_foldl_addSender {senders more : List Sender} {login : Login} :
    login ∈ (more.foldl addSender senders).map Sender.login ↔
      login ∈ senders.map Sender.login ∨ login ∈ more.map Sender.login := by
  induction more generalizing senders with
  | nil => simp
  | cons s more ih => rw [List.foldl_cons, ih, mem_login_addSender, List.map_cons, List.mem_cons,
      or_assoc]

/-- Senders none of whom is listed go last, in order. -/
theorem foldl_addSender_append {senders more : List Sender}
    (h : ((senders ++ more).map Sender.login).Nodup) :
    more.foldl addSender senders = senders ++ more := by
  induction more generalizing senders with
  | nil => simp
  | cons s more ih =>
    have hnot : s.login ∉ senders.map Sender.login := by
      intro hmem
      rw [List.map_append, List.nodup_append] at h
      exact h.2.2 _ hmem _ (List.mem_map_of_mem List.mem_cons_self) rfl
    rw [List.foldl_cons, addSender_of_notMem hnot, ih, List.append_assoc, List.singleton_append]
    rwa [List.append_assoc, List.singleton_append]

/-- An approval stays unless its login is listed as a sender. -/
theorem mem_foldl_erase {approvals : Finset Login} {more : List Sender} {login : Login} :
    login ∈ more.foldl (fun held s => held.erase s.login) approvals ↔
      login ∈ approvals ∧ login ∉ more.map Sender.login := by
  induction more generalizing approvals with
  | nil => simp
  | cons s more ih =>
    rw [List.foldl_cons, ih, Finset.mem_erase, List.map_cons, List.mem_cons, not_or]
    tauto

/-- A page leaves each login listed once, and apart from those we approved. -/
theorem Listing.add_apart {l : Listing} (h : Apart l.senders l.approvals) (p : Page) (now : ℕ) :
    Apart (l.add p now).senders (l.add p now).approvals where
  distinct :=
    (nodup_foldl_addSender h.distinct).sublist (List.filter_sublist.map Sender.login)
  apart s hs := by
    obtain ⟨hmem, hnot⟩ := List.mem_filter.mp hs
    have hnot := of_decide_eq_true hnot
    intro happroved
    rcases Finset.mem_union.mp happroved with hold | hnew
    · obtain ⟨hheld, hmore⟩ := mem_foldl_erase.mp hold
      rcases mem_login_foldl_addSender.mp (List.mem_map_of_mem hmem) with hwas | hadded
      · obtain ⟨t, ht, heq⟩ := List.mem_map.mp hwas
        exact h.apart t ht (heq ▸ hheld)
      · exact hmore hadded
    · exact hnot (List.mem_toFinset.mp hnew)

/-- A page that goes on where the listing stands makes it longer by what is on the page. -/
theorem Listing.add_senders {l : Listing} {p : Page} {senders : List Sender} {k n : ℕ}
    (hdistinct : (senders.map Sender.login).Nodup) (hapart : ∀ s ∈ senders, s.login ∉ p.approvals)
    (hheld : l.senders = senders.take k) (hpage : p.senders = (senders.drop k).take n) (now : ℕ) :
    (l.add p now).senders = senders.take (k + n) := by
  have htake : senders.take k ++ (senders.drop k).take n = senders.take (k + n) :=
    (List.take_add).symm
  have hmerged : p.senders.foldl addSender l.senders = senders.take (k + n) := by
    rw [hheld, hpage, foldl_addSender_append, htake]
    rw [htake]
    exact hdistinct.sublist ((List.take_sublist _ _).map _)
  change (p.senders.foldl addSender l.senders).filter _ = _
  rw [hmerged, List.filter_eq_self]
  intro s hs
  exact decide_eq_true (hapart s (List.mem_of_mem_take hs))

end Gtkhx.Messaging
