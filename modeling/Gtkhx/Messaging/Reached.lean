import Gtkhx.Messaging.Delivery
import Mathlib.Data.List.Nodup

/-!
# Every message reaches a status

What the view is told of a message only moves forward, a receipt counts only from whom it went
to, and a message that was never answered is told to have failed once its connection is
forgotten, as long as no send of a message closes the connection it is made on.
-/

namespace Gtkhx.Messaging

open Reactive

/-- Of messages with different ids, one is found by its own. -/
theorem filter_guid_eq_singleton {told : List Message} (hdistinct : (told.map Message.guid).Nodup)
    {e : Message} (he : e ∈ told) : told.filter (·.guid = e.guid) = [e] := by
  induction told with
  | nil => cases he
  | cons a told ih =>
    rw [List.map_cons, List.nodup_cons] at hdistinct
    rcases List.mem_cons.mp he with rfl | hmem
    · rw [List.filter_cons_of_pos (by simp), List.filter_eq_nil_iff.mpr]
      intro b hb heq
      exact hdistinct.1 (List.mem_map.mpr ⟨b, hb, of_decide_eq_true heq⟩)
    · have hne : a.guid ≠ e.guid := fun heq =>
        hdistinct.1 (List.mem_map.mpr ⟨e, hmem, heq.symm⟩)
      rw [List.filter_cons_of_neg (by simpa using hne), ih hdistinct.2 hmem]

/-- A message that can move on does, and otherwise nothing changes. -/
theorem delivered_cases {held : List Message} (hdistinct : (held.map Message.guid).Nodup)
    (guid : Guid) (sender : Option Login) (now : Delivery) :
    (delivered held guid sender now = (none, held) ∧ ∀ m ∈ held, m.guid = guid →
      (∀ s, sender = some s → s = m.recipient) → now.rank ≤ m.delivery.rank) ∨
    ∃ m ∈ held, m.guid = guid ∧ (∀ s, sender = some s → s = m.recipient) ∧
      m.delivery.rank < now.rank ∧
      delivered held guid sender now = (some ⟨guid, m.recipient, now⟩,
        if now.final then held.filter (·.guid ≠ guid)
        else held.map fun h => if h.guid = guid then { h with delivery := now } else h) := by
  unfold delivered
  cases hfind : held.find? (·.guid = guid) with
  | none =>
    refine .inl ⟨rfl, fun m hm heq => ?_⟩
    exact absurd (decide_eq_true heq) (List.find?_eq_none.mp hfind m hm)
  | some m =>
    have hm := List.mem_of_find?_eq_some hfind
    have hguid : m.guid = guid := by simpa using List.find?_some hfind
    have hsender : sender.any (· ≠ m.recipient) = true ↔
        ∃ s, sender = some s ∧ s ≠ m.recipient := by
      rw [Option.any_eq_true]
      simp
    by_cases hstays : sender.any (· ≠ m.recipient) ∨ now.rank ≤ m.delivery.rank
    · refine .inl ⟨by simp only [if_pos hstays], fun m' hm' hguid' hfrom => ?_⟩
      obtain rfl := List.inj_on_of_nodup_map hdistinct hm hm' (hguid.trans hguid'.symm)
      refine hstays.resolve_left fun hother => ?_
      obtain ⟨s, hs, hne⟩ := hsender.mp hother
      exact hne (hfrom s hs)
    · refine .inr ⟨m, hm, hguid, fun s hs => ?_, ?_, by simp only [if_neg hstays]⟩
      · by_contra hne
        exact hstays (.inl (hsender.mpr ⟨s, hs, hne⟩))
      · exact Nat.lt_of_not_le fun hle => hstays (.inr hle)

namespace Messages

/-- What a run keeps while no send closes the connection. -/
structure Kept (x : Messages) : Prop where
  fresh : (x.made.map Prod.fst).Nodup
  distinct : (x.held.map Message.guid).Nodup
  made : ∀ m ∈ x.held, (m.guid, m.recipient) ∈ x.made
  asked : ∀ t guid, (t, some guid) ∈ x.asked → guid ∈ x.made.map Prod.fst
  forgotten : ∀ guid ∈ x.forgotten, guid ∈ x.made.map Prod.fst
  told : ∀ e ∈ x.told, (e.guid, e.recipient) ∈ x.made ∧ 0 < e.delivery.rank
  forward : x.told.Pairwise fun a b =>
    a.guid = b.guid → a.delivery.rank < b.delivery.rank ∧ a.delivery.final = false
  above : ∀ m ∈ x.held, ∀ e ∈ x.told, e.guid = m.guid →
    e.delivery.rank ≤ m.delivery.rank ∧ e.delivery.final = false
  live : ∀ p ∈ x.made, ⟨p.1, p.2, .sending⟩ ∈ x.held ∨ ∃ e ∈ x.told, e.guid = p.1
  answered : ∀ guid ∈ x.answered, ∃ e ∈ x.told, e.guid = guid
  lost : ∀ p ∈ x.made, p.1 ∉ x.answered →
    (⟨p.1, p.2, .sending⟩ ∈ x.held ∧ p.1 ∉ x.forgotten) ∨
    x.told.filter (·.guid = p.1) = [⟨p.1, p.2, .failed⟩]
  closed : x.negotiated = false → x.held = []

variable {x : Messages}

/-- A message whose send is unanswered has not been told of. -/
theorem Kept.unmoved (h : Kept x) {m : Message} (hm : m ∈ x.held)
    (hsending : m.delivery = .sending) {e : Message} (he : e ∈ x.told) : e.guid ≠ m.guid := by
  intro heq
  have hle := (h.above m hm e he heq).1
  have hpos := (h.told e he).2
  rw [hsending] at hle
  exact absurd (hpos.trans_le hle) (lt_irrefl _)

/-- The other messages are held as they were. -/
theorem mem_moved {held : List Message} {m : Message} {guid : Guid} {now : Delivery} {final : Bool}
    (hm : m ∈ held) (hne : m.guid ≠ guid) :
    m ∈ if final then held.filter (·.guid ≠ guid)
      else held.map fun h => if h.guid = guid then { h with delivery := now } else h := by
  cases final with
  | true => exact List.mem_filter.mpr ⟨hm, decide_eq_true hne⟩
  | false => exact List.mem_map.mpr ⟨m, hm, if_neg hne⟩

/-- A message that moved on was held, or is the one that moved, where it has further to go. -/
theorem of_mem_moved {held : List Message} {m : Message} {guid : Guid} {now : Delivery}
    (hm : m ∈ if now.final then held.filter (·.guid ≠ guid)
      else held.map fun h => if h.guid = guid then { h with delivery := now } else h) :
    (m ∈ held ∧ m.guid ≠ guid) ∨
    (m.guid = guid ∧ m.delivery = now ∧ now.final = false ∧
      ∃ h ∈ held, h.guid = guid ∧ h.recipient = m.recipient) := by
  cases hfinal : now.final with
  | true =>
    rw [hfinal] at hm
    obtain ⟨hmem, hne⟩ := List.mem_filter.mp hm
    exact .inl ⟨hmem, of_decide_eq_true hne⟩
  | false =>
    rw [hfinal] at hm
    obtain ⟨h, hmem, rfl⟩ := List.mem_map.mp hm
    by_cases heq : h.guid = guid
    · rw [if_pos heq]
      exact .inr ⟨heq, rfl, rfl, h, hmem, heq, rfl⟩
    · rw [if_neg heq]
      exact .inl ⟨hmem, heq⟩

/-- Moving on changes no id. -/
theorem nodup_moved {held : List Message} (h : (held.map Message.guid).Nodup) (guid : Guid)
    (now : Delivery) (final : Bool) :
    ((if final then held.filter (·.guid ≠ guid)
      else held.map fun h => if h.guid = guid then { h with delivery := now } else h).map
        Message.guid).Nodup := by
  cases final with
  | true => exact h.sublist (List.filter_sublist.map _)
  | false =>
    have hsame : (held.map fun h => if h.guid = guid then { h with delivery := now } else h).map
        Message.guid = held.map Message.guid := by
      rw [List.map_map]
      refine List.map_congr_left fun m _ => ?_
      by_cases heq : m.guid = guid
      · rw [Function.comp_apply, if_pos heq]
      · rw [Function.comp_apply, if_neg heq]
    exact hsame ▸ h

/-- An answer to a message's send, or a receipt of whom it went to. -/
theorem Kept.deliver (h : Kept x) {guid : Guid} {sender : Option Login} {now : Delivery}
    (hnow : 0 < now.rank) (hmade : guid ∈ x.made.map Prod.fst)
    (hsender : ∀ s, sender = some s → (guid, s) ∈ x.made) :
    Kept { x.deliver guid sender now with answered := x.answered ++ [guid] } := by
  have hfrom : ∀ m ∈ x.held, m.guid = guid → ∀ s, sender = some s → s = m.recipient := by
    intro m hm heq s hs
    have hpair := List.inj_on_of_nodup_map h.fresh (hsender s hs) (h.made m hm) heq.symm
    exact (Prod.mk.inj hpair).2
  unfold Messages.deliver
  rcases delivered_cases h.distinct guid sender now with
    ⟨hstays, hrank⟩ | ⟨m, hm, hguid, -, hlt, hmoves⟩
  · rw [hstays]
    simp only [Option.toList_none, List.append_nil]
    refine ⟨h.fresh, h.distinct, h.made, h.asked, h.forgotten, h.told, h.forward, h.above, h.live,
      fun g hg => ?_, fun p hp hnot => ?_, h.closed⟩
    · rcases List.mem_append.mp hg with hold | hnew
      · exact h.answered g hold
      · obtain rfl := List.mem_singleton.mp hnew
        obtain ⟨p, hp, rfl⟩ := List.mem_map.mp hmade
        refine (h.live p hp).resolve_left fun hheld => ?_
        have hle := hrank _ hheld rfl (hfrom _ hheld rfl)
        exact absurd (hnow.trans_le hle) (lt_irrefl _)
    · exact h.lost p hp fun hmem => hnot (List.mem_append_left _ hmem)
  · rw [hmoves]
    simp only [Option.toList_some]
    have hbelow : ∀ e ∈ x.told, e.guid = guid →
        e.delivery.rank < now.rank ∧ e.delivery.final = false := by
      intro e he heq
      obtain ⟨hle, hfinal⟩ := h.above m hm e he (heq.trans hguid.symm)
      exact ⟨hle.trans_lt hlt, hfinal⟩
    refine ⟨h.fresh, nodup_moved h.distinct _ _ _, fun n hn => ?_, h.asked, h.forgotten,
      fun e he => ?_, ?_, fun n hn e he heq => ?_, fun p hp => ?_, fun g hg => ?_,
      fun p hp hnot => ?_, fun hclosed => ?_⟩
    · rcases of_mem_moved hn with ⟨hmem, -⟩ | ⟨heq, -, -, k, hk, hkguid, hrecipient⟩
      · exact h.made n hmem
      · rw [heq, ← hrecipient, ← hkguid]
        exact h.made k hk
    · rcases List.mem_append.mp he with hold | hnew
      · exact h.told e hold
      · obtain rfl := List.mem_singleton.mp hnew
        exact ⟨hguid ▸ h.made m hm, hnow⟩
    · refine List.pairwise_append.mpr
        ⟨h.forward, List.pairwise_singleton _ _, fun a ha b hb heq => ?_⟩
      obtain rfl := List.mem_singleton.mp hb
      exact hbelow a ha heq
    · rcases List.mem_append.mp he with hold | hnew
      · rcases of_mem_moved hn with ⟨hmem, -⟩ | ⟨hnguid, hdelivery, -, -⟩
        · exact h.above n hmem e hold heq
        · rw [hdelivery]
          have hlow := hbelow e hold (heq.trans hnguid)
          exact ⟨hlow.1.le, hlow.2⟩
      · obtain rfl := List.mem_singleton.mp hnew
        rcases of_mem_moved hn with ⟨-, hne⟩ | ⟨-, hdelivery, hfinal, -⟩
        · exact absurd heq.symm hne
        · exact ⟨hdelivery ▸ le_rfl, hfinal⟩
    · by_cases heq : p.1 = guid
      · exact .inr ⟨_, List.mem_append_right _ List.mem_cons_self, heq.symm⟩
      · refine (h.live p hp).imp (fun hheld => mem_moved hheld heq) ?_
        rintro ⟨e, he, hep⟩
        exact ⟨e, List.mem_append_left _ he, hep⟩
    · rcases List.mem_append.mp hg with hold | hnew
      · obtain ⟨e, he, heg⟩ := h.answered g hold
        exact ⟨e, List.mem_append_left _ he, heg⟩
      · obtain rfl := List.mem_singleton.mp hnew
        exact ⟨_, List.mem_append_right _ List.mem_cons_self, rfl⟩
    · rw [List.mem_append, List.mem_singleton, not_or] at hnot
      refine (h.lost p hp hnot.1).imp (fun hheld => ⟨mem_moved hheld.1 hnot.2, hheld.2⟩) ?_
      intro hfailed
      rw [List.filter_append, hfailed, List.filter_cons_of_neg (by simpa using Ne.symm hnot.2),
        List.filter_nil, List.append_nil]
    · rw [h.closed hclosed] at hm
      cases hm

/-- Whom each unanswered message went to, by its id. -/
theorem mem_unanswered {held : List Message} {p : Guid × Login} :
    p ∈ unanswered held ↔ ⟨p.1, p.2, .sending⟩ ∈ held := by
  unfold unanswered
  constructor
  · intro hp
    obtain ⟨m, hm, rfl⟩ := List.mem_map.mp hp
    obtain ⟨hmem, hsending⟩ := List.mem_filter.mp hm
    have hsending := of_decide_eq_true hsending
    exact hsending ▸ hmem
  · intro hm
    exact List.mem_map.mpr ⟨_, List.mem_filter.mpr ⟨hm, decide_eq_true rfl⟩, rfl⟩

/-- The connection is forgotten, and what it loses is told. -/
theorem Kept.forget (h : Kept x) {lost : List (Guid × Login)}
    (hlost : lost.Perm (unanswered x.held)) (negotiates : Bool) :
    Kept { x.forget lost with negotiated := negotiates } := by
  have hmem : ∀ p, p ∈ lost ↔ ⟨p.1, p.2, .sending⟩ ∈ x.held := fun p =>
    hlost.mem_iff.trans mem_unanswered
  have hdistinct :
      ((lost.map fun p => (⟨p.1, p.2, .failed⟩ : Message)).map Message.guid).Nodup := by
    have hperm : ((unanswered x.held).map Prod.fst).Nodup := by
      unfold unanswered
      rw [List.map_map]
      exact h.distinct.sublist (List.filter_sublist.map Message.guid)
    rw [List.map_map]
    exact (hlost.map Prod.fst).symm.nodup hperm
  have hnone : ∀ p ∈ lost, ∀ e ∈ x.told, e.guid ≠ p.1 := fun p hp e he =>
    h.unmoved ((hmem p).mp hp) rfl he
  refine ⟨h.fresh, List.nodup_nil, fun m hm => (by cases hm), fun t guid ht => (by cases ht),
    fun guid hguid => hguid, fun e he => ?_, ?_, fun m hm => (by cases hm), fun p hp => ?_,
    fun guid hguid => ?_, fun p hp hnot => ?_, fun _ => rfl⟩
  · rcases List.mem_append.mp he with hold | hnew
    · exact h.told e hold
    · obtain ⟨p, hp, rfl⟩ := List.mem_map.mp hnew
      have hmade := h.made _ ((hmem p).mp hp)
      exact ⟨hmade, Nat.succ_pos 3⟩
  · refine List.pairwise_append.mpr ⟨h.forward, ?_, fun a ha b hb heq => ?_⟩
    · refine (List.pairwise_map.mp hdistinct).imp fun hne heq => ?_
      exact absurd heq hne
    · obtain ⟨p, hp, rfl⟩ := List.mem_map.mp hb
      exact absurd heq (hnone p hp a ha)
  · right
    rcases h.live p hp with hheld | ⟨e, he, heq⟩
    · exact ⟨⟨p.1, p.2, .failed⟩,
        List.mem_append_right _ (List.mem_map.mpr ⟨p, (hmem p).mpr hheld, rfl⟩), rfl⟩
    · exact ⟨e, List.mem_append_left _ he, heq⟩
  · obtain ⟨e, he, heq⟩ := h.answered guid hguid
    exact ⟨e, List.mem_append_left _ he, heq⟩
  · right
    change (x.told ++ lost.map _).filter _ = _
    rw [List.filter_append]
    rcases h.lost p hp hnot with ⟨hheld, -⟩ | hfailed
    · have hin := (hmem p).mpr hheld
      rw [List.filter_eq_nil_iff.mpr fun e he heq => hnone p hin e he (of_decide_eq_true heq),
        List.nil_append]
      exact filter_guid_eq_singleton hdistinct (e := ⟨p.1, p.2, .failed⟩)
        (List.mem_map.mpr ⟨p, hin, rfl⟩)
    · rw [hfailed, List.filter_eq_nil_iff.mpr, List.append_nil]
      intro e he heq
      obtain ⟨q, hq, rfl⟩ := List.mem_map.mp he
      have htold : (⟨p.1, p.2, .failed⟩ : Message) ∈ x.told := by
        have hin : (⟨p.1, p.2, .failed⟩ : Message) ∈ x.told.filter (·.guid = p.1) := by
          rw [hfailed]
          exact List.mem_singleton_self _
        exact (List.mem_filter.mp hin).1
      exact hnone q hq _ htold (of_decide_eq_true heq).symm

/-- A request goes out. -/
theorem Kept.ask (h : Kept x) {what : Option Guid}
    (hwhat : ∀ guid, what = some guid → guid ∈ x.made.map Prod.fst) (t : ℕ) :
    Kept (x.ask t what) :=
  ⟨h.fresh, h.distinct, h.made, fun t' guid ht => by
      rcases List.mem_cons.mp ht with heq | hmem
      · exact hwhat guid (Prod.mk.inj heq).2.symm
      · exact h.asked t' guid (List.mem_filter.mp hmem).1,
    h.forgotten, h.told, h.forward, h.above, h.live, h.answered, h.lost, h.closed⟩

/-- A message goes out on an open connection. -/
theorem Kept.record (h : Kept x) {guid : Guid} (hnew : guid ∉ x.made.map Prod.fst)
    (hopen : x.negotiated = true) (recipient : Login) : Kept (x.record guid recipient) := by
  have hother : ∀ m ∈ x.held, m.guid ≠ guid := fun m hm heq =>
    hnew (List.mem_map.mpr ⟨_, h.made m hm, heq⟩)
  have hheld : sending x.held guid recipient = ⟨guid, recipient, .sending⟩ :: x.held := by
    rw [sending, List.filter_eq_self.mpr fun m hm => decide_eq_true (hother m hm)]
  have huntold : ∀ e ∈ x.told, e.guid ≠ guid := fun e he heq =>
    hnew (List.mem_map.mpr ⟨_, (h.told e he).1, heq⟩)
  unfold Messages.record
  rw [hheld]
  refine ⟨?_, ?_, fun m hm => ?_, fun t g ht => ?_, fun g hg => ?_, fun e he => ?_, h.forward,
    fun m hm e he heq => ?_, fun p hp => ?_, h.answered, fun p hp hnot => ?_, fun hclosed => ?_⟩
  · rw [List.map_append]
    refine List.nodup_append.mpr ⟨h.fresh, List.nodup_singleton _, fun a ha b hb heq => ?_⟩
    rw [heq, List.mem_singleton.mp hb] at ha
    exact hnew ha
  · refine List.nodup_cons.mpr ⟨fun hmem => ?_, h.distinct⟩
    obtain ⟨m, hm, heq⟩ := List.mem_map.mp hmem
    exact hother m hm heq
  · rcases List.mem_cons.mp hm with rfl | hmem
    · exact List.mem_append_right _ (List.mem_singleton_self _)
    · exact List.mem_append_left _ (h.made m hmem)
  · rw [List.map_append]
    exact List.mem_append_left _ (h.asked t g ht)
  · rw [List.map_append]
    exact List.mem_append_left _ (h.forgotten g hg)
  · exact ⟨List.mem_append_left _ (h.told e he).1, (h.told e he).2⟩
  · rcases List.mem_cons.mp hm with rfl | hmem
    · exact absurd heq (huntold e he)
    · exact h.above m hmem e he heq
  · rcases List.mem_append.mp hp with hold | hlast
    · exact (h.live p hold).imp_left (List.mem_cons_of_mem _)
    · obtain rfl := List.mem_singleton.mp hlast
      exact .inl List.mem_cons_self
  · rcases List.mem_append.mp hp with hold | hlast
    · exact (h.lost p hold hnot).imp_left fun hleft => ⟨List.mem_cons_of_mem _ hleft.1, hleft.2⟩
    · obtain rfl := List.mem_singleton.mp hlast
      exact .inl ⟨List.mem_cons_self, fun hmem => hnew (h.forgotten _ hmem)⟩
  · rw [show x.negotiated = false from hclosed] at hopen
    cases hopen

/-- The reply to a request. -/
theorem Kept.reply (h : Kept x) (t : ℕ) {now : Delivery} (hnow : 0 < now.rank) :
    Kept (x.reply t now) := by
  unfold Messages.reply
  cases hfind : x.asked.find? (·.1 = t) with
  | none => exact h
  | some found =>
    obtain ⟨t', what⟩ := found
    have hrest : Kept { x with asked := x.asked.filter (·.1 ≠ t) } :=
      ⟨h.fresh, h.distinct, h.made, fun u guid hu => h.asked u guid (List.mem_filter.mp hu).1,
        h.forgotten, h.told, h.forward, h.above, h.live, h.answered, h.lost, h.closed⟩
    cases what with
    | none => exact hrest
    | some guid =>
      refine hrest.deliver hnow (h.asked t' guid (List.mem_of_find?_eq_some hfind)) ?_
      exact fun s hs => by cases hs

/-- A receipt for a message. -/
theorem Kept.receipt (h : Kept x) (guid : Guid) (sender : Login) {now : Delivery}
    (hnow : 0 < now.rank) :
    Kept { x.deliver guid (some sender) now with
      answered := if x.held.any fun m => m.guid = guid ∧ m.recipient = sender then
        x.answered ++ [guid] else x.answered } := by
  by_cases hcounts : (x.held.any fun m => m.guid = guid ∧ m.recipient = sender) = true
  · rw [if_pos hcounts]
    obtain ⟨m, hm, hmatch⟩ := List.any_eq_true.mp hcounts
    obtain ⟨rfl, rfl⟩ := of_decide_eq_true hmatch
    refine h.deliver hnow (List.mem_map.mpr ⟨_, h.made m hm, rfl⟩) fun s hs => ?_
    obtain rfl := Option.some.inj hs
    exact h.made m hm
  · rw [if_neg hcounts]
    have hstays : x.deliver guid (some sender) now = x := by
      rcases delivered_cases h.distinct guid (some sender) now with
        ⟨hstays, -⟩ | ⟨m, hm, hguid, hsender, -, -⟩
      · rw [Messages.deliver, hstays, Option.toList_none, List.append_nil]
      · refine absurd (List.any_eq_true.mpr ⟨m, hm, decide_eq_true ⟨hguid, ?_⟩⟩) hcounts
        exact (hsender sender rfl).symm
    rw [hstays]
    exact h

/-- One step keeps it, unless it is a send that closes the connection. -/
theorem Kept.step {y : Messages} (h : Kept x) {happening : Happening}
    (hsend : ∀ guid recipient t built lost,
      happening ≠ .im guid recipient t built (some lost))
    (hstep : x.step happening = some y) : Kept y := by
  cases happening with
  | login lost negotiates =>
    obtain ⟨hlost, rfl⟩ := Option.ite_some_none_eq_some.mp hstep
    exact h.forget hlost negotiates
  | im guid recipient t built closes =>
    cases closes with
    | some lost => exact absurd rfl (hsend guid recipient t built lost)
    | none =>
      simp only [Messages.step] at hstep
      split at hstep
      · cases hstep
      · rename_i hnew
        split at hstep
        · rename_i hopen
          have hmade : guid ∈ (x.made ++ [(guid, recipient)]).map Prod.fst :=
            List.mem_map.mpr ⟨_, List.mem_append_right _ (List.mem_singleton_self _), rfl⟩
          have hwhat : ∀ g, some guid = some g →
              g ∈ (x.made ++ [(guid, recipient)]).map Prod.fst := by
            intro g hg
            exact Option.some.inj hg ▸ hmade
          exact Option.some.inj hstep ▸ (h.record hnew hopen.1 recipient).ask hwhat t
        · exact Option.some.inj hstep ▸ h
  | ask t =>
    simp only [Messages.step] at hstep
    split at hstep
    · exact Option.some.inj hstep ▸ h.ask (fun guid hguid => by cases hguid) t
    · exact Option.some.inj hstep ▸ h
  | success t reason =>
    refine Option.some.inj hstep ▸ h.reply t ?_
    rcases reason with _ | _ | _ | _ <;> exact Nat.one_pos
  | refusal t => exact Option.some.inj hstep ▸ h.reply t (Nat.succ_pos 3)
  | receipt guid sender ack =>
    have hnow : 0 < (Delivery.acked ack).rank := by
      cases ack with
      | delivered => exact Nat.succ_pos 1
      | read => exact Nat.succ_pos 2
    simp only [Messages.step] at hstep
    split at hstep
    · exact Option.some.inj hstep ▸ h.receipt guid sender hnow
    · exact Option.some.inj hstep ▸ h
  | close lost =>
    obtain ⟨hlost, rfl⟩ := Option.ite_some_none_eq_some.mp hstep
    exact h.forget hlost false

/-- What is said of every message: what the view is told of it moves forward and ends at the
first that is final; a receipt moves it only when it is from whom it went to; its answer is told;
and if it was not answered when its connection was forgotten it is told to have failed, once.
None stays unanswered on a closed connection. -/
structure Reached (x : Messages) : Prop where
  forward : ∀ guid, (x.told.filter (·.guid = guid)).Pairwise fun a b =>
    a.delivery.rank < b.delivery.rank ∧ a.delivery.final = false
  receipts : ∀ guid sender ack y, x.step (.receipt guid sender ack) = some y →
    y.held ≠ x.held ∨ y.told ≠ x.told → (guid, sender) ∈ x.made
  answered : ∀ guid ∈ x.answered, ∃ e ∈ x.told, e.guid = guid
  lost : ∀ p ∈ x.made, p.1 ∈ x.forgotten → p.1 ∉ x.answered →
    x.told.filter (·.guid = p.1) = [⟨p.1, p.2, .failed⟩]
  closed : x.negotiated = false → ∀ m ∈ x.held, m.delivery ≠ .sending

theorem Kept.reached (h : Kept x) : x.Reached where
  forward guid := by
    refine List.pairwise_filter.mpr (h.forward.imp fun hab ha hb => hab ?_)
    exact (of_decide_eq_true ha).trans (of_decide_eq_true hb).symm
  receipts guid sender ack y hstep hchanged := by
    simp only [Messages.step] at hstep
    split at hstep
    · obtain rfl := Option.some.inj hstep
      rcases delivered_cases h.distinct guid (some sender) (.acked ack) with
        ⟨hstays, -⟩ | ⟨m, hm, rfl, hsender, -, -⟩
      · simp [Messages.deliver, hstays] at hchanged
      · exact hsender sender rfl ▸ h.made m hm
    · obtain rfl := Option.some.inj hstep
      rcases hchanged with hheld | htold
      · exact absurd rfl hheld
      · exact absurd rfl htold
  answered := h.answered
  lost p hp hforgotten hnot := (h.lost p hp hnot).resolve_left fun hleft => hleft.2 hforgotten
  closed hclosed m hm := by
    rw [h.closed hclosed] at hm
    cases hm

end Messages

/-- When no send of a message closes the connection, every message reaches a status. -/
theorem messages_reach_status (happenings : List Happening) (x : Messages)
    (hrun : messaging.run happenings = some x)
    (hsends : ∀ guid recipient t built lost,
      Happening.im guid recipient t built (some lost) ∉ happenings) : x.Reached := by
  have hkept : x.Kept := by
    refine Process.invariant_along (P := messaging) (Q := Messages.Kept)
      (C := fun _ happening => ∀ guid recipient t built lost,
        happening ≠ .im guid recipient t built (some lost)) ?_ ?_ hrun ?_
    · exact ⟨List.nodup_nil, List.nodup_nil, fun _ hm => (by cases hm), fun _ _ ht => (by cases ht),
        fun _ hg => (by cases hg), fun _ he => (by cases he), List.Pairwise.nil,
        fun _ hm => (by cases hm), fun _ hp => (by cases hp), fun _ hg => (by cases hg),
        fun _ hp => (by cases hp), fun _ => rfl⟩
    · exact fun _ _ _ hkept hsend hstep => hkept.step hsend hstep
    · intro before happening _ hbegin _ guid recipient t built lost heq
      refine hsends guid recipient t built lost (hbegin.subset ?_)
      exact heq ▸ List.mem_append_right _ (List.mem_singleton_self _)
  exact hkept.reached

/-- A message that is answered, and seen, before the connection closes. -/
private def answeredAndSeen : List Happening :=
  [.login [] true, .im (Vector.replicate 16 0) [1] 1 true none, .success 1 none,
    .receipt (Vector.replicate 16 0) [1] .read, .close []]

theorem one_message_reaches_status : ∃ x, messaging.run answeredAndSeen = some x ∧
    x.told.map Message.delivery = [.sent, .read] ∧ x.Reached := by
  refine ⟨_, rfl, rfl, ?_⟩
  apply messages_reach_status answeredAndSeen
  · rfl
  · intro guid recipient t built lost hmem
    simp [answeredAndSeen] at hmem

/-- The send closes the connection, and the message is recorded after that: it stays
unanswered on a closed connection, and the view is told nothing. -/
theorem closing_send_stays_sending :
    ∃ x, messaging.run [.login [] true, .im (Vector.replicate 16 0) [1] 1 true (some [])] = some x ∧
      x.negotiated = false ∧ x.made = [(Vector.replicate 16 0, [1])] ∧
      x.held = [⟨Vector.replicate 16 0, [1], .sending⟩] ∧ x.told = [] ∧ ¬x.Reached := by
  refine ⟨_, rfl, rfl, rfl, rfl, rfl, fun h => ?_⟩
  exact h.closed rfl _ (List.mem_singleton_self _) rfl

end Gtkhx.Messaging
