import Mathlib.Data.Finset.Card
import Mathlib.Data.List.Nodup

/-!
# Rations

So many shares among those who ask for one. Who finds none left waits in line, and a share
that is given back goes to the head of the line. The book of a ration says who holds a share
and who waits, and keeps the order in which shares were asked for and served.
-/

namespace Ration

variable {κ : Type*}

/-- The book of a ration. -/
structure Book (κ : Type*) where
  /-- Who holds a share. -/
  holding : Finset κ
  /-- Who waits, the longest first. -/
  line : List κ
  /-- Who asked, in order. -/
  asked : List κ
  /-- Who was served, in order. -/
  served : List κ
  /-- Who gave up waiting. -/
  left : Finset κ

variable [DecidableEq κ]

/-- Ask for a share: there is one left, or one has to wait. -/
def Book.ask (limit : ℕ) (b : Book κ) (k : κ) : Book κ :=
  if b.holding.card < limit then
    { b with holding := insert k b.holding, asked := b.asked ++ [k], served := b.served ++ [k] }
  else { b with line := b.line ++ [k], asked := b.asked ++ [k] }

/-- Give a share back. -/
def Book.giveBack (b : Book κ) (k : κ) : Book κ :=
  match b.line with
  | [] => { b with holding := b.holding.erase k }
  | next :: line =>
    { b with
      holding := insert next (b.holding.erase k), line := line, served := b.served ++ [next] }

/-- Give up waiting. -/
def Book.leave (b : Book κ) (k : κ) : Book κ :=
  { b with line := b.line.filter (· ≠ k), left := insert k b.left }

/-- Shares are served in the order in which they were asked for, to all who did not give up, as
long as there are any. -/
structure Book.Fair (limit : ℕ) (b : Book κ) : Prop where
  once : b.asked.Nodup
  order : b.asked.filter (· ∉ b.left) = b.served ++ b.line
  gone : ∀ k ∈ b.left, k ∈ b.asked
  served : ∀ k ∈ b.holding, k ∈ b.served
  limited : b.holding.card ≤ limit
  busy : b.line ≠ [] → b.holding.card = limit

namespace Book.Fair

variable {limit : ℕ} {b : Book κ} {k : κ}

/-- Nobody is served and waits. -/
theorem nodup (h : b.Fair limit) : (b.served ++ b.line).Nodup := h.order ▸ h.once.filter _

theorem not_mem_holding_of_line (h : b.Fair limit) (hline : k ∈ b.line) : k ∉ b.holding :=
  fun hheld => List.disjoint_of_nodup_append h.nodup (h.served k hheld) hline

/-- Who is told of the order asked. -/
theorem mem_asked (h : b.Fair limit) (hmem : k ∈ b.served ++ b.line) : k ∈ b.asked := by
  rw [← h.order] at hmem
  exact (List.mem_filter.mp hmem).1

theorem ask (h : b.Fair limit) (hnew : k ∉ b.asked) : (b.ask limit k).Fair limit := by
  have hstays : k ∉ b.left := fun hleft => hnew (h.gone k hleft)
  have horder : (b.asked ++ [k]).filter (· ∉ b.left) = b.served ++ b.line ++ [k] := by
    rw [List.filter_append, h.order]
    simp [hstays]
  have honce : (b.asked ++ [k]).Nodup := by
    rw [List.nodup_append]
    refine ⟨h.once, List.nodup_singleton k, ?_⟩
    rintro a ha a' ha' rfl
    exact hnew (List.mem_singleton.mp ha' ▸ ha)
  have hnotheld : k ∉ b.holding := fun hheld =>
    hnew (h.mem_asked (List.mem_append_left _ (h.served k hheld)))
  unfold Book.ask
  split
  next hroom =>
    have hnone : b.line = [] := by
      by_contra hne
      exact absurd (h.busy hne) (by omega)
    rw [hnone, List.append_nil] at horder
    exact {
      once := honce
      order := by simpa [hnone] using horder
      gone := fun k' hk' => List.mem_append_left _ (h.gone k' hk')
      served := fun k' hk' => by
        rcases Finset.mem_insert.mp hk' with rfl | hheld
        · simp
        · exact List.mem_append_left _ (h.served k' hheld)
      limited := by
        rw [Finset.card_insert_of_notMem hnotheld]
        omega
      busy := fun hne => absurd hnone hne }
  next hfull =>
    have hall : b.holding.card = limit := by
      have := h.limited
      omega
    exact {
      once := honce
      order := by simpa using horder
      gone := fun k' hk' => List.mem_append_left _ (h.gone k' hk')
      served := h.served
      limited := h.limited
      busy := fun _ => hall }

theorem giveBack (h : b.Fair limit) (hheld : k ∈ b.holding) : (b.giveBack k).Fair limit := by
  have hpos : 0 < b.holding.card := Finset.card_pos.mpr ⟨k, hheld⟩
  have hless : (b.holding.erase k).card = b.holding.card - 1 := Finset.card_erase_of_mem hheld
  unfold Book.giveBack
  split
  next hline =>
    exact { h with
      served := fun k' hk' => h.served k' (Finset.mem_of_mem_erase hk')
      limited := (Finset.card_le_card (Finset.erase_subset _ _)).trans h.limited
      busy := fun hne => absurd hline hne }
  next next line hline =>
    have hfull : b.holding.card = limit := h.busy (by simp [hline])
    have hnext : next ∉ b.holding.erase k := fun hmem =>
      h.not_mem_holding_of_line (by simp [hline]) (Finset.mem_of_mem_erase hmem)
    have hcard : (insert next (b.holding.erase k)).card = limit := by
      rw [Finset.card_insert_of_notMem hnext]
      omega
    exact {
      once := h.once
      order := by
        change b.asked.filter (· ∉ b.left) = _
        rw [h.order, hline]
        simp
      gone := h.gone
      served := fun k' hk' => by
        rcases Finset.mem_insert.mp hk' with rfl | hmem
        · simp
        · exact List.mem_append_left _ (h.served k' (Finset.mem_of_mem_erase hmem))
      limited := hcard.le
      busy := fun _ => hcard }

theorem leave (h : b.Fair limit) (hline : k ∈ b.line) : (b.leave k).Fair limit where
  once := h.once
  order := by
    have hnot : ∀ a ∈ b.served, decide (a ≠ k) = true := fun a ha => by
      have hne : a ≠ k := fun heq => List.disjoint_of_nodup_append h.nodup (heq ▸ ha) hline
      simpa using hne
    calc b.asked.filter (· ∉ insert k b.left)
        = (b.asked.filter (· ∉ b.left)).filter (· ≠ k) := by
          rw [List.filter_filter]
          refine List.filter_congr fun a _ => ?_
          simp [Finset.mem_insert, not_or]
      _ = b.served ++ b.line.filter (· ≠ k) := by
          rw [h.order, List.filter_append, List.filter_eq_self.mpr hnot]
  gone := fun k' hk' => by
    rcases Finset.mem_insert.mp hk' with rfl | hmem
    · exact h.mem_asked (List.mem_append_right _ hline)
    · exact h.gone k' hmem
  served := h.served
  limited := h.limited
  busy := fun hne => h.busy fun hnil => hne (by simp [Book.leave, hnil])

end Book.Fair

end Ration
