import Mathlib.Data.Nat.Basic
import Mathlib.Data.List.Pairwise
import Mathlib.Tactic.Ring

/-!
# Paced events

Events in time, some of which begin a group. Within a group each event keeps a small gap
from the one before it; the beginnings keep a large gap from one another, but none from the
last event of the group before. What falls into a window as long as the large gap is
counted.
-/

namespace Paced

variable {α : Type*} (time : α → ℕ) (begins : α → Bool) (gap groupGap : ℕ)

/-- How an event stands to an earlier one. -/
structure Follows (a b : α) : Prop where
  le : time a ≤ time b
  gap : begins b = false → time a + gap ≤ time b
  groupGap : begins a = true → begins b = true → time a + groupGap ≤ time b

variable {time begins gap groupGap}

/-- From an event to the last after it there is a gap for each that begins no group. -/
theorem span_le {a : α} {events : List α}
    (h : (a :: events).Pairwise (Follows time begins gap groupGap)) :
    time a + gap * events.countP (!begins ·) ≤
      time ((a :: events).getLast (List.cons_ne_nil _ _)) := by
  induction events generalizing a with
  | nil => exact le_rfl
  | cons b events ih =>
    obtain ⟨hfirst, hrest⟩ := List.pairwise_cons.mp h
    have hb := hfirst b List.mem_cons_self
    have hle := ih hrest
    rw [List.getLast_cons (List.cons_ne_nil _ _)]
    refine le_trans ?_ hle
    cases hbegins : begins b with
    | true =>
      rw [List.countP_cons_of_neg (by simp [hbegins])]
      exact Nat.add_le_add_right hb.le _
    | false =>
      rw [List.countP_cons_of_pos (by simp [hbegins])]
      have hgap := hb.gap hbegins
      calc time a + gap * (events.countP (!begins ·) + 1)
          = time a + gap + gap * events.countP (!begins ·) := by ring
        _ ≤ time b + gap * events.countP (!begins ·) := Nat.add_le_add_right hgap _

/-- Within a window as long as the large gap at most one group begins. -/
theorem countP_begins_le_one {start : ℕ} {events : List α}
    (h : events.Pairwise (Follows time begins gap groupGap))
    (hwindow : ∀ e ∈ events, start ≤ time e ∧ time e < start + groupGap) :
    events.countP begins ≤ 1 := by
  induction events with
  | nil => exact Nat.zero_le _
  | cons a events ih =>
    obtain ⟨hfirst, hrest⟩ := List.pairwise_cons.mp h
    have hle := ih hrest fun e he => hwindow e (List.mem_cons_of_mem _ he)
    cases hbegins : begins a with
    | false => rwa [List.countP_cons_of_neg (by simp [hbegins])]
    | true =>
      rw [List.countP_cons_of_pos hbegins]
      have hnone : events.countP begins = 0 := by
        rw [List.countP_eq_zero]
        intro b hb hbb
        have hgap := (hfirst b hb).groupGap hbegins hbb
        have ha := hwindow a List.mem_cons_self
        have hb' := hwindow b (List.mem_cons_of_mem _ hb)
        omega
      omega

/-- Within a window as long as `k` small gaps there are at most `k + 1` events. -/
theorem length_window_le {k start : ℕ} {events : List α} (hgap : groupGap = k * gap)
    (h : events.Pairwise (Follows time begins gap groupGap)) :
    (events.filter fun e => start ≤ time e ∧ time e < start + groupGap).length ≤ k + 1 := by
  have hpaced := h.filter fun e => decide (start ≤ time e ∧ time e < start + groupGap)
  have hwindow : ∀ e ∈ events.filter fun e => start ≤ time e ∧ time e < start + groupGap,
      start ≤ time e ∧ time e < start + groupGap :=
    fun e he => of_decide_eq_true (List.mem_filter.mp he).2
  revert hpaced hwindow
  generalize events.filter (fun e => decide (start ≤ time e ∧ time e < start + groupGap)) = inside
  intro hpaced hwindow
  cases inside with
  | nil => exact Nat.zero_le _
  | cons a rest =>
    have hone := countP_begins_le_one hpaced hwindow
    have hspan := span_le hpaced
    have hfirst := hwindow a List.mem_cons_self
    have hlast := hwindow _ (List.getLast_mem (List.cons_ne_nil a rest))
    have hrest : rest.countP begins ≤ 1 :=
      (List.sublist_cons_self a rest).countP_le.trans hone
    have hsplit : rest.length = rest.countP begins + rest.countP (!begins ·) := by
      rw [List.length_eq_countP_add_countP begins]
      simp
    have hlt : gap * rest.countP (!begins ·) < k * gap := by omega
    have hfew : rest.countP (!begins ·) < k := by
      rw [Nat.mul_comm] at hlt
      exact lt_of_mul_lt_mul_right hlt (Nat.zero_le _)
    rw [List.length_cons]
    omega

end Paced
