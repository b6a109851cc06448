import Gtkhx.Library.Fallible
import Mathlib.Data.List.Infix

/-!
# Programs that read a feed

A feed is the bytes that are still to come and how the stream ends after them. A program that takes
its input only in whole pieces does the same whatever follows the bytes it takes, and fails at the
end of the stream if it is given fewer.
-/

universe u

/-- What is to come on a stream: bytes, and then its end, if not a failure. -/
structure Feed (β κ : Type*) where
  bytes : List β
  failure : Option κ

namespace Feed

variable {β κ ε : Type*} {α γ : Type u}

/-- Take `n` bytes, or fail with `ended` of how the stream ends when there are fewer. -/
def exactly (ended : Option κ → ε) (n : ℕ) : Fallible ε (Feed β κ) (List β) := fun s =>
  if n ≤ s.bytes.length then (.ok (s.bytes.take n), { s with bytes := s.bytes.drop n })
  else (.error (ended s.failure), { s with bytes := [] })

/-- A program takes at most `k` bytes, from the front. -/
def Within (k : ℕ) (m : Fallible ε (Feed β κ) α) : Prop :=
  ∀ s, (m.run s).2.bytes <:+ s.bytes ∧ s.bytes.length ≤ (m.run s).2.bytes.length + k

/-- On fewer bytes a program ends as it would with more, without having come to where they are
missing, or it fails with `e`. -/
def Cut (e : ε) (m : Fallible ε (Feed β κ) α) : Prop :=
  ∀ bytes missing, (∃ left, (m.run ⟨bytes ++ missing, none⟩).2 = ⟨left ++ missing, none⟩ ∧
    m.run ⟨bytes, none⟩ = ((m.run ⟨bytes ++ missing, none⟩).1, ⟨left, none⟩)) ∨
    (m.run ⟨bytes, none⟩).1 = .error e

variable {ended : Option κ → ε}

theorem run_exactly (n : ℕ) (s : Feed β κ) :
    (exactly ended n).run s =
      if n ≤ s.bytes.length then (.ok (s.bytes.take n), { s with bytes := s.bytes.drop n })
      else (.error (ended s.failure), { s with bytes := [] }) := rfl

/-- Taking the front leaves the rest. -/
theorem run_exactly_append {n : ℕ} {front : List β} (hn : front.length = n) (rest : List β)
    (failure : Option κ) :
    (exactly ended n).run ⟨front ++ rest, failure⟩ = (.ok front, ⟨rest, failure⟩) := by
  subst hn
  rw [run_exactly, if_pos (by simp), List.take_left, List.drop_left]

namespace Within

variable {m : Fallible ε (Feed β κ) α}

theorem exactly (n : ℕ) : Within n (Feed.exactly (β := β) ended n) := by
  intro s
  rw [run_exactly]
  split_ifs with hn
  · refine ⟨List.drop_suffix _ _, ?_⟩
    rw [List.length_drop]
    omega
  · refine ⟨List.nil_suffix, ?_⟩
    rw [List.length_nil]
    omega

protected theorem pure (a : α) (k : ℕ) :
    Within k (pure a : Fallible ε (Feed β κ) α) :=
  fun _ => ⟨List.suffix_refl _, Nat.le_add_right _ _⟩

protected theorem fail (e : ε) (k : ℕ) : Within k (.fail e : Fallible ε (Feed β κ) α) :=
  fun _ => ⟨List.suffix_refl _, Nat.le_add_right _ _⟩

protected theorem mono {k k' : ℕ} (h : Within k m) (hk : k ≤ k') : Within k' m :=
  fun s => ⟨(h s).1, by have := (h s).2; omega⟩

/-- A sequence takes what its parts take. -/
protected theorem bind {k j : ℕ} {f : α → Fallible ε (Feed β κ) γ} (hm : Within k m)
    (hf : ∀ a, Within j (f a)) : Within (k + j) (m >>= f) := by
  intro s
  obtain ⟨hsuffix, hlen⟩ := hm s
  rw [Fallible.run_bind]
  rcases hrun : m.run s with ⟨e | a, s'⟩ <;> rw [hrun] at hsuffix hlen
  · dsimp only at hlen ⊢
    exact ⟨hsuffix, by omega⟩
  · obtain ⟨hsuffix', hlen'⟩ := hf a s'
    dsimp only at hlen ⊢
    exact ⟨hsuffix'.trans hsuffix, by omega⟩

protected theorem ite {k : ℕ} {c : Prop} [Decidable c] {m m' : Fallible ε (Feed β κ) α}
    (hm : c → Within k m) (hm' : ¬c → Within k m') : Within k (if c then m else m') := by
  by_cases hc : c
  · rw [if_pos hc]
    exact hm hc
  · rw [if_neg hc]
    exact hm' hc

end Within

namespace Cut

variable {e : ε} {m : Fallible ε (Feed β κ) α}

theorem exactly (n : ℕ) : Cut (ended none) (Feed.exactly (β := β) ended n) := by
  intro bytes missing
  by_cases hn : n ≤ bytes.length
  · left
    have hle : n ≤ (bytes ++ missing).length := by
      rw [List.length_append]
      omega
    refine ⟨bytes.drop n, ?_, ?_⟩
    · rw [run_exactly, if_pos hle, List.drop_append_of_le_length hn]
    · rw [run_exactly, run_exactly, if_pos hn, if_pos hle, List.take_append_of_le_length hn]
  · right
    rw [run_exactly, if_neg hn]

protected theorem pure (a : α) : Cut e (pure a : Fallible ε (Feed β κ) α) :=
  fun bytes _ => Or.inl ⟨bytes, rfl, rfl⟩

protected theorem fail (e' : ε) : Cut e (.fail e' : Fallible ε (Feed β κ) α) :=
  fun bytes _ => Or.inl ⟨bytes, rfl, rfl⟩

/-- A sequence of programs that can be cut short can be. -/
protected theorem bind {f : α → Fallible ε (Feed β κ) γ} (hm : Cut e m) (hf : ∀ a, Cut e (f a)) :
    Cut e (m >>= f) := by
  intro bytes missing
  simp only [Fallible.run_bind]
  rcases hm bytes missing with ⟨left, hstate, hrun⟩ | hfail
  · rcases hfull : m.run ⟨bytes ++ missing, none⟩ with ⟨e' | a, s'⟩
    · rw [hfull] at hstate hrun
      rw [hrun]
      exact Or.inl ⟨left, hstate, rfl⟩
    · rw [hfull] at hstate hrun
      obtain rfl : s' = ⟨left ++ missing, none⟩ := hstate
      rw [hrun]
      exact hf a left missing
  · right
    rcases hrun : m.run ⟨bytes, none⟩ with ⟨e' | a, s'⟩ <;> rw [hrun] at hfail
    · exact congrArg Except.error (Except.error.inj hfail)
    · cases hfail

protected theorem ite {c : Prop} [Decidable c] {m m' : Fallible ε (Feed β κ) α}
    (hm : c → Cut e m) (hm' : ¬c → Cut e m') : Cut e (if c then m else m') := by
  by_cases hc : c
  · rw [if_pos hc]
    exact hm hc
  · rw [if_neg hc]
    exact hm' hc

/-- A program that takes all of its input fails when some of it is missing. -/
theorem short (h : Cut e m) {bytes missing : List β} (hmissing : missing ≠ [])
    (hall : (m.run ⟨bytes ++ missing, none⟩).2.bytes = []) :
    (m.run ⟨bytes, none⟩).1 = .error e := by
  rcases h bytes missing with ⟨left, hstate, -⟩ | hfail
  · rw [hstate] at hall
    exact absurd (List.append_eq_nil_iff.mp hall).2 hmissing
  · exact hfail

end Cut

end Feed
