import Mathlib.Data.List.Nodup
import Mathlib.Data.Nat.Find
import Mathlib.Logic.Function.Iterate

/-!
# Rounds

Steps around a list: an item's successor stands behind the place where the item first stands, its
predecessor before it. Where items are repeated the steps may run in a part of the list only. They
go through all of it, forwards and backwards, exactly if the list is regular.
-/

namespace Round

variable {α : Type*} {xs : List α} {x y : α} {f g : α → α} {i j m : ℕ}

/-- Steps from an item come by every other one, and back to it. -/
def Covers (f : α → α) (xs : List α) (x : α) : Prop :=
  ∃ p, 0 < p ∧ f^[p] x = x ∧ ∀ y ∈ xs, ∃ k < p, f^[k] x = y

section Covering

theorem iterate_mem (hf : ∀ y ∈ xs, f y ∈ xs) (hx : x ∈ xs) (k : ℕ) : f^[k] x ∈ xs := by
  induction k with
  | zero => exact hx
  | succ k ih =>
    rw [Function.iterate_succ_apply']
    exact hf _ ih

/-- Every item is a step from another. -/
theorem Covers.exists_pred (h : Covers f xs x) (hf : ∀ y ∈ xs, f y ∈ xs) (hx : x ∈ xs)
    (hy : y ∈ xs) : ∃ z ∈ xs, f z = y := by
  obtain ⟨p, hp, hperiod, hall⟩ := h
  obtain ⟨k, -, rfl⟩ := hall y hy
  have hback : f^[k] x = f^[k + p] x := by rw [Function.iterate_add_apply, hperiod]
  obtain ⟨n, hn⟩ : ∃ n, k + p = n + 1 := Nat.exists_eq_add_one.mpr (by omega)
  refine ⟨f^[n] x, iterate_mem hf hx n, ?_⟩
  rw [hback, hn, Function.iterate_succ_apply']

/-- Items that steps do not leave are all items, if one of them is among them. -/
theorem Covers.subset (h : Covers f xs x) {P : α → Prop} (hclosed : ∀ y, P y → P (f y)) {z : α}
    (hz : z ∈ xs) (hstart : P z) : ∀ y ∈ xs, P y := by
  obtain ⟨p, hp, hperiod, hall⟩ := h
  obtain ⟨k, hk, rfl⟩ := hall z hz
  have hlater : ∀ n, P (f^[n] (f^[k] x)) := by
    intro n
    induction n with
    | zero => exact hstart
    | succ n ih =>
      rw [Function.iterate_succ_apply']
      exact hclosed _ ih
  intro y hy
  obtain ⟨l, -, rfl⟩ := hall y hy
  have hround := hlater (l + p - k)
  rwa [← Function.iterate_add_apply, Nat.sub_add_cancel (by omega), Function.iterate_add_apply,
    hperiod] at hround

/-- Steps back come by every item if the steps that they take back do. -/
theorem Covers.inverse (h : Covers f xs x) (hback : ∀ k, g (f^[k + 1] x) = f^[k] x) :
    Covers g xs x := by
  obtain ⟨p, hp, hperiod, hall⟩ := h
  have hstep : ∀ k ≤ p, g^[k] x = f^[p - k] x := by
    intro k
    induction k with
    | zero => exact fun _ => hperiod.symm
    | succ k ih =>
      intro hk
      rw [Function.iterate_succ_apply', ih (by omega), ← hback (p - (k + 1))]
      congr 2
      omega
  refine ⟨p, hp, ?_, fun y hy => ?_⟩
  · rw [hstep p (Nat.le_refl p), Nat.sub_self, Function.iterate_zero_apply]
  · obtain ⟨k, hk, rfl⟩ := hall y hy
    cases k with
    | zero => exact ⟨0, hp, rfl⟩
    | succ k =>
      refine ⟨p - (k + 1), by omega, ?_⟩
      rw [hstep _ (Nat.sub_le _ _)]
      congr 1
      omega

end Covering

theorem exists_index (h : y ∈ xs.take m) : ∃ i < m, xs[i]? = some y := by
  obtain ⟨i, hi⟩ := List.mem_iff_getElem?.mp h
  have hlt : i < m := by
    by_contra hge
    rw [List.getElem?_take, if_neg hge] at hi
    cases hi
  exact ⟨i, hlt, by rwa [List.getElem?_take_of_lt hlt] at hi⟩

variable [BEq α]

/-- The item behind the place where this one first is, around the list. -/
def forward (xs : List α) (x : α) : α := (xs[(xs.idxOf x + 1) % xs.length]?).getD x

/-- The item before that place. -/
def backward (xs : List α) (x : α) : α :=
  (xs[(xs.idxOf x + xs.length - 1) % xs.length]?).getD x

/-- The first so many items are distinct, and there are no others. The first one follows them if
anything does, and the last item is the last of them. -/
structure RegularAt (xs : List α) (m : ℕ) : Prop where
  pos : 0 < m
  le : m ≤ xs.length
  nodup : (xs.take m).Nodup
  subset : xs ⊆ xs.take m
  next : xs[m % xs.length]? = xs[0]?
  last : xs[xs.length - 1]? = xs[m - 1]?

/-- Repeated items make no difference to steps. -/
def Regular (xs : List α) : Prop := ∃ m, RegularAt xs m

section Indexed

theorem idxOf_of_nodup [LawfulBEq α] (hnodup : (xs.take m).Nodup) (hi : i < m)
    (hx : xs[i]? = some x) :
    xs.idxOf x = i := by
  have htake : (xs.take m)[i]? = some x := by rw [List.getElem?_take_of_lt hi, hx]
  obtain ⟨hlt, rfl⟩ := List.getElem?_eq_some_iff.mp htake
  have hindex := hnodup.idxOf_getElem i hlt
  calc xs.idxOf (xs.take m)[i] = (xs.take m ++ xs.drop m).idxOf (xs.take m)[i] := by
        rw [List.take_append_drop]
    _ = (xs.take m).idxOf (xs.take m)[i] := List.idxOf_append_of_mem (List.getElem_mem hlt)
    _ = i := hindex

theorem forward_eq (hindex : xs.idxOf x = i) (hy : xs[(i + 1) % xs.length]? = some y) :
    forward xs x = y := by
  rw [forward, hindex, hy, Option.getD_some]

theorem backward_eq (hindex : xs.idxOf x = i) (hy : xs[(i + xs.length - 1) % xs.length]? = some y) :
    backward xs x = y := by
  rw [backward, hindex, hy, Option.getD_some]

theorem forward_mem (hx : x ∈ xs) : forward xs x ∈ xs := by
  have hlt := Nat.mod_lt (xs.idxOf x + 1) (List.length_pos_of_mem hx)
  rw [forward, List.getElem?_eq_getElem hlt, Option.getD_some]
  exact List.getElem_mem hlt

theorem backward_mem (hx : x ∈ xs) : backward xs x ∈ xs := by
  have hlt := Nat.mod_lt (xs.idxOf x + xs.length - 1) (List.length_pos_of_mem hx)
  rw [backward, List.getElem?_eq_getElem hlt, Option.getD_some]
  exact List.getElem_mem hlt

end Indexed

section Regular

variable [LawfulBEq α]

/-- What is behind an item of a regular list, and where that first is. -/
theorem RegularAt.forward (h : RegularAt xs m) (hi : i < m) (hx : xs[i]? = some x) :
    xs[(i + 1) % m]? = some (forward xs x) := by
  have hnext : xs[(i + 1) % m]? = xs[(i + 1) % xs.length]? := by
    by_cases hlast : i + 1 = m
    · rw [hlast, Nat.mod_self, h.next]
    · have hle := h.le
      rw [Nat.mod_eq_of_lt (by omega), Nat.mod_eq_of_lt (by omega)]
  have hlt : (i + 1) % m < xs.length := Nat.lt_of_lt_of_le (Nat.mod_lt _ h.pos) h.le
  rw [List.getElem?_eq_getElem hlt] at hnext ⊢
  rw [forward_eq (idxOf_of_nodup h.nodup hi hx) hnext.symm]

theorem RegularAt.iterate_forward (h : RegularAt xs m) (hi : i < m) (hx : xs[i]? = some x)
    (k : ℕ) : xs[(i + k) % m]? = some ((Round.forward xs)^[k] x) := by
  induction k with
  | zero => rwa [Nat.add_zero, Nat.mod_eq_of_lt hi]
  | succ k ih =>
    have hstep := h.forward (Nat.mod_lt (i + k) h.pos) ih
    rwa [Nat.mod_add_mod, ← Function.iterate_succ_apply' (f := Round.forward xs)] at hstep

/-- Steps forward in a regular list come by every item. -/
theorem RegularAt.covers_forward (h : RegularAt xs m) (hx : x ∈ xs) :
    Covers (Round.forward xs) xs x := by
  obtain ⟨i, hi, hxi⟩ := exists_index (h.subset hx)
  refine ⟨m, h.pos, ?_, fun y hy => ?_⟩
  · have hround := h.iterate_forward hi hxi m
    rw [Nat.add_mod_right, Nat.mod_eq_of_lt hi, hxi] at hround
    exact (Option.some.inj hround).symm
  · obtain ⟨j, hj, hyj⟩ := exists_index (h.subset hy)
    refine ⟨(j + m - i) % m, Nat.mod_lt _ h.pos, ?_⟩
    have hround := h.iterate_forward hi hxi ((j + m - i) % m)
    rw [Nat.add_mod_mod, show i + (j + m - i) = j + m by omega, Nat.add_mod_right,
      Nat.mod_eq_of_lt hj, hyj] at hround
    exact (Option.some.inj hround).symm

/-- A step back takes a step forward back. -/
theorem RegularAt.backward_forward (h : RegularAt xs m) (hx : x ∈ xs) :
    backward xs (Round.forward xs x) = x := by
  obtain ⟨i, hi, hxi⟩ := exists_index (h.subset hx)
  have hforward := h.forward hi hxi
  have hindex := idxOf_of_nodup h.nodup (Nat.mod_lt _ h.pos) hforward
  refine backward_eq hindex ?_
  have hle := h.le
  by_cases hlast : i + 1 = m
  · rw [hlast, Nat.mod_self, Nat.zero_add, Nat.mod_eq_of_lt (by omega), h.last,
      show m - 1 = i by omega, hxi]
  · have hsmall : (i + 1) % m = i + 1 := Nat.mod_eq_of_lt (by omega)
    rw [hsmall, show i + 1 + xs.length - 1 = i + xs.length by omega, Nat.add_mod_right,
      Nat.mod_eq_of_lt (by omega), hxi]

theorem RegularAt.covers_backward (h : RegularAt xs m) (hx : x ∈ xs) :
    Covers (backward xs) xs x :=
  (h.covers_forward hx).inverse fun k => by
    rw [Function.iterate_succ_apply']
    exact h.backward_forward (iterate_mem (fun _ => forward_mem) hx k)

/-- What stands after the longest start without repeated items, if anything, stands in it. -/
theorem exists_longest (hne : xs ≠ []) : ∃ m, 0 < m ∧ m ≤ xs.length ∧ (xs.take m).Nodup ∧
    ∀ hlt : m < xs.length, xs[m] ∈ xs.take m := by
  classical
  have hlength := List.length_pos_iff.mpr hne
  have hone : (xs.take 1).Nodup := by
    rw [List.take_one]
    cases xs.head? with
    | none => exact List.nodup_nil
    | some x => exact List.nodup_singleton x
  have hspec := Nat.findGreatest_spec (P := fun m => (xs.take m).Nodup)
    (Nat.one_le_iff_ne_zero.mpr (Nat.ne_of_gt hlength)) hone
  have hpos := Nat.le_findGreatest (P := fun m => (xs.take m).Nodup)
    (Nat.one_le_iff_ne_zero.mpr (Nat.ne_of_gt hlength)) hone
  refine ⟨_, hpos, Nat.findGreatest_le xs.length, hspec, fun hlt => ?_⟩
  by_contra hnot
  refine Nat.findGreatest_is_greatest (Nat.lt_succ_self _) hlt ?_
  rw [List.take_succ_eq_append_getElem hlt, List.nodup_append]
  refine ⟨hspec, List.nodup_singleton _, fun a ha b hb => ?_⟩
  rw [List.mem_singleton] at hb
  rintro rfl
  exact hnot (hb ▸ ha)

/-- A list that steps in both directions come by all of is regular. -/
theorem regular_of_covers (hx : x ∈ xs) (hforward : Covers (forward xs) xs x)
    (hbackward : Covers (backward xs) xs x) : Regular xs := by
  obtain ⟨m, hpos, hle, hnodup, hrepeated⟩ := exists_longest (List.ne_nil_of_mem hx)
  have hindex : ∀ i (hi : i < m), xs.idxOf xs[i] = i := fun i hi =>
    idxOf_of_nodup hnodup hi (List.getElem?_eq_getElem (by omega))
  have hinj : ∀ i j (hi : i < m) (hj : j < m), xs[i] = xs[j] → i = j := by
    intro i j hi hj heq
    rw [← hindex i hi, heq, hindex j hj]
  have hlast : xs ⊆ xs.take m → xs[xs.length - 1]? = xs[m - 1]? := by
    intro hsub
    obtain ⟨z, hz, hback⟩ := hbackward.exists_pred (fun _ => backward_mem) hx
      (List.getElem_mem (by omega : m - 1 < xs.length))
    obtain ⟨i, hi, hzi⟩ := exists_index (hsub hz)
    obtain ⟨hlt, rfl⟩ := List.getElem?_eq_some_iff.mp hzi
    cases i with
    | zero =>
      have hmod : (0 + xs.length - 1) % xs.length = xs.length - 1 := by
        rw [Nat.zero_add, Nat.mod_eq_of_lt (by omega)]
      rw [backward, hindex 0 hi, hmod, List.getElem?_eq_getElem (by omega),
        Option.getD_some] at hback
      rw [List.getElem?_eq_getElem (by omega), List.getElem?_eq_getElem (by omega), hback]
    | succ i =>
      have hmod : (i + 1 + xs.length - 1) % xs.length = i := by
        rw [show i + 1 + xs.length - 1 = i + xs.length by omega, Nat.add_mod_right,
          Nat.mod_eq_of_lt (by omega)]
      rw [backward, hindex (i + 1) hi, hmod, List.getElem?_eq_getElem (by omega),
        Option.getD_some] at hback
      have hsame := hinj i (m - 1) (by omega) (by omega) hback
      omega
  rcases Nat.lt_or_ge m xs.length with hlt | hge
  · have hstep : ∀ i (hi : i < m), forward xs xs[i] = xs[i + 1] := by
      intro i hi
      rw [forward, hindex i hi, Nat.mod_eq_of_lt (by omega),
        List.getElem?_eq_getElem (by omega : i + 1 < xs.length), Option.getD_some]
    have hclosed : ∀ y, y ∈ xs.take m → forward xs y ∈ xs.take m := by
      intro y hy
      obtain ⟨i, hi, hyi⟩ := exists_index hy
      obtain ⟨hilt, rfl⟩ := List.getElem?_eq_some_iff.mp hyi
      rw [hstep i hi]
      by_cases hend : i + 1 = m
      · subst hend
        exact hrepeated hlt
      · exact List.mem_take_iff_getElem.mpr ⟨i + 1, by omega, rfl⟩
    have hsubset : xs ⊆ xs.take m := by
      refine fun y hy =>
        hforward.subset hclosed (List.getElem_mem (by omega : 0 < xs.length)) ?_ y hy
      exact List.mem_take_iff_getElem.mpr ⟨0, by omega, rfl⟩
    have hnext : xs[m] = xs[0] := by
      obtain ⟨z, hz, hz0⟩ := hforward.exists_pred (fun _ => forward_mem) hx
        (List.getElem_mem (by omega : 0 < xs.length))
      obtain ⟨i, hi, hzi⟩ := exists_index (hsubset hz)
      obtain ⟨hilt, rfl⟩ := List.getElem?_eq_some_iff.mp hzi
      rw [hstep i hi] at hz0
      by_cases hend : i + 1 = m
      · subst hend
        exact hz0
      · exact absurd (hinj (i + 1) 0 (by omega) hpos hz0) (Nat.succ_ne_zero i)
    refine ⟨m, hpos, hle, hnodup, hsubset, ?_, hlast hsubset⟩
    rw [Nat.mod_eq_of_lt hlt, List.getElem?_eq_getElem hlt,
      List.getElem?_eq_getElem (by omega : 0 < xs.length), hnext]
  · obtain rfl : m = xs.length := by omega
    have hsubset : xs ⊆ xs.take xs.length := by rw [List.take_length]; exact fun _ => id
    exact ⟨xs.length, hpos, hle, hnodup, hsubset, by rw [Nat.mod_self], rfl⟩

/-- Steps in both directions come by every item exactly if the list is regular. -/
theorem covers_iff (hx : x ∈ xs) :
    Covers (forward xs) xs x ∧ Covers (backward xs) xs x ↔ Regular xs := by
  constructor
  · rintro ⟨hforward, hbackward⟩
    exact regular_of_covers hx hforward hbackward
  · rintro ⟨m, hm⟩
    exact ⟨hm.covers_forward hx, hm.covers_backward hx⟩

end Regular

end Round
