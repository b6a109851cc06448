import Mathlib.Data.List.Basic
import Mathlib.Data.List.InsertIdx
import Mathlib.Data.List.Nodup
import Mathlib.Logic.Function.Basic

/-!
# Lists with an index

A list whose items have keys, and beside it an index from keys to positions. An item that is added
goes to the end; one that is removed leaves the later ones a position further to the front, and
they are entered into the index again.
-/

namespace Indexed

variable {κ α : Type*}

/-- Enter items with their positions into an index. -/
def enter [DecidableEq κ] (key : α → κ) (entries : List (α × ℕ)) (index : κ → Option ℕ) :
    κ → Option ℕ :=
  entries.foldl (fun index entry => Function.update index (key entry.1) (some entry.2)) index

/-- Enter the items from a position on. -/
def reindex [DecidableEq κ] (key : α → κ) (items : List α) (start : ℕ)
    (index : κ → Option ℕ) : κ → Option ℕ :=
  enter key (items.zipIdx.drop start) index

/-- The index has the keys of the items, each with its position, and no others. -/
def Indexes (key : α → κ) (items : List α) (index : κ → Option ℕ) : Prop :=
  ∀ k i, index k = some i ↔ (items[i]?).map key = some k

variable {key : α → κ} {items : List α} {index : κ → Option ℕ} {k : κ} {i : ℕ} {a : α}

namespace Indexes

theorem nil : Indexes key [] fun _ => none := by
  intro k i
  simp

/-- A position that the index has is one of the list's. -/
theorem exists_getElem? (h : Indexes key items index) (hk : index k = some i) :
    ∃ a, items[i]? = some a ∧ key a = k :=
  Option.map_eq_some_iff.mp ((h k i).mp hk)

theorem lt_length (h : Indexes key items index) (hk : index k = some i) : i < items.length := by
  obtain ⟨a, ha, -⟩ := h.exists_getElem? hk
  exact (List.getElem?_eq_some_iff.mp ha).1

theorem index_of_getElem? (h : Indexes key items index) (ha : items[i]? = some a) :
    index (key a) = some i :=
  (h (key a) i).mpr (by rw [ha, Option.map_some])

/-- The items have different keys. -/
theorem nodup (h : Indexes key items index) : (items.map key).Nodup := by
  rw [List.nodup_iff_getElem?_ne_getElem?]
  intro i j hij hj heq
  rw [List.length_map] at hj
  have hi : i < items.length := by omega
  rw [List.getElem?_map, List.getElem?_map, List.getElem?_eq_getElem hi,
    List.getElem?_eq_getElem hj, Option.map_some, Option.map_some] at heq
  have hsame := h.index_of_getElem? (List.getElem?_eq_getElem hi)
  rw [Option.some.inj heq, h.index_of_getElem? (List.getElem?_eq_getElem hj)] at hsame
  have := Option.some.inj hsame
  omega

theorem isSome_iff (h : Indexes key items index) : (index k).isSome = true ↔ k ∈ items.map key := by
  rw [Option.isSome_iff_exists, List.mem_iff_getElem?]
  simp only [h k, List.getElem?_map]

theorem eq_none_iff (h : Indexes key items index) : index k = none ↔ k ∉ items.map key := by
  rw [← h.isSome_iff, Option.not_isSome_iff_eq_none]

/-- Items may change as long as their keys stay. -/
theorem of_map_eq {β : Type*} {key' : β → κ} {items' : List β} (h : Indexes key items index)
    (heq : items'.map key' = items.map key) : Indexes key' items' index := by
  intro k i
  rw [h, ← List.getElem?_map, ← List.getElem?_map, heq]

/-- An item may be replaced by one with its key. -/
theorem set (h : Indexes key items index) (hk : index (key a) = some i) :
    Indexes key (items.set i a) index := by
  obtain ⟨b, hb, hkey⟩ := h.exists_getElem? hk
  refine h.of_map_eq (List.ext_getElem? fun j => ?_)
  rw [List.getElem?_map, List.getElem?_map, List.getElem?_set]
  split_ifs with hj hi
  · subst hj
    rw [hb, Option.map_some, Option.map_some, hkey]
  · exact absurd (h.lt_length hk) (hj ▸ hi)
  · rfl

variable [DecidableEq κ]

/-- An item that is added goes to the end. -/
theorem push (h : Indexes key items index) (hnew : index (key a) = none) :
    Indexes key (items ++ [a]) (Function.update index (key a) (some items.length)) := by
  intro k i
  by_cases hk : k = key a
  · subst hk
    rw [Function.update_self, Option.some.injEq, List.getElem?_append]
    split
    next hi =>
      have hother : (items[i]?).map key ≠ some (key a) := by
        rw [Ne, ← h, hnew]
        simp
      simp only [hother, iff_false]
      omega
    next hi =>
      constructor
      · rintro rfl
        simp
      · intro hmap
        have hlast := List.getElem?_eq_some_iff.mp (Option.map_eq_some_iff.mp hmap).choose_spec.1
        have hbound := hlast.1
        rw [List.length_singleton] at hbound
        omega
  · rw [Function.update_of_ne hk, h, List.getElem?_append]
    split
    next => rfl
    next hi =>
      rw [List.getElem?_eq_none (by omega)]
      constructor
      · intro hmap
        cases hmap
      · intro hmap
        obtain ⟨b, hb, rfl⟩ := Option.map_eq_some_iff.mp hmap
        have hmem := List.mem_of_getElem? hb
        rw [List.mem_singleton] at hmem
        exact absurd (congrArg key hmem) hk

/-- What is removed at a key's position is what has the key. -/
theorem eraseIdx_eq_filter (h : Indexes key items index) (hk : index k = some i) :
    items.eraseIdx i = items.filter fun a => key a ≠ k := by
  obtain ⟨a, ha, rfl⟩ := h.exists_getElem? hk
  obtain ⟨hi, hself⟩ := List.getElem?_eq_some_iff.mp ha
  have hsplit := List.take_append_drop i items
  rw [List.drop_eq_getElem_cons hi, hself] at hsplit
  have hnodup := h.nodup
  rw [← hsplit, List.map_append, List.map_cons] at hnodup
  have hnotin := List.nodup_middle.mp hnodup
  have hkeep : ∀ l : List α,
      (∀ b ∈ l, key b ∈ (items.take i).map key ++ (items.drop (i + 1)).map key) →
      l.filter (fun b => key b ≠ key a) = l := by
    intro l hl
    refine List.filter_eq_self.mpr fun b hb => ?_
    have hne : key b ≠ key a := fun heq => (List.nodup_cons.mp hnotin).1 (heq ▸ hl b hb)
    simpa using hne
  rw [List.eraseIdx_eq_take_drop_succ]
  conv_rhs => rw [← hsplit]
  rw [List.filter_append, List.filter_cons, if_neg (by simp), hkeep, hkeep]
  · intro b hb
    exact List.mem_append_right _ (List.mem_map_of_mem hb)
  · intro b hb
    exact List.mem_append_left _ (List.mem_map_of_mem hb)

end Indexes

section Reindex

variable [DecidableEq κ]

theorem enter_of_notMem {entries : List (α × ℕ)} (h : ∀ e ∈ entries, key e.1 ≠ k)
    (index : κ → Option ℕ) : enter key entries index k = index k := by
  induction entries generalizing index with
  | nil => rfl
  | cons e entries ih =>
    rw [enter, List.foldl_cons]
    refine (ih (fun e' he' => h e' (List.mem_cons_of_mem _ he')) _).trans ?_
    exact Function.update_of_ne (h e List.mem_cons_self).symm _ _

/-- Of entries with different keys, each is found. -/
theorem enter_of_mem {entries : List (α × ℕ)} (hnodup : (entries.map fun e => key e.1).Nodup)
    {e : α × ℕ} (he : e ∈ entries) (index : κ → Option ℕ) :
    enter key entries index (key e.1) = some e.2 := by
  induction entries generalizing index with
  | nil => cases he
  | cons first entries ih =>
    obtain ⟨hnotin, hrest⟩ := List.nodup_cons.mp hnodup
    rw [enter, List.foldl_cons]
    rcases List.mem_cons.mp he with rfl | he
    · refine (enter_of_notMem (fun e' he' heq => hnotin ?_) _).trans (Function.update_self _ _ _)
      exact List.mem_map.mpr ⟨e', he', heq⟩
    · exact ih hrest he _

/-- An item that is removed leaves the later ones a position further to the front. -/
theorem Indexes.erase (h : Indexes key items index) (hk : index k = some i) :
    Indexes key (items.eraseIdx i)
      (reindex key (items.eraseIdx i) i (Function.update index k none)) := by
  obtain ⟨a, ha, rfl⟩ := h.exists_getElem? hk
  have hnodup : ((items.eraseIdx i).map key).Nodup := by
    rw [← List.eraseIdx_map]
    exact h.nodup.sublist (List.eraseIdx_sublist _ _)
  have hentries : (((items.eraseIdx i).zipIdx.drop i).map fun e => key e.1).Nodup := by
    refine (List.Sublist.map _ (List.drop_sublist _ _)).nodup ?_
    have hfst : ((items.eraseIdx i).zipIdx.map fun e => key e.1) = (items.eraseIdx i).map key := by
      rw [← Function.comp_def key Prod.fst, ← List.map_map, List.zipIdx_map_fst]
    rwa [hfst]
  have hentry : ∀ j b, (items.eraseIdx i)[j]? = some b → i ≤ j →
      (b, j) ∈ (items.eraseIdx i).zipIdx.drop i := by
    intro j b hb hij
    refine List.mem_iff_getElem?.mpr ⟨j - i, ?_⟩
    rw [List.getElem?_drop, Nat.add_sub_cancel' hij, List.getElem?_zipIdx, hb]
    simp
  have hposition : ∀ b j, (b, j) ∈ (items.eraseIdx i).zipIdx.drop i →
      (items.eraseIdx i)[j]? = some b ∧ i ≤ j := by
    intro b j hmem
    obtain ⟨n, hn⟩ := List.mem_iff_getElem?.mp hmem
    rw [List.getElem?_drop, List.getElem?_zipIdx, Option.map_eq_some_iff] at hn
    obtain ⟨c, hc, heq⟩ := hn
    obtain ⟨rfl, rfl⟩ := Prod.mk.inj heq
    rw [Nat.zero_add]
    exact ⟨hc, Nat.le_add_right i n⟩
  intro k' j
  by_cases hlater : ∃ b j', (b, j') ∈ (items.eraseIdx i).zipIdx.drop i ∧ key b = k'
  · -- What comes after the hole is entered again.
    obtain ⟨b, j', hmem, rfl⟩ := hlater
    obtain ⟨hb, hij⟩ := hposition b j' hmem
    rw [reindex, enter_of_mem hentries hmem, Option.some.injEq]
    constructor
    · rintro rfl
      rw [hb, Option.map_some]
    · intro hj
      rw [← List.getElem?_map] at hj
      have hj' : ((items.eraseIdx i).map key)[j']? = some (key b) := by
        rw [List.getElem?_map, hb, Option.map_some]
      exact (List.getElem?_inj (List.getElem?_eq_some_iff.mp hj').1 hnodup).mp (hj'.trans hj.symm)
  · -- What comes before it keeps its position.
    have hnone : ∀ e ∈ (items.eraseIdx i).zipIdx.drop i, key e.1 ≠ k' :=
      fun e he heq => hlater ⟨e.1, e.2, he, heq⟩
    rw [reindex, enter_of_notMem hnone]
    have hbefore : ∀ m, ((items.eraseIdx i)[m]?).map key = some k' → m < i := by
      intro m hm
      obtain ⟨b, hb, hkey⟩ := Option.map_eq_some_iff.mp hm
      by_contra hnot
      exact hnone (b, m) (hentry m b hb (by omega)) hkey
    by_cases hself : k' = key a
    · subst hself
      rw [Function.update_self]
      refine iff_of_false (by simp) fun hj => ?_
      have hlt := hbefore j hj
      rw [List.getElem?_eraseIdx, if_pos hlt, ← h, hk] at hj
      exact absurd (Option.some.inj hj) (by omega)
    · rw [Function.update_of_ne hself, h, List.getElem?_eraseIdx]
      split
      next => rfl
      next hij =>
        refine iff_of_false (fun hj => ?_) fun hj => ?_
        · have hne : j ≠ i := by
            rintro rfl
            rw [ha, Option.map_some, Option.some.injEq] at hj
            exact hself hj.symm
          have hprev := hbefore (j - 1) (by
            rw [List.getElem?_eraseIdx, if_neg (by omega), Nat.sub_add_cancel (by omega)]
            exact hj)
          omega
        · have hlt := hbefore j (by rw [List.getElem?_eraseIdx, if_neg hij]; exact hj)
          omega

end Reindex

end Indexed
