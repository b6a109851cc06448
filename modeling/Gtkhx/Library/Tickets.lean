import Mathlib.Data.List.Nodup
import Mathlib.Data.List.Perm.Basic
import Mathlib.Data.List.Range

/-!
# Tickets

Jobs are numbered as they come in, and lie in a table, each under a key, until they are done.
A job can be put under another key any number of times. Every number given out is done with
once, or lies in the table once.
-/

namespace Tickets

variable {κ ν : Type*}

section
variable [DecidableEq κ]

/-- What lies under a key. -/
def find (k : κ) (table : List (κ × ν)) : Option ν :=
  (table.find? fun entry => entry.1 = k).map Prod.snd

/-- Nothing lies under a key any more. -/
def cut (k : κ) (table : List (κ × ν)) : List (κ × ν) := table.filter fun entry => entry.1 ≠ k

/-- Something is put under a key. -/
def put (k : κ) (v : ν) (table : List (κ × ν)) : List (κ × ν) := cut k table ++ [(k, v)]

end

/-- Every number below `issued` is done, or in the table, and only once; no key is twice. -/
structure Kept (number : ν → ℕ) (issued : ℕ) (done : List ℕ) (table : List (κ × ν)) : Prop where
  keys : (table.map Prod.fst).Nodup
  all : (done ++ table.map fun entry => number entry.2).Perm (List.range issued)

variable {number : ν → ℕ} {issued : ℕ} {done : List ℕ} {table : List (κ × ν)} {k : κ} {v : ν}

theorem Kept.start : Kept number 0 [] ([] : List (κ × ν)) :=
  ⟨List.nodup_nil, List.Perm.refl _⟩

theorem Kept.once (h : Kept number issued done table) : done.Nodup :=
  (List.nodup_append.mp (h.all.nodup_iff.mpr List.nodup_range)).1

theorem Kept.lt (h : Kept number issued done table) (hmem : (k, v) ∈ table) :
    number v < issued :=
  List.mem_range.mp (h.all.mem_iff.mp (List.mem_append_right _ (List.mem_map_of_mem hmem)))

theorem Kept.perm {done' : List ℕ} (h : Kept number issued done table)
    (hperm : done'.Perm done) : Kept number issued done' table :=
  ⟨h.keys, (hperm.append_right _).trans h.all⟩

/-- A number is given out, and taken for done. -/
theorem Kept.issue (h : Kept number issued done table) :
    Kept number (issued + 1) (done ++ [issued]) table where
  keys := h.keys
  all := by
    rw [List.range_succ, List.append_assoc]
    refine (List.perm_append_comm.append_left done).trans ?_
    rw [← List.append_assoc]
    exact h.all.append_right [issued]

/-- Some jobs of the table are done. -/
theorem Kept.sweep (h : Kept number issued done table) (p : κ × ν → Bool) :
    Kept number issued (done ++ (table.filter p).map fun entry => number entry.2)
      (table.filter fun entry => !p entry) where
  keys := h.keys.sublist (List.filter_sublist.map _)
  all := by
    refine List.Perm.trans ?_ h.all
    rw [List.append_assoc, ← List.map_append]
    exact ((List.filter_append_perm p table).map _).append_left done

variable [DecidableEq κ]

theorem find_filter (p : κ → Bool) (k : κ) (table : List (κ × ν)) :
    find k (table.filter fun entry => p entry.1) = if p k then find k table else none := by
  unfold find
  rw [List.find?_filter]
  split
  next hp =>
    have hsame : (fun entry : κ × ν => decide (p entry.1 = true ∧ decide (entry.1 = k) = true)) =
        fun entry => decide (entry.1 = k) := by
      funext entry
      by_cases hkey : entry.1 = k <;> simp [hkey, hp]
    rw [hsame]
  next hp =>
    rw [Option.map_eq_none_iff, List.find?_eq_none]
    intro entry _ hfound
    obtain ⟨hpe, hkey⟩ := of_decide_eq_true hfound
    exact hp (of_decide_eq_true hkey ▸ hpe)

theorem find_cut (k k' : κ) (table : List (κ × ν)) :
    find k' (cut k table) = if k' = k then none else find k' table := by
  rw [cut, find_filter fun key => decide (key ≠ k)]
  by_cases hkey : k' = k <;> simp [hkey]

theorem find_put (k k' : κ) (v : ν) (table : List (κ × ν)) :
    find k' (put k v table) = if k' = k then some v else find k' table := by
  have happend : find k' (put k v table) = (find k' (cut k table)).or (find k' [(k, v)]) := by
    unfold find put
    rw [List.find?_append, Option.map_or]
  rw [happend, find_cut]
  by_cases hkey : k' = k
  · subst k'
    simp [find]
  · simp [hkey, find, Ne.symm hkey]

/-- No job lies under a key under which nothing is found. -/
theorem free_of_find (h : find k table = none) : ∀ entry ∈ table, entry.1 ≠ k := by
  intro entry hmem hkey
  rw [find, Option.map_eq_none_iff, List.find?_eq_none] at h
  exact h entry hmem (by simpa using hkey)

theorem free_cut (k : κ) (table : List (κ × ν)) : ∀ entry ∈ cut k table, entry.1 ≠ k :=
  fun _ hmem => by simpa using (List.mem_filter.mp hmem).2

theorem mem_of_find (h : find k table = some v) : (k, v) ∈ table := by
  obtain ⟨⟨k', v'⟩, hfind, rfl⟩ := Option.map_eq_some_iff.mp h
  have hkey : k' = k := by simpa using List.find?_some hfind
  exact hkey ▸ List.mem_of_find?_eq_some hfind

theorem mem_cut {entry : κ × ν} : entry ∈ cut k table ↔ entry ∈ table ∧ entry.1 ≠ k := by
  simp [cut]

theorem mem_put {entry : κ × ν} :
    entry ∈ put k v table ↔ entry ∈ table ∧ entry.1 ≠ k ∨ entry = (k, v) := by
  simp [put, cut]

theorem cut_of_free (hfree : ∀ entry ∈ table, entry.1 ≠ k) : cut k table = table :=
  List.filter_eq_self.mpr fun entry hmem => by simpa using hfree entry hmem

/-- The table with one job apart. -/
theorem Kept.perm_cut (h : Kept number issued done table) (hfind : find k table = some v) :
    table.Perm ((k, v) :: cut k table) := by
  have hperm := (List.filter_append_perm (fun entry => decide (entry.1 = k)) table).symm
  have hrest : (table.filter fun entry => !decide (entry.1 = k)) = cut k table :=
    List.filter_congr fun entry _ => by simp
  have hone : (table.filter fun entry => decide (entry.1 = k)) = [(k, v)] := by
    have hnodup : (table.filter fun entry => decide (entry.1 = k)).Nodup :=
      (List.Nodup.of_map _ h.keys).filter _
    refine (List.perm_singleton.mp ?_)
    refine (List.perm_ext_iff_of_nodup hnodup (List.nodup_singleton _)).mpr fun entry => ?_
    rw [List.mem_filter, List.mem_singleton, decide_eq_true_iff]
    constructor
    · rintro ⟨hmem, hkey⟩
      exact List.inj_on_of_nodup_map h.keys hmem (mem_of_find hfind) hkey
    · rintro rfl
      exact ⟨mem_of_find hfind, rfl⟩
  rwa [hone, hrest] at hperm

/-- A job is done. -/
theorem Kept.finish (h : Kept number issued done table) (hfind : find k table = some v) :
    Kept number issued (done ++ [number v]) (cut k table) where
  keys := h.keys.sublist (List.filter_sublist.map _)
  all := by
    refine List.Perm.trans ?_ h.all
    rw [List.append_assoc]
    exact ((h.perm_cut hfind).symm.map fun entry => number entry.2).append_left done

/-- What was taken for done is put under a free key. -/
theorem Kept.reopen (h : Kept number issued (done ++ [number v]) table)
    (hfree : ∀ entry ∈ table, entry.1 ≠ k) : Kept number issued done (put k v table) where
  keys := by
    rw [put, cut_of_free hfree, List.map_append, List.nodup_append]
    refine ⟨h.keys, List.nodup_singleton _, ?_⟩
    rintro a ha b hb rfl
    obtain ⟨entry, hmem, rfl⟩ := List.mem_map.mp ha
    exact hfree entry hmem (List.mem_singleton.mp hb)
  all := by
    refine List.Perm.trans ?_ h.all
    rw [put, cut_of_free hfree, List.map_append, List.append_assoc]
    exact List.perm_append_comm.append_left done

end Tickets
