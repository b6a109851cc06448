import Mathlib.Data.Fintype.EquivFin
import Mathlib.Data.List.Nodup
import Mathlib.Logic.Relation

/-!
# Forests from parents

Numbered nodes, each with at most one parent among them. A walk starts at the nodes that have none
and goes from each node to the ones whose parent it is; it is named by the positions it takes. Every
node is reached by exactly one walk if and only if no node is its own ancestor.
-/

namespace Forest

/-- The nodes without a parent, in order. -/
def roots (parent : ℕ → Option ℕ) (n : ℕ) : List ℕ :=
  (List.range n).filter fun i => parent i = none

/-- The nodes with this parent, in order. -/
def children (parent : ℕ → Option ℕ) (n j : ℕ) : List ℕ :=
  (List.range n).filter fun i => parent i = some j

/-- A node is reached from the top by taking these positions. -/
inductive Reached (top : List ℕ) (below : ℕ → List ℕ) : List ℕ → ℕ → Prop
  | first {k i : ℕ} (hi : top[k]? = some i) : Reached top below [k] i
  | next {path : List ℕ} {j k i : ℕ} (hj : Reached top below path j)
      (hi : (below j)[k]? = some i) : Reached top below (path ++ [k]) i

/-- Following the parents of a node comes to an end. -/
inductive Rooted (parent : ℕ → Option ℕ) : ℕ → Prop
  | root {i : ℕ} (hi : parent i = none) : Rooted parent i
  | child {i j : ℕ} (hi : parent i = some j) (hj : Rooted parent j) : Rooted parent i

section

variable {parent : ℕ → Option ℕ} {n : ℕ}

theorem mem_roots {i : ℕ} : i ∈ roots parent n ↔ i < n ∧ parent i = none := by
  simp [roots]

theorem mem_children {i j : ℕ} : i ∈ children parent n j ↔ i < n ∧ parent i = some j := by
  simp [children]

theorem nodup_roots : (roots parent n).Nodup := List.nodup_range.filter _

theorem nodup_children {j : ℕ} : (children parent n j).Nodup := List.nodup_range.filter _

theorem sorted_roots : (roots parent n).Pairwise (· < ·) := List.pairwise_lt_range.filter _

theorem sorted_children {j : ℕ} : (children parent n j).Pairwise (· < ·) :=
  List.pairwise_lt_range.filter _

/-- A walk only comes to nodes whose parents come to an end. -/
theorem Reached.rooted {path : List ℕ} {i : ℕ}
    (h : Reached (roots parent n) (children parent n) path i) : i < n ∧ Rooted parent i := by
  induction h with
  | first hi =>
    obtain ⟨hlt, hroot⟩ := mem_roots.mp (List.mem_of_getElem? hi)
    exact ⟨hlt, Rooted.root hroot⟩
  | next hj hi ih =>
    obtain ⟨hlt, hparent⟩ := mem_children.mp (List.mem_of_getElem? hi)
    exact ⟨hlt, Rooted.child hparent ih.2⟩

/-- In a list without repetition an entry has one position. -/
private theorem position_unique {l : List ℕ} (hl : l.Nodup) {k k' i : ℕ} (hk : l[k]? = some i)
    (hk' : l[k']? = some i) : k = k' := by
  obtain ⟨hlt, -⟩ := List.getElem?_eq_some_iff.mp hk
  exact (List.getElem?_inj hlt hl).mp (hk.trans hk'.symm)

/-- Two walks to one node are the same. -/
theorem Reached.unique {path path' : List ℕ} {i : ℕ}
    (h : Reached (roots parent n) (children parent n) path i)
    (h' : Reached (roots parent n) (children parent n) path' i) : path = path' := by
  induction h generalizing path' with
  | first hi =>
    obtain ⟨-, hroot⟩ := mem_roots.mp (List.mem_of_getElem? hi)
    cases h' with
    | first hi' => rw [position_unique nodup_roots hi hi']
    | next hj hi' =>
      have hparent := (mem_children.mp (List.mem_of_getElem? hi')).2
      rw [hroot] at hparent
      cases hparent
  | next hj hi ih =>
    obtain ⟨-, hparent⟩ := mem_children.mp (List.mem_of_getElem? hi)
    cases h' with
    | first hi' =>
      have hroot := (mem_roots.mp (List.mem_of_getElem? hi')).2
      rw [hroot] at hparent
      cases hparent
    | next hj' hi' =>
      have hparent' := (mem_children.mp (List.mem_of_getElem? hi')).2
      obtain rfl := Option.some.inj (hparent.symm.trans hparent')
      rw [ih hj', position_unique nodup_children hi hi']

/-- A node whose parents come to an end is reached. -/
theorem Rooted.reached (hbelow : ∀ i j, parent i = some j → j < n) {i : ℕ} (h : Rooted parent i)
    (hi : i < n) : ∃ path, Reached (roots parent n) (children parent n) path i := by
  induction h with
  | root hroot =>
    obtain ⟨k, hk⟩ := List.mem_iff_getElem?.mp (mem_roots.mpr ⟨hi, hroot⟩)
    exact ⟨[k], Reached.first hk⟩
  | child hparent hj ih =>
    obtain ⟨path, hpath⟩ := ih (hbelow _ _ hparent)
    obtain ⟨k, hk⟩ := List.mem_iff_getElem?.mp (mem_children.mpr ⟨hi, hparent⟩)
    exact ⟨path ++ [k], Reached.next hpath hk⟩

/-- A node is reached exactly once if and only if its parents come to an end. -/
theorem existsUnique_reached_iff (hbelow : ∀ i j, parent i = some j → j < n) {i : ℕ} (hi : i < n) :
    (∃! path, Reached (roots parent n) (children parent n) path i) ↔ Rooted parent i := by
  constructor
  · rintro ⟨path, hpath, -⟩
    exact hpath.rooted.2
  · intro h
    obtain ⟨path, hpath⟩ := h.reached hbelow hi
    exact ⟨path, hpath, fun path' hpath' => hpath'.unique hpath⟩

/-- No node whose parents come to an end is its own ancestor. -/
theorem Rooted.not_cyclic {i : ℕ} (h : Rooted parent i) :
    ¬Relation.TransGen (fun i j => parent i = some j) i i := by
  induction h with
  | root hroot =>
    intro hcycle
    obtain ⟨j, hj, -⟩ := Relation.TransGen.head'_iff.mp hcycle
    rw [hroot] at hj
    cases hj
  | @child i j hparent _ ih =>
    intro hcycle
    obtain ⟨j', hj', hback⟩ := Relation.TransGen.head'_iff.mp hcycle
    obtain rfl := Option.some.inj (hparent.symm.trans hj')
    exact ih (Relation.TransGen.tail' hback hparent)

/-- The parents of all nodes come to an end if and only if none is its own ancestor. -/
theorem rooted_iff_acyclic (hbelow : ∀ i j, parent i = some j → j < n) :
    (∀ i < n, Rooted parent i) ↔
      ¬∃ i < n, Relation.TransGen (fun i j => parent i = some j) i i := by
  constructor
  · rintro h ⟨i, hi, hcycle⟩
    exact (h i hi).not_cyclic hcycle
  · intro hacyclic
    let above : Fin n → Fin n → Prop := fun j i =>
      Relation.TransGen (fun i j => parent i = some j) i.val j.val
    have : IsTrans (Fin n) above := ⟨fun _ _ _ hab hbc => hbc.trans hab⟩
    have : Std.Irrefl above := ⟨fun i hi => hacyclic ⟨i, i.isLt, hi⟩⟩
    have hwf : WellFounded above := Finite.wellFounded_of_trans_of_irrefl above
    suffices hall : ∀ i : Fin n, Rooted parent i.val from fun i hi => hall ⟨i, hi⟩
    intro i
    induction i using hwf.induction with
    | _ i ih =>
      cases hparent : parent i.val with
      | none => exact Rooted.root hparent
      | some j =>
        exact Rooted.child hparent
          (ih ⟨j, hbelow _ _ hparent⟩ (Relation.TransGen.single hparent))

end

end Forest
