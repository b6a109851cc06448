import Gtkhx.Library.Forest
import Mathlib.Algebra.Group.Nat.Defs
import Mathlib.Data.Int.Notation

/-!
# The threads of a news category

A category's posts as the server lists them, the parent each is threaded under, and the tree that
is built of them: which posts the browser then shows, and in which order.
-/

namespace Gtkhx.News

/-- A post's own id and its parent's, 0 for none. -/
structure PostLink where
  postid : UInt32
  parentid : UInt32
  deriving DecidableEq

/-- The parent of a top-level post. -/
def TOP_LEVEL : ℤ := -1

/-- The low 32 bits of a number, signed. -/
def asI32 (n : ℕ) : ℤ := (n : ℤ).bmod (2 ^ 32)

/-- The position of each post id: the last one's. -/
def byPostid (posts : List PostLink) : UInt32 → Option ℕ :=
  posts.zipIdx.foldl (fun found p => Function.update found p.1.postid (some p.2)) fun _ => none

/-- A post's parent's position, or `TOP_LEVEL`. -/
def parentIndex (posts : List PostLink) (p : PostLink) (i : ℕ) : ℤ :=
  if p.parentid = 0 then TOP_LEVEL
  else
    match byPostid posts p.parentid with
    | some parent => if parent ≠ i then asI32 parent else TOP_LEVEL
    | none => TOP_LEVEL

/-- For each post its parent's position, or `TOP_LEVEL`. -/
def threadParentIndices (posts : List PostLink) : List ℤ :=
  posts.zipIdx.map fun p => parentIndex posts p.1 p.2

/-- The date of a post. -/
structure NewsDate where
  baseYear : UInt16
  pad : UInt16
  seconds : UInt32
  deriving DecidableEq

/-- A post as the tree is built of it. -/
structure CorePost where
  postid : UInt32
  parentid : UInt32
  subject : List UInt8
  sender : List UInt8
  mimeType : List UInt8
  noText : Bool
  pictures : List (List UInt8)
  date : NewsDate
  deriving DecidableEq

/-- The kind of a row that is a post. -/
def NB_KIND_POST : ℤ := 3

/-- A row of the browser. The rows below it are given by their positions, and there are none
without a store for them. -/
structure NewsNode where
  kind : ℤ
  name : List UInt8
  path : Option (List UInt8)
  children : Option (List ℕ)
  postid : UInt32
  sender : List UInt8
  mimeType : List UInt8
  date : NewsDate
  body : Option (List UInt8)
  pictures : List (List UInt8)
  deriving DecidableEq

/-- The row of a post, with nothing below it yet. -/
def newNode (path : Option (List UInt8)) (p : CorePost) : NewsNode where
  kind := NB_KIND_POST
  name := p.subject
  path := path
  children := none
  postid := p.postid
  sender := p.sender
  mimeType := p.mimeType
  date := p.date
  body := if p.noText then some [] else none
  pictures := p.pictures

/-- The rows of a category, and the ones put into its own store, in order. -/
structure Category where
  nodes : List NewsNode
  dest : List ℕ

namespace Category

/-- The rows below a row, in order. -/
def below (c : Category) (i : ℕ) : List ℕ := ((c.nodes[i]?).bind NewsNode.children).getD []

/-- A row goes below another one. -/
def append (c : Category) (parent i : ℕ) : Category :=
  { c with
    nodes := c.nodes.modify parent fun n =>
      { n with children := some (n.children.getD [] ++ [i]) } }

/-- A row goes below its parent, or waits to be put into the category's store. -/
def thread (count : ℕ) (s : Category × List ℕ) (p : ℤ × ℕ) : Category × List ℕ :=
  if 0 ≤ p.1 ∧ p.1.toNat < count then (s.1.append p.1.toNat p.2, s.2) else (s.1, s.2 ++ [p.2])

end Category

def CorePost.link (p : CorePost) : PostLink := ⟨p.postid, p.parentid⟩

/-- `build_category_tree_core`. -/
def buildCategoryTree (path : Option (List UInt8)) (posts : List CorePost) : Category :=
  let s := (threadParentIndices (posts.map CorePost.link)).zipIdx.foldl
    (Category.thread posts.length) (⟨posts.map (newNode path), []⟩, [])
  { s.1 with dest := s.1.dest ++ s.2 }

/-- The last post with this id is at this position. -/
structure LastAt (posts : List PostLink) (id : UInt32) (k : ℕ) : Prop where
  here : ∃ p, posts[k]? = some p ∧ p.postid = id
  last : ∀ m p, k < m → posts[m]? = some p → p.postid ≠ id

/-- A post answers the one its parent id names, which is the last with that id, unless it is itself
that one. -/
def Answers (posts : List PostLink) (i j : ℕ) : Prop :=
  ∃ p k, posts[i]? = some p ∧ p.parentid ≠ 0 ∧ LastAt posts p.parentid k ∧ k ≠ i ∧
    asI32 k = j ∧ j < posts.length

/-- The parent a list of parents gives a post, among so many. -/
def parentAt (parents : List ℤ) (count i : ℕ) : Option ℕ :=
  match parents[i]? with
  | some parent => if 0 ≤ parent ∧ parent.toNat < count then some parent.toNat else none
  | none => none

section Parents

variable {posts : List PostLink}

private theorem byPostid_snoc (p : PostLink) (id : UInt32) :
    byPostid (posts ++ [p]) id =
      if id = p.postid then some posts.length else byPostid posts id := by
  simp only [byPostid, List.zipIdx_append, List.foldl_append, List.zipIdx_cons, List.zipIdx_nil,
    List.foldl_cons, List.foldl_nil, Nat.zero_add, Function.update_apply]

private theorem lastAt_snoc (p : PostLink) (id : UInt32) (k : ℕ) :
    LastAt (posts ++ [p]) id k ↔
      if id = p.postid then k = posts.length else LastAt posts id k := by
  split_ifs with hid
  · constructor
    · rintro ⟨⟨q, hq, -⟩, hlast⟩
      have hlt : k < (posts ++ [p]).length := (List.getElem?_eq_some_iff.mp hq).1
      have hnot := mt (fun hk => hlast posts.length p hk List.getElem?_concat_length)
      rw [List.length_append, List.length_singleton] at hlt
      have := hnot (fun h => h hid.symm)
      omega
    · rintro rfl
      refine ⟨⟨p, List.getElem?_concat_length, hid.symm⟩, fun m q hm hq => ?_⟩
      have hlt : m < (posts ++ [p]).length := (List.getElem?_eq_some_iff.mp hq).1
      rw [List.length_append, List.length_singleton] at hlt
      omega
  · constructor
    · rintro ⟨⟨q, hq, hqid⟩, hlast⟩
      have hlt : k < (posts ++ [p]).length := (List.getElem?_eq_some_iff.mp hq).1
      rw [List.length_append, List.length_singleton] at hlt
      rcases Nat.lt_or_ge k posts.length with hk | hk
      · rw [List.getElem?_append_left hk] at hq
        refine ⟨⟨q, hq, hqid⟩, fun m r hm hr => hlast m r hm ?_⟩
        rw [List.getElem?_append_left (List.getElem?_eq_some_iff.mp hr).1]
        exact hr
      · obtain rfl : k = posts.length := by omega
        rw [List.getElem?_concat_length] at hq
        obtain rfl := Option.some.inj hq
        exact absurd hqid.symm hid
    · rintro ⟨⟨q, hq, hqid⟩, hlast⟩
      have hk := (List.getElem?_eq_some_iff.mp hq).1
      refine ⟨⟨q, by rw [List.getElem?_append_left hk]; exact hq, hqid⟩, fun m r hm hr => ?_⟩
      rcases Nat.lt_or_ge m posts.length with hlt | hge
      · rw [List.getElem?_append_left hlt] at hr
        exact hlast m r hm hr
      · rw [List.getElem?_append_right hge] at hr
        rw [List.getElem?_singleton] at hr
        split_ifs at hr
        obtain rfl := Option.some.inj hr
        exact Ne.symm hid

/-- An id is looked up at the last post that has it. -/
theorem byPostid_eq_some {id : UInt32} {k : ℕ} :
    byPostid posts id = some k ↔ LastAt posts id k := by
  induction posts using List.reverseRecOn with
  | nil =>
    constructor
    · intro h
      cases h
    · rintro ⟨⟨p, hp, -⟩, -⟩
      cases hp
  | append_singleton posts p ih =>
    rw [byPostid_snoc, lastAt_snoc]
    split_ifs with hid
    · rw [Option.some.injEq, eq_comm]
    · exact ih

theorem length_threadParentIndices : (threadParentIndices posts).length = posts.length := by
  simp [threadParentIndices]

/-- A parent that is not `TOP_LEVEL` is the last post with the parent's id. -/
private theorem parentIndex_nonneg {p : PostLink} {i : ℕ} (h : 0 ≤ parentIndex posts p i) :
    p.parentid ≠ 0 ∧ ∃ k, byPostid posts p.parentid = some k ∧ k ≠ i ∧
      parentIndex posts p i = asI32 k := by
  unfold parentIndex at h ⊢
  by_cases hparent : p.parentid = 0
  · rw [if_pos hparent] at h
    exact absurd h (by decide)
  · rw [if_neg hparent] at h ⊢
    refine ⟨hparent, ?_⟩
    cases hk : byPostid posts p.parentid with
    | none =>
      rw [hk] at h
      exact absurd h (show ¬0 ≤ TOP_LEVEL by decide)
    | some k =>
      rw [hk] at h
      by_cases hne : k ≠ i
      · exact ⟨k, rfl, hne, if_pos hne⟩
      · dsimp only at h
        rw [if_neg hne] at h
        exact absurd h (by decide)

/-- The parent of a post in the tree is the one it answers. -/
theorem parentAt_eq_some {i j : ℕ} :
    parentAt (threadParentIndices posts) posts.length i = some j ↔ Answers posts i j := by
  have hindex : (threadParentIndices posts)[i]? =
      posts[i]?.map fun p => parentIndex posts p i := by
    rw [threadParentIndices, List.getElem?_map, List.getElem?_zipIdx, Option.map_map, Nat.zero_add]
    rfl
  unfold parentAt
  rw [hindex]
  constructor
  · intro h
    cases hp : posts[i]? with
    | none =>
      rw [hp] at h
      cases h
    | some p =>
      rw [hp, Option.map_some] at h
      dsimp only at h
      split_ifs at h with hrange
      obtain ⟨hparent, k, hk, hne, hindex⟩ := parentIndex_nonneg hrange.1
      have hj := Option.some.inj h
      exact ⟨p, k, hp, hparent, byPostid_eq_some.mp hk, hne, by omega, by omega⟩
  · rintro ⟨p, k, hp, hparent, hlast, hne, hj, hlt⟩
    have hindex : parentIndex posts p i = j := by
      rw [parentIndex, if_neg hparent, byPostid_eq_some.mpr hlast, ← hj]
      exact if_pos hne
    rw [hp, Option.map_some, hindex]
    dsimp only
    rw [Int.toNat_natCast, if_pos ⟨Int.natCast_nonneg j, hlt⟩]

/-- A parent is a post. -/
theorem parentAt_lt {parents : List ℤ} {count i j : ℕ} (h : parentAt parents count i = some j) :
    j < count := by
  unfold parentAt at h
  split at h
  · split_ifs at h with hrange
    obtain rfl := Option.some.inj h
    exact hrange.2
  · cases h

end Parents

namespace Category

variable {c : Category}

@[simp] theorem length_append (parent i : ℕ) :
    (c.append parent i).nodes.length = c.nodes.length := by
  simp [append]

@[simp] theorem dest_append (parent i : ℕ) : (c.append parent i).dest = c.dest := rfl

/-- A row that goes below another one is the last there, and nowhere else. -/
theorem below_append {parent : ℕ} (h : parent < c.nodes.length) (i j : ℕ) :
    (c.append parent i).below j = if parent = j then c.below j ++ [i] else c.below j := by
  unfold below append
  rw [List.getElem?_modify]
  by_cases hj : parent = j
  · subst hj
    rw [if_pos rfl, List.getElem?_eq_getElem h]
    simp
  · rw [if_neg hj]
    simp only [if_neg hj]
    simp

/-- The rows of a category, with nothing below them. -/
def bare (c : Category) : List NewsNode := c.nodes.map fun n => { n with children := none }

/-- A row that goes below another one changes no row but for what is below it. -/
theorem bare_append (parent i : ℕ) : (c.append parent i).bare = c.bare := by
  apply List.ext_getElem?
  intro k
  simp only [bare, append, List.getElem?_map, List.getElem?_modify]
  cases c.nodes[k]? with
  | none => rfl
  | some n => split_ifs <;> rfl

end Category

/-- What the threading of some of the posts has made of the rows. -/
structure Threaded (nodes : List NewsNode) (parents : List ℤ) (s : Category × List ℕ) : Prop where
  count : s.1.nodes.length = nodes.length
  bare : s.1.bare = nodes
  dest : s.1.dest = []
  top : s.2 = Forest.roots (parentAt parents nodes.length) parents.length
  below : ∀ j, s.1.below j = Forest.children (parentAt parents nodes.length) parents.length j

section Built

variable {nodes : List NewsNode} {parents : List ℤ} {s : Category × List ℕ}

private theorem parentAt_snoc_lt (parent : ℤ) {count i : ℕ} (h : i < parents.length) :
    parentAt (parents ++ [parent]) count i = parentAt parents count i := by
  unfold parentAt
  rw [List.getElem?_append_left h]

private theorem parentAt_snoc_self (parent : ℤ) (count : ℕ) :
    parentAt (parents ++ [parent]) count parents.length =
      if 0 ≤ parent ∧ parent.toNat < count then some parent.toNat else none := by
  unfold parentAt
  rw [List.getElem?_concat_length]

/-- A property of the parents of the earlier posts holds of the same ones with one post more. -/
private theorem filter_snoc (parent : ℤ) (count : ℕ) (Q : Option ℕ → Bool) :
    (List.range (parents ++ [parent]).length).filter
        (fun i => Q (parentAt (parents ++ [parent]) count i)) =
      (List.range parents.length).filter (fun i => Q (parentAt parents count i)) ++
        if Q (parentAt (parents ++ [parent]) count parents.length) then [parents.length]
        else [] := by
  rw [List.length_append, List.length_singleton, List.range_succ, List.filter_append,
    List.filter_singleton, Bool.cond_eq_ite]
  congr 1
  apply List.filter_congr
  intro i hi
  rw [parentAt_snoc_lt parent (List.mem_range.mp hi)]

/-- Threading one more post puts it where its parent says. -/
theorem Threaded.snoc (h : Threaded nodes parents s) (parent : ℤ) :
    Threaded nodes (parents ++ [parent])
      (Category.thread nodes.length s (parent, parents.length)) := by
  have hself := @parentAt_snoc_self parents parent nodes.length
  have htop := @filter_snoc parents parent nodes.length fun p => p = none
  have hbelow := fun j => @filter_snoc parents parent nodes.length fun p => p = some j
  simp only [hself] at htop hbelow
  unfold Category.thread
  dsimp only
  by_cases hrange : 0 ≤ parent ∧ parent.toNat < nodes.length
  · simp only [if_pos hrange] at htop hbelow ⊢
    refine ⟨?_, ?_, ?_, ?_, fun j => ?_⟩
    · rw [Category.length_append, h.count]
    · rw [Category.bare_append, h.bare]
    · rw [Category.dest_append, h.dest]
    · rw [h.top, Forest.roots, Forest.roots, htop]
      simp
    · rw [Category.below_append (h.count.symm ▸ hrange.2), h.below, Forest.children,
        Forest.children, hbelow]
      simp only [Option.some.injEq, decide_eq_true_eq]
      split_ifs <;> simp
  · simp only [if_neg hrange] at htop hbelow ⊢
    refine ⟨h.count, h.bare, h.dest, ?_, fun j => ?_⟩
    · rw [h.top, Forest.roots, Forest.roots, htop]
      simp
    · rw [h.below, Forest.children, Forest.children, hbelow]
      simp

/-- Threading all posts puts each where its parent says. -/
theorem threaded (hbare : nodes.map (fun n => { n with children := none }) = nodes)
    (parents : List ℤ) :
    Threaded nodes parents
      (parents.zipIdx.foldl (Category.thread nodes.length) (⟨nodes, []⟩, [])) := by
  induction parents using List.reverseRecOn with
  | nil =>
    refine ⟨rfl, hbare, rfl, rfl, fun j => ?_⟩
    have hnone : (nodes[j]?).bind NewsNode.children = none := by
      rw [← hbare, List.getElem?_map]
      cases nodes[j]? <;> rfl
    exact congrArg (fun o => o.getD []) hnone
  | append_singleton parents parent ih =>
    rw [List.zipIdx_append, List.foldl_append, Nat.zero_add]
    exact ih.snoc parent

end Built

/-- No post is lost. -/
structure Category.Whole (c : Category) (path : Option (List UInt8)) (posts : List CorePost) :
    Prop where
  /-- Each post has its row. -/
  rows : c.bare = posts.map (newNode path)
  /-- Each row is reached exactly once from the category's store. -/
  once : ∀ i < posts.length, ∃! walk, Forest.Reached c.dest c.below walk i
  /-- Following the parents of a post comes to a top-level post. -/
  rooted : ∀ i < posts.length,
    Forest.Rooted (parentAt (threadParentIndices (posts.map CorePost.link)) posts.length) i
  /-- The top-level posts are in list order. -/
  topOrder : c.dest.Pairwise (· < ·)
  /-- And so are the answers to each post. -/
  order : ∀ j, (c.below j).Pairwise (· < ·)

section Lost

variable {posts : List CorePost}

theorem threaded_build (path : Option (List UInt8)) (posts : List CorePost) :
    (buildCategoryTree path posts).bare = posts.map (newNode path) ∧
    (buildCategoryTree path posts).dest = Forest.roots
      (parentAt (threadParentIndices (posts.map CorePost.link)) posts.length) posts.length ∧
    (buildCategoryTree path posts).below = Forest.children
      (parentAt (threadParentIndices (posts.map CorePost.link)) posts.length) posts.length := by
  have hbare : (posts.map (newNode path)).map (fun n => { n with children := none }) =
      posts.map (newNode path) := by
    rw [List.map_map]
    rfl
  have h := threaded hbare (threadParentIndices (posts.map CorePost.link))
  rw [List.length_map] at h
  have hcount : (threadParentIndices (posts.map CorePost.link)).length = posts.length := by
    rw [length_threadParentIndices, List.length_map]
  refine ⟨h.bare, ?_, ?_⟩
  · have htop := h.top
    rw [List.length_map, hcount] at htop
    exact (congrArg₂ (· ++ ·) h.dest htop).trans (List.nil_append _)
  · funext j
    have hbelow := h.below j
    rw [List.length_map, hcount] at hbelow
    exact hbelow

/-- No post is lost if and only if no post answers itself through others. -/
theorem whole_iff (path : Option (List UInt8)) (posts : List CorePost) :
    (buildCategoryTree path posts).Whole path posts ↔
      ¬∃ i, Relation.TransGen (Answers (posts.map CorePost.link)) i i := by
  obtain ⟨hrows, hdest, hbelow⟩ := threaded_build path posts
  have hanswers : (fun i j => parentAt (threadParentIndices (posts.map CorePost.link))
      posts.length i = some j) = Answers (posts.map CorePost.link) := by
    funext i j
    have h := @parentAt_eq_some (posts.map CorePost.link) i j
    rw [List.length_map] at h
    exact propext h
  have hacyclic := @Forest.rooted_iff_acyclic
    (parentAt (threadParentIndices (posts.map CorePost.link)) posts.length) posts.length
    fun _ _ => parentAt_lt
  rw [hanswers] at hacyclic
  have hposts : (∃ i, Relation.TransGen (Answers (posts.map CorePost.link)) i i) ↔
      ∃ i < posts.length, Relation.TransGen (Answers (posts.map CorePost.link)) i i := by
    refine ⟨?_, fun ⟨i, _, hi⟩ => ⟨i, hi⟩⟩
    rintro ⟨i, hi⟩
    obtain ⟨j, ⟨p, k, hp, -⟩, -⟩ := Relation.TransGen.head'_iff.mp hi
    have hlt := (List.getElem?_eq_some_iff.mp hp).1
    rw [List.length_map] at hlt
    exact ⟨i, hlt, hi⟩
  rw [hposts, ← hacyclic]
  constructor
  · exact fun h => h.rooted
  · intro h
    refine ⟨hrows, fun i hi => ?_, h, ?_, fun j => ?_⟩
    · rw [hdest, hbelow]
      exact (Forest.existsUnique_reached_iff (fun _ _ => parentAt_lt) hi).mpr (h i hi)
    · rw [hdest]
      exact Forest.sorted_roots
    · rw [hbelow]
      exact Forest.sorted_children

/-- A post with these ids. -/
def plain (postid parentid : UInt32) : CorePost where
  postid := postid
  parentid := parentid
  subject := [120]
  sender := [121]
  mimeType := []
  noText := false
  pictures := []
  date := ⟨1904, 0, 0⟩

/-- Two posts that each answer the other are both lost. -/
theorem each_other_lost : ¬(buildCategoryTree none [plain 1 2, plain 2 1]).Whole none
    [plain 1 2, plain 2 1] := by
  intro h
  obtain ⟨walk, hwalk, -⟩ := h.once 0 (by decide)
  have hdest : (buildCategoryTree none [plain 1 2, plain 2 1]).dest = [] := by decide
  rw [hdest] at hwalk
  suffices hnone : ∀ walk i, ¬Forest.Reached [] (buildCategoryTree none
      [plain 1 2, plain 2 1]).below walk i from hnone _ _ hwalk
  intro walk i hreached
  induction hreached with
  | first hi => cases hi
  | next _ _ ih => exact ih

end Lost

end Gtkhx.News
