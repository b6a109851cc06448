import Gtkhx.Library.Indexed
import Mathlib.Algebra.Group.Nat.Defs
import Mathlib.Data.Fintype.Card

/-!
# A chat's members

The members of a chat in the order they came, with an index by uid. There are two such lists: the
plain one, and the model that the user list is bound to, whose items are objects. A change to a
member is made in its object; what changes the list itself is told to those who listen, as a
position with the numbers of items that go and come there.
-/

namespace Gtkhx.Chat

open Indexed

/-- A nickname colour, if one is set. -/
abbrev NickColor := Option UInt32

/-- A member of a chat. -/
structure Member where
  uid : UInt16
  icon : UInt16
  status : UInt16
  nickColor : NickColor
  name : String
  ignore : Bool
  deriving DecidableEq

/-- A member with another ignore flag. -/
def Member.setIgnore (m : Member) (ignore : Bool) : Member := { m with ignore := ignore }

@[simp] theorem Member.uid_setIgnore (m : Member) (ignore : Bool) :
    (m.setIgnore ignore).uid = m.uid := rfl

/-- A member, the ignore flag aside. -/
def Member.plain (m : Member) : Member := { m with ignore := false }

@[simp] theorem Member.uid_plain (m : Member) : m.plain.uid = m.uid := rfl

/-- The members of a chat, with the position of each uid. -/
structure MemberList where
  order : List Member := []
  index : UInt16 → Option ℕ := fun _ => none
  indexed : Indexes Member.uid order index := by exact Indexes.nil

namespace MemberList

/-- Insert a member, or replace the one with its uid where it is. -/
def upsert (l : MemberList) (m : Member) : MemberList :=
  match h : l.index m.uid with
  | some i => { l with order := l.order.set i m, indexed := l.indexed.set h }
  | none =>
    { order := l.order ++ [m]
      index := Function.update l.index m.uid (some l.order.length)
      indexed := l.indexed.push h }

/-- Remove the member with a uid. What is after it is entered into the index again. -/
def remove (l : MemberList) (uid : UInt16) : Option Member × MemberList :=
  match h : l.index uid with
  | some i =>
    (l.order[i]?,
      { order := l.order.eraseIdx i
        index := reindex Member.uid (l.order.eraseIdx i) i (Function.update l.index uid none)
        indexed := l.indexed.erase h })
  | none => (none, l)

end MemberList

/-- What the model tells: that its list changes, or that a member's fields do. -/
inductive Signal
  | itemsChanged (position removed added : UInt32)
  | changed (object : ℕ)
  deriving DecidableEq

/-- The members of a chat as objects, with the position of each uid. The objects are numbered as
they are made. -/
structure HxMemberModel where
  objects : ℕ → Member
  made : ℕ
  items : List ℕ
  index : UInt16 → Option ℕ
  indexed : Indexes (fun o => (objects o).uid) items index
  known : ∀ o ∈ items, o < made

namespace HxMemberModel

/-- A new object holds the member's fields. -/
def fromMember (m : HxMemberModel) (member : Member) : ℕ → Member :=
  Function.update m.objects m.made member

/-- What an update from the wire writes: all but the uid and the ignore flag. -/
def setFrom (old new : Member) : Member :=
  { new with uid := old.uid, ignore := old.ignore }

theorem uid_setFrom (old new : Member) : (setFrom old new).uid = old.uid := rfl

theorem fromMember_of_mem (m : HxMemberModel) (member : Member) {o : ℕ} (h : o ∈ m.items) :
    m.fromMember member o = m.objects o :=
  Function.update_of_ne (Nat.ne_of_lt (m.known o h)) _ _

private theorem map_uid_update {objects : ℕ → Member} {o : ℕ} {member : Member}
    (h : member.uid = (objects o).uid) (items : List ℕ) :
    (items.map fun p => (Function.update objects o member p).uid) =
      items.map fun p => (objects p).uid := by
  refine List.map_congr_left fun p _ => ?_
  by_cases hp : p = o
  · subst hp
    rw [Function.update_self, h]
  · rw [Function.update_of_ne hp]

private theorem indexed_fromMember (m : HxMemberModel) {member : Member}
    (h : m.index member.uid = none) :
    Indexes (fun o => (m.fromMember member o).uid) (m.items ++ [m.made])
      (Function.update m.index member.uid (some m.items.length)) := by
  have hold : Indexes (fun o => (m.fromMember member o).uid) m.items m.index :=
    m.indexed.of_map_eq (List.map_congr_left fun o ho => by rw [m.fromMember_of_mem member ho])
  have hnew : (m.fromMember member m.made).uid = member.uid := by
    rw [fromMember, Function.update_self]
  have hpush := hold.push (a := m.made) (by rw [hnew, h])
  rwa [hnew] at hpush

private theorem known_fromMember (m : HxMemberModel) :
    ∀ o ∈ m.items ++ [m.made], o < m.made + 1 := by
  intro o ho
  rcases List.mem_append.mp ho with ho | ho
  · have := m.known o ho
    omega
  · rw [List.mem_singleton] at ho
    omega

/-- Other fields of a member's object. -/
def store (m : HxMemberModel) (o : ℕ) (member : Member) (h : member.uid = (m.objects o).uid) :
    HxMemberModel :=
  { m with
    objects := Function.update m.objects o member
    indexed := m.indexed.of_map_eq (map_uid_update h m.items) }

/-- The object at a position that the index has. -/
def itemAt (m : HxMemberModel) {uid : UInt16} {i : ℕ} (h : m.index uid = some i) : ℕ :=
  m.items.get ⟨i, m.indexed.lt_length h⟩

/-- Insert a member, or update the one with its uid where it is. -/
def upsert (m : HxMemberModel) (member : Member) : HxMemberModel × List Signal :=
  match h : m.index member.uid with
  | some _ =>
    (m.store (m.itemAt h) (setFrom (m.objects (m.itemAt h)) member)
        (uid_setFrom _ _),
      [.changed (m.itemAt h)])
  | none =>
    ({ objects := m.fromMember member
       made := m.made + 1
       items := m.items ++ [m.made]
       index := Function.update m.index member.uid (some m.items.length)
       indexed := m.indexed_fromMember h
       known := m.known_fromMember },
      [.itemsChanged (UInt32.ofNat m.items.length) 0 1])

/-- Remove the member with a uid. What is after it is entered into the index again. -/
def remove (m : HxMemberModel) (uid : UInt16) : HxMemberModel × List Signal :=
  match h : m.index uid with
  | none => (m, [])
  | some pos =>
    ({ m with
       items := m.items.eraseIdx pos
       index := reindex (fun o => (m.objects o).uid) (m.items.eraseIdx pos) pos
         (Function.update m.index uid none)
       indexed := m.indexed.erase h
       known := fun o ho => m.known o ((List.eraseIdx_sublist _ _).subset ho) },
      [.itemsChanged (UInt32.ofNat pos) 1 0])

/-- Drop every member. -/
def clear (m : HxMemberModel) : HxMemberModel × List Signal :=
  if m.items.length = 0 then (m, [])
  else
    ({ m with
       items := []
       index := fun _ => none
       indexed := Indexes.nil
       known := fun _ h => absurd h List.not_mem_nil },
      [.itemsChanged 0 (UInt32.ofNat m.items.length) 0])

/-- The object of the member with a uid. -/
def get (m : HxMemberModel) (uid : UInt16) : Option ℕ :=
  match h : m.index uid with
  | some _ => some (m.itemAt h)
  | none => none

/-- Set a member's ignore flag, and say whether there is such a member. -/
def setIgnore (m : HxMemberModel) (uid : UInt16) (ignore : Bool) : HxMemberModel × Bool :=
  match m.get uid with
  | none => (m, false)
  | some o => (m.store o ((m.objects o).setIgnore ignore) (Member.uid_setIgnore _ _), true)

/-- A member's ignore flag, or `false` if there is no such member. -/
def getIgnore (m : HxMemberModel) (uid : UInt16) : Bool :=
  ((m.get uid).map fun o => (m.objects o).ignore).getD false

/-- Flip a member's ignore flag. -/
def toggleIgnore (m : HxMemberModel) (uid : UInt16) : HxMemberModel × Bool :=
  if (m.setIgnore uid !(m.getIgnore uid)).2 then
    ((m.setIgnore uid !(m.getIgnore uid)).1, !(m.getIgnore uid))
  else ((m.setIgnore uid !(m.getIgnore uid)).1, false)

/-- The members, read from their objects. -/
def members (m : HxMemberModel) : List Member := m.items.map m.objects

/-- A model that was just made. -/
def new : HxMemberModel where
  objects := fun _ => ⟨0, 0, 0, none, "", false⟩
  made := 0
  items := []
  index := fun _ => none
  indexed := Indexes.nil
  known := fun _ h => absurd h List.not_mem_nil

end HxMemberModel

/-- What is done to a model of members. -/
inductive Op
  | upsert (member : Member)
  | remove (uid : UInt16)
  | clear
  | setIgnore (uid : UInt16) (ignore : Bool)
  | toggleIgnore (uid : UInt16)

namespace HxMemberModel

def step (m : HxMemberModel) : Op → HxMemberModel × List Signal
  | .upsert member => m.upsert member
  | .remove uid => m.remove uid
  | .clear => m.clear
  | .setIgnore uid ignore => ((m.setIgnore uid ignore).1, [])
  | .toggleIgnore uid => ((m.toggleIgnore uid).1, [])

/-- The model after operations. -/
def after (ops : List Op) : HxMemberModel := ops.foldl (fun m op => (m.step op).1) new

end HxMemberModel

/-- A listener's copy of the items, which reads those that come from the model. -/
def replay (m : HxMemberModel) (mirror : List ℕ) : Signal → List ℕ
  | .itemsChanged position removed added =>
    mirror.take position.toNat ++ (m.items.drop position.toNat).take added.toNat ++
      mirror.drop (position.toNat + removed.toNat)
  | .changed _ => mirror

/-- A model and a listener's copy of its items, after an operation. -/
def observe (w : HxMemberModel × List ℕ) (op : Op) : HxMemberModel × List ℕ :=
  ((w.1.step op).1, (w.1.step op).2.foldl (replay (w.1.step op).1) w.2)

/-- When each member that is there came last: the number of the operation that inserted it. -/
def arrive (since : UInt16 → Option ℕ) (now : ℕ) : Op → UInt16 → Option ℕ
  | .upsert member =>
    if since member.uid = none then Function.update since member.uid (some now) else since
  | .remove uid => Function.update since uid none
  | .clear => fun _ => none
  | .setIgnore _ _ | .toggleIgnore _ => since

def arrivals (ops : List Op) : UInt16 → Option ℕ :=
  ops.zipIdx.foldl (fun since e => arrive since e.2 e.1) fun _ => none

namespace MemberList

/-- The same upserts and removals. Who clears the list removes its members one after the other. -/
def step (l : MemberList) : Op → MemberList
  | .upsert member => l.upsert member
  | .remove uid => (l.remove uid).2
  | .clear => (l.order.map Member.uid).foldl (fun l uid => (l.remove uid).2) l
  | .setIgnore _ _ | .toggleIgnore _ => l

def after (ops : List Op) : MemberList := ops.foldl step {}

end MemberList

/-- A list where the items with a key are changed. -/
private theorem eq_of_mem_of_uid {ms : List Member} (hnodup : (ms.map Member.uid).Nodup)
    {x y : Member} (hx : x ∈ ms) (hy : y ∈ ms) (h : x.uid = y.uid) : x = y :=
  List.inj_on_of_nodup_map hnodup hx hy h

namespace MemberList

variable {l : MemberList}

theorem nodup (l : MemberList) : (l.order.map Member.uid).Nodup := l.indexed.nodup

/-- A member that is there is replaced, another one goes to the end. -/
theorem order_upsert (l : MemberList) (m : Member) :
    (l.upsert m).order =
      if m.uid ∈ l.order.map Member.uid then l.order.map fun x => if x.uid = m.uid then m else x
      else l.order ++ [m] := by
  unfold upsert
  split
  next i h =>
    rw [if_pos (l.indexed.isSome_iff.mp (by rw [h, Option.isSome_some]))]
    obtain ⟨b, hb, hkey⟩ := l.indexed.exists_getElem? h
    refine List.ext_getElem? fun j => ?_
    rw [List.getElem?_set, List.getElem?_map]
    split_ifs with hj hi
    · subst hj
      rw [hb, Option.map_some, if_pos hkey]
    · exact absurd (l.indexed.lt_length h) (hj ▸ hi)
    · cases hat : l.order[j]? with
      | none => rfl
      | some x =>
        have hne : x.uid ≠ m.uid := by
          intro heq
          have hindex := l.indexed.index_of_getElem? hat
          rw [heq, h] at hindex
          exact hj (Option.some.inj hindex)
        rw [Option.map_some, if_neg hne]
  next h => rw [if_neg (l.indexed.eq_none_iff.mp h)]

theorem order_remove (l : MemberList) (uid : UInt16) :
    (l.remove uid).2.order = l.order.filter fun m => m.uid ≠ uid := by
  unfold remove
  split
  next i h => exact l.indexed.eraseIdx_eq_filter h
  next h =>
    refine (List.filter_eq_self.mpr fun m hm => ?_).symm
    have hne : m.uid ≠ uid := fun heq => l.indexed.eq_none_iff.mp h (heq ▸ List.mem_map_of_mem hm)
    simpa using hne

private theorem order_foldl_remove (uids : List UInt16) (l : MemberList) :
    (uids.foldl (fun l uid => (l.remove uid).2) l).order =
      l.order.filter fun m => m.uid ∉ uids := by
  induction uids generalizing l with
  | nil => simp
  | cons uid uids ih =>
    rw [List.foldl_cons, ih, order_remove, List.filter_filter]
    congr 1
    funext m
    simp [Bool.and_comm]

/-- Who removes every member has none left. -/
theorem order_clear (l : MemberList) : (l.step .clear).order = [] := by
  rw [step, order_foldl_remove]
  refine List.filter_eq_nil_iff.mpr fun m hm => ?_
  simpa using ⟨m, hm, rfl⟩

end MemberList

namespace HxMemberModel

variable {m : HxMemberModel}

theorem nodup (m : HxMemberModel) : (m.members.map Member.uid).Nodup := by
  rw [members, List.map_map]
  exact m.indexed.nodup

theorem mem_uids_iff {uid : UInt16} :
    uid ∈ m.members.map Member.uid ↔ (m.index uid).isSome = true := by
  rw [m.indexed.isSome_iff, members, List.map_map]
  rfl

/-- The object the index leads to is the item with the uid. -/
theorem itemAt_spec {uid : UInt16} {i : ℕ} (h : m.index uid = some i) :
    m.itemAt h ∈ m.items ∧ (m.objects (m.itemAt h)).uid = uid := by
  obtain ⟨o, ho, hkey⟩ := m.indexed.exists_getElem? h
  have hat : m.itemAt h = o := (List.getElem?_eq_some_iff.mp ho).2
  rw [hat]
  exact ⟨List.mem_of_getElem? ho, hkey⟩

/-- What an object's new fields make of the members. -/
theorem members_store {o : ℕ} (ho : o ∈ m.items) {member : Member}
    (hmember : member.uid = (m.objects o).uid) :
    (m.store o member hmember).members =
      m.members.map fun x => if x.uid = member.uid then member else x := by
  rw [members, members, List.map_map]
  refine List.map_congr_left fun p hp => ?_
  rw [Function.comp_apply]
  by_cases heq : p = o
  · rw [heq, if_pos hmember.symm]
    exact Function.update_self _ _ _
  · have hne : (m.objects p).uid ≠ member.uid := by
      intro hsame
      exact heq (List.inj_on_of_nodup_map m.indexed.nodup hp ho (hsame.trans hmember))
    rw [if_neg hne]
    exact Function.update_of_ne heq _ _

theorem isNone_of_notMem {uid : UInt16} (h : uid ∉ m.members.map Member.uid) :
    m.index uid = none := by
  rw [mem_uids_iff] at h
  simpa using h

/-- Each member is one of the objects. -/
theorem eq_of_mem {o : ℕ} (ho : o ∈ m.items) {x : Member} (hx : x ∈ m.members)
    (h : x.uid = (m.objects o).uid) : x = m.objects o :=
  eq_of_mem_of_uid m.nodup hx (List.mem_map_of_mem ho) h

/-- A member that is there is updated, another one goes to the end. -/
theorem members_upsert (m : HxMemberModel) (member : Member) :
    (m.upsert member).1.members =
      if member.uid ∈ m.members.map Member.uid then
        m.members.map fun x => if x.uid = member.uid then setFrom x member else x
      else m.members ++ [member] := by
  unfold upsert
  split
  next i h =>
    have hin : member.uid ∈ m.members.map Member.uid :=
      mem_uids_iff.mpr (by rw [h, Option.isSome_some])
    obtain ⟨ho, huid⟩ := m.itemAt_spec h
    rw [if_pos hin]
    refine (members_store ho (uid_setFrom _ _)).trans (List.map_congr_left fun x hx => ?_)
    rw [uid_setFrom, huid]
    by_cases hx' : x.uid = member.uid
    · rw [if_pos hx', if_pos hx', eq_of_mem ho hx (hx'.trans huid.symm)]
    · rw [if_neg hx', if_neg hx']
  next h =>
    have hout : member.uid ∉ m.members.map Member.uid := by
      rw [mem_uids_iff, h]
      exact Bool.false_ne_true
    have hold : m.items.map (m.fromMember member) = m.members :=
      List.map_congr_left fun o ho => m.fromMember_of_mem member ho
    have hnew : m.fromMember member m.made = member := Function.update_self _ _ _
    rw [if_neg hout, ← hold]
    exact List.map_append.trans (congrArg _ (congrArg (fun x => [x]) hnew))

theorem members_remove (m : HxMemberModel) (uid : UInt16) :
    (m.remove uid).1.members = m.members.filter fun x => x.uid ≠ uid := by
  unfold remove
  split
  next h =>
    refine (List.filter_eq_self.mpr fun x hx => ?_).symm
    have hne : x.uid ≠ uid := by
      intro heq
      have hin := mem_uids_iff.mp (List.mem_map_of_mem (f := Member.uid) hx)
      rw [heq, h] at hin
      cases hin
    simpa using hne
  next i h =>
    have hitems := congrArg (List.map m.objects) (m.indexed.eraseIdx_eq_filter h)
    refine hitems.trans ?_
    rw [members, List.filter_map]
    rfl

theorem members_clear (m : HxMemberModel) : m.clear.1.members = [] := by
  unfold clear
  split
  next h => rw [members, List.eq_nil_of_length_eq_zero h, List.map_nil]
  next => rfl

theorem get_eq_some {uid : UInt16} {o : ℕ} (h : m.get uid = some o) :
    o ∈ m.items ∧ (m.objects o).uid = uid := by
  unfold get at h
  split at h
  next i hi =>
    rw [← Option.some.inj h]
    exact m.itemAt_spec hi
  next => cases h

theorem get_eq_none {uid : UInt16} (h : m.get uid = none) : uid ∉ m.members.map Member.uid := by
  unfold get at h
  split at h
  next => cases h
  next hnone =>
    rw [mem_uids_iff, hnone]
    exact Bool.false_ne_true

/-- A member's flag is its object's. -/
theorem getIgnore_eq {x : Member} (hx : x ∈ m.members) : m.getIgnore x.uid = x.ignore := by
  unfold getIgnore
  cases h : m.get x.uid with
  | none => exact absurd (List.mem_map_of_mem hx) (get_eq_none h)
  | some o =>
    obtain ⟨ho, huid⟩ := get_eq_some h
    rw [eq_of_mem ho hx huid.symm]
    rfl

private theorem map_ite_eq_self {ms : List Member} {uid : UInt16} {f : Member → Member}
    (h : uid ∉ ms.map Member.uid) : (ms.map fun x => if x.uid = uid then f x else x) = ms := by
  refine (List.map_congr_left fun x hx => ?_).trans (List.map_id ms)
  refine if_neg fun heq => h ?_
  rw [← heq]
  exact List.mem_map_of_mem hx

/-- The flag of the member with the uid is set. -/
theorem members_setIgnore (m : HxMemberModel) (uid : UInt16) (ignore : Bool) :
    (m.setIgnore uid ignore).1.members =
      m.members.map fun x => if x.uid = uid then x.setIgnore ignore else x := by
  unfold setIgnore
  split
  next h => exact (map_ite_eq_self (get_eq_none h)).symm
  next o h =>
    obtain ⟨ho, huid⟩ := get_eq_some h
    refine (members_store ho (Member.uid_setIgnore _ _)).trans
      (List.map_congr_left fun x hx => ?_)
    rw [Member.uid_setIgnore]
    by_cases hx' : x.uid = uid
    · rw [if_pos (hx'.trans huid.symm), if_pos hx', eq_of_mem ho hx (hx'.trans huid.symm)]
    · rw [if_neg (fun heq => hx' (heq.trans huid)), if_neg hx']

/-- The flag of the member with the uid is flipped. -/
theorem members_toggleIgnore (m : HxMemberModel) (uid : UInt16) :
    (m.toggleIgnore uid).1.members =
      m.members.map fun x => if x.uid = uid then x.setIgnore !x.ignore else x := by
  have hset : (m.toggleIgnore uid).1 = (m.setIgnore uid !(m.getIgnore uid)).1 := by
    unfold toggleIgnore
    split <;> rfl
  rw [hset, members_setIgnore]
  refine List.map_congr_left fun x hx => ?_
  by_cases hx' : x.uid = uid
  · rw [if_pos hx', if_pos hx', ← hx', getIgnore_eq hx]
  · rw [if_neg hx', if_neg hx']

/-- There are never more members than uids. -/
theorem length_items_le (m : HxMemberModel) : m.items.length ≤ 65536 := by
  have hnodup : ((m.members.map Member.uid).map UInt16.toFin).Nodup :=
    m.nodup.map fun u v h => UInt16.toFin_inj.mp h
  have hcard := hnodup.length_le_card
  rw [Fintype.card_fin, members] at hcard
  simpa using hcard

/-- A copy of the items that reads the model when it is told of a change has its items again. -/
theorem observe_snd (m : HxMemberModel) (op : Op) :
    (observe (m, m.items) op).2 = (observe (m, m.items) op).1.items := by
  have hlength := m.length_items_le
  cases op with
  | upsert member =>
    simp only [observe, step]
    unfold upsert
    split
    next => rfl
    next h =>
      have hpos : (UInt32.ofNat m.items.length).toNat = m.items.length := by
        rw [UInt32.toNat_ofNat']
        exact Nat.mod_eq_of_lt (by omega)
      simp [replay, hpos]
  | remove uid =>
    simp only [observe, step]
    unfold remove
    split
    next => rfl
    next i h =>
      have hi := m.indexed.lt_length h
      have hpos : (UInt32.ofNat i).toNat = i := by
        rw [UInt32.toNat_ofNat']
        exact Nat.mod_eq_of_lt (by omega)
      simp [replay, hpos, List.eraseIdx_eq_take_drop_succ]
  | clear =>
    simp only [observe, step]
    unfold clear
    split
    next => rfl
    next =>
      have hpos : (UInt32.ofNat m.items.length).toNat = m.items.length := by
        rw [UInt32.toNat_ofNat']
        exact Nat.mod_eq_of_lt (by omega)
      simp [replay, hpos]
  | setIgnore uid ignore =>
    simp only [observe, step, List.foldl_nil]
    unfold setIgnore
    split <;> rfl
  | toggleIgnore uid =>
    simp only [observe, step, List.foldl_nil]
    unfold toggleIgnore setIgnore
    split_ifs <;> split <;> rfl

/-- What an operation leaves of a flag, when the member is still there. -/
def flagAfter (x : Member) : Op → Bool
  | .setIgnore uid ignore => if x.uid = uid then ignore else x.ignore
  | .toggleIgnore uid => if x.uid = uid then !x.ignore else x.ignore
  | .upsert _ | .remove _ | .clear => x.ignore

/-- Only the operations on the flag change it. -/
theorem ignore_step (m : HxMemberModel) (op : Op) {x y : Member} (hx : x ∈ m.members)
    (hy : y ∈ (m.step op).1.members) (h : y.uid = x.uid) : y.ignore = flagAfter x op := by
  cases op with
  | upsert member =>
    rw [step, members_upsert] at hy
    split_ifs at hy with hin
    · obtain ⟨z, hz, rfl⟩ := List.mem_map.mp hy
      have huid : z.uid = x.uid := by
        rw [← h]
        split_ifs <;> rfl
      rw [eq_of_mem_of_uid m.nodup hz hx huid]
      split_ifs <;> rfl
    · rcases List.mem_append.mp hy with hy | hy
      · rw [eq_of_mem_of_uid m.nodup hy hx h]
        rfl
      · rw [List.mem_singleton.mp hy] at h
        exact absurd (h ▸ List.mem_map_of_mem hx) hin
  | remove uid =>
    rw [step, members_remove] at hy
    rw [eq_of_mem_of_uid m.nodup (List.mem_of_mem_filter hy) hx h]
    rfl
  | clear =>
    rw [step, members_clear] at hy
    cases hy
  | setIgnore uid ignore =>
    rw [step, members_setIgnore] at hy
    obtain ⟨z, hz, rfl⟩ := List.mem_map.mp hy
    have huid : z.uid = x.uid := by
      rw [← h]
      split_ifs <;> rfl
    rw [eq_of_mem_of_uid m.nodup hz hx huid, flagAfter]
    split_ifs <;> rfl
  | toggleIgnore uid =>
    rw [step, members_toggleIgnore] at hy
    obtain ⟨z, hz, rfl⟩ := List.mem_map.mp hy
    have huid : z.uid = x.uid := by
      rw [← h]
      split_ifs <;> rfl
    rw [eq_of_mem_of_uid m.nodup hz hx huid, flagAfter]
    split_ifs <;> rfl

theorem plain_setFrom {old new : Member} (h : old.uid = new.uid) :
    (setFrom old new).plain = new.plain := by
  rw [setFrom, h]
  rfl

/-- The plain list, done to the same, stays the same but for the flags. -/
theorem plain_step {m : HxMemberModel} {l : MemberList}
    (h : m.members.map Member.plain = l.order.map Member.plain) (op : Op) :
    (m.step op).1.members.map Member.plain = (l.step op).order.map Member.plain := by
  have huids : m.members.map Member.uid = l.order.map Member.uid := by
    have hmap := congrArg (List.map Member.uid) h
    rwa [List.map_map, List.map_map] at hmap
  cases op with
  | upsert member =>
    rw [step, members_upsert, MemberList.step, MemberList.order_upsert, huids]
    split_ifs with hin
    · have hnew := congrArg (List.map fun x : Member =>
        if x.uid = member.uid then member.plain else x) h
      rw [List.map_map, List.map_map] at hnew ⊢
      refine (List.map_congr_left fun x _ => ?_).trans
        (hnew.trans (List.map_congr_left fun x _ => ?_))
      · rw [Function.comp_apply, Function.comp_apply, Member.uid_plain]
        split_ifs with heq
        · rw [← plain_setFrom heq]
        · rfl
      · rw [Function.comp_apply, Function.comp_apply, Member.uid_plain]
        split_ifs <;> rfl
    · rw [List.map_append, List.map_append, h]
  | remove uid =>
    rw [step, members_remove, MemberList.step, MemberList.order_remove]
    have hfilter := congrArg (List.filter fun x : Member => decide (x.uid ≠ uid)) h
    rwa [List.filter_map, List.filter_map] at hfilter
  | clear => rw [step, members_clear, MemberList.order_clear]
  | setIgnore uid ignore =>
    rw [step, members_setIgnore, MemberList.step, List.map_map, ← h]
    refine List.map_congr_left fun x _ => ?_
    rw [Function.comp_apply]
    split_ifs <;> rfl
  | toggleIgnore uid =>
    rw [step, members_toggleIgnore, MemberList.step, List.map_map, ← h]
    refine List.map_congr_left fun x _ => ?_
    rw [Function.comp_apply]
    split_ifs <;> rfl

/-- The uids are those that arrived before now and are there still, in that order. -/
structure Arrived (uids : List UInt16) (since : UInt16 → Option ℕ) (now : ℕ) : Prop where
  mem_iff : ∀ uid, uid ∈ uids ↔ (since uid).isSome = true
  before : ∀ uid t, since uid = some t → t < now
  sorted : uids.Pairwise fun u v => ∀ s t, since u = some s → since v = some t → s < t

namespace Arrived

variable {uids : List UInt16} {since : UInt16 → Option ℕ} {now : ℕ}

theorem later (h : Arrived uids since now) : Arrived uids since (now + 1) :=
  ⟨h.mem_iff, fun uid t ht => Nat.lt_succ_of_lt (h.before uid t ht), h.sorted⟩

/-- One who was not there arrives last. -/
theorem push (h : Arrived uids since now) {uid : UInt16} (hnew : since uid = none) :
    Arrived (uids ++ [uid]) (Function.update since uid (some now)) (now + 1) := by
  have hold : ∀ u ∈ uids, Function.update since uid (some now) u = since u := by
    intro u hu
    refine Function.update_of_ne ?_ _ _
    rintro rfl
    have hsome := (h.mem_iff u).mp hu
    rw [hnew] at hsome
    cases hsome
  refine ⟨fun u => ?_, fun u t ht => ?_, ?_⟩
  · by_cases hu : u = uid
    · subst hu
      simp
    · rw [Function.update_of_ne hu, List.mem_append, List.mem_singleton, h.mem_iff]
      simp [hu]
  · by_cases hu : u = uid
    · subst hu
      rw [Function.update_self] at ht
      have := Option.some.inj ht
      omega
    · rw [Function.update_of_ne hu] at ht
      exact Nat.lt_succ_of_lt (h.before u t ht)
  · refine List.pairwise_append.mpr ⟨?_, List.pairwise_singleton _ _, ?_⟩
    · refine h.sorted.imp_of_mem fun {u v} hu hv hlt s t hs ht => ?_
      rw [hold u hu] at hs
      rw [hold v hv] at ht
      exact hlt s t hs ht
    · intro u hu v hv s t hs ht
      rw [List.mem_singleton.mp hv, Function.update_self] at ht
      rw [hold u hu] at hs
      have hbefore := h.before u s hs
      have := Option.some.inj ht
      omega

/-- One who goes leaves the others in their order. -/
theorem remove (h : Arrived uids since now) (uid : UInt16) :
    Arrived (uids.filter fun u => u ≠ uid) (Function.update since uid none) (now + 1) := by
  have hold : ∀ u, u ≠ uid → Function.update since uid none u = since u :=
    fun u hu => Function.update_of_ne hu _ _
  refine ⟨fun u => ?_, fun u t ht => ?_, ?_⟩
  · by_cases hu : u = uid
    · subst hu
      simp
    · rw [hold u hu, List.mem_filter, h.mem_iff]
      simp [hu]
  · by_cases hu : u = uid
    · subst hu
      rw [Function.update_self] at ht
      cases ht
    · rw [hold u hu] at ht
      exact Nat.lt_succ_of_lt (h.before u t ht)
  · refine (h.sorted.filter _).imp_of_mem fun {u v} hu hv hlt s t hs ht => ?_
    rw [hold u (by simpa using (List.mem_filter.mp hu).2)] at hs
    rw [hold v (by simpa using (List.mem_filter.mp hv).2)] at ht
    exact hlt s t hs ht

theorem nil (now : ℕ) : Arrived [] (fun _ => none) now :=
  ⟨fun uid => by simp, fun _ _ ht => absurd ht.symm (Option.some_ne_none _), List.Pairwise.nil⟩

/-- An operation leaves the members in the order of their latest arrivals. -/
theorem step {m : HxMemberModel} (h : Arrived (m.members.map Member.uid) since now) (op : Op) :
    Arrived ((m.step op).1.members.map Member.uid) (arrive since now op) (now + 1) := by
  have hsame : ∀ (f : Member → Member) (uid : UInt16), (∀ x, (f x).uid = x.uid) →
      (m.members.map fun x => if x.uid = uid then f x else x).map Member.uid =
        m.members.map Member.uid := by
    intro f uid hf
    rw [List.map_map]
    refine List.map_congr_left fun x _ => ?_
    rw [Function.comp_apply]
    split_ifs
    · exact hf x
    · rfl
  cases op with
  | upsert member =>
    rw [HxMemberModel.step, members_upsert, arrive]
    by_cases hin : member.uid ∈ m.members.map Member.uid
    · have hsome := (h.mem_iff _).mp hin
      have hnot : since member.uid ≠ none := by
        intro hnone
        rw [hnone] at hsome
        cases hsome
      rw [if_pos hin, if_neg hnot, hsame (fun x => setFrom x member) _ fun x => rfl]
      exact h.later
    · have hnone : since member.uid = none := by
        have hnotSome := mt (h.mem_iff _).mpr hin
        simpa using hnotSome
      rw [if_neg hin, if_pos hnone, List.map_append, List.map_singleton]
      exact h.push hnone
  | remove uid =>
    rw [HxMemberModel.step, members_remove, arrive]
    have hfilter := h.remove uid
    rw [List.filter_map] at hfilter
    exact hfilter
  | clear =>
    rw [HxMemberModel.step, members_clear]
    exact nil _
  | setIgnore uid ignore =>
    rw [HxMemberModel.step, members_setIgnore,
      hsame (fun x => x.setIgnore ignore) uid fun x => rfl]
    exact h.later
  | toggleIgnore uid =>
    rw [HxMemberModel.step, members_toggleIgnore,
      hsame (fun x => x.setIgnore !x.ignore) uid fun x => rfl]
    exact h.later

end Arrived

theorem after_concat (ops : List Op) (op : Op) : after (ops ++ [op]) = ((after ops).step op).1 := by
  rw [after, List.foldl_concat]
  rfl

theorem arrivals_concat (ops : List Op) (op : Op) :
    arrivals (ops ++ [op]) = arrive (arrivals ops) ops.length op := by
  rw [arrivals, List.zipIdx_append, List.foldl_append]
  simp [arrivals]

/-- After any operations the members are in the order of their latest arrivals. -/
theorem arrived_after (ops : List Op) :
    Arrived ((after ops).members.map Member.uid) (arrivals ops) ops.length := by
  induction ops using List.reverseRecOn with
  | nil => exact Arrived.nil 0
  | append_singleton ops op ih =>
    rw [after_concat, arrivals_concat, List.length_append, List.length_singleton]
    exact ih.step op

/-- A copy that listens from the start always has the model's items. -/
theorem foldl_observe (ops : List Op) :
    ops.foldl observe (new, []) = (after ops, (after ops).items) := by
  induction ops using List.reverseRecOn with
  | nil => rfl
  | append_singleton ops op ih =>
    rw [List.foldl_concat, ih, after_concat]
    exact Prod.ext rfl (observe_snd _ op)

theorem plain_after (ops : List Op) :
    (after ops).members.map Member.plain = (MemberList.after ops).order.map Member.plain := by
  induction ops using List.reverseRecOn with
  | nil => rfl
  | append_singleton ops op ih =>
    rw [after_concat, MemberList.after, List.foldl_concat]
    exact plain_step ih op

/-- The index and the listeners of a model are right, and it holds what the plain list does. -/
structure Right (ops : List Op) (m : HxMemberModel) : Prop where
  /-- The index has each uid of the items, with its position, and no others. -/
  index_iff : ∀ uid i, m.index uid = some i ↔ (m.members[i]?).map Member.uid = some uid
  different : (m.members.map Member.uid).Nodup
  /-- The members are those who are there, in the order of their latest arrivals. -/
  arrived : Arrived (m.members.map Member.uid) (arrivals ops) ops.length
  /-- A copy of the items that listens has them. -/
  mirrored : ops.foldl observe (new, []) = (m, m.items)
  /-- A next operation changes the flags it is for, and no others. -/
  ignored : ∀ op, ∀ x ∈ m.members, ∀ y ∈ (m.step op).1.members, y.uid = x.uid →
    y.ignore = flagAfter x op
  plain : m.members.map Member.plain = (MemberList.after ops).order.map Member.plain

/-- After any operations the model is right. -/
theorem right_after (ops : List Op) : Right ops (after ops) where
  index_iff uid i := by
    rw [(after ops).indexed uid i, members, List.getElem?_map, Option.map_map]
    rfl
  different := (after ops).nodup
  arrived := arrived_after ops
  mirrored := foldl_observe ops
  ignored op _ hx _ hy h := ignore_step _ op hx hy h
  plain := plain_after ops

end HxMemberModel

end Gtkhx.Chat
