import Gtkhx.Chat.Completion
import Gtkhx.Library.Round
import Gtkhx.Library.Runs

/-!
# Cycling through nicks

Completing a token that is a name already puts the next name in its place. Doing that again and
again walks around the names.
-/

namespace Gtkhx.Chat

open Round Runs

/-- A line and where its caret is. -/
abbrev Entry : Type := List Char × ℕ

/-- A line with a name after something else and a blank, and the caret behind the name. -/
def entry (before name after : List Char) : Entry :=
  (before ++ ' ' :: (name ++ after), before.length + 1 + name.length)

/-- The line after a completion, which is the same if there is nothing to do. -/
def tab (names : List (List Char)) (reverse : Bool) (suffix : Char) (oldStyle : Bool)
    (e : Entry) : Option Entry :=
  (completeStyled names e.1 e.2 reverse suffix oldStyle).map fun result =>
    result.elim e fun c => (c.text, c.cursor.getD c.text.length)

/-- The line after so many completions. -/
def tabs (names : List (List Char)) (reverse : Bool) (suffix : Char) (oldStyle : Bool) (e : Entry) :
    ℕ → Option Entry
  | 0 => some e
  | k + 1 => (tabs names reverse suffix oldStyle e k).bind (tab names reverse suffix oldStyle)

/-- The name that a token is changed to. -/
def neighbour (names : List (List Char)) (reverse : Bool) : List Char → List Char :=
  if reverse then backward names else forward names

section Specified

variable (names : List (List Char)) (reverse : Bool) (suffix : Char) (oldStyle : Bool)
  (before name after : List Char)

/-- Completions put one name after the other into the line, all of them before the first again, and
leave the rest as it is. -/
def Cycles : Prop :=
  (∀ k, ∃ n ∈ names, tabs names reverse suffix oldStyle (entry before name after) k =
    some (entry before n after)) ∧
  ∃ p, 0 < p ∧ tabs names reverse suffix oldStyle (entry before name after) p =
      some (entry before name after) ∧
    ∀ n ∈ names, ∃ k < p, tabs names reverse suffix oldStyle (entry before name after) k =
      some (entry before n after)

/-- A completion in reverse takes one back. -/
def TakesBack : Prop :=
  (tab names false suffix oldStyle (entry before name after)).bind
    (tab names true suffix oldStyle) = some (entry before name after)

end Specified

section Steps

variable {names : List (List Char)} {before name after : List Char} {suffix : Char}

theorem addressForm_entry : addressForm (entry before name after).1 suffix = false := by
  have hany : (entry before name after).1.any (fun c => BASE_DELIMS.contains c || c = suffix) =
      true := List.any_eq_true.mpr ⟨' ', by simp [entry], by simp [BASE_DELIMS]⟩
  rw [addressForm, hany]
  rfl

theorem take_entry : (entry before name after).1.take
    (min (entry before name after).2 (entry before name after).1.length) =
      before ++ ' ' :: name := by
  have hle : (entry before name after).2 ≤ (entry before name after).1.length := by
    simp [entry]
    omega
  have hlength : (entry before name after).2 = (before ++ ' ' :: name).length := by
    simp [entry]
    omega
  rw [Nat.min_eq_left hle, hlength, entry, front_eq, List.take_left]

theorem after_entry :
    Chat.after (entry before name after).1 (entry before name after).2 = after := by
  have hparts := List.take_append_drop (min (entry before name after).2
    (entry before name after).1.length) (entry before name after).1
  rw [take_entry] at hparts
  have htext : (entry before name after).1 = (before ++ ' ' :: name) ++ after := front_eq _ _ _
  rw [Chat.after]
  exact List.append_cancel_left (hparts.trans htext)

theorem word_entry (hname : ' ' ∉ name) :
    word (entry before name after).1 (entry before name after).2 suffix = name := by
  rw [word_eq _ _ _ (by rw [addressForm_entry]; exact Bool.false_ne_true), take_entry,
    List.rtakeWhile, List.reverse_append, List.reverse_cons, List.append_assoc]
  have hrun : ∀ c ∈ name.reverse, decide (c ≠ ' ') = true := by
    intro c hc
    rw [decide_eq_true_eq]
    rintro rfl
    exact hname (List.mem_reverse.mp hc)
  rw [List.singleton_append, takeWhile_append hrun (stops_cons (by decide)), List.reverse_reverse]

theorem before_entry (hname : ' ' ∉ name) :
    Chat.before (entry before name after).1 (entry before name after).2 suffix = before := by
  have hword : word (entry before name after).1 (entry before name after).2 suffix = name :=
    word_entry hname
  rcases line_cases (entry before name after).1 (entry before name after).2 suffix with
    ⟨-, -, hfront⟩ | ⟨-, hfront⟩
  · rw [hword, take_entry] at hfront
    refine absurd ?_ hname
    rw [hfront]
    simp
  · rw [hword, take_entry] at hfront
    exact (List.append_cancel_right hfront).symm

theorem cycle_lt {cur len : ℕ} (reverse : Bool) (hlen : 0 < len) : cycle cur len reverse < len := by
  unfold cycle
  split_ifs
  · exact Nat.mod_lt _ hlen
  · exact Nat.mod_lt _ hlen

theorem getElem_cycle (names : List (List Char)) (hname : name ∈ names) (reverse : Bool) :
    names[cycle (names.idxOf name) names.length reverse]? =
      some (neighbour names reverse name) := by
  have hlt : cycle (names.idxOf name) names.length reverse < names.length :=
    cycle_lt reverse (List.length_pos_of_mem hname)
  unfold neighbour
  unfold cycle at hlt ⊢
  cases reverse with
  | true =>
    rw [if_pos rfl] at hlt ⊢
    rw [if_pos rfl, backward, List.getElem?_eq_getElem hlt, Option.getD_some]
  | false =>
    rw [if_neg Bool.false_ne_true] at hlt ⊢
    rw [if_neg Bool.false_ne_true, forward, List.getElem?_eq_getElem hlt, Option.getD_some]

/-- If the line has something else than blanks before a name, only blanks before that go. -/
theorem rebuild_entry (hbefore : ∃ c ∈ before, c ≠ ' ') (name after : List Char) :
    rebuild before name after =
      some { text := (entry (trimStart before) name after).1,
             cursor := some (entry (trimStart before) name after).2, info := [] } := by
  have hsome : (before.dropWhile (· = ' ')).isEmpty = false := by
    rw [List.isEmpty_eq_false_iff, ne_eq, List.dropWhile_eq_nil_iff]
    obtain ⟨c, hc, hne⟩ := hbefore
    exact fun hall => hne (of_decide_eq_true (hall c hc))
  have hlength := congrArg List.length
    (List.takeWhile_append_dropWhile (p := fun c => decide (c = ' ')) (l := before))
  rw [List.length_append] at hlength
  have hpos := List.length_pos_iff.mpr (List.isEmpty_eq_false_iff.mp hsome)
  have hlead : (before ++ ' ' :: (name ++ after)).takeWhile (· = ' ') =
      before.takeWhile (· = ' ') := by
    rw [List.takeWhile_append, if_neg (by omega)]
  have htrim : trimStart (before ++ ' ' :: (name ++ after)) =
      trimStart before ++ ' ' :: (name ++ after) := by
    rw [trimStart, List.dropWhile_append, hsome, if_neg Bool.false_ne_true, trimStart]
  rw [rebuild_eq, hlead, htrim, checkedSub, if_pos (by omega), Option.map_some, entry]
  dsimp only
  rw [trimStart]
  congr 3
  omega

/-- A name among others is replaced by the one next to it. Blanks at the start of the line go. -/
theorem tab_entry (hlength : 1 < names.length) (hname : name ∈ names) (hblank : ' ' ∉ name)
    (hne : name ≠ []) (hbefore : ∃ c ∈ before, c ≠ ' ') (reverse oldStyle : Bool) :
    tab names reverse suffix oldStyle (entry before name after) =
      some (entry (trimStart before) (neighbour names reverse name) after) := by
  have haddress : ¬addressForm (entry before name after).1 suffix = true := by
    rw [addressForm_entry]
    exact Bool.false_ne_true
  rw [tab, completeStyled, word_entry hblank, if_neg hne, if_pos hname, if_pos hlength,
    getElem_cycle names hname, Option.bind_some, single, if_neg haddress, before_entry hblank,
    after_entry, rebuild_entry hbefore]
  rfl

/-- The only name is not replaced. -/
theorem tab_only (hblank : ' ' ∉ name) (reverse oldStyle : Bool) :
    tab [name] reverse suffix oldStyle (entry before name after) =
      some (entry before name after) := by
  rw [tab, completeStyled, word_entry hblank]
  by_cases hne : name = []
  · rw [if_pos hne]
    rfl
  · rw [if_neg hne, if_pos List.mem_cons_self, if_neg (by simp)]
    rfl

end Steps

section Runs

variable {names : List (List Char)} {before name after : List Char} {suffix : Char}

theorem entry_inj {n n' : List Char} (h : entry before n after = entry before n' after) :
    n = n' := by
  have htext := congrArg Prod.fst h
  exact List.append_cancel_right (List.cons.inj (List.append_cancel_left htext)).2

theorem neighbour_mem (hname : name ∈ names) (reverse : Bool) :
    neighbour names reverse name ∈ names := by
  unfold neighbour
  cases reverse with
  | true => exact backward_mem hname
  | false => exact forward_mem hname

theorem trimStart_of_head {s : List Char} (hhead : s.head? ≠ some ' ') : trimStart s = s := by
  cases s with
  | nil => rfl
  | cons c s =>
    have hc : ¬c = ' ' := fun hc => hhead (congrArg some hc)
    rw [trimStart, List.dropWhile_cons, if_neg (by simpa using hc)]

/-- Where no blank begins the line, completions change nothing but the name. -/
theorem tabs_entry (hlength : 1 < names.length) (hname : name ∈ names)
    (hnames : ∀ n ∈ names, n ≠ [] ∧ ' ' ∉ n) (hbefore : ∃ c ∈ before, c ≠ ' ')
    (hhead : before.head? ≠ some ' ') (reverse oldStyle : Bool) (k : ℕ) :
    tabs names reverse suffix oldStyle (entry before name after) k =
      some (entry before ((neighbour names reverse)^[k] name) after) := by
  have htrim := trimStart_of_head hhead
  induction k with
  | zero => rfl
  | succ k ih =>
    have hmem : (neighbour names reverse)^[k] name ∈ names :=
      iterate_mem (fun n hn => neighbour_mem hn reverse) hname k
    obtain ⟨hne, hblank⟩ := hnames _ hmem
    rw [tabs, ih, Option.bind_some, tab_entry hlength hmem hblank hne hbefore, htrim,
      Function.iterate_succ_apply']

/-- Completions cycle exactly if steps come by every name. -/
theorem cycles_iff (hlength : 1 < names.length) (hname : name ∈ names)
    (hnames : ∀ n ∈ names, n ≠ [] ∧ ' ' ∉ n) (hbefore : ∃ c ∈ before, c ≠ ' ')
    (hhead : before.head? ≠ some ' ') (after : List Char) (suffix : Char)
    (reverse oldStyle : Bool) :
    Cycles names reverse suffix oldStyle before name after ↔
      Covers (neighbour names reverse) names name := by
  have htabs : ∀ k, tabs names reverse suffix oldStyle (entry before name after) k =
      some (entry before ((neighbour names reverse)^[k] name) after) :=
    tabs_entry hlength hname hnames hbefore hhead reverse oldStyle
  have hsame : ∀ n k, tabs names reverse suffix oldStyle (entry before name after) k =
      some (entry before n after) ↔ (neighbour names reverse)^[k] name = n := by
    intro n k
    rw [htabs]
    exact ⟨fun h => entry_inj (Option.some.inj h), fun h => by rw [h]⟩
  simp only [Cycles, Covers, hsame]
  refine and_iff_right fun k => ⟨_, ?_, rfl⟩
  exact iterate_mem (fun n hn => neighbour_mem hn reverse) hname k

/-- A completion takes the blanks away that a line begins with. -/
theorem not_cycles (hlength : 1 < names.length) (hname : name ∈ names)
    (hnames : ∀ n ∈ names, n ≠ [] ∧ ' ' ∉ n) (hbefore : ∃ c ∈ before, c ≠ ' ')
    (hhead : before.head? = some ' ') (after : List Char) (suffix : Char)
    (reverse oldStyle : Bool) : ¬Cycles names reverse suffix oldStyle before name after := by
  rintro ⟨hrest, -⟩
  obtain ⟨n, -, hone⟩ := hrest 1
  obtain ⟨hne, hblank⟩ := hnames name hname
  rw [tabs, tabs, Option.bind_some, tab_entry hlength hname hblank hne hbefore] at hone
  have htext : (trimStart before ++ ' ' :: (neighbour names reverse name ++ after)).head? =
      (before ++ ' ' :: (n ++ after)).head? :=
    congrArg (fun e : Entry => e.1.head?) (Option.some.inj hone)
  obtain ⟨c, hc, hcne⟩ := hbefore
  have hsome : trimStart before ≠ [] := by
    rw [trimStart, ne_eq, List.dropWhile_eq_nil_iff]
    exact fun hall => hcne (of_decide_eq_true (hall c hc))
  have hstops : decide (' ' = ' ') = false :=
    stops_append hsome (stops_dropWhile (fun c => decide (c = ' ')) before) ' ' (by
      rw [htext, List.head?_append, hhead]
      rfl)
  cases hstops

/-- Cycling comes by every name in both directions, and back again, exactly if there is only one or
the line begins with no blank and the names are regular. -/
theorem cycles_takesBack_iff (hname : name ∈ names) (hnames : ∀ n ∈ names, n ≠ [] ∧ ' ' ∉ n)
    (hbefore : ∃ c ∈ before, c ≠ ' ') (after : List Char) (suffix : Char) (oldStyle : Bool) :
    (∀ reverse, Cycles names reverse suffix oldStyle before name after) ∧
        TakesBack names suffix oldStyle before name after ↔
      names.length = 1 ∨ before.head? ≠ some ' ' ∧ Regular names := by
  by_cases hone : names.length = 1
  · obtain ⟨only, rfl⟩ := List.length_eq_one_iff.mp hone
    obtain rfl := List.mem_singleton.mp hname
    have hblank := (hnames name hname).2
    have htabs : ∀ reverse k, tabs [name] reverse suffix oldStyle (entry before name after) k =
        some (entry before name after) := by
      intro reverse k
      induction k with
      | zero => rfl
      | succ k ih => rw [tabs, ih, Option.bind_some, tab_only hblank]
    refine iff_of_true ⟨fun reverse => ⟨fun k => ⟨name, hname, htabs reverse k⟩, 1, Nat.one_pos,
      htabs reverse 1, fun n hn => ⟨0, Nat.one_pos, ?_⟩⟩, ?_⟩ (Or.inl hone)
    · rw [List.mem_singleton.mp hn]
      rfl
    · rw [TakesBack, tab_only hblank, Option.bind_some, tab_only hblank]
  · have hlength : 1 < names.length := by
      have hpos := List.length_pos_of_mem hname
      omega
    by_cases hhead : before.head? = some ' '
    · refine iff_of_false (fun h => ?_) ?_
      · exact not_cycles hlength hname hnames hbefore hhead after suffix false oldStyle (h.1 false)
      · rintro (h | h)
        · exact hone h
        · exact h.1 hhead
    · have hcycles := fun reverse =>
        cycles_iff hlength hname hnames hbefore hhead after suffix reverse oldStyle
      have hcovers := covers_iff hname
      constructor
      · rintro ⟨hall, -⟩
        exact Or.inr ⟨hhead, hcovers.mp ⟨(hcycles false).mp (hall false),
          (hcycles true).mp (hall true)⟩⟩
      · rintro (h | ⟨-, hregular⟩)
        · exact absurd h hone
        · obtain ⟨hforward, hbackward⟩ := hcovers.mpr hregular
          refine ⟨fun reverse => ?_, ?_⟩
          · cases reverse with
            | false => exact (hcycles false).mpr hforward
            | true => exact (hcycles true).mpr hbackward
          · obtain ⟨m, hm⟩ := hregular
            have hnext := forward_mem hname
            obtain ⟨hne, hblank⟩ := hnames name hname
            obtain ⟨hne', hblank'⟩ := hnames _ hnext
            have htrim := trimStart_of_head hhead
            rw [TakesBack, tab_entry hlength hname hblank hne hbefore, htrim, Option.bind_some]
            have hback : tab names true suffix oldStyle
                (entry before (neighbour names false name) after) = some (entry (trimStart before)
                  (neighbour names true (neighbour names false name)) after) :=
              tab_entry hlength hnext hblank' hne' hbefore true oldStyle
            rw [htrim] at hback
            exact hback.trans (congrArg (fun n => some (entry before n after))
              (hm.backward_forward hname))

/-- Three names, of which two differ in case only, are cycled through. -/
theorem three_cycle :
    (∀ reverse, Cycles ["Bob".toList, "bob".toList, "carol".toList] reverse ':' false "hi".toList
        "bob".toList " there".toList) ∧
      TakesBack ["Bob".toList, "bob".toList, "carol".toList] ':' false "hi".toList "bob".toList
        " there".toList :=
  (cycles_takesBack_iff (by decide) (by decide) ⟨'h', by decide, by decide⟩ _ _ _).mpr
    (Or.inr ⟨by decide, 3, by decide, by decide, by decide, by decide, by decide, by decide⟩)

/-- A name that is there twice is never left, and blanks at the start of a line are lost. -/
theorem not_cycle :
    ¬((∀ reverse, Cycles ["bob".toList, "bob".toList, "carol".toList] reverse ':' false "hi".toList
        "bob".toList []) ∧
      TakesBack ["bob".toList, "bob".toList, "carol".toList] ':' false "hi".toList
        "bob".toList []) ∧
    ¬((∀ reverse, Cycles ["alice".toList, "bob".toList] reverse ':' false " hi".toList
        "bob".toList []) ∧
      TakesBack ["alice".toList, "bob".toList] ':' false " hi".toList "bob".toList []) := by
  constructor
  · rintro ⟨hall, -⟩
    obtain ⟨-, p, -, -, hvisit⟩ := hall false
    obtain ⟨k, -, hcarol⟩ := hvisit "carol".toList (by decide)
    have hstep : tab ["bob".toList, "bob".toList, "carol".toList] false ':' false
        (entry "hi".toList "bob".toList []) = some (entry "hi".toList "bob".toList []) := by decide
    have hstay : ∀ k, tabs ["bob".toList, "bob".toList, "carol".toList] false ':' false
        (entry "hi".toList "bob".toList []) k = some (entry "hi".toList "bob".toList []) := by
      intro k
      induction k with
      | zero => rfl
      | succ k ih => rw [tabs, ih, Option.bind_some, hstep]
    rw [hstay] at hcarol
    exact absurd hcarol (by decide)
  · rintro ⟨-, hback⟩
    have htrimmed : (tab ["alice".toList, "bob".toList] false ':' false
        (entry " hi".toList "bob".toList [])).bind
          (tab ["alice".toList, "bob".toList] true ':' false) =
        some (entry "hi".toList "bob".toList []) := by decide
    rw [TakesBack, htrimmed] at hback
    exact absurd hback (by decide)

end Runs

end Gtkhx.Chat
