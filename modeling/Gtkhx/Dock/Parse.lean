import Gtkhx.Dock.Grammar
import Gtkhx.Library.Cursor

/-!
# The parser of dock layouts

The cursor is what is left of the text. Every step leaves it where it is or drops bytes that are
there, and it is returned with a failure too.
-/

namespace Gtkhx.Dock

open Cursor Runs Text

def skipWs (c : List UInt8) : List UInt8 := c.dropWhile isSpace

/-- Whether this byte comes next, and the cursor, which is behind it then. -/
def matchByte (ch : UInt8) (c : List UInt8) : Bool × List UInt8 :=
  match skipWs c with
  | [] => (false, [])
  | b :: rest => if b = ch then (true, rest) else (false, b :: rest)

/-- This byte comes next. -/
def expect (ch : UInt8) : Parser UInt8 Unit := fun c =>
  match matchByte ch c with
  | (false, c) => (none, c)
  | (true, c) => (some (), c)

/-- One identifier: whether it has the marker, which it cannot have when another one had it, and
its bytes. -/
def parseId (selected : ℤ) : Parser UInt8 (Bool × List UInt8) := fun c =>
  let marked := c.head? = some (byte '*')
  if marked ∧ 0 ≤ selected then (none, c)
  else
    let c := if marked then skipWs c.tail else c
    if c.takeWhile isIdByte = [] then (none, c)
    else (some (marked, c.takeWhile isIdByte), c.dropWhile isIdByte)

/-- Whether the identifiers of a leaf have ended. -/
def endsIds (c : List UInt8) : Bool :=
  match c with
  | [] => true
  | b :: _ => b = byte ']' || b = byte ':'

/-- The identifiers of a leaf, and which one is selected. -/
def parseIds : ℕ → List (List UInt8) → ℤ → Parser UInt8 (List (List UInt8) × ℤ)
  | 0, _, _, c => (none, c)
  | fuel + 1, ids, selected, c =>
    if endsIds c then (some (ids, selected), c)
    else
      match parseId selected c with
      | (none, c) => (none, c)
      | (some (marked, name), c) =>
        let selected := if marked then (ids.length : ℤ) else selected
        match matchByte (byte ',') c with
        | (false, c) => (some (ids ++ [name], selected), c)
        | (true, c) =>
          if endsIds (skipWs c) then (none, skipWs c)
          else parseIds fuel (ids ++ [name]) selected (skipWs c)

/-- All identifiers of a leaf. -/
def parsePanels : Parser UInt8 (List (List UInt8) × ℤ) := fun c =>
  parseIds (c.length + 1) [] (-1) (skipWs c)

/-- The role of a leaf, if it has one. -/
def parseRole : Parser UInt8 (Option (List UInt8)) := fun c =>
  match matchByte (byte ':') c with
  | (false, c) => (some none, c)
  | (true, c) =>
    if (skipWs c).takeWhile isRoleByte = [] then (none, skipWs c)
    else (some (some ((skipWs c).takeWhile isRoleByte)), (skipWs c).dropWhile isRoleByte)

/-- What comes after a leaf's letter. -/
def parseLeaf : Parser UInt8 ParsedNode :=
  andThen (expect (byte '[')) fun _ =>
  andThen parsePanels fun ids =>
  andThen parseRole fun role =>
  andThen (expect (byte ']')) fun _ c => (some (.leaf ids.1 ids.2 role), c)

/-- What comes after a split's letter. -/
def parseSplit (node : Parser UInt8 ParsedNode) (orientation : Orientation) :
    Parser UInt8 ParsedNode :=
  andThen (expect (byte '(')) fun _ =>
  andThen node fun a =>
  andThen (expect (byte ',')) fun _ =>
  andThen node fun b =>
  andThen (expect (byte ')')) fun _ c => (some (.split orientation a b), c)

def parseNode : ℕ → Parser UInt8 ParsedNode
  | 0, c => (none, c)
  | fuel + 1, c =>
    if skipWs c = [] then (none, [])
    else
      match matchByte (byte 'h') c with
      | (true, c) => parseSplit (parseNode fuel) .horizontal c
      | (false, c) =>
        match matchByte (byte 'v') c with
        | (true, c) => parseSplit (parseNode fuel) .vertical c
        | (false, c) => andThen (expect (byte 'L')) (fun _ => parseLeaf) c

/-- A whole text's layout, and the cursor at the end. -/
def parseText : Parser UInt8 ParsedNode := fun text =>
  match parseNode (text.length + 1) text with
  | (none, c) => (none, skipWs c)
  | (some root, c) => if skipWs c = [] then (some root, skipWs c) else (none, skipWs c)

/-- The layout of a text that is one. -/
def dlParseTree (text : List UInt8) : Option ParsedNode := (parseText text).1

section Steps

variable {c c' r t : List UInt8} {ch b : UInt8}

theorem exists_skipWs (c : List UInt8) : ∃ w : Run isSpace, c = w.1 ++ skipWs c :=
  ⟨⟨c.takeWhile isSpace, fun _ h => List.mem_takeWhile_imp h⟩,
    (List.takeWhile_append_dropWhile).symm⟩

theorem skipWs_run (w : Run isSpace) (hr : Stops isSpace r) : skipWs (w.1 ++ r) = r :=
  dropWhile_append w.2 hr

theorem skipWs_suffix (c : List UInt8) : skipWs c <:+ c := List.dropWhile_suffix _

theorem matchByte_eq_true (h : matchByte ch c = (true, c')) : skipWs c = ch :: c' := by
  unfold matchByte at h
  split at h
  · cases h
  · next b rest heq =>
    split_ifs at h with hb
    · rw [heq, hb, (Prod.mk.inj h).2]
    · cases h

theorem matchByte_eq_false (h : matchByte ch c = (false, c')) : c' = skipWs c := by
  unfold matchByte at h
  split at h
  · next heq =>
    rw [heq, (Prod.mk.inj h).2]
  · next b rest heq =>
    split_ifs at h
    · cases h
    · rw [heq, (Prod.mk.inj h).2]

/-- The byte comes next. -/
theorem matchByte_token (w : Run isSpace) (hb : isSpace ch = false) (t : List UInt8) :
    matchByte ch (w.1 ++ ch :: t) = (true, t) := by
  rw [matchByte, skipWs_run w (stops_cons hb)]
  exact if_pos rfl

/-- Another byte comes next. -/
theorem matchByte_other (w : Run isSpace) (hb : isSpace b = false) (hne : b ≠ ch)
    (t : List UInt8) : matchByte ch (w.1 ++ b :: t) = (false, b :: t) := by
  rw [matchByte, skipWs_run w (stops_cons hb)]
  exact if_neg hne

theorem matchByte_cons (hb : isSpace ch = false) (t : List UInt8) :
    matchByte ch (ch :: t) = (true, t) := matchByte_token Run.none hb t

theorem matchByte_cons_other (hb : isSpace b = false) (hne : b ≠ ch) (t : List UInt8) :
    matchByte ch (b :: t) = (false, b :: t) := matchByte_other Run.none hb hne t

theorem exists_matchByte (h : matchByte ch c = (true, c')) :
    ∃ w : Run isSpace, c = w.1 ++ ch :: c' := by
  obtain ⟨w, hw⟩ := exists_skipWs c
  rw [matchByte_eq_true h] at hw
  exact ⟨w, hw⟩

theorem expect_token (w : Run isSpace) (hb : isSpace ch = false) (t : List UInt8) :
    expect ch (w.1 ++ ch :: t) = (some (), t) := by
  rw [expect, matchByte_token w hb]

theorem expect_cons (hb : isSpace ch = false) (t : List UInt8) :
    expect ch (ch :: t) = (some (), t) := expect_token Run.none hb t

theorem exists_expect (h : expect ch c = (some (), c')) :
    ∃ w : Run isSpace, c = w.1 ++ ch :: c' := by
  unfold expect at h
  cases hmatch : matchByte ch c with
  | mk found c1 =>
    rw [hmatch] at h
    cases found with
    | false => cases h
    | true =>
      rw [(Prod.mk.inj h).2] at hmatch
      exact exists_matchByte hmatch

theorem matchByte_suffix (ch : UInt8) (c : List UInt8) : (matchByte ch c).2 <:+ c := by
  cases h : matchByte ch c with
  | mk found c' =>
    cases found with
    | true =>
      obtain ⟨w, hw⟩ := exists_matchByte h
      exact ⟨w.1 ++ [ch], by rw [hw]; simp⟩
    | false =>
      rw [matchByte_eq_false h]
      exact skipWs_suffix c

theorem narrows_expect (ch : UInt8) : Narrows (expect ch) := by
  intro c
  have hmatch := matchByte_suffix ch c
  unfold expect
  cases h : matchByte ch c with
  | mk found c1 =>
    rw [h] at hmatch
    cases found with
    | false => exact hmatch
    | true => exact hmatch

end Steps

section Complete

variable {r t : List UInt8}

/-- Which panel is selected after these, of which the first is the `n`th. -/
def select (n : ℕ) (sel : ℤ) : List Panel → ℤ
  | [] => sel
  | p :: ps => select (n + 1) (if p.marked then n else sel) ps

theorem select_of_unmarked {ps : List Panel} (h : ps.countP Panel.marked = 0) (n : ℕ)
    (sel : ℤ) : select n sel ps = sel := by
  induction ps generalizing n with
  | nil => rfl
  | cons p ps ih =>
    have hp : ¬p.marked = true := List.countP_eq_zero.mp h p List.mem_cons_self
    rw [List.countP_cons_of_neg hp] at h
    rw [select, if_neg hp, ih h]

theorem select_eq {ps : List Panel} (h : ps.countP Panel.marked ≤ 1) (n : ℕ) (sel : ℤ) :
    select n sel ps = match ps.findIdx? Panel.marked with
      | some i => ((n + i : ℕ) : ℤ)
      | none => sel := by
  induction ps generalizing n with
  | nil => rfl
  | cons p ps ih =>
    rw [select, List.findIdx?_cons]
    by_cases hp : p.marked = true
    · rw [List.countP_cons_of_pos hp] at h
      rw [if_pos hp, if_pos hp, select_of_unmarked (by omega)]
      rfl
    · rw [List.countP_cons_of_neg hp] at h
      rw [if_neg hp, if_neg hp, ih h]
      cases ps.findIdx? Panel.marked with
      | none => rfl
      | some i =>
        rw [Option.map_some]
        dsimp only
        rw [Nat.add_right_comm, Nat.add_assoc]

theorem select_eq_selected {ps : List Panel} (h : ps.countP Panel.marked ≤ 1) :
    select 0 (-1) ps = selected ps := by
  rw [select_eq h, selected]
  cases ps.findIdx? Panel.marked with
  | none => rfl
  | some i => simp only [Nat.zero_add]

/-- One identifier is parsed. -/
theorem parseId_core (p : Panel) {sel : ℤ} (hsel : p.marked = true → sel < 0)
    (hr : Stops isIdByte r) :
    parseId sel (p.core ++ r) = (some (p.marked, p.name.1), r) := by
  obtain ⟨before, marker, name⟩ := p
  have hname : ((name.1 ++ r).takeWhile isIdByte = name.1) ∧
      (name.1 ++ r).dropWhile isIdByte = r :=
    ⟨takeWhile_append name.2.2 hr, dropWhile_append name.2.2 hr⟩
  cases marker with
  | none =>
    have hhead : ¬(name.1 ++ r).head? = some (byte '*') := by
      intro hhead
      obtain ⟨t, ht⟩ := List.head?_eq_some_iff.mp hhead
      exact word_ne_marker name t r ht
    simp only [parseId, Panel.core, hhead, false_and, if_false, decide_false, hname,
      if_neg name.2.1]
    rfl
  | some w =>
    have hneg : ¬0 ≤ sel := by
      have hlt := hsel rfl
      omega
    have hskip : skipWs (w.1 ++ (name.1 ++ r)) = name.1 ++ r :=
      skipWs_run w (stops_word (fun _ => not_isSpace_of_isIdByte) name r)
    simp only [parseId, Panel.core, List.cons_append, List.append_assoc, List.head?_cons, hneg,
      and_false, if_false, List.tail_cons, if_true, hskip, hname, if_neg name.2.1, decide_true]
    rfl

theorem endsIds_core (p : Panel) (r : List UInt8) : endsIds (p.core ++ r) = false := by
  cases h : p.core ++ r with
  | nil =>
    have hcore := (List.append_eq_nil_iff.mp h).1
    unfold Panel.core at hcore
    cases hm : p.marker with
    | none =>
      rw [hm] at hcore
      exact absurd hcore p.name.2.1
    | some w =>
      rw [hm] at hcore
      cases hcore
  | cons b t =>
    rw [endsIds, Bool.or_eq_false_iff, decide_eq_false_iff_not, decide_eq_false_iff_not]
    exact ⟨fun hb => core_ne p (Or.inr hb) r t h, fun hb => core_ne p (Or.inl hb) r t h⟩

theorem skipWs_of_endsPanels (hr : EndsPanels r) :
    endsIds (skipWs r) = true ∧ matchByte (byte ',') r = (false, skipWs r) := by
  obtain ⟨w, b, t, hb, rfl⟩ := hr
  have hspace : isSpace b = false ∧ b ≠ byte ',' := by
    rcases hb with rfl | rfl <;> decide
  rw [matchByte_other w hspace.1 hspace.2, skipWs_run w (stops_cons hspace.1)]
  rcases hb with rfl | rfl
  · exact ⟨rfl, rfl⟩
  · exact ⟨rfl, rfl⟩

/-- Identifiers are parsed, of which one at most has the marker. -/
theorem parseIds_more (p : Panel) (more : List (Run isSpace × Panel)) (hr : EndsPanels r)
    {fuel : ℕ} (hfuel : more.length < fuel) (ids : List (List UInt8)) {sel : ℤ}
    (hone : (if 0 ≤ sel then 1 else 0) +
      (p :: more.map Prod.snd).countP Panel.marked ≤ 1) :
    parseIds fuel ids sel (p.core ++ (moreText more ++ r)) =
      (some (ids ++ (p :: more.map Prod.snd).map (·.name.1),
        select ids.length sel (p :: more.map Prod.snd)), skipWs r) := by
  induction more generalizing p fuel ids sel with
  | nil =>
    obtain ⟨fuel, rfl⟩ := Nat.exists_eq_add_one.mpr hfuel
    have hsel : p.marked = true → sel < 0 := by
      intro hp
      rw [List.map_nil, List.countP_cons_of_pos hp] at hone
      split_ifs at hone <;> omega
    rw [parseIds, endsIds_core, if_neg Bool.false_ne_true,
      parseId_core p hsel (stops_more [] hr)]
    simp only [moreText, List.flatMap_nil, List.nil_append, (skipWs_of_endsPanels hr).2]
    rfl
  | cons m more ih =>
    obtain ⟨w, q⟩ := m
    rw [List.length_cons] at hfuel
    obtain ⟨fuel, rfl⟩ : ∃ n, fuel = n + 1 := Nat.exists_eq_add_one.mpr (by omega)
    have hsel : p.marked = true → sel < 0 := by
      intro hp
      rw [List.countP_cons_of_pos hp] at hone
      split_ifs at hone <;> omega
    have hmore : moreText ((w, q) :: more) ++ r =
        w.1 ++ byte ',' :: (q.before.1 ++ (q.core ++ (moreText more ++ r))) := by
      simp [moreText, Panel.text]
    have hskip : skipWs (q.before.1 ++ (q.core ++ (moreText more ++ r))) =
        q.core ++ (moreText more ++ r) := skipWs_run q.before (stops_core q _)
    have hnext : (if 0 ≤ (if p.marked = true then (ids.length : ℤ) else sel) then 1 else 0) +
        (q :: more.map Prod.snd).countP Panel.marked ≤ 1 := by
      rw [List.map_cons] at hone
      dsimp only at hone
      by_cases hp : p.marked = true
      · rw [List.countP_cons_of_pos hp] at hone
        rw [if_pos hp, if_pos (Int.natCast_nonneg ids.length)]
        omega
      · rw [List.countP_cons_of_neg hp] at hone
        rw [if_neg hp]
        exact hone
    rw [parseIds, endsIds_core, if_neg Bool.false_ne_true,
      parseId_core p hsel (stops_more _ hr), hmore]
    simp only [matchByte_token w (by decide : isSpace (byte ',') = false), hskip, endsIds_core,
      Bool.false_eq_true, if_false]
    have hlast : more.length < fuel := by omega
    rw [ih q hlast (ids ++ [p.name.1]) hnext]
    simp [select]

theorem parseRole_text (role : Role) (close : Run isSpace) (t : List UInt8) :
    ∃ c, parseRole (skipWs (role.text ++ (close.1 ++ byte ']' :: t))) =
      (some (role.map (·.2.2.1)), c) ∧ expect (byte ']') c = (some (), t) := by
  cases role with
  | none =>
    have hskip : skipWs (close.1 ++ byte ']' :: t) = byte ']' :: t :=
      skipWs_run close (stops_cons (by decide))
    refine ⟨byte ']' :: t, ?_, expect_cons (by decide) t⟩
    rw [Role.text, List.nil_append, hskip, parseRole, matchByte_cons_other (by decide) (by decide)]
    rfl
  | some role =>
    obtain ⟨w, v, name⟩ := role
    have htext : Role.text (some (w, v, name)) ++ (close.1 ++ byte ']' :: t) =
        w.1 ++ byte ':' :: (v.1 ++ (name.1 ++ (close.1 ++ byte ']' :: t))) := by
      simp [Role.text]
    have hskip : skipWs (v.1 ++ (name.1 ++ (close.1 ++ byte ']' :: t))) =
        name.1 ++ (close.1 ++ byte ']' :: t) :=
      skipWs_run v (stops_word (fun _ => not_isSpace_of_isRoleByte) name _)
    have hstops : Stops isRoleByte (close.1 ++ byte ']' :: t) :=
      stops_token (fun _ => not_isSpace_of_isRoleByte) close (by decide) t
    refine ⟨close.1 ++ byte ']' :: t, ?_, expect_token close (by decide) t⟩
    have hcolon : skipWs (w.1 ++ byte ':' :: (v.1 ++ (name.1 ++ (close.1 ++ byte ']' :: t)))) =
        byte ':' :: (v.1 ++ (name.1 ++ (close.1 ++ byte ']' :: t))) :=
      skipWs_run w (stops_cons (by decide))
    rw [htext, hcolon, parseRole, matchByte_cons (by decide)]
    simp only [hskip, takeWhile_append name.2.2 hstops, dropWhile_append name.2.2 hstops,
      if_neg name.2.1]
    rfl

theorem length_moreText (more : List (Run isSpace × Panel)) :
    more.length ≤ (moreText more).length := by
  induction more with
  | nil => exact Nat.zero_le _
  | cons m more ih =>
    rw [moreText, List.flatMap_cons, List.length_append, List.length_append, List.length_cons,
      List.length_cons]
    rw [moreText] at ih
    omega

/-- The identifiers of a leaf are parsed. -/
theorem parsePanels_text {panels : Panels} (hone : panels.list.countP Panel.marked ≤ 1)
    (hr : EndsPanels r) :
    parsePanels (panels.text ++ r) =
      (some (panels.list.map (·.name.1), selected panels.list), skipWs r) := by
  rw [parsePanels]
  cases panels with
  | none =>
    rw [Panels.text, List.nil_append, parseIds, (skipWs_of_endsPanels hr).1, if_pos rfl]
    rfl
  | some ps =>
    obtain ⟨p, more⟩ := ps
    have htext : Panels.text (some (p, more)) ++ r =
        p.before.1 ++ (p.core ++ (moreText more ++ r)) := by
      simp [Panels.text, Panel.text]
    have hlength := length_moreText more
    have hfuel : more.length <
        (p.before.1 ++ (p.core ++ (moreText more ++ r))).length + 1 := by
      simp only [List.length_append]
      omega
    rw [Panels.list] at hone
    rw [htext, skipWs_run p.before (stops_core p _), parseIds_more p more hr hfuel [] (by
      rw [if_neg (by omega), Nat.zero_add]
      exact hone), List.nil_append, List.length_nil, select_eq_selected hone]
    rfl

/-- A leaf is parsed. -/
theorem parseLeaf_text (l : Leaf) (t : List UInt8) :
    parseLeaf (l.bracket.1 ++ byte '[' :: (l.panels.text ++
      (l.role.text ++ (l.close.1 ++ byte ']' :: t)))) = (some (Derivation.leaf l).tree, t) := by
  obtain ⟨c, hrole, hclose⟩ := parseRole_text l.role l.close t
  have hids := parsePanels_text l.one (endsPanels_role l.role l.close t)
  rw [parseLeaf, andThen_of_eq _ (expect_token l.bracket (by decide) _), andThen_of_eq _ hids,
    andThen_of_eq _ hrole, andThen_of_eq _ hclose]
  rfl

/-- How deep a derivation is. -/
def Derivation.depth : Derivation → ℕ
  | leaf _ => 1
  | split _ _ _ _ _ a b => max a.depth b.depth + 1

theorem Derivation.depth_le (d : Derivation) : d.depth ≤ d.text.length := by
  induction d with
  | leaf l =>
    simp only [depth, text, Leaf.text, List.length_append, List.length_cons]
    omega
  | split o letter bracket comma close a b iha ihb =>
    simp only [depth, text, List.length_append, List.length_cons]
    omega

/-- A layout is parsed. -/
theorem parseNode_text (d : Derivation) {fuel : ℕ} (hfuel : d.depth ≤ fuel) (t : List UInt8) :
    parseNode fuel (d.text ++ t) = (some d.tree, t) := by
  induction d generalizing fuel t with
  | leaf l =>
    obtain ⟨fuel, rfl⟩ := Nat.exists_eq_add_one.mpr hfuel
    have htext : (Derivation.leaf l).text ++ t = l.letter.1 ++ byte 'L' ::
        (l.bracket.1 ++ byte '[' :: (l.panels.text ++
          (l.role.text ++ (l.close.1 ++ byte ']' :: t)))) := by
      simp [Derivation.text, Leaf.text]
    rw [htext, parseNode, skipWs_run l.letter (stops_cons (by decide)),
      if_neg (List.cons_ne_nil _ _),
      matchByte_other l.letter (by decide) (show byte 'L' ≠ byte 'h' by decide)]
    dsimp only
    rw [matchByte_cons_other (by decide) (show byte 'L' ≠ byte 'v' by decide)]
    dsimp only
    rw [andThen_of_eq _ (expect_cons (by decide) _)]
    exact parseLeaf_text l t
  | split o letter bracket comma close a b iha ihb =>
    rw [Derivation.depth] at hfuel
    obtain ⟨fuel, rfl⟩ : ∃ n, fuel = n + 1 := Nat.exists_eq_add_one.mpr (by omega)
    have htext : (Derivation.split o letter bracket comma close a b).text ++ t =
        letter.1 ++ o.letter :: (bracket.1 ++ byte '(' ::
          (a.text ++ (comma.1 ++ byte ',' :: (b.text ++ (close.1 ++ byte ')' :: t))))) := by
      simp [Derivation.text]
    have hsplit : parseSplit (parseNode fuel) o (bracket.1 ++ byte '(' ::
        (a.text ++ (comma.1 ++ byte ',' :: (b.text ++ (close.1 ++ byte ')' :: t))))) =
          (some (.split o a.tree b.tree), t) := by
      rw [parseSplit, andThen_of_eq _ (expect_token bracket (by decide) _),
        andThen_of_eq _ (iha (by omega) _), andThen_of_eq _ (expect_token comma (by decide) _),
        andThen_of_eq _ (ihb (by omega) _), andThen_of_eq _ (expect_token close (by decide) _)]
    rw [htext, parseNode, skipWs_run letter (stops_cons o.letter_spec.1),
      if_neg (List.cons_ne_nil _ _)]
    cases o with
    | horizontal =>
      rw [Orientation.letter, matchByte_token letter (by decide)]
      exact hsplit
    | vertical =>
      rw [Orientation.letter,
        matchByte_other letter (by decide) (show byte 'v' ≠ byte 'h' by decide)]
      dsimp only
      rw [matchByte_cons (by decide)]
      exact hsplit

/-- Every derivation's text is parsed as its tree. -/
theorem parseText_text (d : Derivation) (w : Run isSpace) :
    parseText (d.text ++ w.1) = (some d.tree, []) := by
  have hdepth := d.depth_le
  have hfuel : d.depth ≤ (d.text ++ w.1).length + 1 := by
    rw [List.length_append]
    omega
  have hskip : skipWs w.1 = [] := by
    have hrun := skipWs_run w stops_nil
    rwa [List.append_nil] at hrun
  rw [parseText, parseNode_text d hfuel]
  dsimp only
  rw [hskip, if_pos rfl]

end Complete

section Sound

variable {c c' : List UInt8}

/-- White space and more of it. -/
def appendRun (w v : Run isSpace) : Run isSpace :=
  ⟨w.1 ++ v.1, fun b hb => (List.mem_append.mp hb).elim (w.2 b) (v.2 b)⟩

theorem core_before (p : Panel) (w : Run isSpace) :
    ({ p with before := w } : Panel).core = p.core := rfl

/-- What is parsed as an identifier is one. -/
theorem parseId_sound {sel : ℤ} {marked : Bool} {name : List UInt8}
    (h : parseId sel c = (some (marked, name), c')) :
    ∃ p : Panel, c = p.core ++ c' ∧ p.marked = marked ∧ p.name.1 = name ∧
      (marked = true → sel < 0) := by
  have hword : ∀ {s : List UInt8}, s.takeWhile isIdByte ≠ [] →
      s = s.takeWhile isIdByte ++ s.dropWhile isIdByte ∧
        ∀ b ∈ s.takeWhile isIdByte, isIdByte b = true :=
    fun _ => ⟨(List.takeWhile_append_dropWhile).symm, fun _ hb => List.mem_takeWhile_imp hb⟩
  unfold parseId at h
  by_cases hhead : c.head? = some (byte '*')
  · obtain ⟨t, rfl⟩ := List.head?_eq_some_iff.mp hhead
    simp only [List.head?_cons, true_and, decide_true, if_true, List.tail_cons] at h
    split_ifs at h with hsel hname
    · cases h
    · cases h
    · obtain ⟨w, hw⟩ := exists_skipWs t
      obtain ⟨hsplit, hall⟩ := hword hname
      obtain ⟨hfound, rfl⟩ := Prod.mk.inj h
      obtain ⟨rfl, rfl⟩ := Prod.mk.inj (Option.some.inj hfound)
      refine ⟨⟨Run.none, some w, ⟨_, hname, hall⟩⟩, ?_, rfl, rfl, fun _ => by omega⟩
      rw [Panel.core, List.cons_append, List.append_assoc, ← hsplit, ← hw]
  · simp only [hhead, false_and, if_false, decide_false] at h
    split_ifs at h with hname
    · cases h
    · obtain ⟨hsplit, hall⟩ := hword hname
      obtain ⟨hfound, rfl⟩ := Prod.mk.inj h
      obtain ⟨rfl, rfl⟩ := Prod.mk.inj (Option.some.inj hfound)
      exact ⟨⟨Run.none, none, ⟨_, hname, hall⟩⟩, hsplit, rfl, rfl, fun hmarked => by cases hmarked⟩

/-- What is parsed as identifiers is some, of which one at most has the marker. -/
theorem parseIds_sound {fuel : ℕ} {ids ids' : List (List UInt8)} {sel sel' : ℤ}
    (h : parseIds fuel ids sel c = (some (ids', sel'), c')) :
    endsIds c = true ∧ ids' = ids ∧ sel' = sel ∧ c' = c ∨
      ∃ (p : Panel) (more : List (Run isSpace × Panel)) (w : Run isSpace),
        c = p.core ++ (moreText more ++ (w.1 ++ c')) ∧
        ids' = ids ++ (p :: more.map Prod.snd).map (·.name.1) ∧
        sel' = select ids.length sel (p :: more.map Prod.snd) ∧
        (if 0 ≤ sel then 1 else 0) + (p :: more.map Prod.snd).countP Panel.marked ≤ 1 := by
  induction fuel generalizing ids sel c with
  | zero => cases h
  | succ fuel ih =>
    rw [parseIds] at h
    split_ifs at h with hends
    · obtain ⟨hfound, rfl⟩ := Prod.mk.inj h
      obtain ⟨rfl, rfl⟩ := Prod.mk.inj (Option.some.inj hfound)
      exact Or.inl ⟨hends, rfl, rfl, rfl⟩
    · right
      cases hid : parseId sel c with
      | mk found c1 =>
        rw [hid] at h
        cases found with
        | none => cases h
        | some id =>
          obtain ⟨marked, name⟩ := id
          obtain ⟨p, rfl, rfl, rfl, hsel⟩ := parseId_sound hid
          have hmarks : (if 0 ≤ sel then 1 else 0) + (if p.marked = true then 1 else 0) ≤ 1 := by
            split_ifs with hge hmarked
            · have hlt := hsel hmarked
              omega
            · omega
            · omega
            · omega
          dsimp only at h
          cases hcomma : matchByte (byte ',') c1 with
          | mk found c2 =>
            rw [hcomma] at h
            cases found with
            | false =>
              obtain ⟨hfound, rfl⟩ := Prod.mk.inj h
              obtain ⟨rfl, rfl⟩ := Prod.mk.inj (Option.some.inj hfound)
              obtain ⟨w, hw⟩ := exists_skipWs c1
              rw [← matchByte_eq_false hcomma] at hw
              refine ⟨p, [], w, by rw [hw]; rfl, rfl, rfl, ?_⟩
              rw [List.map_nil, List.countP_cons, List.countP_nil, Nat.zero_add]
              exact hmarks
            | true =>
              obtain ⟨w, rfl⟩ := exists_matchByte hcomma
              obtain ⟨v, hv⟩ := exists_skipWs c2
              dsimp only at h
              by_cases hnext : endsIds (skipWs c2) = true
              · rw [if_pos hnext] at h
                cases h
              · rw [if_neg hnext] at h
                rcases ih h with ⟨hends', -⟩ | ⟨q, more, u, hc, hids, hselected, hone⟩
                · exact absurd hends' hnext
                · refine ⟨p, (w, { q with before := v }) :: more, u, ?_, ?_, ?_, ?_⟩
                  · rw [hv, hc]
                    simp [moreText, Panel.text, core_before]
                  · rw [hids]
                    simp
                  · rw [hselected, List.length_append]
                    rfl
                  · rw [List.map_cons, List.countP_cons]
                    have hcount : (({ q with before := v } : Panel) ::
                        more.map Prod.snd).countP Panel.marked =
                          (q :: more.map Prod.snd).countP Panel.marked := by
                      rw [List.countP_cons, List.countP_cons]
                      rfl
                    dsimp only
                    rw [hcount]
                    split_ifs at hone hmarks ⊢ <;> omega

/-- What is parsed as a role is one. -/
theorem parseRole_sound {role' : Option (List UInt8)} (h : parseRole c = (some role', c')) :
    ∃ (role : Role) (w : Run isSpace), c = role.text ++ (w.1 ++ c') ∧
      role.map (·.2.2.1) = role' := by
  unfold parseRole at h
  cases hcolon : matchByte (byte ':') c with
  | mk found c1 =>
    rw [hcolon] at h
    cases found with
    | false =>
      obtain ⟨hfound, rfl⟩ := Prod.mk.inj h
      obtain rfl := Option.some.inj hfound
      obtain ⟨w, hw⟩ := exists_skipWs c
      rw [← matchByte_eq_false hcolon] at hw
      exact ⟨none, w, hw, rfl⟩
    | true =>
      obtain ⟨w, rfl⟩ := exists_matchByte hcolon
      obtain ⟨v, hv⟩ := exists_skipWs c1
      dsimp only at h
      split_ifs at h with hname
      · cases h
      · obtain ⟨hfound, rfl⟩ := Prod.mk.inj h
        obtain rfl := Option.some.inj hfound
        refine ⟨some (w, v, ⟨_, hname, fun _ hb => List.mem_takeWhile_imp hb⟩), Run.none, ?_, rfl⟩
        have hrest := List.takeWhile_append_dropWhile (p := isRoleByte) (l := skipWs c1)
        conv_lhs => rw [hv, ← hrest]
        simp [Role.text, Run.none]

/-- White space before a role or the bracket belongs to it. -/
theorem role_absorb (w : Run isSpace) (role : Role) (close : Run isSpace) (t : List UInt8) :
    ∃ (role' : Role) (close' : Run isSpace),
      w.1 ++ (role.text ++ (close.1 ++ t)) = role'.text ++ (close'.1 ++ t) ∧
        role'.map (·.2.2.1) = role.map (·.2.2.1) := by
  cases role with
  | none => exact ⟨none, appendRun w close, by simp [Role.text, appendRun], rfl⟩
  | some role =>
    obtain ⟨u, v, name⟩ := role
    exact ⟨some (appendRun w u, v, name), close, by simp [Role.text, appendRun], rfl⟩

/-- What is parsed as a leaf is one. -/
theorem parseLeaf_sound {t : ParsedNode} (h : parseLeaf c = (some t, c')) (w : Run isSpace) :
    ∃ l : Leaf, w.1 ++ byte 'L' :: c = l.text ++ c' ∧ (Derivation.leaf l).tree = t := by
  obtain ⟨_, c1, hbracket, h1⟩ := exists_of_andThen h
  obtain ⟨⟨ids, sel⟩, c2, hids, h2⟩ := exists_of_andThen h1
  obtain ⟨role', c3, hrole, h3⟩ := exists_of_andThen h2
  obtain ⟨_, c4, hclose, h4⟩ := exists_of_andThen h3
  obtain ⟨ht, rfl⟩ := Prod.mk.inj h4
  obtain rfl := Option.some.inj ht
  obtain ⟨bracket, rfl⟩ := exists_expect hbracket
  obtain ⟨v, hv⟩ := exists_skipWs c1
  obtain ⟨role, w3, rfl, rfl⟩ := parseRole_sound hrole
  obtain ⟨w4, rfl⟩ := exists_expect hclose
  rcases parseIds_sound hids with ⟨-, rfl, rfl, hc2⟩ | ⟨p, more, u, hc2, rfl, rfl, hone⟩
  · obtain ⟨role', close', htext, hmap⟩ :=
      role_absorb v role (appendRun w3 w4) (byte ']' :: c4)
    refine ⟨⟨w, bracket, none, role', close', Nat.zero_le _⟩, ?_, ?_⟩
    · have happend : (appendRun w3 w4).1 ++ byte ']' :: c4 =
          w3.1 ++ (w4.1 ++ byte ']' :: c4) := List.append_assoc _ _ _
      rw [happend] at htext
      rw [hv, ← hc2, htext]
      simp [Leaf.text, Panels.text]
    · rw [Derivation.tree, hmap]
      rfl
  · obtain ⟨role', close', htext, hmap⟩ :=
      role_absorb u role (appendRun w3 w4) (byte ']' :: c4)
    rw [if_neg (by omega), Nat.zero_add] at hone
    have hcount : (({ p with before := v } : Panel) ::
        more.map Prod.snd).countP Panel.marked ≤ 1 := by
      rw [List.countP_cons] at hone ⊢
      exact hone
    refine ⟨⟨w, bracket, some ({ p with before := v }, more), role', close', hcount⟩, ?_, ?_⟩
    · have happend : (appendRun w3 w4).1 ++ byte ']' :: c4 =
          w3.1 ++ (w4.1 ++ byte ']' :: c4) := List.append_assoc _ _ _
      rw [happend] at htext
      rw [hv, hc2, htext]
      simp [Leaf.text, Panels.text, Panel.text, core_before]
    · rw [Derivation.tree, hmap, List.nil_append, List.length_nil]
      have hselect : select 0 (-1) (p :: more.map Prod.snd) =
          select 0 (-1) (({ p with before := v } : Panel) :: more.map Prod.snd) := rfl
      rw [hselect, select_eq_selected hcount]
      rfl

/-- What is parsed as a split is one, if what is parsed as its parts is. -/
theorem parseSplit_sound {node : Parser UInt8 ParsedNode}
    (hnode : ∀ {c c' : List UInt8} {t : ParsedNode}, node c = (some t, c') →
      ∃ d : Derivation, c = d.text ++ c' ∧ d.tree = t)
    {orientation : Orientation} {t : ParsedNode}
    (h : parseSplit node orientation c = (some t, c')) (w : Run isSpace) :
    ∃ d : Derivation, w.1 ++ orientation.letter :: c = d.text ++ c' ∧ d.tree = t := by
  obtain ⟨_, c1, hbracket, h1⟩ := exists_of_andThen h
  obtain ⟨a, c2, ha, h2⟩ := exists_of_andThen h1
  obtain ⟨_, c3, hcomma, h3⟩ := exists_of_andThen h2
  obtain ⟨b, c4, hb, h4⟩ := exists_of_andThen h3
  obtain ⟨_, c5, hclose, h5⟩ := exists_of_andThen h4
  obtain ⟨ht, rfl⟩ := Prod.mk.inj h5
  obtain rfl := Option.some.inj ht
  obtain ⟨bracket, rfl⟩ := exists_expect hbracket
  obtain ⟨a, rfl, rfl⟩ := hnode ha
  obtain ⟨comma, rfl⟩ := exists_expect hcomma
  obtain ⟨b, rfl, rfl⟩ := hnode hb
  obtain ⟨close, rfl⟩ := exists_expect hclose
  exact ⟨.split orientation w bracket comma close a b, by simp [Derivation.text], rfl⟩

/-- What is parsed as a layout is one. -/
theorem parseNode_sound {fuel : ℕ} {t : ParsedNode} (h : parseNode fuel c = (some t, c')) :
    ∃ d : Derivation, c = d.text ++ c' ∧ d.tree = t := by
  induction fuel generalizing c c' t with
  | zero => cases h
  | succ fuel ih =>
    rw [parseNode] at h
    by_cases hempty : skipWs c = []
    · rw [if_pos hempty] at h
      cases h
    rw [if_neg hempty] at h
    cases hh : matchByte (byte 'h') c with
    | mk found c1 =>
    rw [hh] at h
    cases found with
    | true =>
      obtain ⟨w, rfl⟩ := exists_matchByte hh
      exact parseSplit_sound ih h w
    | false =>
    obtain ⟨w, hw⟩ := exists_skipWs c
    rw [← matchByte_eq_false hh] at hw
    dsimp only at h
    cases hv : matchByte (byte 'v') c1 with
    | mk found c2 =>
    rw [hv] at h
    cases found with
    | true =>
      obtain ⟨v, rfl⟩ := exists_matchByte hv
      obtain ⟨d, hd, htree⟩ := parseSplit_sound ih h (appendRun w v)
      refine ⟨d, ?_, htree⟩
      rw [hw, ← hd]
      exact (List.append_assoc _ _ _).symm
    | false =>
    obtain ⟨v, hv'⟩ := exists_skipWs c1
    rw [← matchByte_eq_false hv] at hv'
    dsimp only at h
    obtain ⟨_, c3, hl, hleaf⟩ := exists_of_andThen h
    obtain ⟨u, rfl⟩ := exists_expect hl
    obtain ⟨l, hl', htree⟩ := parseLeaf_sound hleaf (appendRun w (appendRun v u))
    refine ⟨.leaf l, ?_, htree⟩
    rw [hw, hv', Derivation.text, ← hl']
    simp [appendRun]

/-- What is parsed is a derivation's text and white space. -/
theorem parseText_sound {t : ParsedNode} (h : (parseText c).1 = some t) :
    ∃ (d : Derivation) (w : Run isSpace), c = d.text ++ w.1 ∧ d.tree = t := by
  unfold parseText at h
  cases hnode : parseNode (c.length + 1) c with
  | mk found c' =>
    rw [hnode] at h
    cases found with
    | none => cases h
    | some root =>
      dsimp only at h
      split_ifs at h with hend
      obtain rfl := Option.some.inj h
      obtain ⟨d, hd, htree⟩ := parseNode_sound hnode
      obtain ⟨w, hw⟩ := exists_skipWs c'
      rw [hend, List.append_nil] at hw
      exact ⟨d, w, by rw [hd, hw], htree⟩

end Sound

section Narrowing

theorem narrows_parseId (sel : ℤ) : Narrows (parseId sel) := by
  intro c
  have hmarker := (skipWs_suffix c.tail).trans (List.tail_suffix c)
  unfold parseId
  by_cases hhead : c.head? = some (byte '*')
  · simp only [hhead, true_and, decide_true, if_true]
    split_ifs
    · exact List.suffix_refl c
    · exact hmarker
    · exact (List.dropWhile_suffix _).trans hmarker
  · simp only [hhead, false_and, if_false, decide_false]
    split_ifs
    · exact List.suffix_refl c
    · exact List.dropWhile_suffix _

theorem narrows_parseIds (fuel : ℕ) (ids : List (List UInt8)) (sel : ℤ) :
    Narrows (parseIds fuel ids sel) := by
  induction fuel generalizing ids sel with
  | zero => exact List.suffix_refl
  | succ fuel ih =>
    intro c
    rw [parseIds]
    split_ifs
    · exact List.suffix_refl c
    · have hid := narrows_parseId sel c
      cases h : parseId sel c with
      | mk found c1 =>
        rw [h] at hid
        cases found with
        | none => exact hid
        | some id =>
          have hcomma := matchByte_suffix (byte ',') c1
          dsimp only
          cases h : matchByte (byte ',') c1 with
          | mk found c2 =>
            rw [h] at hcomma
            cases found with
            | false => exact hcomma.trans hid
            | true =>
              have hskip := ((skipWs_suffix c2).trans hcomma).trans hid
              dsimp only
              by_cases hnext : endsIds (skipWs c2) = true
              · rw [if_pos hnext]
                exact hskip
              · rw [if_neg hnext]
                exact (ih _ _ _).trans hskip

theorem narrows_parsePanels : Narrows parsePanels := fun c =>
  (narrows_parseIds _ _ _ _).trans (skipWs_suffix c)

theorem narrows_parseRole : Narrows parseRole := by
  intro c
  have hcolon := matchByte_suffix (byte ':') c
  unfold parseRole
  cases h : matchByte (byte ':') c with
  | mk found c1 =>
    rw [h] at hcolon
    have hskip := (skipWs_suffix c1).trans hcolon
    cases found with
    | false => exact hcolon
    | true =>
      dsimp only
      split_ifs
      · exact hskip
      · exact (List.dropWhile_suffix _).trans hskip

theorem narrows_parseLeaf : Narrows parseLeaf :=
  narrows_andThen (narrows_expect _) fun _ =>
    narrows_andThen narrows_parsePanels fun _ =>
      narrows_andThen narrows_parseRole fun _ =>
        narrows_andThen (narrows_expect _) fun _ => narrows_done _

theorem narrows_parseSplit {node : Parser UInt8 ParsedNode} (hnode : Narrows node)
    (orientation : Orientation) : Narrows (parseSplit node orientation) :=
  narrows_andThen (narrows_expect _) fun _ =>
    narrows_andThen hnode fun _ =>
      narrows_andThen (narrows_expect _) fun _ =>
        narrows_andThen hnode fun _ =>
          narrows_andThen (narrows_expect _) fun _ => narrows_done _

theorem narrows_parseNode (fuel : ℕ) : Narrows (parseNode fuel) := by
  induction fuel with
  | zero => exact List.suffix_refl
  | succ fuel ih =>
    intro c
    rw [parseNode]
    split_ifs
    · exact List.nil_suffix
    · have hh := matchByte_suffix (byte 'h') c
      cases h : matchByte (byte 'h') c with
      | mk found c1 =>
        rw [h] at hh
        cases found with
        | true => exact (narrows_parseSplit ih _ c1).trans hh
        | false =>
          have hv := (matchByte_suffix (byte 'v') c1).trans hh
          dsimp only
          cases h : matchByte (byte 'v') c1 with
          | mk found c2 =>
            rw [h] at hv
            cases found with
            | true => exact (narrows_parseSplit ih _ c2).trans hv
            | false =>
              exact (narrows_andThen (narrows_expect _) (fun _ => narrows_parseLeaf) c2).trans hv

/-- The cursor stays in the text. -/
theorem narrows_parseText : Narrows parseText := by
  intro text
  have hnode := narrows_parseNode (text.length + 1) text
  unfold parseText
  cases h : parseNode (text.length + 1) text with
  | mk found c =>
    rw [h] at hnode
    have hskip := (skipWs_suffix c).trans hnode
    cases found with
    | none => exact hskip
    | some root =>
      dsimp only
      split_ifs
      · exact hskip
      · exact hskip

end Narrowing

section Exact

/-- A text is parsed as a tree exactly if it is that of a derivation of the tree and white space
after it. It is that of one only, the tree is parsed from its own text, and the cursor stays in
the text. -/
theorem dlParseTree_exact (s : List UInt8) :
    (∀ t, dlParseTree s = some t ↔
      ∃ (d : Derivation) (w : Run isSpace), s = d.text ++ w.1 ∧ d.tree = t) ∧
    (∀ (d d' : Derivation) (w w' : Run isSpace), s = d.text ++ w.1 → s = d'.text ++ w'.1 →
      d = d' ∧ w = w') ∧
    (∀ t, dlParseTree s = some t → dlParseTree (print t) = some t) ∧
    (parseText s).2 <:+ s := by
  have hparsed : ∀ (d : Derivation) (w : Run isSpace),
      dlParseTree (d.text ++ w.1) = some d.tree := by
    intro d w
    rw [dlParseTree, parseText_text]
  refine ⟨fun t => ⟨parseText_sound, ?_⟩, ?_, ?_, narrows_parseText s⟩
  · rintro ⟨d, w, rfl, rfl⟩
    exact hparsed d w
  · intro d d' w w' hs hs'
    obtain ⟨hd, hw⟩ := derivation_inj (hs.symm.trans hs')
    exact ⟨hd, Subtype.ext hw⟩
  · intro t ht
    obtain ⟨d, -, -, rfl⟩ := parseText_sound ht
    have hprinted := hparsed d.bare Run.none
    rw [Derivation.text_bare, Derivation.tree_bare] at hprinted
    rwa [Run.none, List.append_nil] at hprinted

/-- A leaf whose marker and identifier have a blank between them. -/
def blankAfterMarker : Derivation :=
  .leaf ⟨Run.none, Run.none, some (⟨Run.none, some ⟨[32], List.forall_mem_singleton.mpr rfl⟩,
      ⟨[byte 'a'], List.cons_ne_nil _ _, List.forall_mem_singleton.mpr rfl⟩⟩, []), none,
    Run.none, by decide⟩

/-- A blank may stand between a marker and its identifier. -/
theorem blankAfterMarker_parsed :
    dlParseTree ("L[* a]".toList.map byte) = some (.leaf ["a".toList.map byte] 0 none) ∧
    ¬∃ (d : Derivation) (w : Run isSpace),
      "L[* a]".toList.map byte = d.text ++ w.1 ∧ d.Tight := by
  have htext : "L[* a]".toList.map byte = blankAfterMarker.text ++ (Run.none : Run isSpace).1 := by
    decide
  refine ⟨?_, ?_⟩
  · rw [htext, dlParseTree, parseText_text]
    rfl
  · rintro ⟨d, w, hs, htight⟩
    obtain ⟨rfl, -⟩ := derivation_inj (hs.symm.trans htext)
    have hblank := htight _ List.mem_cons_self _ rfl
    cases hblank

end Exact

end Gtkhx.Dock
