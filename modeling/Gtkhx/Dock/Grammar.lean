import Gtkhx.Library.Runs
import Gtkhx.Library.Text
import Mathlib.Data.Int.Notation

/-!
# The grammar of dock layouts

A layout is a tree of splits, whose leaves name their panels. White space may stand before every
token. A derivation has all that its text has, and no text has two.
-/

namespace Gtkhx.Dock

open Runs Text

/-- Tab, line feed, form feed, carriage return, and blank. -/
def isSpace (b : UInt8) : Bool := b = 9 || b = 10 || b = 12 || b = 13 || b = 32

/-- What a panel's identifier is made of. -/
def isIdByte (b : UInt8) : Bool :=
  b ≠ byte ',' && b ≠ byte ']' && b ≠ byte ':' && b ≠ byte '*' && !isSpace b

/-- What a role is made of. -/
def isRoleByte (b : UInt8) : Bool := b ≠ byte ']' && !isSpace b

inductive Orientation where
  | horizontal
  | vertical
  deriving DecidableEq, Repr

/-- The letter of a split. -/
def Orientation.letter : Orientation → UInt8
  | horizontal => byte 'h'
  | vertical => byte 'v'

/-- A layout as it is parsed. -/
inductive ParsedNode where
  /-- Its panels in order, which of them is in front or -1, and where it belongs. -/
  | leaf (panelIds : List (List UInt8)) (selected : ℤ) (role : Option (List UInt8))
  | split (orientation : Orientation) (childA childB : ParsedNode)
  deriving DecidableEq

/-- One panel of a leaf, and white space where there is any. -/
structure Panel where
  before : Run isSpace
  /-- What is between the marker and the identifier, if the panel is in front. -/
  marker : Option (Run isSpace)
  name : Word isIdByte

/-- Whether a panel is in front. -/
def Panel.marked (p : Panel) : Bool := p.marker.isSome

/-- A panel without what is before it. -/
def Panel.core (p : Panel) : List UInt8 :=
  match p.marker with
  | none => p.name.1
  | some w => byte '*' :: (w.1 ++ p.name.1)

def Panel.text (p : Panel) : List UInt8 := p.before.1 ++ p.core

/-- Panels, each after a comma. -/
def moreText (more : List (Run isSpace × Panel)) : List UInt8 :=
  more.flatMap fun m => m.1.1 ++ byte ',' :: m.2.text

/-- The panels of a leaf, if it has any. -/
abbrev Panels : Type := Option (Panel × List (Run isSpace × Panel))

def Panels.list : Panels → List Panel
  | none => []
  | some (p, more) => p :: more.map Prod.snd

def Panels.text : Panels → List UInt8
  | none => []
  | some (p, more) => p.text ++ moreText more

/-- A role, after a colon. -/
abbrev Role : Type := Option (Run isSpace × Run isSpace × Word isRoleByte)

def Role.text : Role → List UInt8
  | none => []
  | some (w, v, name) => w.1 ++ byte ':' :: (v.1 ++ name.1)

/-- What a leaf is derived as. -/
structure Leaf where
  letter : Run isSpace
  bracket : Run isSpace
  panels : Panels
  role : Role
  close : Run isSpace
  /-- One panel at most is in front. -/
  one : panels.list.countP Panel.marked ≤ 1

def Leaf.text (l : Leaf) : List UInt8 :=
  l.letter.1 ++ byte 'L' :: (l.bracket.1 ++ byte '[' ::
    (l.panels.text ++ (l.role.text ++ (l.close.1 ++ [byte ']']))))

/-- Where the panel in front is, or -1. -/
def selected (panels : List Panel) : ℤ :=
  match panels.findIdx? Panel.marked with
  | some i => i
  | none => -1

/-- What a layout is derived as. -/
inductive Derivation where
  | leaf (l : Leaf)
  | split (orientation : Orientation) (letter bracket comma close : Run isSpace)
      (a b : Derivation)

/-- The text of a derivation. -/
def Derivation.text : Derivation → List UInt8
  | leaf l => l.text
  | split orientation letter bracket comma close a b =>
    letter.1 ++ orientation.letter :: (bracket.1 ++ byte '(' ::
      (a.text ++ (comma.1 ++ byte ',' :: (b.text ++ (close.1 ++ [byte ')'])))))

/-- The tree of a derivation. -/
def Derivation.tree : Derivation → ParsedNode
  | leaf l =>
    .leaf (l.panels.list.map (·.name.1)) (selected l.panels.list) (l.role.map (·.2.2.1))
  | split orientation _ _ _ _ a b => .split orientation a.tree b.tree

/-- An identifier, with the marker if it is the one selected. -/
def printId (sel : ℤ) (i : ℕ) (id : List UInt8) : List UInt8 :=
  if (i : ℤ) = sel then byte '*' :: id else id

/-- Identifiers, each after a comma, of which the first is the `i`th. -/
def printMore (sel : ℤ) : ℕ → List (List UInt8) → List UInt8
  | _, [] => []
  | i, id :: ids => byte ',' :: (printId sel i id ++ printMore sel (i + 1) ids)

def printIds (sel : ℤ) : List (List UInt8) → List UInt8
  | [] => []
  | id :: ids => printId sel 0 id ++ printMore sel 1 ids

/-- A tree without any white space. -/
def print : ParsedNode → List UInt8
  | .leaf panelIds sel role =>
    byte 'L' :: byte '[' :: (printIds sel panelIds ++
      (role.elim [] (byte ':' :: ·) ++ [byte ']']))
  | .split orientation a b =>
    orientation.letter :: byte '(' :: (print a ++ byte ',' :: (print b ++ [byte ')']))

/-- No white space stands between a marker and its identifier. -/
def Derivation.Tight : Derivation → Prop
  | leaf l => ∀ p ∈ l.panels.list, ∀ w ∈ p.marker, w.1 = []
  | split _ _ _ _ _ a b => a.Tight ∧ b.Tight

section Unique

variable {r r' : List UInt8}

theorem not_isSpace_of_isIdByte {b : UInt8} (h : isIdByte b = true) : isSpace b = false := by
  simp only [isIdByte, Bool.and_eq_true, Bool.not_eq_true'] at h
  exact h.2

theorem not_isSpace_of_isRoleByte {b : UInt8} (h : isRoleByte b = true) : isSpace b = false := by
  simp only [isRoleByte, Bool.and_eq_true, Bool.not_eq_true'] at h
  exact h.2

theorem stops_word {p : UInt8 → Bool} (hp : ∀ b, p b = true → isSpace b = false) (w : Word p)
    (r : List UInt8) : Stops isSpace (w.1 ++ r) := by
  obtain ⟨s, hne, hs⟩ := w
  refine stops_append hne ?_
  cases s with
  | nil => exact absurd rfl hne
  | cons b s => exact stops_cons (hp b (hs b List.mem_cons_self))

theorem stops_core (p : Panel) (r : List UInt8) : Stops isSpace (p.core ++ r) := by
  unfold Panel.core
  cases p.marker with
  | none => exact stops_word (fun _ => not_isSpace_of_isIdByte) p.name r
  | some w => exact stops_cons (by decide)

/-- A name does not begin with a marker. -/
theorem word_ne_marker (w : Word isIdByte) (s r : List UInt8) : w.1 ++ r ≠ byte '*' :: s := by
  obtain ⟨t, hne, ht⟩ := w
  cases t with
  | nil => exact absurd rfl hne
  | cons b t =>
    intro h
    have hb := ht b List.mem_cons_self
    rw [(List.cons.inj h).1] at hb
    exact absurd hb (by decide)

theorem core_inj {p p' : Panel} (hr : Stops isIdByte r) (hr' : Stops isIdByte r')
    (h : p.core ++ r = p'.core ++ r') : p.marker = p'.marker ∧ p.name = p'.name ∧ r = r' := by
  obtain ⟨before, marker, name⟩ := p
  obtain ⟨before', marker', name'⟩ := p'
  cases marker with
  | none =>
    cases marker' with
    | none =>
      obtain ⟨hname, hrest⟩ := word_inj hr hr' h
      exact ⟨rfl, hname, hrest⟩
    | some w' => exact absurd h (word_ne_marker name _ _)
  | some w =>
    cases marker' with
    | none => exact absurd h.symm (word_ne_marker name' _ _)
    | some w' =>
      simp only [Panel.core, List.cons_append, List.append_assoc, List.cons.injEq, true_and] at h
      obtain ⟨hw, hrest⟩ := run_inj (stops_word (fun _ => not_isSpace_of_isIdByte) name r)
        (stops_word (fun _ => not_isSpace_of_isIdByte) name' r') h
      obtain ⟨hname, hrest⟩ := word_inj hr hr' hrest
      exact ⟨congrArg some hw, hname, hrest⟩

theorem text_inj {p p' : Panel} (hr : Stops isIdByte r) (hr' : Stops isIdByte r')
    (h : p.text ++ r = p'.text ++ r') : p = p' ∧ r = r' := by
  rw [Panel.text, Panel.text, List.append_assoc, List.append_assoc] at h
  obtain ⟨hbefore, hcore⟩ := run_inj (stops_core p r) (stops_core p' r') h
  obtain ⟨hmarker, hname, hrest⟩ := core_inj hr hr' hcore
  refine ⟨?_, hrest⟩
  obtain ⟨before, marker, name⟩ := p
  obtain ⟨before', marker', name'⟩ := p'
  dsimp only at hbefore hmarker hname
  rw [hbefore, hmarker, hname]

/-- A token and the white space before it are found in one way. -/
theorem token_inj {w w' : Run isSpace} {b b' : UInt8} {t t' : List UInt8}
    (hb : isSpace b = false) (hb' : isSpace b' = false)
    (h : w.1 ++ b :: t = w'.1 ++ b' :: t') : w = w' ∧ b = b' ∧ t = t' := by
  obtain ⟨hw, hrest⟩ := run_inj (stops_cons hb) (stops_cons hb') h
  exact ⟨hw, List.cons.inj hrest⟩

theorem stops_token {p : UInt8 → Bool} (hp : ∀ b, p b = true → isSpace b = false)
    (w : Run isSpace) {b : UInt8} (hb : p b = false) (t : List UInt8) :
    Stops p (w.1 ++ b :: t) := by
  obtain ⟨s, hs⟩ := w
  cases s with
  | nil => exact stops_cons hb
  | cons a s =>
    refine stops_cons (Bool.eq_false_iff.mpr fun ha => ?_)
    have hspace := hs a List.mem_cons_self
    rw [hp a ha] at hspace
    cases hspace

/-- What comes after the panels of a leaf. -/
def EndsPanels (r : List UInt8) : Prop :=
  ∃ (w : Run isSpace) (b : UInt8) (t : List UInt8),
    (b = byte ':' ∨ b = byte ']') ∧ r = w.1 ++ b :: t

theorem endsPanels_role (role : Role) (close : Run isSpace) (t : List UInt8) :
    EndsPanels (role.text ++ (close.1 ++ byte ']' :: t)) := by
  cases role with
  | none => exact ⟨close, byte ']', t, Or.inr rfl, rfl⟩
  | some role =>
    obtain ⟨w, v, name⟩ := role
    refine ⟨w, byte ':', v.1 ++ name.1 ++ (close.1 ++ byte ']' :: t), Or.inl rfl, ?_⟩
    simp [Role.text]

theorem stops_more (more : List (Run isSpace × Panel)) (hr : EndsPanels r) :
    Stops isIdByte (moreText more ++ r) := by
  cases more with
  | nil =>
    obtain ⟨w, b, t, rfl | rfl, rfl⟩ := hr
    · exact stops_token (fun _ => not_isSpace_of_isIdByte) w (by decide) t
    · exact stops_token (fun _ => not_isSpace_of_isIdByte) w (by decide) t
  | cons m more =>
    rw [moreText, List.flatMap_cons, List.append_assoc, List.append_assoc, List.cons_append]
    exact stops_token (fun _ => not_isSpace_of_isIdByte) m.1 (by decide) _

theorem more_inj {more more' : List (Run isSpace × Panel)} (hr : EndsPanels r)
    (hr' : EndsPanels r') (h : moreText more ++ r = moreText more' ++ r') :
    more = more' ∧ r = r' := by
  have hends : ∀ {s : List UInt8}, EndsPanels s → ∀ (w : Run isSpace) (t : List UInt8),
      s ≠ w.1 ++ byte ',' :: t := by
    rintro s ⟨w', b, t', rfl | rfl, rfl⟩ w t heq
    · exact absurd (token_inj (by decide) (by decide) heq).2.1 (by decide)
    · exact absurd (token_inj (by decide) (by decide) heq).2.1 (by decide)
  induction more generalizing more' with
  | nil =>
    cases more' with
    | nil => exact ⟨rfl, h⟩
    | cons m more' =>
      rw [moreText, moreText, List.flatMap_cons, List.append_assoc, List.append_assoc,
        List.cons_append] at h
      exact absurd h (hends hr m.1 _)
  | cons m more ih =>
    cases more' with
    | nil =>
      rw [moreText, moreText, List.flatMap_cons, List.append_assoc, List.append_assoc,
        List.cons_append] at h
      exact absurd h.symm (hends hr' m.1 _)
    | cons m' more' =>
      rw [moreText, moreText, List.flatMap_cons, List.flatMap_cons, List.append_assoc,
        List.append_assoc, List.append_assoc, List.append_assoc, List.cons_append,
        List.cons_append] at h
      obtain ⟨hw, -, hpanel⟩ := token_inj (by decide) (by decide) h
      obtain ⟨hp, hmore⟩ := text_inj (stops_more more hr) (stops_more more' hr') hpanel
      obtain ⟨rfl, hrest⟩ := ih hmore
      exact ⟨by rw [Prod.ext hw hp], hrest⟩

theorem core_ne (p : Panel) {b : UInt8} (hb : b = byte ':' ∨ b = byte ']') (r t : List UInt8) :
    p.core ++ r ≠ b :: t := by
  obtain ⟨before, marker, name⟩ := p
  intro h
  cases marker with
  | none =>
    obtain ⟨s, hne, hs⟩ := name
    cases s with
    | nil => exact hne rfl
    | cons a s =>
      have ha := hs a List.mem_cons_self
      rw [(List.cons.inj h).1] at ha
      rcases hb with rfl | rfl
      · exact absurd ha (by decide)
      · exact absurd ha (by decide)
  | some w =>
    rcases hb with rfl | rfl
    · exact absurd (List.cons.inj h).1 (by decide)
    · exact absurd (List.cons.inj h).1 (by decide)

theorem panels_ne (p : Panel) (hr : EndsPanels r) (s : List UInt8) : p.text ++ s ≠ r := by
  obtain ⟨w, b, t, hb, rfl⟩ := hr
  intro h
  have hspace : isSpace b = false := by
    rcases hb with rfl | rfl <;> decide
  rw [Panel.text, List.append_assoc] at h
  obtain ⟨-, hcore⟩ := run_inj (stops_core p s) (stops_cons hspace) h
  exact core_ne p hb s t hcore

theorem panels_inj {panels panels' : Panels} (hr : EndsPanels r) (hr' : EndsPanels r')
    (h : panels.text ++ r = panels'.text ++ r') : panels = panels' ∧ r = r' := by
  cases panels with
  | none =>
    cases panels' with
    | none => exact ⟨rfl, h⟩
    | some ps' =>
      rw [Panels.text, Panels.text, List.nil_append, List.append_assoc] at h
      exact absurd h.symm (panels_ne ps'.1 hr _)
  | some ps =>
    cases panels' with
    | none =>
      rw [Panels.text, Panels.text, List.nil_append, List.append_assoc] at h
      exact absurd h (panels_ne ps.1 hr' _)
    | some ps' =>
      rw [Panels.text, Panels.text, List.append_assoc, List.append_assoc] at h
      obtain ⟨hp, hmore⟩ := text_inj (stops_more ps.2 hr) (stops_more ps'.2 hr') h
      obtain ⟨hmore, hrest⟩ := more_inj hr hr' hmore
      exact ⟨by rw [Prod.ext hp hmore], hrest⟩

theorem role_inj {role role' : Role} {close close' : Run isSpace} {t t' : List UInt8}
    (h : role.text ++ (close.1 ++ byte ']' :: t) =
      role'.text ++ (close'.1 ++ byte ']' :: t')) :
    role = role' ∧ close = close' ∧ t = t' := by
  cases role with
  | none =>
    cases role' with
    | none =>
      obtain ⟨hclose, -, ht⟩ := token_inj (by decide) (by decide) h
      exact ⟨rfl, hclose, ht⟩
    | some role' =>
      rw [Role.text, Role.text, List.nil_append, List.append_assoc, List.cons_append] at h
      exact absurd (token_inj (by decide) (by decide) h).2.1 (by decide)
  | some role =>
    cases role' with
    | none =>
      rw [Role.text, Role.text, List.nil_append, List.append_assoc, List.cons_append] at h
      exact absurd (token_inj (by decide) (by decide) h).2.1 (by decide)
    | some role' =>
      obtain ⟨w, v, name⟩ := role
      obtain ⟨w', v', name'⟩ := role'
      simp only [Role.text, List.append_assoc, List.cons_append] at h
      obtain ⟨rfl, -, hspace⟩ := token_inj (by decide) (by decide) h
      obtain ⟨rfl, hname⟩ := run_inj (stops_word (fun _ => not_isSpace_of_isRoleByte) name _)
        (stops_word (fun _ => not_isSpace_of_isRoleByte) name' _) hspace
      obtain ⟨rfl, hclose⟩ := word_inj
        (stops_token (b := byte ']') (fun _ => not_isSpace_of_isRoleByte) close (by decide) t)
        (stops_token (b := byte ']') (fun _ => not_isSpace_of_isRoleByte) close' (by decide) t')
        hname
      obtain ⟨rfl, -, ht⟩ := token_inj (by decide) (by decide) hclose
      exact ⟨rfl, rfl, ht⟩

theorem leaf_inj {l l' : Leaf} (h : l.text ++ r = l'.text ++ r') : l = l' ∧ r = r' := by
  obtain ⟨letter, bracket, panels, role, close, one⟩ := l
  obtain ⟨letter', bracket', panels', role', close', one'⟩ := l'
  simp only [Leaf.text, List.append_assoc, List.cons_append, List.nil_append] at h
  obtain ⟨rfl, -, hbracket⟩ := token_inj (by decide) (by decide) h
  obtain ⟨rfl, -, hpanels⟩ := token_inj (by decide) (by decide) hbracket
  obtain ⟨rfl, hrole⟩ := panels_inj (endsPanels_role role close r)
    (endsPanels_role role' close' r') hpanels
  obtain ⟨rfl, rfl, hrest⟩ := role_inj hrole
  exact ⟨rfl, hrest⟩

theorem Orientation.letter_inj {o o' : Orientation} (h : o.letter = o'.letter) : o = o' := by
  cases o with
  | horizontal =>
    cases o' with
    | horizontal => rfl
    | vertical => exact absurd h (by decide)
  | vertical =>
    cases o' with
    | horizontal => exact absurd h (by decide)
    | vertical => rfl

theorem Orientation.letter_spec (o : Orientation) :
    isSpace o.letter = false ∧ o.letter ≠ byte 'L' := by
  cases o with
  | horizontal => decide
  | vertical => decide

/-- No text has two derivations, and what follows a derivation is not part of another. -/
theorem derivation_inj {d d' : Derivation} (h : d.text ++ r = d'.text ++ r') :
    d = d' ∧ r = r' := by
  induction d generalizing d' r r' with
  | leaf l =>
    cases d' with
    | leaf l' =>
      obtain ⟨rfl, hrest⟩ := leaf_inj h
      exact ⟨rfl, hrest⟩
    | split o' letter' bracket' comma' close' a' b' =>
      simp only [Derivation.text, Leaf.text, List.append_assoc, List.cons_append] at h
      obtain ⟨-, hletter, -⟩ := token_inj (by decide) o'.letter_spec.1 h
      exact absurd hletter.symm o'.letter_spec.2
  | split o letter bracket comma close a b iha ihb =>
    cases d' with
    | leaf l' =>
      simp only [Derivation.text, Leaf.text, List.append_assoc, List.cons_append] at h
      obtain ⟨-, hletter, -⟩ := token_inj o.letter_spec.1 (by decide) h
      exact absurd hletter o.letter_spec.2
    | split o' letter' bracket' comma' close' a' b' =>
      simp only [Derivation.text, List.append_assoc, List.cons_append, List.nil_append] at h
      obtain ⟨rfl, hletter, hbracket⟩ := token_inj o.letter_spec.1 o'.letter_spec.1 h
      obtain rfl := Orientation.letter_inj hletter
      obtain ⟨rfl, -, hfirst⟩ := token_inj (by decide) (by decide) hbracket
      obtain ⟨rfl, hcomma⟩ := iha hfirst
      obtain ⟨rfl, -, hsecond⟩ := token_inj (by decide) (by decide) hcomma
      obtain ⟨rfl, hclose⟩ := ihb hsecond
      obtain ⟨rfl, -, hrest⟩ := token_inj (by decide) (by decide) hclose
      exact ⟨rfl, hrest⟩

end Unique

section Printed

/-- A panel without white space. -/
def Panel.bare (p : Panel) : Panel := ⟨Run.none, p.marker.map fun _ => Run.none, p.name⟩

def Panels.bare (panels : Panels) : Panels :=
  panels.map fun ps => (ps.1.bare, ps.2.map fun m => (Run.none, m.2.bare))

def Role.bare (role : Role) : Role := role.map fun r => (Run.none, Run.none, r.2.2)

@[simp] theorem Panel.marked_bare (p : Panel) : p.bare.marked = p.marked := Option.isSome_map

theorem Panels.list_bare (panels : Panels) : panels.bare.list = panels.list.map Panel.bare := by
  cases panels with
  | none => rfl
  | some ps => simp [bare, list, Function.comp_def]

theorem countP_bare (ps : List Panel) :
    (ps.map Panel.bare).countP Panel.marked = ps.countP Panel.marked := by
  rw [List.countP_map]
  exact List.countP_congr fun p _ => by rw [Function.comp_apply, Panel.marked_bare]

theorem selected_bare (ps : List Panel) : selected (ps.map Panel.bare) = selected ps := by
  have hsame : Panel.marked ∘ Panel.bare = Panel.marked := funext Panel.marked_bare
  rw [selected, selected, List.findIdx?_map, hsame]

/-- A leaf without white space. -/
def Leaf.bare (l : Leaf) : Leaf where
  letter := Run.none
  bracket := Run.none
  panels := l.panels.bare
  role := l.role.bare
  close := Run.none
  one := by
    rw [Panels.list_bare, countP_bare]
    exact l.one

/-- A derivation of the same tree without white space. -/
def Derivation.bare : Derivation → Derivation
  | leaf l => leaf l.bare
  | split orientation _ _ _ _ a b =>
    split orientation Run.none Run.none Run.none Run.none a.bare b.bare

theorem Derivation.tree_bare (d : Derivation) : d.bare.tree = d.tree := by
  induction d with
  | leaf l =>
    have hrole : l.role.bare.map (·.2.2.1) = l.role.map (·.2.2.1) := by
      rw [Role.bare, Option.map_map]
      rfl
    rw [bare, tree, tree, Leaf.bare]
    dsimp only
    rw [hrole, Panels.list_bare, selected_bare, List.map_map]
    rfl
  | split orientation letter bracket comma close a b iha ihb => rw [bare, tree, tree, iha, ihb]

/-- The panels, of which the first is the `n`th, have their marker where the selected one is. -/
def Marks (n : ℕ) (sel : ℤ) : List Panel → Prop
  | [] => True
  | p :: ps => (p.marked = true ↔ (n : ℤ) = sel) ∧ Marks (n + 1) sel ps

theorem marks_of_lt {n : ℕ} {sel : ℤ} {ps : List Panel} (h : ps.countP Panel.marked = 0)
    (hsel : sel < n) : Marks n sel ps := by
  induction ps generalizing n with
  | nil => trivial
  | cons p ps ih =>
    have hp : ¬p.marked = true := List.countP_eq_zero.mp h p List.mem_cons_self
    rw [List.countP_cons_of_neg hp] at h
    exact ⟨iff_of_false hp (by omega), ih h (by omega)⟩

theorem marks_selected_from {ps : List Panel} (h : ps.countP Panel.marked ≤ 1) (n : ℕ) :
    Marks n (match ps.findIdx? Panel.marked with
      | some i => ((n + i : ℕ) : ℤ)
      | none => -1) ps := by
  induction ps generalizing n with
  | nil => trivial
  | cons p ps ih =>
    rw [List.findIdx?_cons]
    by_cases hp : p.marked = true
    · rw [List.countP_cons_of_pos hp] at h
      rw [if_pos hp]
      exact ⟨iff_of_true hp rfl, marks_of_lt (by omega) (by dsimp only; omega)⟩
    · rw [List.countP_cons_of_neg hp] at h
      have hrest := ih h (n + 1)
      rw [if_neg hp]
      cases hfind : ps.findIdx? Panel.marked with
      | none =>
        rw [hfind] at hrest
        exact ⟨iff_of_false hp (by simp only [Option.map_none]; omega), hrest⟩
      | some i =>
        rw [hfind] at hrest
        simp only [Option.map_some]
        dsimp only at hrest
        rw [Nat.add_right_comm, Nat.add_assoc] at hrest
        exact ⟨iff_of_false hp (by omega), hrest⟩

theorem marks_selected {ps : List Panel} (h : ps.countP Panel.marked ≤ 1) :
    Marks 0 (selected ps) ps := by
  have hfrom := marks_selected_from h 0
  simp only [Nat.zero_add] at hfrom
  exact hfrom

theorem core_bare {p : Panel} {n : ℕ} {sel : ℤ} (h : p.marked = true ↔ (n : ℤ) = sel) :
    p.bare.core = printId sel n p.name.1 := by
  obtain ⟨before, marker, name⟩ := p
  cases marker with
  | none =>
    have hne : ¬(n : ℤ) = sel := fun heq => Bool.false_ne_true (h.mpr heq)
    rw [printId, if_neg hne]
    rfl
  | some w =>
    rw [printId, if_pos (h.mp rfl)]
    rfl

theorem moreText_bare {more : List (Run isSpace × Panel)} {n : ℕ} {sel : ℤ}
    (h : Marks n sel (more.map Prod.snd)) :
    moreText (more.map fun m => (Run.none, m.2.bare)) =
      printMore sel n (more.map fun m => m.2.name.1) := by
  induction more generalizing n with
  | nil => rfl
  | cons m more ih =>
    obtain ⟨hfirst, hrest⟩ := h
    have htail := ih hrest
    rw [moreText] at htail
    rw [moreText, List.map_cons, List.flatMap_cons, htail, List.map_cons, printMore,
      ← core_bare hfirst]
    rfl

theorem Panels.text_bare {panels : Panels} (h : Marks 0 (selected panels.list) panels.list) :
    panels.bare.text = printIds (selected panels.list) (panels.list.map (·.name.1)) := by
  cases panels with
  | none => rfl
  | some ps =>
    obtain ⟨p, more⟩ := ps
    generalize hsel : selected (Panels.list (some (p, more))) = sel at h
    obtain ⟨hfirst, hrest⟩ := h
    rw [list, List.map_cons, printIds, ← core_bare hfirst, List.map_map]
    exact congrArg (p.bare.core ++ ·) (moreText_bare hrest)

theorem Role.text_bare (role : Role) :
    role.bare.text = (role.map (·.2.2.1)).elim [] (byte ':' :: ·) := by
  cases role with
  | none => rfl
  | some role => rfl

/-- A tree is printed as its derivation without white space. -/
theorem Derivation.text_bare (d : Derivation) : d.bare.text = print d.tree := by
  induction d with
  | leaf l =>
    rw [bare, text, Leaf.text, Leaf.bare]
    dsimp only
    rw [Panels.text_bare (marks_selected l.one), Role.text_bare]
    rfl
  | split orientation letter bracket comma close a b iha ihb =>
    rw [bare, text, iha, ihb]
    rfl

end Printed

end Gtkhx.Dock
