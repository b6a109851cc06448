import Gtkhx.Dock.Grammar
import Gtkhx.Library.Utf8

/-!
# The names in a dock layout

What delimits a panel's identifier or a role is ASCII, so those of a text are texts.
-/

namespace Gtkhx.Dock

open Runs Text Utf8

section Encoded

variable {r s t : List UInt8} {b : UInt8}

/-- A layout whose identifiers and roles are texts. -/
def ParsedNode.Encoded : ParsedNode → Prop
  | leaf ids _ role => (∀ id ∈ ids, Valid id) ∧ ∀ name ∈ role, Valid name
  | split _ a b => a.Encoded ∧ b.Encoded

theorem isSpace_ascii {b : UInt8} (hb : isSpace b = true) : b.toNat < 0x80 := by
  simp only [isSpace, Bool.or_eq_true, decide_eq_true_eq] at hb
  rcases hb with (((rfl | rfl) | rfl) | rfl) | rfl <;> decide

/-- Only ASCII ends an identifier. -/
theorem ascii_of_not_isIdByte {b : UInt8} (hb : isIdByte b = false) : b.toNat < 0x80 := by
  by_contra hhigh
  have hspace : isSpace b = false := by
    rw [Bool.eq_false_iff]
    exact fun h => hhigh (isSpace_ascii h)
  have hne : ∀ n : UInt8, n.toNat < 0x80 → b ≠ n := by
    rintro n hn rfl
    exact hhigh hn
  simp only [isIdByte, hspace, Bool.not_false, Bool.and_true, Bool.and_eq_false_iff,
    decide_eq_false_iff_not, not_not] at hb
  rcases hb with ((rfl | rfl) | rfl) | rfl
  · exact hne _ (by decide) rfl
  · exact hne _ (by decide) rfl
  · exact hne _ (by decide) rfl
  · exact hne _ (by decide) rfl

theorem valid_word (w : Word isIdByte) (hr : Stops isIdByte r) (h : Valid (w.1 ++ r)) :
    Valid w.1 ∧ Valid r := h.split fun b hb => ascii_of_not_isIdByte (hr b hb)

/-- What follows a token is a text. -/
theorem valid_token (w : Run isSpace) (hb : b.toNat < 0x80) (h : Valid (w.1 ++ b :: t)) :
    Valid t := (h.drop fun a ha => isSpace_ascii (w.2 a ha)).tail hb

theorem valid_panel {p : Panel} (hr : Stops isIdByte r) (h : Valid (p.text ++ r)) :
    Valid p.name.1 ∧ Valid r := by
  obtain ⟨before, marker, name⟩ := p
  rw [Panel.text, List.append_assoc] at h
  have hcore := h.drop fun a ha => isSpace_ascii (before.2 a ha)
  cases marker with
  | none => exact valid_word name hr hcore
  | some w =>
    have hstar : Valid (byte '*' :: (w.1 ++ (name.1 ++ r))) := by
      rw [← List.append_assoc]
      exact hcore
    exact valid_word name hr ((hstar.tail (by decide)).drop fun a ha => isSpace_ascii (w.2 a ha))

theorem valid_more {more : List (Run isSpace × Panel)} (hr : EndsPanels r)
    (h : Valid (moreText more ++ r)) : (∀ m ∈ more, Valid m.2.name.1) ∧ Valid r := by
  induction more with
  | nil => exact ⟨fun m hm => absurd hm List.not_mem_nil, h⟩
  | cons m more ih =>
    rw [moreText, List.flatMap_cons, List.append_assoc, List.append_assoc, List.cons_append] at h
    obtain ⟨hname, hrest⟩ := valid_panel (stops_more more hr) (valid_token m.1 (by decide) h)
    obtain ⟨hnames, hend⟩ := ih hrest
    exact ⟨List.forall_mem_cons.mpr ⟨hname, hnames⟩, hend⟩

theorem valid_panels {panels : Panels} (hr : EndsPanels r) (h : Valid (panels.text ++ r)) :
    (∀ p ∈ panels.list, Valid p.name.1) ∧ Valid r := by
  cases panels with
  | none => exact ⟨fun p hp => absurd hp List.not_mem_nil, h⟩
  | some ps =>
    rw [Panels.text, List.append_assoc] at h
    obtain ⟨hname, hrest⟩ := valid_panel (stops_more ps.2 hr) h
    obtain ⟨hnames, hend⟩ := valid_more hr hrest
    refine ⟨List.forall_mem_cons.mpr ⟨hname, fun p hp => ?_⟩, hend⟩
    obtain ⟨m, hm, rfl⟩ := List.mem_map.mp hp
    exact hnames m hm

theorem valid_role {role : Role} {close : Run isSpace}
    (h : Valid (role.text ++ (close.1 ++ byte ']' :: t))) :
    (∀ name ∈ role.map (·.2.2.1), Valid name) ∧ Valid t := by
  cases role with
  | none =>
    exact ⟨fun name hname => (Option.not_mem_none name hname).elim,
      valid_token close (by decide) h⟩
  | some role =>
    obtain ⟨w, v, name⟩ := role
    simp only [Role.text, List.append_assoc, List.cons_append] at h
    have hname := (valid_token w (by decide) h).drop fun a ha => isSpace_ascii (v.2 a ha)
    obtain ⟨hvalid, hrest⟩ := hname.split fun b hb => by
      by_cases hspace : close.1 = []
      · rw [hspace] at hb
        obtain rfl := Option.some.inj hb
        decide
      · obtain ⟨a, s, hcons⟩ := List.exists_cons_of_ne_nil hspace
        rw [hcons] at hb
        obtain rfl := Option.some.inj hb
        exact isSpace_ascii (close.2 a (by rw [hcons]; exact List.mem_cons_self))
    refine ⟨fun other hother => ?_, valid_token close (by decide) hrest⟩
    obtain rfl := Option.some.inj hother
    exact hvalid

theorem Derivation.valid_text {d : Derivation} (h : Valid (d.text ++ r)) :
    d.tree.Encoded ∧ Valid r := by
  induction d generalizing r with
  | leaf l =>
    simp only [text, Leaf.text, List.append_assoc, List.cons_append, List.nil_append] at h
    have hpanels := valid_token l.bracket (by decide) (valid_token l.letter (by decide) h)
    obtain ⟨hnames, hrole⟩ := valid_panels (endsPanels_role l.role l.close r) hpanels
    obtain ⟨hname, hrest⟩ := valid_role hrole
    refine ⟨⟨fun id hid => ?_, hname⟩, hrest⟩
    obtain ⟨p, hp, rfl⟩ := List.mem_map.mp hid
    exact hnames p hp
  | split o letter bracket comma close a b iha ihb =>
    have hletter : o.letter.toNat < 0x80 := by
      cases o with
      | horizontal => decide
      | vertical => decide
    simp only [text, List.append_assoc, List.cons_append, List.nil_append] at h
    obtain ⟨ha, hsecond⟩ := iha (valid_token bracket (by decide) (valid_token letter hletter h))
    obtain ⟨hb, hclose⟩ := ihb (valid_token comma (by decide) hsecond)
    exact ⟨⟨ha, hb⟩, valid_token close (by decide) hclose⟩

end Encoded

end Gtkhx.Dock
