import Mathlib.Algebra.Group.Nat.Defs
import Mathlib.Data.List.Basic

/-!
# Percent-encoding

Bytes in a text of bytes, where those that are not plain are a percent sign and two hexadecimal
digits, of either case.
-/

namespace Percent

/-- The percent sign. -/
def sign : UInt8 := 37

/-- What a hexadecimal digit is worth. -/
def hexValue (b : UInt8) : Option ℕ :=
  if 48 ≤ b.toNat ∧ b.toNat ≤ 57 then some (b.toNat - 48)
  else if 65 ≤ b.toNat ∧ b.toNat ≤ 70 then some (b.toNat - 55)
  else if 97 ≤ b.toNat ∧ b.toNat ≤ 102 then some (b.toNat - 87)
  else none

/-- The byte that two hexadecimal digits are. -/
def hexByte (h l : UInt8) : Option UInt8 :=
  (hexValue h).bind fun x => (hexValue l).map fun y => UInt8.ofNat (16 * x + y)

/-- Decoding fails on an escape that is none, and on one of a NUL. -/
structure Decodes (f : List UInt8 → Option (List UInt8)) : Prop where
  nil : f [] = some []
  plain : ∀ b s, b ≠ sign → f (b :: s) = (f s).map (b :: ·)
  escape : ∀ b h l s, hexByte h l = some b → b ≠ 0 → f (sign :: h :: l :: s) = (f s).map (b :: ·)
  zero : ∀ h l s, hexByte h l = some 0 → f (sign :: h :: l :: s) = none
  malformed : ∀ s, (∀ h l t, s = h :: l :: t → hexByte h l = none) → f (sign :: s) = none

/-- The decoded text. -/
def decode : List UInt8 → Option (List UInt8)
  | [] => some []
  | b :: s =>
    if b = sign then
      match s with
      | h :: l :: t =>
        match hexByte h l with
        | some c => if c = 0 then none else (decode t).map (c :: ·)
        | none => none
      | _ => none
    else (decode s).map (b :: ·)

theorem decode_cons_of_ne {b : UInt8} (hb : b ≠ sign) (s : List UInt8) :
    decode (b :: s) = (decode s).map (b :: ·) := by
  match s with
  | [] => simp [decode, hb]
  | [_] => simp [decode, hb]
  | _ :: _ :: _ => rw [decode, if_neg hb]

theorem decodes_decode : Decodes decode where
  nil := rfl
  plain := fun _ s hb => decode_cons_of_ne hb s
  escape := by
    intro b h l s hbyte hne
    rw [decode, if_pos rfl, hbyte]
    exact if_neg hne
  zero := by
    intro h l s hbyte
    rw [decode, if_pos rfl, hbyte]
    exact if_pos rfl
  malformed := by
    intro s hs
    match s with
    | [] => rfl
    | [_] => rfl
    | h :: l :: t =>
      rw [decode, if_pos rfl, hs h l t rfl]

/-- How bytes may stand in a text: as they are if they are plain, and escaped. -/
inductive Escaped (plain : UInt8 → Bool) : List UInt8 → List UInt8 → Prop
  | nil : Escaped plain [] []
  | plain {b : UInt8} {s e : List UInt8} (hb : plain b = true) (h : Escaped plain s e) :
      Escaped plain (b :: s) (b :: e)
  | escape {b x y : UInt8} {s e : List UInt8} (hb : hexByte x y = some b)
      (h : Escaped plain s e) : Escaped plain (b :: s) (sign :: x :: y :: e)

section Escaped

variable {f : List UInt8 → Option (List UInt8)} {plain : UInt8 → Bool} {s e : List UInt8}

theorem ne_sign_of_plain (hsign : plain sign = false) {b : UInt8} (hb : plain b = true) :
    b ≠ sign := by
  rintro rfl
  rw [hsign] at hb
  cases hb

/-- An escaped text is decoded. -/
theorem decode_of_escaped (hf : Decodes f) (hsign : plain sign = false)
    (h : Escaped plain s e) (hzero : 0 ∉ s) : f e = some s := by
  induction h with
  | nil => exact hf.nil
  | plain hb _ ih =>
    obtain ⟨-, hrest⟩ := not_or.mp (mt List.mem_cons.mpr hzero)
    rw [hf.plain _ _ (ne_sign_of_plain hsign hb), ih hrest, Option.map_some]
  | escape hb _ ih =>
    obtain ⟨hne, hrest⟩ := not_or.mp (mt List.mem_cons.mpr hzero)
    rw [hf.escape _ _ _ _ hb (Ne.symm hne), ih hrest, Option.map_some]

/-- A text without percent signs is its own decoding. -/
theorem decode_of_notMem (hf : Decodes f) (hnot : sign ∉ s) : f s = some s := by
  induction s with
  | nil => exact hf.nil
  | cons b s ih =>
    obtain ⟨hne, hrest⟩ := not_or.mp (mt List.mem_cons.mpr hnot)
    rw [hf.plain _ _ (Ne.symm hne), ih hrest, Option.map_some]

/-- What bytes an escaped text has. -/
theorem mem_of_escaped (h : Escaped plain s e) {c : UInt8} (hc : c ∈ e) :
    plain c = true ∨ (hexValue c).isSome = true ∨ c = sign := by
  induction h with
  | nil => cases hc
  | plain hb _ ih =>
    rcases List.mem_cons.mp hc with rfl | hc
    · exact Or.inl hb
    · exact ih hc
  | escape hb _ ih =>
    obtain ⟨_, hx, hmap⟩ := Option.bind_eq_some_iff.mp hb
    obtain ⟨_, hy, -⟩ := Option.map_eq_some_iff.mp hmap
    rcases List.mem_cons.mp hc with rfl | hc
    · exact Or.inr (Or.inr rfl)
    · rcases List.mem_cons.mp hc with rfl | hc
      · exact Or.inr (Or.inl (by rw [hx, Option.isSome_some]))
      · rcases List.mem_cons.mp hc with rfl | hc
        · exact Or.inr (Or.inl (by rw [hy, Option.isSome_some]))
        · exact ih hc

theorem notMem_of_escaped (h : Escaped plain s e) {c : UInt8} (hplain : plain c = false)
    (hhex : hexValue c = none) (hsign : c ≠ sign) : c ∉ e := by
  intro hc
  rcases mem_of_escaped h hc with hc | hc | hc
  · rw [hplain] at hc
    cases hc
  · rw [hhex] at hc
    cases hc
  · exact hsign hc

theorem ne_nil_of_escaped (h : Escaped plain s e) (hne : s ≠ []) : e ≠ [] := by
  rintro rfl
  cases h
  exact hne rfl

end Escaped

end Percent
