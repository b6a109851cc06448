import Gtkhx.Library.Text
import Gtkhx.Voice.Video

/-!
# The mids that name tracks

Each track has a mid that is written for it, in which a user is a number in decimal digits. The
scanner of mids is compared with this grammar: it reads a mid as a track exactly if the mid is the
one that is written for the track.
-/

namespace Gtkhx.Voice

open Text

/-- The mid of this client's own send section for the kind. -/
def VideoKind.sendMid : VideoKind → String
  | .camera => "cam-send"
  | .screen => "scr-send"

/-- What the mids of the kind's receive sections begin with. -/
def VideoKind.userBeginning : VideoKind → String
  | .camera => "cam-user-"
  | .screen => "scr-user-"

/-- The mid that is written for a track. -/
def Track.mid : Track → String
  | .mic => "send"
  | .audio u => "user-" ++ String.ofList (decimal u.toNat)
  | .videoSend kind => kind.sendMid
  | .video u kind => kind.userBeginning ++ String.ofList (decimal u.toNat)

/-- Whether a track is one that a mid can name: its user, if it has one, is not zero. -/
def Track.Named (t : Track) : Prop := ∀ u ∈ t.userId, u ≠ 0

section Users

variable {rest : List Char} {u : UInt16}

theorem decimal_ascii (n : ℕ) : ∀ c ∈ decimal n, c.toNat < 0x80 := by
  intro c hc
  have hrange := (isDigit_iff c).mp (isDigit_of_mem_decimal hc)
  omega

theorem toNat_pos (hu : u ≠ 0) : 0 < u.toNat :=
  Nat.pos_of_ne_zero fun hzero => hu (UInt16.toNat_inj.mp hzero)

theorem length_decimal_toNat (u : UInt16) : (decimal u.toNat).length ≤ 5 := by
  have hlt := u.toNat_lt
  exact (Nat.length_toDigits_le_iff (by omega) (by omega)).mpr (by omega)

/-- What is read as a user is written for it. -/
theorem of_parseUid (h : parseUid rest = some u) : u ≠ 0 ∧ rest = decimal u.toNat := by
  have hvalue : digitsValue rest = Nat.ofDigitChars 10 rest 0 := Nat.ofDigitChars_eq_foldl.symm
  rw [parseUid] at h
  by_cases hform : rest = [] ∨ rest.head? = some '0' ∨ ¬rest.all Char.isDigit
  · rw [if_pos hform] at h
    cases h
  · rw [if_neg hform] at h
    simp only [not_or, not_not] at hform
    obtain ⟨hne, hhead, hall⟩ := hform
    by_cases hwide : digitsValue rest < 4294967296
    · rw [if_pos hwide] at h
      by_cases hrange : 1 ≤ digitsValue rest ∧ digitsValue rest ≤ 65535
      · rw [if_pos hrange] at h
        have hnumber : u.toNat = digitsValue rest := by
          rw [← Option.some.inj h, UInt16.toNat_ofNat']
          exact Nat.mod_eq_of_lt (by omega)
        constructor
        · rintro rfl
          rw [UInt16.toNat_zero] at hnumber
          omega
        · rw [hnumber, hvalue]
          exact (decimal_ofDigitChars hne hhead (List.all_eq_true.mp hall)).symm
      · rw [if_neg hrange] at h
        cases h
    · rw [if_neg hwide] at h
      cases h

/-- A user is read from what is written for it. -/
theorem parseUid_decimal (hu : u ≠ 0) : parseUid (decimal u.toNat) = some u := by
  have hlt := u.toNat_lt
  have hpos := toNat_pos hu
  have hvalue : digitsValue (decimal u.toNat) = u.toNat :=
    Nat.ofDigitChars_eq_foldl.symm.trans Nat.ofDigitChars_ten_toDigits
  have hall : (decimal u.toNat).all Char.isDigit = true :=
    List.all_eq_true.mpr fun c hc => isDigit_of_mem_decimal hc
  have hform : ¬(decimal u.toNat = [] ∨ (decimal u.toNat).head? = some '0' ∨
      ¬(decimal u.toNat).all Char.isDigit) := by
    simp only [not_or, not_not]
    exact ⟨Nat.toDigits_ne_nil, head?_decimal hpos, hall⟩
  rw [parseUid, if_neg hform, hvalue, if_pos (by omega), if_pos (by omega), UInt16.ofNat_toNat]

end Users

section Grammar

variable {s : String} {t : Track} {u : UInt16}

/-- A beginning is taken away exactly from what starts with it. -/
theorem stripBeginning_eq_some_iff (beginning s rest : List Char) :
    stripBeginning beginning s = some rest ↔ s = beginning ++ rest := by
  induction beginning generalizing s with
  | nil => rw [stripBeginning, Option.some.injEq, List.nil_append]
  | cons c cs ih =>
    cases s with
    | nil => simp [stripBeginning]
    | cons d ds =>
      rw [stripBeginning, List.cons_append, List.cons.injEq]
      by_cases hcd : c = d
      · rw [if_pos hcd, ih]
        exact (and_iff_right hcd.symm).symm
      · rw [if_neg hcd]
        exact iff_of_false (Option.some_ne_none _).symm fun h => hcd h.1.symm

/-- No mid that is written for a track is too long. -/
theorem utf8ByteSize_mid (t : Track) : t.mid.utf8ByteSize ≤ midMaxLen := by
  have hnumber : ∀ u : UInt16, (String.ofList (decimal u.toNat)).utf8ByteSize ≤ 5 := by
    intro u
    rw [utf8ByteSize_ofList (decimal_ascii u.toNat)]
    exact length_decimal_toNat u
  cases t with
  | mic => decide
  | videoSend kind => cases kind <;> decide
  | audio u =>
    have hbeginning : "user-".utf8ByteSize = 5 := by decide
    have hlength := hnumber u
    rw [Track.mid, String.utf8ByteSize_append, midMaxLen]
    omega
  | video u kind =>
    have hbeginning : kind.userBeginning.utf8ByteSize = 9 := by cases kind <;> decide
    have hlength := hnumber u
    rw [Track.mid, String.utf8ByteSize_append, midMaxLen]
    omega

/-- A beginning and a user are read from what is written for them, and from nothing else. -/
theorem user_iff (beginning s : String) (u : UInt16) :
    (∃ rest, stripBeginning beginning.toList s.toList = some rest ∧ parseUid rest = some u) ↔
      u ≠ 0 ∧ s = beginning ++ String.ofList (decimal u.toNat) := by
  constructor
  · rintro ⟨rest, hrest, hu⟩
    obtain ⟨hne, rfl⟩ := of_parseUid hu
    refine ⟨hne, String.toList_inj.mp ?_⟩
    rw [(stripBeginning_eq_some_iff _ _ _).mp hrest, String.toList_append, String.toList_ofList]
  · rintro ⟨hne, rfl⟩
    refine ⟨decimal u.toNat, (stripBeginning_eq_some_iff _ _ _).mpr ?_, parseUid_decimal hne⟩
    rw [String.toList_append, String.toList_ofList]

theorem named_audio : (Track.audio u).Named ↔ u ≠ 0 :=
  ⟨fun h => h u rfl, fun h _ hv => Option.some.inj hv ▸ h⟩

theorem named_video {kind : VideoKind} : (Track.video u kind).Named ↔ u ≠ 0 :=
  ⟨fun h => h u rfl, fun h _ hv => Option.some.inj hv ▸ h⟩

theorem named_of_none (h : t.userId = none) : t.Named := by
  rw [Track.Named, h]
  exact fun u hu => absurd hu (Option.not_mem_none u)

/-- What is read as a track is the mid that is written for it. -/
theorem of_parseMid (h : parseMid s = some t) : t.Named ∧ s = t.mid := by
  rw [parseMid] at h
  split_ifs at h with hlong hsend hcam hscr
  · obtain rfl := Option.some.inj h
    exact ⟨named_of_none rfl, hsend⟩
  · obtain rfl := Option.some.inj h
    exact ⟨named_of_none rfl, hcam⟩
  · obtain rfl := Option.some.inj h
    exact ⟨named_of_none rfl, hscr⟩
  · cases haudio : stripBeginning "user-".toList s.toList with
    | some rest =>
      rw [haudio] at h
      obtain ⟨u, hu, rfl⟩ := Option.map_eq_some_iff.mp h
      rw [named_audio]
      exact (user_iff _ _ _).mp ⟨rest, haudio, hu⟩
    | none =>
      rw [haudio] at h
      cases hcamera : stripBeginning "cam-user-".toList s.toList with
      | some rest =>
        rw [hcamera] at h
        obtain ⟨u, hu, rfl⟩ := Option.map_eq_some_iff.mp h
        rw [named_video]
        exact (user_iff _ _ _).mp ⟨rest, hcamera, hu⟩
      | none =>
        rw [hcamera] at h
        cases hscreen : stripBeginning "scr-user-".toList s.toList with
        | some rest =>
          rw [hscreen] at h
          obtain ⟨u, hu, rfl⟩ := Option.map_eq_some_iff.mp h
          rw [named_video]
          exact (user_iff _ _ _).mp ⟨rest, hscreen, hu⟩
        | none =>
          rw [hscreen] at h
          cases h

theorem append_ne_of_take {beginning mid : String} {n : ℕ}
    (hlength : n ≤ beginning.toList.length)
    (htake : beginning.toList.take n ≠ mid.toList.take n) (rest : String) :
    beginning ++ rest ≠ mid := by
  rintro rfl
  rw [String.toList_append, List.take_append_of_le_length hlength] at htake
  exact htake rfl

/-- Each beginning is read as a mid's own, not as another. -/
theorem parseMid_video (hu : u ≠ 0) (kind : VideoKind) :
    parseMid (Track.video u kind).mid = some (.video u kind) := by
  have hfits := utf8ByteSize_mid (.video u kind)
  obtain ⟨rest, hrest, huser⟩ := (user_iff kind.userBeginning _ u).mpr ⟨hu, rfl⟩
  have hother : ∀ mid, kind.userBeginning.toList.take 5 ≠ mid.toList.take 5 →
      (Track.video u kind).mid ≠ mid := by
    intro mid htake
    have hlength : 5 ≤ kind.userBeginning.toList.length := by cases kind <;> decide
    exact append_ne_of_take hlength htake _
  rw [parseMid, if_neg (Nat.not_lt.mpr hfits), if_neg (hother _ (by cases kind <;> decide)),
    if_neg (hother _ (by cases kind <;> decide)), if_neg (hother _ (by cases kind <;> decide))]
  have haudio : stripBeginning "user-".toList (Track.video u kind).mid.toList = none := by
    rw [Track.mid, String.toList_append]
    cases kind <;> rfl
  rw [haudio]
  cases kind with
  | camera =>
    have hcamera : stripBeginning "cam-user-".toList (Track.video u .camera).mid.toList =
        some rest := hrest
    rw [hcamera]
    exact Option.map_eq_some_iff.mpr ⟨u, huser, rfl⟩
  | screen =>
    have hcamera : stripBeginning "cam-user-".toList (Track.video u .screen).mid.toList =
        none := by
      rw [Track.mid, String.toList_append]
      rfl
    have hscreen : stripBeginning "scr-user-".toList (Track.video u .screen).mid.toList =
        some rest := hrest
    rw [hcamera, hscreen]
    exact Option.map_eq_some_iff.mpr ⟨u, huser, rfl⟩

/-- The mid that is written for a track is read as it. -/
theorem parseMid_mid (ht : t.Named) : parseMid t.mid = some t := by
  cases t with
  | mic => decide
  | videoSend kind => cases kind <;> decide
  | video u kind => exact parseMid_video (named_video.mp ht) kind
  | audio u =>
    have hother : ∀ mid, "user-".toList.take 1 ≠ mid.toList.take 1 →
        (Track.audio u).mid ≠ mid :=
      fun mid htake => append_ne_of_take (by decide) htake _
    obtain ⟨rest, hrest, huser⟩ := (user_iff "user-" _ u).mpr ⟨named_audio.mp ht, rfl⟩
    have hfits := utf8ByteSize_mid (.audio u)
    rw [parseMid, if_neg (Nat.not_lt.mpr hfits), if_neg (hother _ (by decide)),
      if_neg (hother _ (by decide)), if_neg (hother _ (by decide)), Track.mid, hrest]
    exact Option.map_eq_some_iff.mpr ⟨u, huser, rfl⟩

/-- Mids are read by their grammar: a mid is read as a track exactly if it is the one that is
written for it, so that other mids name other tracks. Every track whose user is not zero has one
mid, which is not too long. -/
theorem parseMid_exact :
    (∀ s t, parseMid s = some t ↔ t.Named ∧ s = t.mid) ∧
      (∀ s s' t t', parseMid s = some t → parseMid s' = some t' → s ≠ s' → t ≠ t') ∧
      (∀ t, (∃! s, parseMid s = some t) ↔ t.Named) ∧
      ∀ t : Track, t.mid.utf8ByteSize ≤ midMaxLen := by
  have hexact : ∀ s t, parseMid s = some t ↔ t.Named ∧ s = t.mid := by
    intro s t
    constructor
    · exact of_parseMid
    · rintro ⟨ht, rfl⟩
      exact parseMid_mid ht
  refine ⟨hexact, ?_, ?_, utf8ByteSize_mid⟩
  · rintro s s' t t' hs hs' hne rfl
    exact hne ((of_parseMid hs).2.trans (of_parseMid hs').2.symm)
  · intro t
    constructor
    · rintro ⟨s, hs, -⟩
      exact (of_parseMid hs).1
    · intro ht
      exact ⟨t.mid, parseMid_mid ht, fun s hs => (of_parseMid hs).2⟩

end Grammar

end Gtkhx.Voice
