import Gtkhx.Library.Text
import Gtkhx.Voice.Sdp
import Mathlib.Data.Finset.Basic

/-!
# The sections of an offer

The runtime reads an offer too, before the machine does, to route its receive pads: which SSRC
belongs to which section, and which sections are inactive. It decides at the end of a section,
and the machine at the `a=inactive` line. Both are compared with the sections themselves.
-/

namespace Gtkhx.Voice

open Text

/-- A receive pad waiting for an offer to name its SSRC. -/
structure HeldPad (ρ : Type*) where
  /-- What it carries. -/
  ssrc : UInt32
  /-- What routes it. -/
  release : ρ

/-- What routes the receive pads. -/
structure SsrcRouting (ρ : Type*) where
  /-- The section each SSRC was declared in. -/
  mids : AList (fun _ : UInt32 => String) := ∅
  /-- The pads that wait for an offer. -/
  held : List (HeldPad ρ) := []
  /-- Mids the latest offer to mention them made inactive. -/
  inactive : Finset String := ∅

/-- An offer being indexed. -/
structure Indexing where
  /-- The SSRCs it declares, with their sections. -/
  fresh : AList (fun _ : UInt32 => String) := ∅
  /-- The sections it has, and whether each is inactive. -/
  sections : List (String × Bool) := []
  /-- The mid of the section being read. -/
  mid : Option String := none
  /-- It is inactive. -/
  inactive : Bool := false
  /-- The SSRCs it declares. -/
  pending : List UInt32 := []

namespace Indexing

/-- The section being read ends. -/
def flush (i : Indexing) : Indexing :=
  match i.mid with
  | some mid =>
    { fresh := i.pending.foldl (fun fresh ssrc => fresh.insert ssrc mid) i.fresh
      sections := i.sections ++ [(mid, i.inactive)] }
  | none => { i with inactive := false, pending := [] }

/-- One line. -/
def line (i : Indexing) (line : List Char) : Indexing :=
  if (stripBeginning "m=".toList line).isSome then i.flush
  else if line = "a=inactive".toList then { i with inactive := true }
  else match stripBeginning "a=mid:".toList line with
  | some m => { i with mid := some (String.ofList (trim m)) }
  | none => match stripBeginning "a=ssrc-group:FID ".toList line with
    | some v => { i with pending := i.pending ++ (splitWhitespace v).filterMap parseU32 }
    | none => match stripBeginning "a=ssrc:".toList line with
      | some v => { i with
          pending := i.pending ++ ((splitWhitespace v).head?.bind parseU32).toList }
      | none => i

end Indexing

/-- Add an offer to the routing. The held pads it declares, to release, each with its mid. -/
def indexOfferSsrcs {ρ : Type*} (sdp : String) (routing : SsrcRouting ρ) :
    SsrcRouting ρ × List (ρ × String) :=
  let i := ((sdpLines sdp).foldl Indexing.line {}).flush
  ({ mids := i.fresh ∪ routing.mids
     held := routing.held.filter fun h => (i.fresh.lookup h.ssrc).isNone
     inactive := i.sections.foldl
       (fun inactive s => if s.2 then insert s.1 inactive else inactive.erase s.1)
       routing.inactive },
    routing.held.filterMap fun h => (i.fresh.lookup h.ssrc).map (h.release, ·))

/-- A line opens a media section. -/
def opensSection (line : List Char) : Bool := (stripBeginning "m=".toList line).isSome

/-- The mid a line names. -/
def midOf (line : List Char) : Option (List Char) := stripBeginning "a=mid:".toList line

/-- The line that makes a section inactive. -/
def inactiveLine : List Char := "a=inactive".toList

/-- The lines before the first media section, and the lines of each after the one that
opens it. -/
def split : List (List Char) → List (List Char) × List (List (List Char))
  | [] => ([], [])
  | line :: rest =>
    if opensSection line then ([], (split rest).1 :: (split rest).2)
    else (line :: (split rest).1, (split rest).2)

/-- An offer's media sections. -/
def mediaSections (sdp : String) : List (List (List Char)) := (split (sdpLines sdp)).2

/-- The same after the lines before the first. -/
def parts (sdp : String) : List (List (List Char)) :=
  (split (sdpLines sdp)).1 :: mediaSections sdp

/-- A mid somebody else's media is received under. -/
def receives (mid : String) : Bool := (parseMid mid).any Track.isReceive

/-- The mids named last before each `a=inactive` line of a part, where any was. -/
def namedBefore (mid : Option String) : List (List Char) → List String
  | [] => []
  | line :: rest =>
    match midOf line with
    | some m => namedBefore (some (String.ofList m)) rest
    | none =>
      if line = inactiveLine then mid.toList ++ namedBefore mid rest else namedBefore mid rest

/-- The mid a part ends with, without surrounding spaces, and whether the part has an
`a=inactive` line. -/
def mention (part : List (List Char)) : Option (String × Bool) :=
  (part.filterMap midOf).getLast?.map fun m =>
    (String.ofList (trim m), decide (inactiveLine ∈ part))

/-- What the last part that mentions a mid says of it. -/
def lastMention (sdp : String) (mid : String) : Option Bool :=
  (((parts sdp).filterMap mention).filter (·.1 = mid)).getLast?.map Prod.snd

/-- A media section has this mid and an `a=inactive` line. -/
def inactiveSection (mid : String) (part : List (List Char)) : Bool :=
  part.filterMap midOf = [mid.toList] ∧ inactiveLine ∈ part

/-- The machine finds each inactive receive section once, and they are those the runtime makes
inactive. -/
def Agree (ρ : Type*) (sdp : String) : Prop :=
  (∀ mid, (inactiveRecvMids sdp).count mid =
    if receives mid then (mediaSections sdp).countP (inactiveSection mid) else 0) ∧
  ∀ (routing : SsrcRouting ρ) (mid : String), receives mid = true → mid ∉ routing.inactive →
    (mid ∈ (indexOfferSsrcs sdp routing).1.inactive ↔ mid ∈ inactiveRecvMids sdp)

/-- For every receive mid, as many `a=inactive` lines come after it as sections of it have one,
and the last part to mention it is inactive if any of them is. -/
def Marked (sdp : String) : Prop :=
  ∀ mid, receives mid = true →
    ((parts sdp).flatMap (namedBefore none)).count mid =
      (mediaSections sdp).countP (inactiveSection mid) ∧
    ((∃ part ∈ mediaSections sdp, inactiveSection mid part = true) ↔
      lastMention sdp mid = some true)

/-- A line that names a mid. -/
theorem inactiveStep_of_mid {line m : List Char} (hopens : ¬opensSection line = true)
    (hmid : midOf line = some m) (mid : Option String) (found : List String) :
    inactiveStep (mid, found) line = (some (String.ofList m), found) := by
  have hopens : ¬(stripBeginning "m=".toList line).isSome = true := hopens
  have hmid : stripBeginning "a=mid:".toList line = some m := hmid
  rw [inactiveStep, if_neg hopens, hmid]

/-- A line that makes its section inactive. -/
theorem inactiveStep_of_inactive {line : List Char} (hopens : ¬opensSection line = true)
    (hmid : midOf line = none) (hinactive : line = inactiveLine) (mid : Option String)
    (found : List String) :
    inactiveStep (mid, found) line = (mid, found ++ mid.toList.filter receives) := by
  have hopens : ¬(stripBeginning "m=".toList line).isSome = true := hopens
  have hmid : stripBeginning "a=mid:".toList line = none := hmid
  have hinactive : line = "a=inactive".toList := hinactive
  rw [inactiveStep, if_neg hopens, hmid]
  change (if line = "a=inactive".toList then _ else _) = _
  rw [if_pos hinactive]
  cases mid with
  | none => rw [Option.toList_none, List.filter_nil, List.append_nil]
  | some mid =>
    change (if receives mid = true then _ else _) = _
    by_cases hreceives : receives mid = true
    · rw [if_pos hreceives, Option.toList_some, List.filter_cons_of_pos hreceives, List.filter_nil]
    · rw [if_neg hreceives, Option.toList_some, List.filter_cons_of_neg hreceives, List.filter_nil,
        List.append_nil]

/-- Any other. -/
theorem inactiveStep_of_other {line : List Char} (hopens : ¬opensSection line = true)
    (hmid : midOf line = none) (hinactive : line ≠ inactiveLine) (mid : Option String)
    (found : List String) : inactiveStep (mid, found) line = (mid, found) := by
  have hopens : ¬(stripBeginning "m=".toList line).isSome = true := hopens
  have hmid : stripBeginning "a=mid:".toList line = none := hmid
  have hinactive : line ≠ "a=inactive".toList := hinactive
  rw [inactiveStep, if_neg hopens, hmid]
  exact if_neg hinactive

/-- The machine's scan of a part's lines, and of the parts after it. -/
theorem foldl_inactiveStep (lines : List (List Char)) (mid : Option String) (found : List String) :
    (lines.foldl inactiveStep (mid, found)).2 =
      found ++ (namedBefore mid (split lines).1 ++
        (split lines).2.flatMap (namedBefore none)).filter receives := by
  induction lines generalizing mid found with
  | nil => simp [split, namedBefore]
  | cons line lines ih =>
    rw [List.foldl_cons]
    by_cases hopens : opensSection line = true
    · have hstep : inactiveStep (mid, found) line = (none, found) := if_pos hopens
      rw [hstep, ih, split, if_pos hopens]
      rfl
    · have hsplit : split (line :: lines) = (line :: (split lines).1, (split lines).2) :=
        if_neg hopens
      rw [hsplit]
      cases hmid : midOf line with
      | some m => rw [inactiveStep_of_mid hopens hmid, ih, namedBefore, hmid]
      | none =>
        by_cases hinactive : line = inactiveLine
        · rw [inactiveStep_of_inactive hopens hmid hinactive, ih, namedBefore, hmid]
          simp only [if_pos hinactive, List.filter_append, List.append_assoc]
        · rw [inactiveStep_of_other hopens hmid hinactive, ih, namedBefore, hmid]
          simp only [if_neg hinactive]

/-- What the machine finds in an offer. -/
theorem inactiveRecvMids_eq (sdp : String) :
    inactiveRecvMids sdp = ((parts sdp).flatMap (namedBefore none)).filter receives := by
  rw [inactiveRecvMids, foldl_inactiveStep, List.nil_append]
  rfl

namespace Indexing

/-- What a part says when it is read on from here. -/
def closing (i : Indexing) (part : List (List Char)) : Option (String × Bool) :=
  (((part.filterMap midOf).getLast?.map fun m => String.ofList (trim m)).or i.mid).map
    fun mid => (mid, i.inactive || decide (inactiveLine ∈ part))

theorem flush_sections (i : Indexing) :
    i.flush.sections = i.sections ++ (i.mid.map (·, i.inactive)).toList ∧
      i.flush.mid = none ∧ i.flush.inactive = false := by
  unfold flush
  cases hmid : i.mid with
  | none => simp
  | some mid => simp

/-- No line names a mid and makes a section inactive. -/
theorem midOf_inactiveLine : midOf inactiveLine = none := by decide

/-- A line of a part is read on. -/
theorem line_closing {l : List Char} (hopens : ¬opensSection l = true) (i : Indexing) :
    (i.line l).sections = i.sections ∧
      ∀ part, (i.line l).closing part = i.closing (l :: part) := by
  have hopens : ¬(stripBeginning "m=".toList l).isSome = true := hopens
  unfold line
  rw [if_neg hopens]
  by_cases hinactive : l = inactiveLine
  · rw [if_pos (show l = "a=inactive".toList from hinactive)]
    refine ⟨rfl, fun part => ?_⟩
    unfold closing
    rw [hinactive, List.filterMap_cons_none midOf_inactiveLine]
    simp
  · have hneg : l ≠ "a=inactive".toList := hinactive
    rw [if_neg hneg]
    have hmem (part : List (List Char)) :
        decide (inactiveLine ∈ l :: part) = decide (inactiveLine ∈ part) := by
      simp [Ne.symm hinactive]
    cases hmid : midOf l with
    | some m =>
      rw [show stripBeginning "a=mid:".toList l = some m from hmid]
      refine ⟨rfl, fun part => ?_⟩
      unfold closing
      rw [hmem, List.filterMap_cons_some hmid, List.getLast?_cons]
      cases (part.filterMap midOf).getLast? with
      | none => simp
      | some last => simp
    | none =>
      rw [show stripBeginning "a=mid:".toList l = none from hmid]
      have hsame (pending : List UInt32) (part : List (List Char)) :
          closing { i with pending := pending } part = i.closing (l :: part) := by
        unfold closing
        rw [hmem, List.filterMap_cons_none hmid]
      dsimp only
      split
      · exact ⟨rfl, hsame _⟩
      · split
        · exact ⟨rfl, hsame _⟩
        · exact ⟨rfl, hsame i.pending⟩

/-- The runtime's scan of a part's lines, and of the parts after it. -/
theorem foldl_line (lines : List (List Char)) (i : Indexing) :
    (lines.foldl line i).flush.sections =
      i.sections ++ (i.closing (split lines).1).toList ++ (split lines).2.filterMap mention := by
  induction lines generalizing i with
  | nil => simp [split, flush_sections, closing]
  | cons l lines ih =>
    rw [List.foldl_cons, ih]
    by_cases hopens : opensSection l = true
    · have hline : i.line l = i.flush := if_pos hopens
      obtain ⟨hsections, hmid, hinactive⟩ := i.flush_sections
      have hmention (part : List (List Char)) : i.flush.closing part = mention part := by
        unfold closing mention
        rw [hmid, hinactive]
        simp [Option.map_map, Function.comp_def]
      have hself : (i.mid.map (·, i.inactive)) = i.closing [] := by
        simp [closing]
      rw [hline, hsections, hmention, hself, split, if_pos hopens]
      cases hfirst : mention (split lines).1 with
      | none => simp [hfirst]
      | some m => simp [hfirst]
    · have hsplit : split (l :: lines) = (l :: (split lines).1, (split lines).2) :=
        if_neg hopens
      obtain ⟨hsections, hclosing⟩ := line_closing hopens i
      rw [hsplit, hsections, hclosing]

end Indexing

/-- Whether a mid is inactive once sections have been gone through: as the last of them to have
it says, or else as before. -/
theorem mem_foldl_inactive (sections : List (String × Bool)) (inactive : Finset String)
    (mid : String) :
    (mid ∈ sections.foldl
      (fun inactive s => if s.2 then insert s.1 inactive else inactive.erase s.1) inactive) ↔
      ((sections.filter (·.1 = mid)).getLast?.map Prod.snd).getD (decide (mid ∈ inactive)) =
        true := by
  induction sections using List.reverseRecOn with
  | nil => simp
  | append_singleton sections s ih =>
    rw [List.foldl_append, List.foldl_cons, List.foldl_nil, List.filter_append]
    by_cases hmid : s.1 = mid
    · rw [List.filter_cons_of_pos (by simpa using hmid), List.filter_nil, List.getLast?_concat]
      cases hinactive : s.2 with
      | true => simp [hmid, hinactive]
      | false => simp [hmid, hinactive]
    · rw [List.filter_cons_of_neg (by simpa using hmid), List.filter_nil, List.append_nil, ← ih]
      cases s.2 with
      | true => simp [Finset.mem_insert, Ne.symm hmid]
      | false => simp [Finset.mem_erase, Ne.symm hmid]

/-- What the runtime makes inactive. -/
theorem mem_indexOfferSsrcs_inactive {ρ : Type*} (sdp : String) (routing : SsrcRouting ρ)
    {mid : String} (hnot : mid ∉ routing.inactive) :
    mid ∈ (indexOfferSsrcs sdp routing).1.inactive ↔ lastMention sdp mid = some true := by
  have hsections : ((sdpLines sdp).foldl Indexing.line {}).flush.sections =
      (parts sdp).filterMap mention := by
    rw [Indexing.foldl_line]
    have hfirst :
        Indexing.closing {} (split (sdpLines sdp)).1 = mention (split (sdpLines sdp)).1 := by
      simp [Indexing.closing, mention, Option.map_map, Function.comp_def]
    rw [hfirst, List.nil_append, parts, mediaSections]
    cases hmention : mention (split (sdpLines sdp)).1 with
    | none => simp [hmention]
    | some m => simp [hmention]
  unfold indexOfferSsrcs
  dsimp only
  rw [mem_foldl_inactive, hsections]
  unfold lastMention
  cases (((parts sdp).filterMap mention).filter (·.1 = mid)).getLast? with
  | none => simp [hnot]
  | some last => simp

/-- **When the two readers agree.** They do exactly when, of every receive mid, as many
`a=inactive` lines come after a line that names it as sections with it have one, and the last to
mention it is inactive if any of them is. -/
theorem readers_agree_iff (ρ : Type*) (sdp : String) : Agree ρ sdp ↔ Marked sdp := by
  have hcount (mid : String) (hreceives : receives mid = true) :
      (inactiveRecvMids sdp).count mid = ((parts sdp).flatMap (namedBefore none)).count mid := by
    rw [inactiveRecvMids_eq, List.count_filter hreceives]
  have hfound (mid : String) (heq : (inactiveRecvMids sdp).count mid =
      (mediaSections sdp).countP (inactiveSection mid)) : mid ∈ inactiveRecvMids sdp ↔
        ∃ part ∈ mediaSections sdp, inactiveSection mid part = true := by
    rw [← List.count_pos_iff, heq, List.countP_pos_iff]
  constructor
  · rintro ⟨honce, hsame⟩ mid hreceives
    have heq := honce mid
    rw [if_pos hreceives] at heq
    refine ⟨(hcount mid hreceives).symm.trans heq, ?_⟩
    have hnot : mid ∉ ({} : SsrcRouting ρ).inactive := Finset.notMem_empty mid
    rw [← hfound mid heq, ← hsame {} mid hreceives hnot, mem_indexOfferSsrcs_inactive sdp {} hnot]
  · intro hmarked
    refine ⟨fun mid => ?_, fun routing mid hreceives hnot => ?_⟩
    · by_cases hreceives : receives mid = true
      · rw [if_pos hreceives, hcount mid hreceives, (hmarked mid hreceives).1]
      · rw [if_neg hreceives, List.count_eq_zero, inactiveRecvMids_eq]
        exact fun hmem => hreceives (List.mem_filter.mp hmem).2
    · rw [mem_indexOfferSsrcs_inactive sdp routing hnot, ← (hmarked mid hreceives).2, hfound]
      rw [hcount mid hreceives, (hmarked mid hreceives).1]

/-- Only a mid that a part names is found in it. -/
theorem mem_namedBefore {mid : String} {start : Option String} {part : List (List Char)}
    (h : mid ∈ namedBefore start part) :
    start = some mid ∨ mid.toList ∈ part.filterMap midOf := by
  induction part generalizing start with
  | nil => cases h
  | cons line part ih =>
    rw [namedBefore] at h
    cases hmid : midOf line with
    | some m =>
      rw [hmid] at h
      right
      rw [List.filterMap_cons_some hmid]
      rcases ih h with hstart | hrest
      · have heq : String.ofList m = mid := Option.some.inj hstart
        rw [← heq, String.toList_ofList]
        exact List.mem_cons_self
      · exact List.mem_cons_of_mem _ hrest
    | none =>
      rw [hmid] at h
      rw [List.filterMap_cons_none hmid]
      dsimp only at h
      split at h
      · rcases List.mem_append.mp h with hstart | hrest
        · exact .inl (Option.mem_toList.mp hstart)
        · exact ih hrest
      · exact ih h

/-- Where nothing is inactive nothing is found. -/
theorem namedBefore_of_active {part : List (List Char)} (h : inactiveLine ∉ part)
    (start : Option String) : namedBefore start part = [] := by
  induction part generalizing start with
  | nil => rfl
  | cons line part ih =>
    rw [List.mem_cons, not_or] at h
    rw [namedBefore]
    cases midOf line with
    | some m => exact ih h.2 _
    | none =>
      dsimp only
      rw [if_neg (Ne.symm h.1), ih h.2]

/-- A part does not name a mid. -/
def Silent (mid : String) (part : List (List Char)) : Prop :=
  mid.toList ∉ part.filterMap midOf ∧ ∀ inactive, mention part ≠ some (mid, inactive)

/-- A section of another mid does not name this one. -/
theorem silent_of_ne {mid : String} {part : List (List Char)} {m : List Char}
    (hpart : part.filterMap midOf = [m]) (htrim : trim m = m) (hne : m ≠ mid.toList) :
    Silent mid part := by
  constructor
  · rw [hpart, List.mem_singleton]
    exact Ne.symm hne
  · intro inactive heq
    rw [mention, hpart] at heq
    have hmid : String.ofList (trim m) = mid := (Prod.mk.inj (Option.some.inj heq)).1
    rw [htrim] at hmid
    exact hne (by rw [← hmid, String.toList_ofList])

/-- Parts that do not name a mid add nothing to what is said of it. -/
theorem silent_parts {mid : String} {ps : List (List (List Char))} (h : ∀ p ∈ ps, Silent mid p) :
    (ps.flatMap (namedBefore none)).count mid = 0 ∧ ps.countP (inactiveSection mid) = 0 ∧
      (ps.filterMap mention).filter (·.1 = mid) = [] := by
  refine ⟨?_, ?_, ?_⟩
  · rw [List.count_eq_zero]
    intro hmem
    obtain ⟨p, hp, hnamed⟩ := List.mem_flatMap.mp hmem
    rcases mem_namedBefore hnamed with hstart | hname
    · cases hstart
    · exact (h p hp).1 hname
  · rw [List.countP_eq_zero]
    intro p hp hsection
    have hname := (of_decide_eq_true hsection).1
    exact (h p hp).1 (hname ▸ List.mem_singleton_self _)
  · rw [List.filter_eq_nil_iff]
    rintro ⟨m, inactive⟩ hmem heq
    obtain ⟨p, hp, hmention⟩ := List.mem_filterMap.mp hmem
    obtain rfl : m = mid := of_decide_eq_true heq
    exact (h p hp).2 inactive hmention

/-- Where each mid names one section and nothing before the sections names one, the readers agree
exactly when every inactive receive section has one `a=inactive` line after its `a=mid` line. -/
theorem marked_iff_of_distinct {sdp : String}
    (hmids : ∀ part ∈ mediaSections sdp, ∃ m, part.filterMap midOf = [m] ∧ trim m = m)
    (hfirst : (split (sdpLines sdp)).1.filterMap midOf = [])
    (hdistinct : ((mediaSections sdp).map (List.filterMap midOf)).Nodup) :
    Marked sdp ↔ ∀ part ∈ mediaSections sdp, ∀ mid, receives mid = true →
      inactiveSection mid part = true → (namedBefore none part).count mid = 1 := by
  have hbefore (mid : String) : Silent mid (split (sdpLines sdp)).1 := by
    refine ⟨by rw [hfirst]; exact List.not_mem_nil, fun inactive heq => ?_⟩
    rw [mention, hfirst] at heq
    cases heq
  have hsilent (mid : String) (part : List (List Char)) (hpart : part ∈ mediaSections sdp)
      (hname : part.filterMap midOf ≠ [mid.toList]) : Silent mid part := by
    obtain ⟨m, hm, htrim⟩ := hmids part hpart
    exact silent_of_ne hm htrim fun heq => hname (heq ▸ hm)
  have hone (mid : String) (part : List (List Char)) (hpart : part ∈ mediaSections sdp)
      (hname : part.filterMap midOf = [mid.toList]) :
      ((parts sdp).flatMap (namedBefore none)).count mid = (namedBefore none part).count mid ∧
      (mediaSections sdp).countP (inactiveSection mid) =
        (if inactiveSection mid part then 1 else 0) ∧
      lastMention sdp mid = some (decide (inactiveLine ∈ part)) := by
    obtain ⟨m, hm, htrim⟩ := hmids part hpart
    obtain rfl : m = mid.toList := List.singleton_inj.mp (hm.symm.trans hname)
    have hmention : mention part = some (mid, decide (inactiveLine ∈ part)) := by
      rw [mention, hname, List.getLast?_singleton, Option.map_some, htrim, String.ofList_toList]
    obtain ⟨pre, post, hsplit⟩ := List.append_of_mem hpart
    rw [hsplit, List.map_append, List.map_cons] at hdistinct
    obtain ⟨-, hpost, hpre⟩ := List.nodup_append.mp hdistinct
    have hpre_silent : ∀ p ∈ (split (sdpLines sdp)).1 :: pre, Silent mid p := by
      intro p hp
      rcases List.mem_cons.mp hp with rfl | hp
      · exact hbefore mid
      · refine hsilent mid p (hsplit ▸ List.mem_append_left _ hp) fun heq => ?_
        exact hpre _ (List.mem_map_of_mem hp) _ List.mem_cons_self (heq.trans hname.symm)
    have hpost_silent : ∀ p ∈ post, Silent mid p := by
      intro p hp
      refine hsilent mid p (hsplit ▸ List.mem_append_right _ (List.mem_cons_of_mem _ hp))
        fun heq => ?_
      exact (List.nodup_cons.mp hpost).1 (hname.trans heq.symm ▸ List.mem_map_of_mem hp)
    obtain ⟨hcount₁, -, hmention₁⟩ := silent_parts hpre_silent
    obtain ⟨hcount₂, hsections₂, hmention₂⟩ := silent_parts hpost_silent
    have hsections₁ := (silent_parts fun p hp => hpre_silent p (List.mem_cons_of_mem _ hp)).2.1
    have hparts : parts sdp = ((split (sdpLines sdp)).1 :: pre) ++ part :: post := by
      rw [parts, hsplit, List.cons_append]
    generalize (split (sdpLines sdp)).1 :: pre = front at hparts hcount₁ hmention₁
    refine ⟨?_, ?_, ?_⟩
    · rw [hparts, List.flatMap_append, List.flatMap_cons, List.count_append, List.count_append,
        hcount₁, hcount₂, Nat.zero_add, Nat.add_zero]
    · rw [hsplit, List.countP_append, List.countP_cons, hsections₁, hsections₂]
      simp
    · rw [lastMention, hparts, List.filterMap_append, List.filterMap_cons_some hmention,
        List.filter_append, hmention₁, List.filter_cons_of_pos (by simp), hmention₂]
      rfl
  constructor
  · intro hmarked part hpart mid hreceives hsection
    obtain ⟨hcount, hsections, -⟩ := hone mid part hpart (of_decide_eq_true hsection).1
    rw [← hcount, (hmarked mid hreceives).1, hsections, if_pos hsection]
  · intro honce mid hreceives
    by_cases hnamed : ∃ part ∈ mediaSections sdp, part.filterMap midOf = [mid.toList]
    · obtain ⟨part, hpart, hname⟩ := hnamed
      obtain ⟨hcount, hsections, hlast⟩ := hone mid part hpart hname
      rw [hcount, hlast, ← List.countP_pos_iff, hsections]
      by_cases hinactive : inactiveLine ∈ part
      · have hsection : inactiveSection mid part = true := decide_eq_true ⟨hname, hinactive⟩
        rw [if_pos hsection, honce part hpart mid hreceives hsection]
        simp [hinactive]
      · have hsection : ¬inactiveSection mid part = true := fun h =>
          hinactive (of_decide_eq_true h).2
        rw [if_neg hsection, namedBefore_of_active hinactive]
        simp [hinactive]
    · have hall : ∀ p ∈ parts sdp, Silent mid p := by
        intro p hp
        rcases List.mem_cons.mp hp with rfl | hp
        · exact hbefore mid
        · exact hsilent mid p hp fun heq => hnamed ⟨p, hp, heq⟩
      obtain ⟨hcount, -, hmention⟩ := silent_parts hall
      have hsections := (silent_parts fun p hp => hall p (List.mem_cons_of_mem _ hp)).2.1
      refine ⟨hcount.trans hsections.symm, ?_⟩
      rw [lastMention, hmention, ← List.countP_pos_iff, hsections]
      simp

/-- An offer of one section, inactive before it names its mid. -/
def inactiveFirst : String := "m=audio\na=inactive\na=mid:user-5\n"

/-- The machine misses that section, and the runtime does not. -/
theorem inactive_first_missed : inactiveRecvMids inactiveFirst = [] ∧
    mediaSections inactiveFirst = [["a=inactive".toList, "a=mid:user-5".toList]] ∧
    "user-5" ∈ (indexOfferSsrcs inactiveFirst ({} : SsrcRouting Empty)).1.inactive ∧
    ¬Agree Empty inactiveFirst := by
  have hmissed : inactiveRecvMids inactiveFirst = [] := by decide
  refine ⟨hmissed, by decide, by decide, fun hagree => ?_⟩
  have honce := hagree.1 "user-5"
  rw [hmissed] at honce
  revert honce
  decide

end Gtkhx.Voice
