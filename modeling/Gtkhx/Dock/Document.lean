import Gtkhx.Dock.Import
import Gtkhx.Dock.Names
import Mathlib.Data.List.Forall2

/-!
# What an imported layout says

The document that a layout in the old format stands for, as a value of JSON, and when the text that
is written for it is read as that document.
-/

namespace Gtkhx.Dock

open Text

/-- The panels that stay in the tree. -/
def kept (floating ids : List (List UInt8)) : List (List UInt8) :=
  ids.filter fun id => !leftOut id floating

/-- Where the selected panel is among those that stay. Zero if it does not. -/
def front (floating ids : List (List UInt8)) (sel : ℤ) : ℕ :=
  if 0 ≤ sel ∧ (ids[sel.toNat]?).any (fun id => !leftOut id floating) then
    (kept floating (ids.take sel.toNat)).length
  else 0

/-- How many splits a layout has. -/
def ParsedNode.splits : ParsedNode → ℕ
  | leaf _ _ _ => 0
  | split _ a b => a.splits + b.splits + 1

/-- A number of panels or pixels. -/
def number (n : ℕ) : Json := .num ((decimal n).map byte)

section Layout

variable {F : Type} (d : Double F) (sizes floating : List (List UInt8))

/-- The share of a divider's first side. Half if it has no position above zero. -/
def Double.entryShare (pos : Option ℤ) (extent : F) : F :=
  d.rounded (match pos with
    | some p =>
      if 0 < p ∧ d.lt (d.ofInt 0) extent = true then d.div (d.ofInt p) extent else d.half
    | none => d.half)

/-- A layout with so many splits before it in post-order. -/
def layout : ParsedNode → ℕ → F → F → Json
  | .leaf ids sel role, _, _, _ =>
    .obj ((ascii "tabs", .arr ((kept floating ids).map .str)) ::
      ((if 0 < front floating ids sel then
          [(ascii "active", number (front floating ids sel))] else []) ++
        role.elim [] fun role => [(ascii "slots", .arr [.str role])]))
  | .split orientation a b, n, w, h =>
    let row := orientation = .horizontal
    let share := d.entryShare ((sizes[n + a.splits + b.splits]?).map splitPosition)
      (if row then w else h)
    let other := d.sub (d.ofInt 1) share
    .obj [(ascii "dir", .str (if row then ascii "row" else ascii "col")),
      (ascii "size", .arr [.num (d.format share), .num (d.format other)]),
      (ascii "kids", .arr [
        layout a n (if row then d.mul w share else w) (if row then h else d.mul h share),
        layout b (n + a.splits) (if row then d.mul w other else w)
          (if row then h else d.mul h other)])]

end Layout

section Expected

/-- The closed panels that are neither Files nor undocked. -/
def closedIds (closed : Option (List UInt8)) (floating : List (List UInt8)) : List (List UInt8) :=
  ((closed.elim [] strsplit).map strstrip).filter fun id => id ≠ [] && !leftOut id floating

/-- The undocked panels other than Files. -/
def floatingIds (undocked : List (List UInt8)) : List (List UInt8) :=
  ((pairs undocked).map Prod.fst).filter fun id => id ≠ ascii "files"

/-- A list whose items stand for these panels. Without the list, there are none. -/
def Lists (item : List UInt8 → Json → Prop) (ids : List (List UInt8)) : Option Json → Prop
  | none => ids = []
  | some (.arr items) => List.Forall₂ item ids items
  | some _ => False

/-- A window with one panel. -/
def IsWindow (id : List UInt8) (j : Json) : Prop :=
  (j.member (ascii "layout")).bind (Json.member (ascii "tabs")) = some (.arr [.str id])

/-- A document of this layout, these closed panels and these windows. The envelope is there exactly
with something to put in it. -/
structure Holds (tree : Json) (closed floating : List (List UInt8)) (j : Json) : Prop where
  envelope : (j.member (ascii "layout")).isSome ↔ closed ≠ [] ∨ floating ≠ []
  layout : (j.member (ascii "layout")).getD j = tree
  closed : Lists (fun id item => item = .str id) closed (j.member (ascii "closed"))
  floating : Lists IsWindow floating (j.member (ascii "floating"))

end Expected

/-- What is relied on of doubles: an `int` is above zero as a double if it is, and a share in three
places and what it leaves of one are printed as numbers. -/
structure Double.Sound {F : Type} (d : Double F) : Prop where
  lt_ofInt : ∀ n, -2 ^ 31 ≤ n → n < 2 ^ 31 → d.lt (d.ofInt 0) (d.ofInt n) = decide (0 < n)
  share : ∀ n extent, 0 < n → n < 2 ^ 31 → d.lt (d.ofInt 0) extent = true →
    50 ≤ d.thousandths (d.clamp (d.div (d.ofInt n) extent)) ∧
      d.thousandths (d.clamp (d.div (d.ofInt n) extent)) ≤ 950
  half : 50 ≤ d.thousandths (d.clamp d.half) ∧ d.thousandths (d.clamp d.half) ≤ 950
  format_share : ∀ n, 50 ≤ n → n ≤ 950 →
    Json.isNumber (d.format (d.div (d.ofInt n) (d.ofInt 1000))) = true
  format_other : ∀ n, 50 ≤ n → n ≤ 950 →
    Json.isNumber (d.format (d.sub (d.ofInt 1) (d.div (d.ofInt n) (d.ofInt 1000)))) = true

section Strings

theorem jsonByte_eq (b : UInt8) : jsonByte b = Json.escape b := by
  unfold jsonByte Json.escape
  split_ifs with hspecial hcontrol
  · rfl
  · have hall : ∀ n < 32, ascii "\\u" ++ (paddedHex 4 n).map byte =
        [byte '\\', byte 'u', byte '0', byte '0', Json.hexDigit (n / 16),
          Json.hexDigit (n % 16)] := by decide
    exact hall _ hcontrol
  · rfl

theorem jsonString_eq (s : List UInt8) : jsonString s = Json.quote s := by
  have hbytes : jsonByte = Json.escape := funext jsonByte_eq
  rw [jsonString, Json.quote, hbytes]

end Strings

section Lists

theorem commas_cons (t : List UInt8) (ts : List (List UInt8)) :
    Json.commas (t :: ts) = t ++ ts.flatMap (byte ',' :: ·) := by
  induction ts generalizing t with
  | nil => simp [Json.commas]
  | cons u us ih => rw [Json.commas, ih, List.flatMap_cons, List.cons_append]; simp

theorem writeKept_false {α : Type} (keep : α → Bool) (item : α → List UInt8) (xs : List α) :
    writeKept keep item false xs = ((xs.filter keep).map item).flatMap (byte ',' :: ·) := by
  induction xs with
  | nil => rfl
  | cons x xs ih =>
    rw [writeKept, List.filter_cons]
    by_cases hx : keep x = true
    · rw [if_pos hx, if_pos hx, ih, List.map_cons, List.flatMap_cons]
      rfl
    · rw [if_neg hx, if_neg hx, ih]

/-- The items that are kept have commas between them. -/
theorem writeKept_true {α : Type} (keep : α → Bool) (item : α → List UInt8) (xs : List α) :
    writeKept keep item true xs = Json.commas ((xs.filter keep).map item) := by
  induction xs with
  | nil => rfl
  | cons x xs ih =>
    rw [writeKept, List.filter_cons]
    by_cases hx : keep x = true
    · rw [if_pos hx, if_pos hx, writeKept_false, List.map_cons, commas_cons]
      rfl
    · rw [if_neg hx, if_neg hx, ih]

end Lists

section Leaves

variable (floating : List (List UInt8)) (sel : ℤ)

theorem leafTabs_after (ids : List (List UInt8)) (i : ℕ) (active : ℤ) {n : ℕ} (hn : 0 < n) :
    (leafTabs floating sel ids i active n).1 =
      ((kept floating ids).map Json.quote).flatMap (byte ',' :: ·) := by
  induction ids generalizing i active n with
  | nil => rfl
  | cons id ids ih =>
    rw [leafTabs, kept, List.filter_cons]
    cases hleft : leftOut id floating with
    | true => exact ih _ _ hn
    | false =>
      simp only [Bool.false_eq_true, if_false, Bool.not_false, if_true, if_pos hn,
        ih _ _ (Nat.succ_pos n), jsonString_eq, List.map_cons, List.flatMap_cons]
      rfl

/-- The panels that stay are written with commas between them. -/
theorem leafTabs_text (ids : List (List UInt8)) (i : ℕ) (active : ℤ) :
    (leafTabs floating sel ids i active 0).1 =
      Json.commas ((kept floating ids).map Json.quote) := by
  induction ids generalizing i active with
  | nil => rfl
  | cons id ids ih =>
    rw [leafTabs, kept, List.filter_cons]
    cases hleft : leftOut id floating with
    | true => exact ih _ _
    | false =>
      simp only [Bool.false_eq_true, if_false, Bool.not_false, if_true, Nat.lt_irrefl,
        leafTabs_after floating sel ids _ _ (Nat.succ_pos 0), jsonString_eq, List.map_cons,
        commas_cons]
      rfl

theorem leafTabs_past (ids : List (List UInt8)) {i : ℕ} (hi : sel < i) (active : ℤ) (n : ℕ) :
    (leafTabs floating sel ids i active n).2 = active := by
  induction ids generalizing i n with
  | nil => rfl
  | cons id ids ih =>
    have hne : ¬(i : ℤ) = sel := by omega
    rw [leafTabs]
    cases hleft : leftOut id floating with
    | true => exact ih (by omega) n
    | false =>
      rw [if_neg Bool.false_ne_true]
      dsimp only
      rw [if_neg hne]
      exact ih (by omega) (n + 1)

/-- The selected panel is found if it is not before the `i`th and stays. -/
theorem leafTabs_active (ids : List (List UInt8)) (i : ℕ) (active : ℤ) (n : ℕ) :
    (leafTabs floating sel ids i active n).2 =
      if (i : ℤ) ≤ sel ∧ (ids[(sel - i).toNat]?).any (fun id => !leftOut id floating) then
        ((n + (kept floating (ids.take (sel - i).toNat)).length : ℕ) : ℤ)
      else active := by
  induction ids generalizing i active n with
  | nil => simp [leafTabs]
  | cons id ids ih =>
    rcases Int.lt_trichotomy (i : ℤ) sel with hlt | heq | hgt
    · have hnext : (sel - i).toNat = (sel - (i + 1 : ℕ)).toNat + 1 := by omega
      have hle : ((i + 1 : ℕ) : ℤ) ≤ sel := by omega
      rw [leafTabs, hnext, List.getElem?_cons_succ, List.take_succ_cons, kept, List.filter_cons]
      cases hleft : leftOut id floating with
      | true =>
        simp only [if_true, ih, hle, Int.le_of_lt hlt, true_and, Bool.not_true, Bool.false_eq_true,
          if_false, kept]
      | false =>
        simp only [Bool.false_eq_true, if_false, ih, hle, Int.le_of_lt hlt, true_and,
          Bool.not_false,
          if_true, kept, List.length_cons, if_neg (Int.ne_of_lt hlt)]
        split_ifs
        · congr 1
          omega
        · rfl
    · have hzero : (sel - i).toNat = 0 := by omega
      have hle : (i : ℤ) ≤ sel := by omega
      rw [leafTabs, hzero, List.getElem?_cons_zero, List.take_zero, Option.any_some]
      cases hleft : leftOut id floating with
      | true =>
        rw [if_pos rfl, leafTabs_past floating sel ids (by omega), if_neg]
        rintro ⟨-, hstays⟩
        cases hstays
      | false =>
        have hfound : (i : ℤ) ≤ sel ∧ (!false) = true := ⟨hle, rfl⟩
        rw [if_neg Bool.false_ne_true, if_pos hfound]
        dsimp only
        rw [if_pos heq]
        exact leafTabs_past floating sel ids (by omega) n (n + 1)
    · have hnot : ¬(i : ℤ) ≤ sel := by omega
      rw [leafTabs_past floating sel (id :: ids) hgt, if_neg fun h => hnot h.1]

theorem printInt_natCast (n : ℕ) : printInt n = (number n).text := by
  rw [printInt, if_neg (by omega), number, Json.text, Int.natAbs_natCast, List.nil_append]

/-- The selected panel is written where it is among those that stay. -/
theorem leafTabs_front (ids : List (List UInt8)) :
    (if 0 < (leafTabs floating sel ids 0 (-1) 0).2 then
      ascii ",\"active\":" ++ printInt (leafTabs floating sel ids 0 (-1) 0).2 else []) =
    if 0 < front floating ids sel then
      ascii ",\"active\":" ++ (number (front floating ids sel)).text else [] := by
  have hactive := leafTabs_active floating sel ids 0 (-1) 0
  simp only [Int.natCast_zero, Int.sub_zero, Nat.zero_add] at hactive
  rw [hactive, front]
  by_cases hstays : 0 ≤ sel ∧ (ids[sel.toNat]?).any (fun id => !leftOut id floating) = true
  · rw [if_pos hstays, if_pos hstays]
    by_cases hpos : 0 < (kept floating (ids.take sel.toNat)).length
    · rw [if_pos (Int.natCast_pos.mpr hpos), if_pos hpos, printInt_natCast]
    · rw [if_neg (mt Int.natCast_pos.mp hpos), if_neg hpos]
  · rw [if_neg hstays, if_neg hstays]
    rfl

end Leaves

section Nodes

variable {F : Type} {d : Double F} (sizes floating : List (List UInt8))

theorem splitPosition_bounds (entry : List UInt8) :
    -2 ^ 31 ≤ splitPosition entry ∧ splitPosition entry < 2 ^ 31 := by
  have hlow := Int.le_bmod (x := (Numeral.strtoll UInt8.toNat entry).elim 0 Prod.fst)
    (m := 2 ^ 32) (by omega)
  have hhigh := Int.bmod_lt (x := (Numeral.strtoll UInt8.toNat entry).elim 0 Prod.fst)
    (m := 2 ^ 32) (by omega)
  unfold splitPosition
  omega

theorem share_eq (hd : d.Sound) (entry : Option (List UInt8)) (extent : F) :
    d.share (entry.elim 0 splitPosition) extent =
      d.entryShare (entry.map splitPosition) extent := by
  cases entry with
  | none =>
    have hzero := hd.lt_ofInt 0 (by omega) (by omega)
    unfold Double.share Double.entryShare
    rw [Option.elim_none, hzero]
    rfl
  | some entry =>
    obtain ⟨hlow, hhigh⟩ := splitPosition_bounds entry
    have hpos := hd.lt_ofInt _ hlow hhigh
    unfold Double.share Double.entryShare
    rw [Option.elim_some, hpos, Option.map_some]
    simp only [Bool.and_eq_true, decide_eq_true_eq]

theorem numberSplits_next (t : ParsedNode) (n : ℕ) :
    (numberSplits sizes t n).2 = n + t.splits := by
  induction t generalizing n with
  | leaf ids sel role => rfl
  | split orientation a b iha ihb =>
    rw [numberSplits, ParsedNode.splits, iha, ihb]
    dsimp only
    omega

theorem text_strs (xs : List (List UInt8)) :
    (xs.map Json.str).map Json.text = xs.map Json.quote := by
  rw [List.map_map]
  exact List.map_congr_left fun x _ => by rw [Function.comp_apply, Json.text]

theorem text_role (role : List UInt8) :
    (Json.arr [.str role]).text = byte '[' :: (Json.quote role ++ [byte ']']) := by
  rw [Json.text_arr, List.map_singleton, Json.text, Json.commas]

/-- A layout is written as its document. -/
theorem nodeJson_eq (hd : d.Sound) (t : ParsedNode) (n : ℕ) (w h : F) :
    nodeJson d floating (numberSplits sizes t n).1 w h =
      (layout d sizes floating t n w h).text := by
  induction t generalizing n w h with
  | leaf ids sel role =>
    have htabs : Json.quote (ascii "tabs") = ascii "\"tabs\"" := by decide
    have hactive : Json.quote (ascii "active") = ascii "\"active\"" := by decide
    have hslots : Json.quote (ascii "slots") = ascii "\"slots\"" := by decide
    rw [numberSplits, nodeJson, layout, Json.text_obj, List.map_cons, commas_cons, Json.text_arr,
      text_strs]
    rw [leafTabs_front, leafTabs_text, htabs]
    by_cases hfront : 0 < front floating ids sel
    · rw [if_pos hfront, if_pos hfront]
      cases role with
      | none =>
        simp only [Option.elim_none, List.append_nil, List.map_cons, List.map_nil, hactive]
        simp [ascii]
      | some role =>
        simp only [Option.elim_some, List.map_cons, List.map_nil, hactive, hslots,
          List.map_append, text_role, jsonString_eq]
        simp [ascii]
    · rw [if_neg hfront, if_neg hfront]
      cases role with
      | none => simp [ascii]
      | some role =>
        simp only [Option.elim_some, List.nil_append, List.map_cons, List.map_nil, hslots,
          text_role, jsonString_eq]
        simp [ascii]
  | split orientation a b iha ihb =>
    have hdir : Json.quote (ascii "dir") = ascii "\"dir\"" := by decide
    have hsize : Json.quote (ascii "size") = ascii "\"size\"" := by decide
    have hkids : Json.quote (ascii "kids") = ascii "\"kids\"" := by decide
    have hrow : Json.quote (ascii "row") = ascii "\"row\"" := by decide
    have hcol : Json.quote (ascii "col") = ascii "\"col\"" := by decide
    have hnum : ∀ s, (Json.num s).text = s := fun s => by rw [Json.text]
    have hstr : ∀ s, (Json.str s).text = Json.quote s := fun s => by rw [Json.text]
    rw [numberSplits, nodeJson, layout, Json.text_obj]
    simp only [numberSplits_next, iha, ihb, share_eq hd, List.map_cons, List.map_nil,
      Json.commas, hdir, hsize, hkids,
      Json.text_arr, hnum, hstr]
    cases orientation with
    | horizontal =>
      simp only [if_true, hrow]
      simp [ascii]
    | vertical =>
      simp only [reduceCtorEq, if_false, hcol]
      simp [ascii]

end Nodes

section Envelope

variable {F : Type} {d : Double F} (scan : List UInt8 → Option (ℤ × ℤ))

/-- A window of its own, with its size if that was read. -/
def window (u : List UInt8 × List UInt8) : Json :=
  .obj ((ascii "layout", .obj [(ascii "tabs", .arr [.str u.1])]) ::
    match scan u.2 with
    | some (fw, fh) =>
      if 0 < fw ∧ 0 < fh then
        [(ascii "size", .arr [number fw.toNat, number fh.toNat])]
      else []
    | none => [])

/-- What is written, which has an envelope with any closed or undocked panel. -/
def written (tree : Json) (closed : List (List UInt8))
    (undocked : List (List UInt8 × List UInt8)) : Json :=
  if closed = [] ∧ undocked = [] then tree
  else .obj ((ascii "layout", tree) ::
    ((if closed = [] then [] else [(ascii "closed", .arr (closed.map .str))]) ++
      if undocked = [] then [] else [(ascii "floating",
        .arr ((undocked.filter fun u => u.1 ≠ ascii "files").map (window scan)))]))

theorem printInt_pos {n : ℤ} (hn : 0 < n) : printInt n = (number n.toNat).text := by
  rw [← printInt_natCast, Int.toNat_of_nonneg (by omega)]

theorem windowJson_eq (u : List UInt8 × List UInt8) : windowJson scan u = (window scan u).text := by
  have hlayout : Json.quote (ascii "layout") = ascii "\"layout\"" := by decide
  have htabs : Json.quote (ascii "tabs") = ascii "\"tabs\"" := by decide
  have hsize : Json.quote (ascii "size") = ascii "\"size\"" := by decide
  rw [windowJson, window, Json.text_obj]
  simp only [List.map_cons, hlayout, Json.text_obj, List.map_nil, htabs, text_role, commas_cons,
    jsonString_eq]
  cases scan u.2 with
  | none => simp [ascii]
  | some size =>
    obtain ⟨fw, fh⟩ := size
    dsimp only
    by_cases hpos : 0 < fw ∧ 0 < fh
    · rw [if_pos hpos, if_pos hpos, printInt_pos hpos.1, printInt_pos hpos.2]
      simp only [List.map_cons, List.map_nil, hsize, Json.text_arr, Json.commas]
      simp [ascii]
    · rw [if_neg hpos, if_neg hpos]
      simp [ascii]

theorem text_closed (closed : List (List UInt8)) :
    (Json.arr (closed.map .str)).text =
      byte '[' :: (Json.commas (closed.map jsonString) ++ [byte ']']) := by
  rw [Json.text_arr, text_strs]
  congr 3
  exact List.map_congr_left fun id _ => (jsonString_eq id).symm

theorem text_windows (undocked : List (List UInt8 × List UInt8)) :
    (Json.arr (undocked.map (window scan))).text =
      byte '[' :: (Json.commas (undocked.map (windowJson scan)) ++ [byte ']']) := by
  rw [Json.text_arr, List.map_map]
  congr 3
  exact List.map_congr_left fun u _ => (windowJson_eq scan u).symm

theorem text_written (l : Json) (closed : List (List UInt8))
    (undocked : List (List UInt8 × List UInt8)) :
    (written scan l closed undocked).text =
      if closed.isEmpty && undocked.isEmpty then l.text
      else ascii "\x7b\"layout\":" ++ l.text ++
        (if !closed.isEmpty then
          ascii ",\"closed\":[" ++ Json.commas (closed.map jsonString) ++ ascii "]"
        else []) ++
        (if !undocked.isEmpty then
          ascii ",\"floating\":[" ++
            Json.commas ((undocked.filter fun u => u.1 ≠ ascii "files").map (windowJson scan)) ++
            ascii "]"
        else []) ++ ascii "\x7d" := by
  have hlayout : Json.quote (ascii "layout") = ascii "\"layout\"" := by decide
  have hclosed : Json.quote (ascii "closed") = ascii "\"closed\"" := by decide
  have hfloating : Json.quote (ascii "floating") = ascii "\"floating\"" := by decide
  rw [written]
  by_cases hids : closed = []
  · subst hids
    by_cases hundocked : undocked = []
    · subst hundocked
      rfl
    · rw [if_neg fun h => hundocked h.2, if_pos rfl, if_neg hundocked, List.nil_append,
        List.isEmpty_eq_false_iff.mpr hundocked, Json.text_obj]
      simp only [List.map_cons, List.map_nil, hlayout, hfloating, text_windows, commas_cons]
      simp [ascii]
  · rw [if_neg fun h => hids h.1, if_neg hids, List.isEmpty_eq_false_iff.mpr hids, Json.text_obj]
    by_cases hundocked : undocked = []
    · subst hundocked
      simp only [if_true, List.append_nil, List.map_cons, List.map_nil, hlayout, hclosed,
        text_closed, commas_cons]
      simp [ascii]
    · rw [if_neg hundocked, List.isEmpty_eq_false_iff.mpr hundocked]
      simp only [List.singleton_append, List.map_cons, List.map_nil, hlayout, hclosed, hfloating,
        text_closed, text_windows, commas_cons]
      simp [ascii]

/-- The import is written as a document. -/
theorem dlImportLegacy_eq (hd : d.Sound) {tree : List UInt8} {t : ParsedNode}
    (htree : dlParseTree tree = some t) (sizes closed : Option (List UInt8))
    (undocked : List (List UInt8)) (width height : ℤ) :
    dlImportLegacy d scan (some tree) sizes closed undocked width height =
      some (written scan
        (layout d (sizes.elim [] strsplit) ((pairs undocked).map Prod.fst) t 0
          (d.ofInt (if 0 < width then width else 1100))
          (d.ofInt (if 0 < height then height else 700)))
        (closedIds closed ((pairs undocked).map Prod.fst)) (pairs undocked)).text := by
  have hkept : ∀ floating, closedIds closed floating =
      ((closed.elim [] strsplit).map strstrip).filter (keptClosed floating) := fun _ => rfl
  have hempty : ((pairs undocked).map Prod.fst).isEmpty = (pairs undocked).isEmpty := by
    cases pairs undocked with
    | nil => rfl
    | cons u us => rfl
  rw [dlImportLegacy, Option.bind_some, htree, hkept]
  dsimp only
  rw [nodeJson_eq _ _ hd, text_written, writeKept_true, writeKept_true, hempty]
  generalize (closed.elim [] strsplit).map strstrip = shut
  generalize keptClosed ((pairs undocked).map Prod.fst) = keep
  have hany : shut.any keep = !(shut.filter keep).isEmpty := by
    rw [Bool.eq_iff_iff]
    simp
  rw [hany, Bool.not_not]
  split_ifs <;> rfl

end Envelope

section Encoded

open Utf8

variable {F : Type} {d : Double F} {sizes floating : List (List UInt8)}

theorem entryShare_isNumber (hd : d.Sound) (entry : Option (List UInt8)) (extent : F) :
    Json.isNumber (d.format (d.entryShare (entry.map splitPosition) extent)) = true ∧
      Json.isNumber
        (d.format (d.sub (d.ofInt 1) (d.entryShare (entry.map splitPosition) extent))) = true := by
  have hrounded : ∀ x, 50 ≤ d.thousandths (d.clamp x) ∧ d.thousandths (d.clamp x) ≤ 950 →
      Json.isNumber (d.format (d.rounded x)) = true ∧
        Json.isNumber (d.format (d.sub (d.ofInt 1) (d.rounded x))) = true :=
    fun x hx => ⟨hd.format_share _ hx.1 hx.2, hd.format_other _ hx.1 hx.2⟩
  unfold Double.entryShare
  cases entry with
  | none => exact hrounded _ hd.half
  | some entry =>
    rw [Option.map_some]
    dsimp only
    by_cases hpos : 0 < splitPosition entry ∧ d.lt (d.ofInt 0) extent = true
    · rw [if_pos hpos]
      exact hrounded _ (hd.share _ extent hpos.1 (splitPosition_bounds entry).2 hpos.2)
    · rw [if_neg hpos]
      exact hrounded _ hd.half

theorem encoded_strs {ids : List (List UInt8)} (h : ∀ id ∈ ids, Valid id) :
    (Json.arr (ids.map .str)).Encoded := by
  refine .arr fun j hj => ?_
  obtain ⟨id, hid, rfl⟩ := List.mem_map.mp hj
  exact .str (h id hid)

theorem encoded_number {n : ℕ} (hn : 0 < n) : (number n).Encoded := .num (Json.isNumber_decimal hn)

theorem valid_ascii {s : String} (h : ((ascii s).all fun b => b.toNat < 0x80) = true) :
    Valid (ascii s) := valid_of_all h

theorem encoded_layout (hd : d.Sound) {t : ParsedNode} (ht : t.Encoded) (n : ℕ) (w h : F) :
    (layout d sizes floating t n w h).Encoded := by
  induction t generalizing n w h with
  | leaf ids sel role =>
    obtain ⟨hids, hrole⟩ := ht
    have htabs : (Json.arr ((kept floating ids).map .str)).Encoded := encoded_strs fun id hid =>
      hids id (List.mem_of_mem_filter hid)
    rw [layout]
    refine Json.encoded_obj (List.forall_mem_cons.mpr ⟨⟨valid_ascii (by decide), htabs⟩, ?_⟩)
    refine List.forall_mem_append.mpr ⟨?_, ?_⟩
    · split_ifs with hfront
      · exact List.forall_mem_singleton.mpr ⟨valid_ascii (by decide), encoded_number hfront⟩
      · exact fun m hm => absurd hm List.not_mem_nil
    · cases role with
      | none => exact fun m hm => absurd hm List.not_mem_nil
      | some role =>
        refine List.forall_mem_singleton.mpr ⟨valid_ascii (by decide), .arr ?_⟩
        exact List.forall_mem_singleton.mpr (.str (hrole role rfl))
  | split orientation a b iha ihb =>
    obtain ⟨hshare, hother⟩ := entryShare_isNumber hd (sizes[n + a.splits + b.splits]?)
      (if orientation = .horizontal then w else h)
    have hdir : Valid (if orientation = .horizontal then ascii "row" else ascii "col") := by
      split_ifs
      · exact valid_ascii (by decide)
      · exact valid_ascii (by decide)
    rw [layout]
    refine Json.encoded_obj ?_
    simp only [List.forall_mem_cons]
    refine ⟨⟨valid_ascii (by decide), .str hdir⟩, ⟨valid_ascii (by decide), .arr ?_⟩,
      ⟨valid_ascii (by decide), .arr ?_⟩, fun m hm => absurd hm List.not_mem_nil⟩
    · simp only [List.forall_mem_cons]
      exact ⟨.num hshare, .num hother, fun m hm => absurd hm List.not_mem_nil⟩
    · simp only [List.forall_mem_cons]
      exact ⟨iha ht.1 _ _ _, ihb ht.2 _ _ _, fun m hm => absurd hm List.not_mem_nil⟩

theorem encoded_window (scan : List UInt8 → Option (ℤ × ℤ)) {u : List UInt8 × List UInt8}
    (hu : Valid u.1) : (window scan u).Encoded := by
  refine Json.encoded_obj (List.forall_mem_cons.mpr ⟨⟨valid_ascii (by decide), ?_⟩, ?_⟩)
  · exact Json.encoded_obj (List.forall_mem_singleton.mpr ⟨valid_ascii (by decide),
      .arr (List.forall_mem_singleton.mpr (.str hu))⟩)
  · cases scan u.2 with
    | none => exact fun m hm => absurd hm List.not_mem_nil
    | some size =>
      dsimp only
      split_ifs with hpos
      · refine List.forall_mem_singleton.mpr ⟨valid_ascii (by decide), .arr ?_⟩
        simp only [List.forall_mem_cons]
        exact ⟨encoded_number (by omega), encoded_number (by omega),
          fun m hm => absurd hm List.not_mem_nil⟩
      · exact fun m hm => absurd hm List.not_mem_nil

theorem encoded_written (scan : List UInt8 → Option (ℤ × ℤ)) {l : Json} (hl : l.Encoded)
    {closed : List (List UInt8)} (hclosed : ∀ id ∈ closed, Valid id)
    {undocked : List (List UInt8 × List UInt8)} (hundocked : ∀ u ∈ undocked, Valid u.1) :
    (written scan l closed undocked).Encoded := by
  rw [written]
  by_cases hnone : closed = [] ∧ undocked = []
  · rwa [if_pos hnone]
  · rw [if_neg hnone]
    refine Json.encoded_obj (List.forall_mem_cons.mpr ⟨⟨valid_ascii (by decide), hl⟩, ?_⟩)
    refine List.forall_mem_append.mpr ⟨?_, ?_⟩
    · split_ifs
      · exact fun m hm => absurd hm List.not_mem_nil
      · exact List.forall_mem_singleton.mpr ⟨valid_ascii (by decide), encoded_strs hclosed⟩
    · split_ifs
      · exact fun m hm => absurd hm List.not_mem_nil
      · refine List.forall_mem_singleton.mpr ⟨valid_ascii (by decide), .arr fun j hj => ?_⟩
        obtain ⟨u, hu, rfl⟩ := List.mem_map.mp hj
        exact encoded_window scan (hundocked u (List.mem_of_mem_filter hu))

theorem valid_closedIds {closed : Option (List UInt8)} (h : ∀ c ∈ closed, Valid c) :
    ∀ id ∈ closedIds closed floating, Valid id := by
  intro id hid
  obtain ⟨raw, hraw, rfl⟩ := List.mem_map.mp (List.mem_of_mem_filter hid)
  cases closed with
  | none => exact absurd hraw List.not_mem_nil
  | some c =>
    rw [Option.elim_some, strsplit] at hraw
    split_ifs at hraw with hnil
    · exact absurd hraw List.not_mem_nil
    · have hpart := (h c rfl).splitOn (by decide) raw hraw
      exact (hpart.dropWhile fun _ => isSpace_ascii).rdropWhile fun _ => isSpace_ascii

theorem mem_of_mem_pairs {xs : List (List UInt8)} {u : List UInt8 × List UInt8}
    (h : u ∈ pairs xs) : u.1 ∈ xs := by
  induction xs using pairs.induct with
  | case1 id size rest ih =>
    rw [pairs] at h
    rcases List.mem_cons.mp h with rfl | h
    · exact List.mem_cons_self
    · exact List.mem_cons_of_mem _ (List.mem_cons_of_mem _ (ih h))
  | case2 xs hshort =>
    rw [pairs] at h
    · exact absurd h List.not_mem_nil
    · exact hshort

end Encoded

section Held

variable {F : Type} {d : Double F} {sizes floating : List (List UInt8)}

/-- The keys of an envelope. -/
def envelopeKeys : List (List UInt8) := [ascii "layout", ascii "closed", ascii "floating"]

/-- A layout has none of an envelope's members. -/
theorem member_layout (t : ParsedNode) (n : ℕ) (w h : F) {key : List UInt8}
    (hkey : key ∈ envelopeKeys) : (layout d sizes floating t n w h).member key = none := by
  have hother : ∀ key ∈ envelopeKeys, ∀ other ∈ [ascii "tabs", ascii "active", ascii "slots",
      ascii "dir", ascii "size", ascii "kids"], (key == other) = false := by decide
  have hne := hother key hkey
  simp only [List.forall_mem_cons] at hne
  obtain ⟨htabs, hactive, hslots, hdir, hsize, hkids, -⟩ := hne
  cases t with
  | leaf ids sel role =>
    rw [layout, Json.member, List.lookup_cons, htabs]
    split_ifs
    · cases role with
      | none => simp [List.lookup_cons, hactive]
      | some role => simp [List.lookup_cons, hactive, hslots]
    · cases role with
      | none => rfl
      | some role => simp [List.lookup_cons, hslots]
  | split orientation a b =>
    rw [layout, Json.member, List.lookup_cons, hdir]
    simp [List.lookup_cons, hsize, hkids]

theorem lists_windows (scan : List UInt8 → Option (ℤ × ℤ))
    (undocked : List (List UInt8 × List UInt8)) :
    List.Forall₂ IsWindow ((undocked.map Prod.fst).filter fun id => id ≠ ascii "files")
      ((undocked.filter fun u => u.1 ≠ ascii "files").map (window scan)) := by
  rw [List.filter_map, List.forall₂_map_left_iff, List.forall₂_map_right_iff]
  exact List.forall₂_same.mpr fun u _ => rfl

section Members

variable (scan : List UInt8 → Option (ℤ × ℤ)) {l : Json}
  (hl : ∀ key ∈ envelopeKeys, l.member key = none) (closed : List (List UInt8))
  (undocked : List (List UInt8 × List UInt8))

include hl

theorem member_written_layout : (written scan l closed undocked).member (ascii "layout") =
    if closed = [] ∧ undocked = [] then none else some l := by
  rw [written]
  split_ifs with hnone
  · exact hl _ (by decide)
  all_goals rfl

theorem member_written_closed : (written scan l closed undocked).member (ascii "closed") =
    if closed = [] then none else some (.arr (closed.map .str)) := by
  rw [written]
  by_cases hclosed : closed = []
  · rw [if_pos hclosed, if_pos hclosed]
    split_ifs
    · exact hl _ (by decide)
    · rfl
    · rfl
  · rw [if_neg fun h => hclosed h.1, if_neg hclosed, if_neg hclosed]
    rfl

theorem member_written_floating : (written scan l closed undocked).member (ascii "floating") =
    if undocked = [] then none
    else some (.arr ((undocked.filter fun u => u.1 ≠ ascii "files").map (window scan))) := by
  rw [written]
  by_cases hundocked : undocked = []
  · rw [if_pos hundocked, if_pos hundocked]
    split_ifs
    · exact hl _ (by decide)
    · rfl
    · rfl
  · rw [if_neg fun h => hundocked h.2, if_neg hundocked, if_neg hundocked]
    split_ifs
    · rfl
    · rfl

end Members

/-- What is written holds the layout, the closed panels and the windows, unless every panel that is
undocked is Files and none is closed. -/
theorem holds_written (scan : List UInt8 → Option (ℤ × ℤ)) {l : Json}
    (hl : ∀ key ∈ envelopeKeys, l.member key = none)
    (closed : List (List UInt8)) (undocked : List (List UInt8)) :
    Holds l closed (floatingIds undocked) (written scan l closed (pairs undocked)) ↔
      closed ≠ [] ∨ pairs undocked = [] ∨ floatingIds undocked ≠ [] := by
  have hlayout := member_written_layout scan hl closed (pairs undocked)
  have hclosed := member_written_closed scan hl closed (pairs undocked)
  have hfloating := member_written_floating scan hl closed (pairs undocked)
  constructor
  · intro h
    by_contra hnot
    rw [not_or, not_or, not_not, not_not] at hnot
    obtain ⟨hshut, hsome, hfiles⟩ := hnot
    have henvelope := h.envelope
    rw [hlayout, if_neg fun hnone => hsome hnone.2] at henvelope
    rcases henvelope.mp rfl with hne | hne
    · exact hne hshut
    · exact hne hfiles
  · intro h
    constructor
    · rw [hlayout]
      by_cases hnone : closed = [] ∧ pairs undocked = []
      · rw [if_pos hnone, floatingIds, hnone.1, hnone.2]
        simp
      · rw [if_neg hnone]
        refine iff_of_true rfl ?_
        rcases h with hne | hnil | hne
        · exact Or.inl hne
        · exact Or.inl fun hshut => hnone ⟨hshut, hnil⟩
        · exact Or.inr hne
    · rw [hlayout]
      by_cases hnone : closed = [] ∧ pairs undocked = []
      · rw [if_pos hnone, written, if_pos hnone]
        rfl
      · rw [if_neg hnone]
        rfl
    · rw [hclosed]
      by_cases hshut : closed = []
      · rw [if_pos hshut]
        exact hshut
      · rw [if_neg hshut, Lists, List.forall₂_map_right_iff]
        exact List.forall₂_same.mpr fun id _ => rfl
    · rw [hfloating]
      by_cases hnil : pairs undocked = []
      · rw [if_pos hnil, Lists, floatingIds, hnil]
        rfl
      · rw [if_neg hnil, Lists]
        exact lists_windows scan (pairs undocked)

end Held

/-- An imported layout is JSON that holds the tree, the closed panels and the windows exactly if a
panel is closed, none is undocked, or one that is undocked is not Files. -/
theorem dlImportLegacy_holds_iff {F : Type} {d : Double F} (hd : d.Sound)
    (scan : List UInt8 → Option (ℤ × ℤ)) {tree : List UInt8} {t : ParsedNode}
    (htree : dlParseTree tree = some t) (sizes : Option (List UInt8))
    {closed : Option (List UInt8)} {undocked : List (List UInt8)} (width height : ℤ)
    (hutf8 : Utf8.Valid tree) (hclosed : ∀ c ∈ closed, Utf8.Valid c)
    (hundocked : ∀ id ∈ undocked, Utf8.Valid id) :
    (∃ text j, dlImportLegacy d scan (some tree) sizes closed undocked width height = some text ∧
      Utf8.Valid text ∧ Json.read text = some j ∧
      Holds (layout d (sizes.elim [] strsplit) ((pairs undocked).map Prod.fst) t 0
          (d.ofInt (if 0 < width then width else 1100))
          (d.ofInt (if 0 < height then height else 700)))
        (closedIds closed ((pairs undocked).map Prod.fst)) (floatingIds undocked) j) ↔
      closedIds closed ((pairs undocked).map Prod.fst) ≠ [] ∨ pairs undocked = [] ∨
        floatingIds undocked ≠ [] := by
  obtain ⟨derivation, w, rfl, rfl⟩ := (dlParseTree_exact tree).1 t |>.mp htree
  obtain ⟨hnames, -⟩ := derivation.valid_text hutf8
  rw [dlImportLegacy_eq scan hd htree]
  generalize hfloating : (pairs undocked).map Prod.fst = floating
  generalize hlayout : layout d (sizes.elim [] strsplit) floating derivation.tree 0 _ _ = l
  have hl : l.Encoded := hlayout ▸ encoded_layout hd hnames 0 _ _
  have hkeys : ∀ key ∈ envelopeKeys, l.member key = none := fun key hkey =>
    hlayout ▸ member_layout derivation.tree 0 _ _ hkey
  have hwritten : (written scan l (closedIds closed floating) (pairs undocked)).Encoded :=
    encoded_written scan hl (valid_closedIds hclosed) fun u hu =>
      hundocked _ (mem_of_mem_pairs hu)
  have hread := Json.read_text hwritten.proper
  rw [← holds_written scan hkeys]
  constructor
  · rintro ⟨text, j, htext, -, hj, hholds⟩
    obtain rfl := Option.some.inj htext
    rw [hread] at hj
    exact Option.some.inj hj ▸ hholds
  · exact fun hholds => ⟨_, _, rfl, Json.valid_text hwritten, hread, hholds⟩

/-- Numbers in millionths. Those that are shares are printed like doubles. -/
def millionths : Double ℤ where
  ofInt n := n * 1000000
  half := 500000
  low := 50000
  high := 950000
  add := (· + ·)
  sub := (· - ·)
  mul x y := x * y / 1000000
  div x y := x * 1000000 / y
  lt x y := x < y
  toInt x := x / 1000000
  format x := ascii "0." ++
    ((decimal (1000 + (x / 1000).toNat)).tail.rdropWhile (· = '0')).map byte

theorem sound_millionths : millionths.Sound := by
  have hclamp : ∀ x, 50 ≤ millionths.thousandths (millionths.clamp x) ∧
      millionths.thousandths (millionths.clamp x) ≤ 950 := by
    intro x
    simp only [Double.thousandths, Double.clamp, millionths, decide_eq_true_eq]
    split_ifs <;> omega
  have hshown : ∀ k < 951, 50 ≤ k →
      (decimal (1000 + k)).tail.rdropWhile (· = '0') ≠ [] := by decide +kernel
  have hnumber : ∀ k < 951, 50 ≤ k →
      Json.isNumber (millionths.format ((k : ℕ) * 1000)) = true := by
    intro k hhigh hlow
    have hthousandths : ((k : ℤ) * 1000 / 1000).toNat = k := by omega
    simp only [millionths, hthousandths]
    refine Json.isNumber_fraction (mt List.map_eq_nil_iff.mp (hshown k hhigh hlow)) fun b hb => ?_
    obtain ⟨c, hc, rfl⟩ := List.mem_map.mp hb
    have hmem := List.mem_of_mem_tail ((List.rdropWhile_prefix _ _).mem hc)
    exact Json.isDigit_byte (isDigit_of_mem_decimal hmem)
  have hformat : ∀ n : ℤ, 50 ≤ n → n ≤ 950 →
      Json.isNumber (millionths.format (n * 1000)) = true := by
    intro n hlow hhigh
    obtain ⟨k, rfl⟩ := Int.eq_ofNat_of_zero_le (by omega : 0 ≤ n)
    exact hnumber k (by omega) (by omega)
  refine ⟨?_, fun n extent _ _ _ => hclamp _, hclamp _, ?_, ?_⟩
  · intro n _ _
    simp only [millionths]
    congr 1
    rw [eq_iff_iff]
    omega
  · intro n hlow hhigh
    have hdiv : millionths.div (millionths.ofInt n) (millionths.ofInt 1000) = n * 1000 := by
      simp only [millionths]
      omega
    rw [hdiv]
    exact hformat n hlow hhigh
  · intro n hlow hhigh
    have hdiv : millionths.sub (millionths.ofInt 1)
        (millionths.div (millionths.ofInt n) (millionths.ofInt 1000)) = (1000 - n) * 1000 := by
      simp only [millionths]
      omega
    rw [hdiv]
    exact hformat _ (by omega) (by omega)

/-- A layout of which one panel is undocked. -/
theorem undocked_holds :
    ∃ text j, dlImportLegacy millionths (fun _ => some (300, 200))
        (some (ascii "h(L[a,*b],L[c:main])")) (some (ascii "300")) none [ascii "c", ascii "300,200"]
        900 700 = some text ∧
      Utf8.Valid text ∧ Json.read text = some j ∧
      Holds (layout millionths [ascii "300"] [ascii "c"]
          (.split .horizontal (.leaf [ascii "a", ascii "b"] 1 none)
            (.leaf [ascii "c"] (-1) (some (ascii "main")))) 0 900000000 700000000)
        [] [ascii "c"] j :=
  (dlImportLegacy_holds_iff sound_millionths _ (by decide) _ _ _
    (Utf8.valid_of_all (by decide)) (fun c hc => absurd hc (Option.not_mem_none c)) (by
      simp only [List.forall_mem_cons]
      exact ⟨Utf8.valid_of_all (by decide), Utf8.valid_of_all (by decide),
        fun id hid => absurd hid List.not_mem_nil⟩)).mpr (Or.inr (Or.inr (by decide)))

/-- Files alone is undocked, and the envelope is there with nothing in it. -/
theorem files_not_holds :
    ¬∃ text j, dlImportLegacy millionths (fun _ => none) (some (ascii "L[a]")) none none
        [ascii "files", ascii ""] 0 0 = some text ∧
      Utf8.Valid text ∧ Json.read text = some j ∧
      Holds (layout millionths [] [ascii "files"] (.leaf [ascii "a"] (-1) none) 0 1100000000
        700000000) [] [] j := by
  rintro ⟨text, j, htext, -, hj, hholds⟩
  have hwritten : dlImportLegacy millionths (fun _ => none) (some (ascii "L[a]")) none none
      [ascii "files", ascii ""] 0 0 =
        some (ascii "\x7b\"layout\":\x7b\"tabs\":[\"a\"]\x7d,\"floating\":[]\x7d") := by decide
  rw [hwritten] at htext
  obtain rfl := Option.some.inj htext
  have hread : Json.read (ascii "\x7b\"layout\":\x7b\"tabs\":[\"a\"]\x7d,\"floating\":[]\x7d") =
      some (.obj [(ascii "layout", .obj [(ascii "tabs", .arr [.str (ascii "a")])]),
        (ascii "floating", .arr [])]) := by rfl
  rw [hread] at hj
  obtain rfl := Option.some.inj hj
  rcases hholds.envelope.mp rfl with hne | hne
  · exact hne rfl
  · exact hne rfl

end Gtkhx.Dock
