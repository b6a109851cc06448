import Gtkhx.Dock.Parse
import Gtkhx.Library.Json
import Gtkhx.Library.Numeral
import Gtkhx.Library.Utf8
import Mathlib.Algebra.Group.Nat.Defs
import Mathlib.Data.List.DropRight

/-!
# Imported dock layouts

A layout in the old format is written as JSON, once. Its tree is written with the panels that stay
in it. The closed panels and those in windows of their own are in an envelope around it.
-/

namespace Gtkhx.Dock

open Text

/-- Identifiers are compared byte by byte. -/
local instance lawfulIdentifiers : LawfulBEq (List UInt8) := inferInstance

/-- A text of ASCII characters. -/
def ascii (s : String) : List UInt8 := s.toList.map byte

/-- What is done with doubles. -/
structure Double (F : Type) where
  ofInt : ℤ → F
  /-- 0.5 -/
  half : F
  /-- 0.05 -/
  low : F
  /-- 0.95 -/
  high : F
  add : F → F → F
  sub : F → F → F
  mul : F → F → F
  div : F → F → F
  lt : F → F → Bool
  /-- Without what is after the point. -/
  toInt : F → ℤ
  /-- As "%g" prints it. -/
  format : F → List UInt8

def jsonByte (b : UInt8) : List UInt8 :=
  if b = byte '"' ∨ b = byte '\\' then [byte '\\', b]
  else if b.toNat < 0x20 then ascii "\\u" ++ (paddedHex 4 b.toNat).map byte
  else [b]

def jsonString (s : List UInt8) : List UInt8 :=
  byte '"' :: (s.flatMap jsonByte ++ [byte '"'])

/-- What a text has between semicolons. -/
def strsplit (s : List UInt8) : List (List UInt8) := if s = [] then [] else s.splitOn (byte ';')

/-- A divider's position, which is an `int`. -/
def splitPosition (entry : List UInt8) : ℤ :=
  ((Numeral.strtoll UInt8.toNat entry).elim 0 Prod.fst).bmod (2 ^ 32)

/-- A layout with the position of every divider, which is zero when there is none. -/
inductive Numbered where
  | leaf (panelIds : List (List UInt8)) (selected : ℤ) (role : Option (List UInt8))
  | split (orientation : Orientation) (pos : ℤ) (childA childB : Numbered)

/-- Every divider's position, in post-order, and the number of the next one. -/
def numberSplits (sizes : List (List UInt8)) : ParsedNode → ℕ → Numbered × ℕ
  | .leaf panelIds sel role, next => (.leaf panelIds sel role, next)
  | .split orientation a b, next =>
    let a := numberSplits sizes a next
    let b := numberSplits sizes b a.2
    (.split orientation ((sizes[b.2]?).elim 0 splitPosition) a.1 b.1, b.2 + 1)

/-- A panel that the tree is without. -/
def leftOut (id : List UInt8) (floating : List (List UInt8)) : Bool :=
  id = ascii "files" || id ∈ floating

/-- The panels of a leaf from the `i`th on, when so many before it are kept, and where the selected
one is among those that are. -/
def leafTabs (floating : List (List UInt8)) (sel : ℤ) :
    List (List UInt8) → ℕ → ℤ → ℕ → List UInt8 × ℤ
  | [], _, active, _ => ([], active)
  | id :: ids, i, active, kept =>
    if leftOut id floating then leafTabs floating sel ids (i + 1) active kept
    else
      let active := if (i : ℤ) = sel then (kept : ℤ) else active
      let rest := leafTabs floating sel ids (i + 1) active (kept + 1)
      ((if 0 < kept then [byte ','] else []) ++ jsonString id ++ rest.1, rest.2)

/-- Those items of a list that are kept, with commas between them. -/
def writeKept {α : Type} (keep : α → Bool) (item : α → List UInt8) : Bool → List α → List UInt8
  | _, [] => []
  | first, x :: xs =>
    if keep x then
      (if first then [] else [byte ',']) ++ item x ++ writeKept keep item false xs
    else writeKept keep item first xs

/-- The ids and sizes of the undocked panels. -/
def pairs : List (List UInt8) → List (List UInt8 × List UInt8)
  | id :: size :: rest => (id, size) :: pairs rest
  | _ => []

/-- Without white space at either end. -/
def strstrip (s : List UInt8) : List UInt8 := (s.dropWhile isSpace).rdropWhile isSpace

def printInt (n : ℤ) : List UInt8 :=
  (if n < 0 then [byte '-'] else []) ++ (decimal n.natAbs).map byte

section Written

variable {F : Type} (d : Double F)

def Double.clamp (x : F) : F :=
  if d.lt d.high x then d.high else if d.lt x d.low then d.low else x

/-- A share in three places. -/
def Double.thousandths (x : F) : ℤ := d.toInt (d.add (d.mul x (d.ofInt 1000)) d.half)

def Double.rounded (x : F) : F := d.div (d.ofInt (d.thousandths (d.clamp x))) (d.ofInt 1000)

/-- The share of a divider's first side. -/
def Double.share (pos : ℤ) (extent : F) : F :=
  d.rounded (if d.lt (d.ofInt 0) (d.ofInt pos) && d.lt (d.ofInt 0) extent then
    d.div (d.ofInt pos) extent else d.half)

/-- A layout in a box of this width and height. -/
def nodeJson (floating : List (List UInt8)) : Numbered → F → F → List UInt8
  | .leaf panelIds sel role, _, _ =>
    let tabs := leafTabs floating sel panelIds 0 (-1) 0
    ascii "\x7b\"tabs\":[" ++ tabs.1 ++ ascii "]" ++
      (if 0 < tabs.2 then ascii ",\"active\":" ++ printInt tabs.2 else []) ++
      role.elim [] (fun role => ascii ",\"slots\":[" ++ jsonString role ++ ascii "]") ++
        ascii "\x7d"
  | .split orientation pos a b, w, h =>
    let row := orientation = .horizontal
    let share := d.share pos (if row then w else h)
    let other := d.sub (d.ofInt 1) share
    ascii "\x7b\"dir\":\"" ++ (if row then ascii "row" else ascii "col") ++ ascii "\",\"size\":[" ++
      d.format share ++ ascii "," ++ d.format other ++ ascii "],\"kids\":[" ++
      nodeJson floating a (if row then d.mul w share else w) (if row then h else d.mul h share) ++
      ascii "," ++
      nodeJson floating b (if row then d.mul w other else w) (if row then h else d.mul h other) ++
      ascii "]\x7d"

/-- A window of its own, with its size if that was read. -/
def windowJson (scan : List UInt8 → Option (ℤ × ℤ)) (u : List UInt8 × List UInt8) : List UInt8 :=
  ascii "\x7b\"layout\":\x7b\"tabs\":[" ++ jsonString u.1 ++ ascii "]\x7d" ++
    (match scan u.2 with
      | some (fw, fh) =>
        if 0 < fw ∧ 0 < fh then
          ascii ",\"size\":[" ++ printInt fw ++ ascii "," ++ printInt fh ++ ascii "]"
        else []
      | none => []) ++ ascii "\x7d"

/-- Whether a closed panel is kept. -/
def keptClosed (floating : List (List UInt8)) (id : List UInt8) : Bool :=
  id ≠ [] && !leftOut id floating

/-- A layout in the old format as JSON. -/
def dlImportLegacy (scan : List UInt8 → Option (ℤ × ℤ)) (tree sizes closed : Option (List UInt8))
    (undocked : List (List UInt8)) (width height : ℤ) : Option (List UInt8) :=
  match tree.bind dlParseTree with
  | none => none
  | some parsed =>
    let floating := (pairs undocked).map Prod.fst
    let numbered := (numberSplits (sizes.elim [] strsplit) parsed 0).1
    let layout := nodeJson d floating numbered (d.ofInt (if 0 < width then width else 1100))
      (d.ofInt (if 0 < height then height else 700))
    let shut := (closed.elim [] strsplit).map strstrip
    let anyShut := shut.any (keptClosed floating)
    if !anyShut && floating.isEmpty then some layout
    else
      some (ascii "\x7b\"layout\":" ++ layout ++
        (if anyShut then
          ascii ",\"closed\":[" ++ writeKept (keptClosed floating) jsonString true shut ++ ascii "]"
        else []) ++
        (if !floating.isEmpty then
          ascii ",\"floating\":[" ++
            writeKept (fun u => u.1 ≠ ascii "files") (windowJson scan) true (pairs undocked) ++
            ascii "]"
        else []) ++ ascii "\x7d")

end Written

end Gtkhx.Dock
