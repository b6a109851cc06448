import Gtkhx.Voice.Video
import Mathlib.Data.List.AList
import Mathlib.Data.List.DropRight

/-!
# Reading an SDP offer

The two scans the session machine makes over an offer: the receive mids with their
users, and the receive sections marked `a=inactive`. Both read the text line by line.
-/

namespace Gtkhx.Voice

/-- Drop one carriage return at the end, as a `\r\n` line ending does. -/
def dropCr (line : List Char) : List Char :=
  if line.getLast? = some '\r' then line.dropLast else line

/-- The lines of a text, without their endings. A final line ending opens no further
line, and a carriage return counts as part of an ending only before a line feed. -/
def linesFrom (line : List Char) : List Char → List (List Char)
  | [] => if line = [] then [] else [line]
  | c :: rest =>
    if c = '\n' then dropCr line :: linesFrom [] rest else linesFrom (line ++ [c]) rest

/-- The lines of an SDP text, with every trailing carriage return trimmed. -/
def sdpLines (sdp : String) : List (List Char) :=
  (linesFrom [] sdp.toList).map (List.rdropWhile (· = '\r'))

/-- The receive mids of an offer (`user-N`, `cam-user-N`, `scr-user-N`) with their users.
The client's own send mids and everything unrecognized are skipped. -/
def offerMids (sdp : String) : AList (fun _ : String => UInt16) :=
  (sdpLines sdp).foldl (fun mids line =>
    match stripBeginning "a=mid:".toList line with
    | none => mids
    | some rest => match (parseMid (String.ofList rest)).bind Track.userId with
      | none => mids
      | some uid => mids.insert (String.ofList rest) uid) ∅

/-- One line of the scan for inactive sections: the mid of the section being read, and
the mids found so far. -/
def inactiveStep (scan : Option String × List String) (line : List Char) :
    Option String × List String :=
  if (stripBeginning "m=".toList line).isSome then (none, scan.2)
  else match stripBeginning "a=mid:".toList line with
  | some rest => (some (String.ofList rest), scan.2)
  | none =>
    if line = "a=inactive".toList then
      match scan.1 with
      | some mid =>
        if (parseMid mid).any Track.isReceive then (scan.1, scan.2 ++ [mid]) else scan
      | none => scan
    else scan

/-- Receive mids in the offer whose media section is `a=inactive`, the marker of a
departed participant. -/
def inactiveRecvMids (sdp : String) : List String :=
  ((sdpLines sdp).foldl inactiveStep (none, [])).2

end Gtkhx.Voice
