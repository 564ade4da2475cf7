import EndpointRules.Bytes

/-!
# Text operations of rules

What rules do with strings: cutting a part out, checking a host label, percent-encoding, and
splitting at a delimiter.
-/

namespace EndpointRules

open Bytes

namespace Text

/-- The bytes of an ASCII text from `start` up to `stop`, both counted from the end of the text if
    `reverse` holds.  There are none unless `0 ≤ start < stop`, `stop` is at most the length and
    every byte is ASCII. -/
def substring? (s : Bytes) (start stop : Int) (reverse : Bool) : Option Bytes :=
  if start < 0 || stop ≤ start || (s.length : Int) < stop || s.any (0x7F < ·) then none
  else
    let first := if reverse then s.length - stop.toNat else start.toNat
    some ((s.drop first).take (stop - start).toNat)

/-- A host label without dots: 1 to 63 letters, digits and hyphens, the first no hyphen. -/
def isLabel (s : Bytes) : Bool :=
  s.length ≤ 63 && (s.head?.any isAlnum) && s.all fun c => isAlnum c || c == '-'.toUInt8

/-- Labels with single dots between them: one up to the first dot, and then those behind it. -/
def isDottedLabel (s : Bytes) : Bool :=
  match _h : cut '.'.toUInt8 s with
  | (label, none) => isLabel label
  | (label, some rest) => isLabel label && isDottedLabel rest
termination_by s.length
decreasing_by exact length_lt_of_cut ‹_›

/-- A host label; with `dots`, labels with single dots between them. -/
def isHostLabel (s : Bytes) (dots : Bool) : Bool :=
  if dots then isDottedLabel s else isLabel s

/-- The bytes that percent-encoding leaves alone: letters, digits, `-`, `.`, `_` and `~`. -/
def isUnreserved (c : UInt8) : Bool :=
  isAlnum c || c == '-'.toUInt8 || c == '.'.toUInt8 || c == '_'.toUInt8 || c == '~'.toUInt8

/-- Every byte that is not unreserved written as `%` and two upper-case hexadecimal digits. -/
def percentEncode (s : Bytes) : Bytes :=
  s.flatMap fun c => if isUnreserved c then [c] else '%'.toUInt8 :: upperHex c

/-- The parts of a text between the occurrences of a delimiter, taken from the left and without
    overlap.  A positive limit is the greatest number of parts: the last part then holds the rest
    of the text, uncut.  An empty delimiter cuts nothing. -/
def split (delimiter : Bytes) (limit : Nat) (s : Bytes) : List Bytes :=
  if delimiter = [] then [s]
  else if limit = 1 then [s]
  else match h : breakOn? delimiter s with
    | none => [s]
    | some (before, after) => before :: split delimiter (limit - 1) after
termination_by s.length
decreasing_by exact length_lt_of_breakOn? ‹_› h

end Text

end EndpointRules
