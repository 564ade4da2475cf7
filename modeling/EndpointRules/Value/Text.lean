import EndpointRules.Value

/-!
# Values as text

`Value.display` is the full text of a value, as messages and rule errors show it: a string stands
for itself, but is quoted inside a list or a map.  `Value.summary` is the short text that listings
show: strings are quoted and cut, collections are counted.
-/

namespace EndpointRules

open Bytes

namespace Value

/-- The text between quotation marks, every quotation mark and backslash after a backslash. -/
def quoted (s : Bytes) : Bytes :=
  quoteMark :: s.flatMap (fun c =>
    if c == quoteMark || c == backslash then [backslash, c] else [c]) ++ [quoteMark]

/-- The parts of a template in order, a slot written as a pair of braces. -/
def templateText (parts : List TemplatePart) : Bytes :=
  parts.flatMap fun
    | .text s => s
    | .slot => "\x7b\x7d"

/-- The text of a boolean. -/
def booleanText (b : Bool) : Bytes := if b then "true" else "false"

mutual

/-- The text of a value inside a collection. -/
def displayInner : Value → Bytes
  | .null => "null"
  | .string s => quoted s
  | .integer n => ofInt n
  | .boolean b => booleanText b
  | .list [] => "[]"
  | .list (v :: rest) => '['.toUInt8 :: displayInner v ++ displayItems rest
  | .map [] => "\x7b\x7d"
  | .map ((k, v) :: rest) =>
    '\x7b'.toUInt8 :: quoted k ++ ": " ++ displayInner v ++ displayEntries rest
  | .template parts => templateText parts
  | .uri u => u.text

/-- The items after the first, each behind a comma, and the closing bracket. -/
def displayItems : List Value → Bytes
  | [] => "]"
  | v :: rest => ", " ++ displayInner v ++ displayItems rest

/-- The entries after the first, each behind a comma, and the closing brace. -/
def displayEntries : List (Bytes × Value) → Bytes
  | [] => "\x7d"
  | (k, v) :: rest => ", " ++ quoted k ++ ": " ++ displayInner v ++ displayEntries rest

end

/-- The text of a value; a string is its own text. -/
def display : Value → Bytes
  | .string s => s
  | v => displayInner v

/-- Line ends, tabs, quotation marks and backslashes written as two bytes. -/
def escaped (s : Bytes) : Bytes :=
  s.flatMap fun c =>
    if c == '\n'.toUInt8 then "\\n"
    else if c == '\t'.toUInt8 then "\\t"
    else if c == '\r'.toUInt8 then "\\r"
    else if c == quoteMark then "\\\""
    else if c == backslash then "\\\\"
    else [c]

/-- The longest string that a summary shows in full. -/
def shownLimit : Nat := 50

/-- How much of a longer string a summary shows. -/
def shownLength : Nat := 47

/-- A string in quotation marks; a long one is cut and ends in three dots. -/
def stringSummary (s : Bytes) : Bytes :=
  if shownLimit < s.length then "\"" ++ escaped (s.take shownLength) ++ "...\""
  else "\"" ++ escaped s ++ "\""

/-- The short text of a value. -/
def summary : Value → Bytes
  | .null => "null"
  | .string s => stringSummary s
  | .integer n => "Integer[" ++ ofInt n ++ "]"
  | .boolean b => "Boolean[" ++ booleanText b ++ "]"
  | .list items => "List[" ++ decimal items.length ++ " items]"
  | .map entries => "Map[" ++ decimal entries.length ++ " entries]"
  | .template parts => "Template[" ++ decimal parts.length ++ " parts]"
  | .uri u => "Uri[" ++ u.text ++ "]"

end Value

end EndpointRules
