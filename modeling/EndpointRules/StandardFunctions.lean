import EndpointRules.Function
import EndpointRules.Text

/-!
# Standard functions

The functions that every engine knows, and the operations that some of them share with opcodes of
the machine.  Arguments are checked from left to right; where a string is wanted, null is accepted
and gives null, or false where a boolean results.
-/

namespace EndpointRules

namespace Operation

/-- A string argument, `none` standing for null. -/
def stringArgument (operation : Bytes) : Value → Except Fault (Option Bytes)
  | .null => .ok none
  | .string s => .ok (some s)
  | v => .error (.operand operation .aString v.kind)

/-- The part of a string between two bounds; null if there is none. -/
def substring (operation : Bytes) (input start stop reverse : Value) : Except Fault Value := do
  let text ← stringArgument operation input
  match start, stop with
  | .integer start, .integer stop =>
    match reverse with
    | .boolean reverse =>
      pure (((text.bind (Text.substring? · start stop reverse)).map Value.string).getD .null)
    | v => throw (.operand operation .aBoolean v.kind)
  | .integer _, v => throw (.operand operation .integerBounds v.kind)
  | v, _ => throw (.operand operation .integerBounds v.kind)

/-- Whether a string is a host label; `dots`, which may be null, allows dots. -/
def isHostLabel (operation : Bytes) (label dots : Value) : Except Fault Value := do
  let text ← stringArgument operation label
  match dots with
  | .null => pure (.boolean (text.any (Text.isHostLabel · false)))
  | .boolean dots => pure (.boolean (text.any (Text.isHostLabel · dots)))
  | v => throw (.operand operation .aBoolean v.kind)

/-- The parts of a string between the occurrences of a delimiter. -/
def split (operation : Bytes) (input delimiter limit : Value) : Except Fault Value := do
  let text ← stringArgument operation input
  match delimiter with
  | .string (c :: d) =>
    match limit with
    | .integer (.ofNat n) =>
      pure ((text.map fun s => Value.list ((Text.split (c :: d) n s).map .string)).getD .null)
    | v => throw (.operand operation .nonNegativeLimit v.kind)
  | v => throw (.operand operation .nonEmptyDelimiter v.kind)

/-- The URI value of a text that is a URI without a query, else null. -/
def ofUri? : Option Uri → Value
  | some u => if u.hasQuery then .null else .uri u
  | none => .null

end Operation

namespace StandardFunctions

open Operation

/-- The argument at a place; null if there are fewer. -/
def argument (arguments : List Value) (i : Nat) : Value := arguments.getD i .null

/-- Equality of two arguments of a kind, whose contents `content?` gives; null is equal to
    nothing. -/
def typedEquals {α : Type} [BEq α] (name : Bytes) (expected : Expectation)
    (content? : Value → Option α) (a b : Value) : Except Fault Value :=
  if a.isNull || b.isNull then .ok (.boolean false)
  else
    match content? a, content? b with
    | some x, some y => .ok (.boolean (x == y))
    | some _, none => .error (.operand name expected b.kind)
    | none, _ => .error (.operand name expected a.kind)

/-- `substring(input, start, end, reverse)` -/
def substring : Function where
  name := "substring"
  arity := 4
  apply args := Operation.substring "substring" (argument args 0) (argument args 1)
    (argument args 2) (argument args 3)

/-- `isValidHostLabel(label, allowDots)` -/
def isValidHostLabel : Function where
  name := "isValidHostLabel"
  arity := 2
  apply args := Operation.isHostLabel "isValidHostLabel" (argument args 0) (argument args 1)

/-- `parseURL(text)` -/
def parseUrl : Function where
  name := "parseURL"
  arity := 1
  apply args := do
    let text ← stringArgument "parseURL" (argument args 0)
    pure (ofUri? (text.bind Uri.parse?))

/-- `uriEncode(text)` -/
def uriEncode : Function where
  name := "uriEncode"
  arity := 1
  apply args := do
    let text ← stringArgument "uriEncode" (argument args 0)
    pure ((text.map fun s => Value.string (Text.percentEncode s)).getD .null)

/-- `split(input, delimiter, limit)` -/
def split : Function where
  name := "split"
  arity := 3
  apply args := Operation.split "split" (argument args 0) (argument args 1) (argument args 2)

/-- `stringEquals(a, b)` -/
def stringEquals : Function where
  name := "stringEquals"
  arity := 2
  apply args := typedEquals "stringEquals" .strings Value.string? (argument args 0) (argument args 1)

/-- `booleanEquals(a, b)` -/
def booleanEquals : Function where
  name := "booleanEquals"
  arity := 2
  apply args :=
    typedEquals "booleanEquals" .booleans Value.boolean? (argument args 0) (argument args 1)

/-- `isSet(v)` -/
def isSet : Function where
  name := "isSet"
  arity := 1
  apply args := pure (.boolean (argument args 0).isSet)

/-- `not(v)` -/
def not : Function where
  name := "not"
  arity := 1
  apply args := pure (.boolean (argument args 0).isFalse)

/-- The standard functions in their order. -/
def all : List Function :=
  [substring, isValidHostLabel, parseUrl, uriEncode, split, stringEquals, booleanEquals, isSet,
    StandardFunctions.not]

end StandardFunctions

end EndpointRules
