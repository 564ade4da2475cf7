import EndpointRules.Bytes

/-!
# Classification of errors

Every error has one category, the phase that found it, and one kind.
-/

namespace EndpointRules

/-- The phase that found an error: reading tables, building a program, or running one. -/
inductive Category
  | format | compile | evaluation
  deriving DecidableEq, Repr

/-- What sort of thing went wrong. -/
inductive ErrorKind
  | invalidFormat | unsupportedVersion | missingFunction | arityMismatch | duplicateRegister
  | registerOverflow | unknownRegister | poolOverflow | invalidJump | invalidOpcode
  | stackUnderflow | bounds | typeError | missingParameter | functionError | invalidUri
  | ruleError | missingReturn | noMatch | cycle | inputOutput
  deriving DecidableEq, Repr

namespace Category

/-- All categories; a category's code is its place in this list. -/
def all : List Category := [format, compile, evaluation]

/-- The name of a category in messages. -/
def name : Category → Bytes
  | format => "format"
  | compile => "compile"
  | evaluation => "evaluation"

/-- The name of the category with a code. -/
def nameOfCode (code : Nat) : Bytes := (all[code]?.map name).getD "unknown"

end Category

namespace ErrorKind

/-- All kinds; a kind's code is one more than its place in this list, code 0 standing for the
    absence of an error. -/
def all : List ErrorKind :=
  [invalidFormat, unsupportedVersion, missingFunction, arityMismatch, duplicateRegister,
    registerOverflow, unknownRegister, poolOverflow, invalidJump, invalidOpcode,
    stackUnderflow, bounds, typeError, missingParameter, functionError, invalidUri,
    ruleError, missingReturn, noMatch, cycle, inputOutput]

/-- The stable name of a kind. -/
def name : ErrorKind → Bytes
  | invalidFormat => "InvalidFormat"
  | unsupportedVersion => "UnsupportedVersion"
  | missingFunction => "MissingFunction"
  | arityMismatch => "ArityMismatch"
  | duplicateRegister => "DuplicateRegister"
  | registerOverflow => "RegisterOverflow"
  | unknownRegister => "UnknownRegister"
  | poolOverflow => "PoolOverflow"
  | invalidJump => "InvalidJump"
  | invalidOpcode => "InvalidOpcode"
  | stackUnderflow => "StackUnderflow"
  | bounds => "Bounds"
  | typeError => "TypeError"
  | missingParameter => "MissingParameter"
  | functionError => "FunctionError"
  | invalidUri => "InvalidUri"
  | ruleError => "RuleError"
  | missingReturn => "MissingReturn"
  | noMatch => "NoMatch"
  | cycle => "BddCycle"
  | inputOutput => "IOError"

/-- The name of a kind, or of the absence of an error. -/
def nameOf : Option ErrorKind → Bytes
  | none => "None"
  | some kind => kind.name

/-- The name of the kind with a code. -/
def nameOfCode : Nat → Bytes
  | 0 => "None"
  | code + 1 => (all[code]?.map name).getD "Unknown"

end ErrorKind

/-- The line that reports an error: the category's name and the message. -/
def reportLine (category message : Bytes) : Bytes :=
  "error[" ++ category ++ "]: " ++ message ++ "\n"

end EndpointRules
