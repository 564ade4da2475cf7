import EndpointRules.Error.Kind
import EndpointRules.Value.Text

/-!
# Errors of evaluation

A fault is what goes wrong while rules run.  A fault of an instruction becomes a failure at the
address of that instruction, and the failure's message names the address, except for an error that
the rules raise themselves, whose message is theirs alone.
-/

namespace EndpointRules

open Bytes

/-- What an operation wanted in place of the operand it was given. -/
inductive Expectation
  | aString | strings | aBoolean | booleans | integerBounds | nonEmptyDelimiter
  | nonNegativeLimit
  | only (kind : Kind)
  deriving DecidableEq, Repr

/-- How messages put an expectation. -/
def Expectation.text : Expectation → Bytes
  | aString => "a string"
  | strings => "strings"
  | aBoolean => "a boolean"
  | booleans => "booleans"
  | integerBounds => "integer bounds"
  | nonEmptyDelimiter => "a non-empty delimiter"
  | nonNegativeLimit => "a non-negative integer limit"
  | only kind => kind.name

/-- Causes of an error of category `evaluation`. -/
inductive Fault
  /-- The end of the body was reached without a return. -/
  | missingReturn
  | unknownOpcode (byte : UInt8)
  | truncatedOperands
  | stackUnderflow
  | registerIndex (index : Nat)
  | constantIndex (index : Nat)
  | functionIndex (index : Nat)
  | conditionIndex (index : Nat)
  | resultIndex (index : Nat)
  | unlinkedFunction (name : Bytes)
  /-- A function reported a failure, with its message. -/
  | functionFailed (name message : Bytes)
  | notATemplate (index : Nat)
  | templateArity (expected given : Nat)
  | templateArgument (index : Nat) (got : Kind)
  | mapKey (got : Kind)
  | propertyName
  /-- An operation was given an operand of the wrong kind. -/
  | operand (operation : Bytes) (expected : Expectation) (got : Kind)
  | endpointUrl (got : Kind)
  | invalidUrl (text : Bytes)
  | endpointProperties (got : Kind)
  | endpointHeaders (got : Kind)
  | headerNotStrings (name : Bytes)
  /-- An error that the rules raise, with their message. -/
  | rule (message : Bytes)
  | missingParameter (name : Bytes)
  /-- The walk through the diagram visits more nodes than there are. -/
  | cycle
  | noMatch
  | valueInsteadOfEndpoint (index : Nat)
  /-- An error of a supplied function's own. -/
  | raised (kind : ErrorKind) (message : Bytes)
  deriving DecidableEq, Repr

namespace Fault

/-- The kind of a fault. -/
def kind : Fault → ErrorKind
  | missingReturn => .missingReturn
  | unknownOpcode _ => .invalidOpcode
  | stackUnderflow => .stackUnderflow
  | truncatedOperands | registerIndex _ | constantIndex _ | functionIndex _ | conditionIndex _
  | resultIndex _ => .bounds
  | unlinkedFunction _ => .missingFunction
  | functionFailed .. => .functionError
  | notATemplate _ | templateArity .. | templateArgument .. | mapKey _ | propertyName | operand ..
  | endpointUrl _ | endpointProperties _ | endpointHeaders _ | headerNotStrings _ => .typeError
  | invalidUrl _ => .invalidUri
  | rule _ => .ruleError
  | missingParameter _ => .missingParameter
  | cycle => .cycle
  | noMatch | valueInsteadOfEndpoint _ => .noMatch
  | raised kind _ => kind

/-- What a fault says, apart from its place. -/
def text : Fault → Bytes
  | missingReturn => "Reached end of body without a return"
  | unknownOpcode byte => "Unknown opcode " ++ decimal byte.toNat
  | truncatedOperands => "Truncated operands"
  | stackUnderflow => "Stack underflow"
  | registerIndex index => "Register index " ++ decimal index ++ " out of range"
  | constantIndex index => "Constant index " ++ decimal index ++ " out of range"
  | functionIndex index => "Function index " ++ decimal index ++ " out of range"
  | conditionIndex index => "Condition index " ++ decimal index ++ " out of range"
  | resultIndex index => "Result index " ++ decimal index ++ " out of range"
  | unlinkedFunction name => "Function " ++ name ++ " is not linked"
  | functionFailed name message => "Function " ++ name ++ " failed: " ++ message
  | notATemplate index => "Constant " ++ decimal index ++ " is not a template"
  | templateArity expected given =>
    "Template expects " ++ decimal expected ++ " arguments but got " ++ decimal given
  | templateArgument index got =>
    "Template argument " ++ decimal index ++ " expected a string but got " ++ got.name
  | mapKey got => "Map key must be a string but got " ++ got.name
  | propertyName => "Property name constant is not a string"
  | operand operation expected got =>
    operation ++ " expected " ++ expected.text ++ " but got " ++ got.name
  | endpointUrl got => "Endpoint URL must be a string but got " ++ got.name
  | invalidUrl text => "Invalid endpoint URL: " ++ text
  | endpointProperties got => "Endpoint properties must be a map but got " ++ got.name
  | endpointHeaders got => "Endpoint headers must be a map but got " ++ got.name
  | headerNotStrings name => "Header " ++ name ++ " must hold strings"
  | rule message => message
  | missingParameter name => "Missing required parameter: " ++ name
  | cycle => "BDD traversal did not terminate"
  | noMatch => "No rule matched the supplied parameters"
  | valueInsteadOfEndpoint index =>
    "Result " ++ decimal index ++ " returned a value instead of an endpoint"
  | raised _ message => message

end Fault

/-- A fault, at the address of the instruction it belongs to if there is one. -/
structure Failure where
  fault : Fault
  address : Option Nat
  deriving DecidableEq, Repr

namespace Failure

/-- The kind of the fault. -/
def kind (f : Failure) : ErrorKind := f.fault.kind

/-- The text of the fault, and its address if it has one and is not raised by the rules. -/
def message (f : Failure) : Bytes :=
  match f.fault, f.address with
  | .rule message, _ => message
  | fault, some address => fault.text ++ " at address " ++ decimal address
  | fault, none => fault.text

/-- A fault without address. -/
def unplaced (fault : Fault) : Failure := { fault, address := none }

end Failure

end EndpointRules
