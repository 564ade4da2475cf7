import EndpointRules.Error.Compile
import EndpointRules.Error.Fault

/-!
# Errors

All errors of the library.  Each is a cause; its category, kind, message and address follow from
the cause.
-/

namespace EndpointRules

/-- An error of one of the three categories. -/
inductive Error
  | format (cause : FormatError)
  | compile (cause : CompileError)
  | evaluation (cause : Failure)
  deriving DecidableEq, Repr

namespace Error

/-- The phase that found the error. -/
def category : Error → Category
  | format _ => .format
  | compile _ => .compile
  | evaluation _ => .evaluation

/-- The kind of the error. -/
def kind : Error → ErrorKind
  | format cause => cause.kind
  | compile cause => cause.kind
  | evaluation cause => cause.kind

/-- What the error says. -/
def message : Error → Bytes
  | format cause => cause.message
  | compile cause => cause.message
  | evaluation cause => cause.message

/-- The address of the instruction, which only an evaluation error can have. -/
def address : Error → Option Nat
  | evaluation cause => cause.address
  | _ => none

/-- The line that reports the error. -/
def report (e : Error) : Bytes := reportLine e.category.name e.message

end Error

end EndpointRules
