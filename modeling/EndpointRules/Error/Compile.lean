import EndpointRules.Error.Format

/-!
# Errors of program construction

What can go wrong while a program is put together, linked, or written as an image.
-/

namespace EndpointRules

open Bytes

/-- The most registers of a program; a register's index is one byte. -/
def maxRegisters : Nat := 256

/-- The collections that an image writes with a count before them. -/
inductive Counted
  | list | map | template
  deriving DecidableEq, Repr

/-- How messages call a counted collection. -/
def Counted.name : Counted → Bytes
  | .list => "List"
  | .map => "Map"
  | .template => "Template"

/-- Causes of an error of category `compile`. -/
inductive CompileError
  /-- A call names a function that the program does not have. -/
  | functionIndex (index address : Nat)
  /-- A call passes another number of arguments than the function takes. -/
  | arityMismatch (name : Bytes) (expected : Nat) (op : Opcode) (passed address : Nat)
  /-- Functions without implementation; `names` is their list as text. -/
  | missingFunctions (names : Bytes)
  | unknownLabel (label : Nat)
  | backwardJump (label offset : Nat)
  | labelMarkedTwice (label : Nat)
  | jumpTooLong (distance offset : Nat)
  | labelNeverMarked (label : Nat)
  | tooManyConstants (count : Nat)
  | tooManyFunctions (count : Nat)
  | stringTooLong (size : Nat)
  | countTooLarge (what : Counted) (count : Nat)
  | integerTooLarge (n : Int)
  | uriConstant (text : Bytes)
  | constantTooDeep
  | registerExists (name : Bytes)
  | registersExhausted
  | unknownRegister (name : Bytes)
  deriving DecidableEq, Repr

namespace CompileError

/-- The kind of an error. -/
def kind : CompileError → ErrorKind
  | functionIndex .. => .bounds
  | arityMismatch .. => .arityMismatch
  | missingFunctions _ => .missingFunction
  | unknownLabel _ | backwardJump .. | labelMarkedTwice _ | jumpTooLong ..
  | labelNeverMarked _ => .invalidJump
  | tooManyConstants _ | tooManyFunctions _ | stringTooLong _ | countTooLarge ..
  | constantTooDeep => .poolOverflow
  | integerTooLarge _ | uriConstant _ => .typeError
  | registerExists _ => .duplicateRegister
  | registersExhausted => .registerOverflow
  | unknownRegister _ => .unknownRegister

/-- What an error says. -/
def message : CompileError → Bytes
  | functionIndex index address =>
    "Function index " ++ decimal index ++ " out of range at address " ++ decimal address
  | arityMismatch name expected op passed address =>
    "Function " ++ name ++ " expects " ++ decimal expected ++ " arguments but " ++ op.mnemonic
      ++ " passes " ++ decimal passed ++ " at address " ++ decimal address
  | missingFunctions names => "Missing bytecode functions: [" ++ names ++ "]"
  | unknownLabel label => "Unknown label " ++ decimal label
  | backwardJump label offset =>
    "Backward jump to label " ++ decimal label ++ " at offset " ++ decimal offset
  | labelMarkedTwice label => "Label " ++ decimal label ++ " marked twice"
  | jumpTooLong distance offset =>
    "Jump offset " ++ decimal distance ++ " exceeds 16 bits at offset " ++ decimal offset
  | labelNeverMarked label => "Label " ++ decimal label ++ " was never marked"
  | tooManyConstants count => "Too many constants: " ++ decimal count
  | tooManyFunctions count => "Too many functions: " ++ decimal count
  | stringTooLong size => "String too long to encode: " ++ decimal size ++ " bytes"
  | countTooLarge what count => what.name ++ " too large to encode: " ++ decimal count
  | integerTooLarge n => "Integer constant out of 32-bit range: " ++ ofInt n
  | uriConstant text => "URI values cannot be stored in the constant pool: " ++ text
  | constantTooDeep => "Constant nesting depth exceeds " ++ decimal maxConstantDepth
  | registerExists name => "Register already allocated: " ++ name
  | registersExhausted => "Too many registers: limit is " ++ decimal maxRegisters
  | unknownRegister name => "Register not allocated: " ++ name

end CompileError

end EndpointRules
