import EndpointRules.Error.Kind
import EndpointRules.Opcode

/-!
# Errors of tables and images

What can be wrong with the tables of a program, with its image, or with the place of a cursor in
its code.
-/

namespace EndpointRules

open Bytes

/-- The two sorts of bodies of a program. -/
inductive BodySort
  | condition | result
  deriving DecidableEq, Repr

/-- How messages call a sort of body. -/
def BodySort.name : BodySort → Bytes
  | .condition => "condition"
  | .result => "result"

/-- Causes of an error of category `format`. -/
inductive FormatError
  /-- The image is shorter than a header. -/
  | tooShort
  | wrongMagic (found : UInt32)
  | unsupportedVersion (found : UInt16)
  /-- The tables are out of order or beyond the image. -/
  | tableOrder
  | conditionsOverlapResults
  | resultsOverlapFunctions
  | diagramOverlapsConstants
  /-- A read would have gone past the end of the image. -/
  | unexpectedEnd (offset : Nat)
  | unknownTag (tag : UInt8) (offset : Nat)
  | constantTooDeep
  | registersMissDiagram
  | trailingBytes (offset : Nat)
  | tooManyRegisters (count : Nat)
  | tooManyConstants (count : Nat)
  | tooManyFunctions (count : Nat)
  | tooManyBodies
  | duplicateRegister (name : Bytes)
  | bodyOffset (sort : BodySort) (index : Nat)
  | diagramLength
  | diagramRoot (reference : Int32)
  | diagramCondition (node : Nat) (condition : Int32)
  | diagramChild (node : Nat)
  /-- No opcode stands at the offset. -/
  | noInstruction (offset : Nat)
  | operandIndex (index : Int) (op : Opcode)
  | truncatedInstruction (offset : Nat)
  | notAJump (offset : Nat)
  | cannotOpen (path : Bytes)
  deriving DecidableEq, Repr

/-- The first four bytes of an image: the letters `RULE`. -/
def imageMagic : UInt32 := 0x52554C45

/-- The version of the image format, the major number in the high byte. -/
def imageVersion : UInt16 := 0x0101

/-- The most containers that may enclose a constant. -/
def maxConstantDepth : Nat := 100

/-- A version as `major.minor`. -/
def versionText (version : UInt16) : Bytes :=
  decimal (version.toNat / 256) ++ "." ++ decimal (version.toNat % 256)

/-- The eight hexadecimal digits of a word. -/
def wordText (w : UInt32) : Bytes :=
  "0x" ++ [w >>> 24, w >>> 16, w >>> 8, w].flatMap fun v => lowerHex v.toUInt8

namespace FormatError

/-- The kind of an error. -/
def kind : FormatError → ErrorKind
  | unsupportedVersion _ => .unsupportedVersion
  | operandIndex .. => .bounds
  | cannotOpen _ => .inputOutput
  | _ => .invalidFormat

/-- What an error says. -/
def message : FormatError → Bytes
  | tooShort => "Invalid bytecode: too short"
  | wrongMagic found =>
    "Invalid magic number: " ++ wordText found ++ " (expected " ++ wordText imageMagic ++ ")"
  | unsupportedVersion found =>
    "Unsupported bytecode version: " ++ versionText found ++ " (expected "
      ++ versionText imageVersion ++ ")"
  | tableOrder => "Invalid offsets in bytecode header"
  | conditionsOverlapResults => "Invalid offsets: condition table overlaps result table"
  | resultsOverlapFunctions => "Invalid offsets: result table overlaps function table"
  | diagramOverlapsConstants => "Invalid offsets: BDD table overlaps constant pool"
  | unexpectedEnd offset => "Unexpected end of bytecode at offset " ++ decimal offset
  | unknownTag tag offset =>
    "Unknown constant type tag " ++ decimal tag.toNat ++ " at offset " ++ decimal offset
  | constantTooDeep => "Constant nesting depth exceeds " ++ decimal maxConstantDepth
  | registersMissDiagram => "Invalid offsets: register table does not end at the BDD table"
  | trailingBytes offset =>
    "Unexpected trailing bytes after constant pool at offset " ++ decimal offset
  | tooManyRegisters count => "Too many registers: " ++ decimal count
  | tooManyConstants count => "Too many constants: " ++ decimal count
  | tooManyFunctions count => "Too many functions: " ++ decimal count
  | tooManyBodies => "Too many condition or result bodies"
  | duplicateRegister name => "Duplicate register name: " ++ name
  | bodyOffset sort index => "Invalid " ++ sort.name ++ " offset at index " ++ decimal index
  | diagramLength => "BDD node table length is not a multiple of 3"
  | diagramRoot reference => "Invalid BDD root reference: " ++ ofInt reference.toInt
  | diagramCondition node condition =>
    "BDD node " ++ decimal node ++ " references unknown condition " ++ ofInt condition.toInt
  | diagramChild node => "BDD node " ++ decimal node ++ " has an invalid child reference"
  | noInstruction offset => "No decodable instruction at offset " ++ decimal offset
  | operandIndex index op =>
    "Operand index " ++ ofInt index ++ " out of range for " ++ op.mnemonic
  | truncatedInstruction offset => "Truncated instruction at offset " ++ decimal offset
  | notAJump offset => "Instruction at offset " ++ decimal offset ++ " is not a jump"
  | cannotOpen path => "Cannot open bytecode file: " ++ path

end FormatError

end EndpointRules
