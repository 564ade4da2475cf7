import EndpointRules.Bytes

/-!
# Opcodes

The operations of rule code.  The byte of an opcode is its place in the list of all opcodes, which
is part of the image format and never changes.  An instruction is the opcode byte followed by its
operands; the opcode alone decides their number and widths, and a two-byte operand has its high
byte first.
-/

namespace EndpointRules

/-- The operations of rule code, in the order of their bytes. -/
inductive Opcode
  | loadConst | loadConstWide | setRegister | loadRegister
  | not | isSet | testRegisterIsSet | testRegisterNotSet
  | list0 | list1 | list2 | listN
  | map0 | map1 | map2 | map3 | map4 | mapN
  | resolveTemplate
  | call0 | call1 | call2 | call3 | call
  | getProperty | getIndex | getPropertyReg | getIndexReg
  | isTrue | testRegisterIsTrue | testRegisterIsFalse
  | equals | stringEquals | booleanEquals
  | substring | isValidHostLabel | parseUrl | uriEncode
  | returnError | returnEndpoint | returnValue
  | split | jumpIfSetOrPop
  deriving DecidableEq, Repr

namespace Opcode

/-- All opcodes in the order of their bytes. -/
def all : Array Opcode := #[
  loadConst, loadConstWide, setRegister, loadRegister,
  not, isSet, testRegisterIsSet, testRegisterNotSet,
  list0, list1, list2, listN,
  map0, map1, map2, map3, map4, mapN,
  resolveTemplate,
  call0, call1, call2, call3, call,
  getProperty, getIndex, getPropertyReg, getIndexReg,
  isTrue, testRegisterIsTrue, testRegisterIsFalse,
  equals, stringEquals, booleanEquals,
  substring, isValidHostLabel, parseUrl, uriEncode,
  returnError, returnEndpoint, returnValue,
  split, jumpIfSetOrPop]

/-- The opcode of a byte, if it has one. -/
def ofByte? (byte : UInt8) : Option Opcode := all[byte.toNat]?

/-- The byte of an opcode. -/
def toByte (op : Opcode) : UInt8 := UInt8.ofNat op.ctorIdx

/-- The mnemonic that listings and messages show. -/
def mnemonic : Opcode → Bytes
  | loadConst => "LOAD_CONST"
  | loadConstWide => "LOAD_CONST_W"
  | setRegister => "SET_REGISTER"
  | loadRegister => "LOAD_REGISTER"
  | not => "NOT"
  | isSet => "ISSET"
  | testRegisterIsSet => "TEST_REGISTER_ISSET"
  | testRegisterNotSet => "TEST_REGISTER_NOT_SET"
  | list0 => "LIST0"
  | list1 => "LIST1"
  | list2 => "LIST2"
  | listN => "LISTN"
  | map0 => "MAP0"
  | map1 => "MAP1"
  | map2 => "MAP2"
  | map3 => "MAP3"
  | map4 => "MAP4"
  | mapN => "MAPN"
  | resolveTemplate => "RESOLVE_TEMPLATE"
  | call0 => "FN0"
  | call1 => "FN1"
  | call2 => "FN2"
  | call3 => "FN3"
  | call => "FN"
  | getProperty => "GET_PROPERTY"
  | getIndex => "GET_INDEX"
  | getPropertyReg => "GET_PROPERTY_REG"
  | getIndexReg => "GET_INDEX_REG"
  | isTrue => "IS_TRUE"
  | testRegisterIsTrue => "TEST_REGISTER_IS_TRUE"
  | testRegisterIsFalse => "TEST_REGISTER_IS_FALSE"
  | equals => "EQUALS"
  | stringEquals => "STRING_EQUALS"
  | booleanEquals => "BOOLEAN_EQUALS"
  | substring => "SUBSTRING"
  | isValidHostLabel => "IS_VALID_HOST_LABEL"
  | parseUrl => "PARSE_URL"
  | uriEncode => "URI_ENCODE"
  | returnError => "RETURN_ERROR"
  | returnEndpoint => "RETURN_ENDPOINT"
  | returnValue => "RETURN_VALUE"
  | split => "SPLIT"
  | jumpIfSetOrPop => "JNN_OR_POP"

/-- The length of an instruction in bytes: its opcode byte and its operands. -/
def length : Opcode → Nat
  | loadConst | setRegister | loadRegister | testRegisterIsSet | testRegisterNotSet
  | listN | mapN | call0 | call1 | call2 | call3 | call | getIndex
  | testRegisterIsTrue | testRegisterIsFalse | returnEndpoint => 2
  | loadConstWide | getProperty | getIndexReg | jumpIfSetOrPop => 3
  | resolveTemplate | getPropertyReg | substring => 4
  | _ => 1

/-- The widths of the operands in bytes, in order.  The layouts that are not listed follow from the
    length: one byte behind the opcode is one operand. -/
def widths (op : Opcode) : List Nat :=
  match op with
  | loadConstWide | getProperty | jumpIfSetOrPop => [2]
  | getIndexReg => [1, 1]
  | resolveTemplate | getPropertyReg => [1, 2]
  | substring => [1, 1, 1]
  | _ => if op.length = 2 then [1] else []

/-- Whether the operation ends a body. -/
def isReturn : Opcode → Bool
  | returnError | returnEndpoint | returnValue => true
  | _ => false

/-- Whether the operation may jump. -/
def isJump (op : Opcode) : Bool := op == jumpIfSetOrPop

/-- The number of arguments that a call of fixed arity passes. -/
def fixedArity? : Opcode → Option Nat
  | call0 => some 0
  | call1 => some 1
  | call2 => some 2
  | call3 => some 3
  | _ => none

/-- Whether the operation calls a function. -/
def isCall (op : Opcode) : Bool := op == call || op.fixedArity?.isSome

/-! ## Bytes

What can be said of a byte that need not be an opcode. -/

/-- The mnemonic of a byte. -/
def mnemonicOf (byte : UInt8) : Bytes := (ofByte? byte).elim "UNKNOWN" mnemonic

/-- The length of the instruction that a byte starts; an unassigned byte stands alone. -/
def lengthOf (byte : UInt8) : Nat := (ofByte? byte).elim 1 length

/-- The widths of the operands behind a byte. -/
def widthsOf (byte : UInt8) : List Nat := (ofByte? byte).elim [] widths

theorem length_pos (op : Opcode) : 0 < op.length := by cases op <;> decide

/-- The two tables agree: an instruction is its opcode byte and operands of the widths listed. -/
theorem length_eq (op : Opcode) : op.length = op.widths.foldl (· + ·) 1 := by cases op <;> rfl

/-- The tables agree on unassigned bytes too. -/
theorem lengthOf_eq (byte : UInt8) : lengthOf byte = (widthsOf byte).foldl (· + ·) 1 := by
  unfold lengthOf widthsOf
  cases ofByte? byte with
  | none => rfl
  | some op => exact op.length_eq

theorem ofByte?_toByte (op : Opcode) : ofByte? op.toByte = some op := by cases op <;> rfl

end Opcode

end EndpointRules
