import EndpointRules.Opcode
import EndpointRules.Value

/-!
# Instructions

What the machine does for an opcode and the bytes behind it.  Several opcodes are short forms of
one instruction: the lists and maps of fixed size, calls of fixed arity, and constants with an
index of one byte.
-/

namespace EndpointRules

/-- A question asked of one value. -/
inductive Predicate
  | isSet | isNotSet | isTrue | isFalse
  deriving DecidableEq, Repr

/-- The answer to a question. -/
def Predicate.holds : Predicate → Value → Bool
  | .isSet, v => v.isSet
  | .isNotSet, v => v.isNull
  | .isTrue, v => v.isTrue
  | .isFalse, v => v.isFalse

/-- The instructions of the machine. -/
inductive Instruction
  | loadConstant (index : Nat)
  | setRegister (index : Nat)
  | loadRegister (index : Nat)
  /-- Pushes the answer for the value popped. -/
  | test (predicate : Predicate)
  /-- Pushes the answer for the value of a register. -/
  | testRegister (predicate : Predicate) (index : Nat)
  | makeList (count : Nat)
  | makeMap (pairs : Nat)
  | resolveTemplate (count constant : Nat)
  /-- Calls a function with `arity` arguments, or with as many as it takes. -/
  | call (arity : Option Nat) (function : Nat)
  | getProperty (constant : Nat)
  | getIndex (index : Nat)
  | getPropertyOf (register constant : Nat)
  | getIndexOf (register index : Nat)
  | equals
  | stringEquals
  | booleanEquals
  | substring (start stop : Nat) (reverse : Bool)
  | isHostLabel
  | parseUrl
  | uriEncode
  | split
  | raise
  | returnEndpoint (hasProperties hasHeaders : Bool)
  | returnValue
  /-- Jumps over `distance` bytes if the top of the stack is set, and pops it otherwise. -/
  | jumpIfSetOrPop (distance : Nat)
  deriving DecidableEq, Repr

namespace Instruction

/-- The instruction of an opcode with the bytes at their places behind the opcode, an operand of two
    bytes having its high byte first. -/
def ofBytes (op : Opcode) (byte : Nat → Nat) : Instruction :=
  let short place := byte place * 256 + byte (place + 1)
  match op with
  | .loadConst => .loadConstant (byte 1)
  | .loadConstWide => .loadConstant (short 1)
  | .setRegister => .setRegister (byte 1)
  | .loadRegister => .loadRegister (byte 1)
  | .not => .test .isFalse
  | .isSet => .test .isSet
  | .isTrue => .test .isTrue
  | .testRegisterIsSet => .testRegister .isSet (byte 1)
  | .testRegisterNotSet => .testRegister .isNotSet (byte 1)
  | .testRegisterIsTrue => .testRegister .isTrue (byte 1)
  | .testRegisterIsFalse => .testRegister .isFalse (byte 1)
  | .list0 => .makeList 0
  | .list1 => .makeList 1
  | .list2 => .makeList 2
  | .listN => .makeList (byte 1)
  | .map0 => .makeMap 0
  | .map1 => .makeMap 1
  | .map2 => .makeMap 2
  | .map3 => .makeMap 3
  | .map4 => .makeMap 4
  | .mapN => .makeMap (byte 1)
  | .resolveTemplate => .resolveTemplate (byte 1) (short 2)
  | .call0 => .call (some 0) (byte 1)
  | .call1 => .call (some 1) (byte 1)
  | .call2 => .call (some 2) (byte 1)
  | .call3 => .call (some 3) (byte 1)
  | .call => .call none (byte 1)
  | .getProperty => .getProperty (short 1)
  | .getIndex => .getIndex (byte 1)
  | .getPropertyReg => .getPropertyOf (byte 1) (short 2)
  | .getIndexReg => .getIndexOf (byte 1) (byte 2)
  | .equals => .equals
  | .stringEquals => .stringEquals
  | .booleanEquals => .booleanEquals
  | .substring => .substring (byte 1) (byte 2) (byte 3 != 0)
  | .isValidHostLabel => .isHostLabel
  | .parseUrl => .parseUrl
  | .uriEncode => .uriEncode
  | .split => .split
  | .returnError => .raise
  | .returnEndpoint => .returnEndpoint (byte 1 / 2 % 2 == 1) (byte 1 % 2 == 1)
  | .returnValue => .returnValue
  | .jumpIfSetOrPop => .jumpIfSetOrPop (short 1)

/-- The instruction at an offset of some code. -/
def decode (op : Opcode) (code : Array UInt8) (offset : Nat) : Instruction :=
  ofBytes op fun place => (code.getD (offset + place) 0).toNat

end Instruction

end EndpointRules
