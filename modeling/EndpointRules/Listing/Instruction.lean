import EndpointRules.Program

/-!
# Instructions as text

A line for the instruction under a cursor: its offset, its mnemonic in a column of 22, its operands
in decimal, and a note on what they name.
-/

namespace EndpointRules

open Bytes

namespace Listing

/-- The width of the mnemonic column. -/
def mnemonicWidth : Nat := 22

/-- The summary of a constant. -/
def constantNote (p : Program) (index : Nat) : Bytes :=
  (p.parts.constants[index]?.map Value.summary).getD "<invalid constant>"

/-- The name of a register. -/
def registerNote (p : Program) (index : Nat) : Bytes :=
  (p.parts.registers[index]?.map Register.name).getD "<invalid register>"

/-- The name of a function. -/
def functionNote (p : Program) (index : Nat) : Bytes :=
  (p.parts.functions[index]?.map Slot.name).getD "<invalid function>"

/-- The name of a property: a string constant as it is, any other constant as its summary. -/
def propertyNote (p : Program) (index : Nat) : Bytes :=
  match p.parts.constants[index]? with
  | some (.string s) => s
  | some v => v.summary
  | none => "<invalid constant>"

/-- The place where the jump under a cursor leads. -/
def targetNote (c : Cursor) : Bytes :=
  match c.jumpTarget with
  | .ok target => "-> " ++ zeroPadded 4 target
  | .error _ => "<invalid target>"

/-- The note on the operands of the instruction under a cursor; empty if there is nothing to
    say. -/
def note (p : Program) (c : Cursor) (op : Opcode) (operands : List Nat) : Bytes :=
  let operand i := operands.getD i 0
  match op with
  | .loadConst | .loadConstWide => constantNote p (operand 0)
  | .setRegister | .loadRegister | .testRegisterIsSet | .testRegisterNotSet
  | .testRegisterIsTrue | .testRegisterIsFalse => registerNote p (operand 0)
  | .getIndexReg => registerNote p (operand 0) ++ "[" ++ decimal (operand 1) ++ "]"
  | .getPropertyReg => registerNote p (operand 0) ++ "." ++ propertyNote p (operand 1)
  | .getProperty => propertyNote p (operand 0)
  | .call0 | .call1 | .call2 | .call3 | .call => functionNote p (operand 0)
  | .resolveTemplate => constantNote p (operand 1)
  | .jumpIfSetOrPop => targetNote c
  | .returnEndpoint =>
    "headers=" ++ Value.booleanText (operand 0 % 2 == 1)
      ++ ", properties=" ++ Value.booleanText (operand 0 / 2 % 2 == 1)
  | .substring =>
    "start=" ++ decimal (operand 0) ++ ", end=" ++ decimal (operand 1)
      ++ ", reverse=" ++ Value.booleanText (operand 2 != 0)
  | _ => []

/-- The operands of the instruction under a cursor, up to the first that the code cuts off. -/
def operands (c : Cursor) : List Nat :=
  ((List.range c.operandCount).map fun i : Nat => c.operand i).takeWhile (·.toOption.isSome)
    |>.filterMap (·.toOption)

/-- The line for the instruction under a cursor. -/
def instruction (p : Program) (c : Cursor) : Bytes :=
  let offset := zeroPadded 4 c.position ++ ": "
  match c.opcode? with
  | none => offset ++ "UNKNOWN_OPCODE(0x" ++ upperHex (c.byte?.getD 0) ++ ")"
  | some op =>
    let operands := operands c
    let line := offset ++ op.mnemonic.rightpad mnemonicWidth blank
      ++ operands.flatMap (fun n => blank :: decimal n)
    if operands.length < c.operandCount then line ++ " <truncated>"
    else
      let note := note p c op operands
      dropTrailingBlanks (if note.isEmpty then line else line ++ "  ; " ++ note)

end Listing

end EndpointRules
