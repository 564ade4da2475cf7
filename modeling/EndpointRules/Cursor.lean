import EndpointRules.Address
import EndpointRules.Error.Format
import EndpointRules.Word

/-!
# Cursor over code

A cursor stands at an offset of some code and decodes the instruction there from the table of
operand widths.  It never looks beyond the code: an instruction that the code cuts short has
operands that cannot be read.
-/

namespace EndpointRules

/-- An offset in a piece of code. -/
structure Cursor where
  code : Array UInt8
  position : Nat

namespace Cursor

/-- Whether the cursor stands inside the code. -/
def hasNext (c : Cursor) : Bool := c.position < c.code.size

/-- The byte under the cursor. -/
def byte? (c : Cursor) : Option UInt8 := c.code[c.position]?

/-- The opcode under the cursor; none at the end of the code and at an unassigned byte. -/
def opcode? (c : Cursor) : Option Opcode := c.byte?.bind Opcode.ofByte?

/-- The number of operands of the instruction under the cursor. -/
def operandCount (c : Cursor) : Nat := (c.opcode?.map (·.widths.length)).getD 0

/-- The value of an operand of the instruction under the cursor, the first of them standing at
    `first`. -/
def operandFrom (c : Cursor) (first : Nat) (index : Int) : Except FormatError Nat :=
  match c.opcode? with
  | none => .error (.noInstruction c.position)
  | some op =>
    match (if index < 0 then none else op.widths[index.toNat]?) with
    | none => .error (.operandIndex index op)
    | some width =>
      let start := (op.widths.take index.toNat).foldl (· + ·) first
      if c.code.size < start + width then .error (.truncatedInstruction c.position)
      else .ok (Word.value (c.code.extract start (start + width)).toList)

/-- The value of an operand of the instruction under the cursor. -/
def operand (c : Cursor) (index : Int) : Except FormatError Nat :=
  c.operandFrom (c.position + 1) index

/-- Where the jump under the cursor leads: as far behind the instruction as its operand says. -/
def jumpTarget (c : Cursor) : Except FormatError Nat :=
  match c.opcode? with
  | none => .error (.notAJump c.position)
  | some op =>
    if op.isJump then (c.operand 0).map (c.position + op.length + ·)
    else .error (.notAJump c.position)

/-- Whether the instruction under the cursor ends a body. -/
def isReturn (c : Cursor) : Bool := c.opcode?.any Opcode.isReturn

/-- Whether every operand of the instruction under the cursor can be read. -/
def isComplete (c : Cursor) : Bool :=
  match c.opcode? with
  | none => false
  | some op => c.position + op.length ≤ c.code.size

/-- The cursor behind the instruction under it. -/
def next? (c : Cursor) : Option Cursor :=
  c.opcode?.map fun op => { c with position := c.position + op.length }

theorem position_lt_of_opcode? {c : Cursor} {op : Opcode} (h : c.opcode? = some op) :
    c.position < c.code.size := by
  simp only [opcode?, byte?, Option.bind_eq_some_iff] at h
  obtain ⟨_, hb, _⟩ := h
  exact (Array.getElem?_eq_some_iff.1 hb).1

theorem code_of_next? {c d : Cursor} (h : c.next? = some d) : d.code = c.code := by
  obtain ⟨_, _, rfl⟩ := Option.map_eq_some_iff.1 h
  rfl

theorem position_lt_of_next? {c d : Cursor} (h : c.next? = some d) :
    c.position < d.position := by
  obtain ⟨op, _, rfl⟩ := Option.map_eq_some_iff.1 h
  exact Nat.lt_add_of_pos_right op.length_pos

/-- The cursors from this one on, one behind each instruction, to the end of the code or to the
    first byte that is no opcode, that one included. -/
def trail (c : Cursor) : List Cursor :=
  if c.hasNext then
    match _h : c.next? with
    | some next => c :: trail next
    | none => [c]
  else []
termination_by c.code.size - c.position
decreasing_by
  have := position_lt_of_next? ‹_›
  have := code_of_next? ‹_›
  simp_all only [hasNext, decide_eq_true_eq]
  omega

/-! ## Addresses of 32 bits

The position of a cursor is an address, so behind the last address it is at the first one again.
The place of the first operand is an address as well; the other operands follow it in the code. -/

/-- The value of an operand, the first of which stands at the address behind the opcode. -/
def operandWrapped (c : Cursor) (index : Int) : Except FormatError Nat :=
  c.operandFrom (address (c.position + 1)) index

/-- The address to which the jump under the cursor leads. -/
def jumpTargetWrapped (c : Cursor) : Except FormatError Nat :=
  match c.opcode? with
  | none => .error (.notAJump c.position)
  | some op =>
    if op.isJump then
      (c.operandWrapped 0).map fun distance => address (c.position + op.length + distance)
    else .error (.notAJump c.position)

/-- The cursor at the address behind the instruction under it. -/
def nextWrapped? (c : Cursor) : Option Cursor :=
  c.opcode?.map fun op => { c with position := address (c.position + op.length) }

end Cursor

end EndpointRules
