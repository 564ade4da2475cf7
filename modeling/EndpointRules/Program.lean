import EndpointRules.Address
import EndpointRules.Cursor
import EndpointRules.Diagram
import EndpointRules.Error
import EndpointRules.Function

/-!
# Programs

A program is code with the tables that go with it: where the bodies of conditions and results
start, the registers, the constants, the functions it calls, and the diagram that picks a result.
`Parts` are the tables as given; a `Program` is parts that pass `Parts.check`, so whatever is known
of checked parts is known of every program.

A body runs up to the nearest start of a body above its own start, or to the end of the code.
-/

namespace EndpointRules

/-- A register of a program. -/
structure Register where
  name : Bytes
  /-- Evaluation fails if the register stays null. -/
  required : Bool := false
  /-- No parameter is read into the register. -/
  temporary : Bool := false
  /-- The value that the register has if nothing else fills it. -/
  defaultValue : Option Value := none
  /-- The name of the provider that fills the register if no parameter does. -/
  builtin : Option Bytes := none
  deriving DecidableEq

/-- A function that a program calls: the name, and the implementation if one is linked. -/
structure Slot where
  name : Bytes
  function : Option Function

/-- The stretch of code from `start` up to `stop` that one condition or result runs. -/
structure Body where
  sort : BodySort
  index : Nat
  start : Nat
  stop : Nat
  deriving DecidableEq, Repr

/-- The tables of a program. -/
structure Parts where
  code : Array UInt8 := #[]
  /-- Where the bodies of the conditions start. -/
  conditions : Array Nat := #[]
  /-- Where the bodies of the results start. -/
  results : Array Nat := #[]
  registers : Array Register := #[]
  constants : Array Value := #[]
  functions : Array Slot := #[]
  diagram : Diagram
  version : UInt16 := imageVersion

namespace Parts

/-- The offsets at which some body starts, in ascending order. -/
def starts (p : Parts) : List Nat :=
  let marks := (p.conditions ++ p.results).foldl (fun marks a => marks.setIfInBounds a true)
    (Array.replicate p.code.size false)
  (List.range p.code.size).filter fun a => marks.getD a false

/-- The first of some ascending offsets above `start`, or else the address of the end of the
    code. -/
def endAfter (starts : List Nat) (size start : Nat) : Nat :=
  (starts.find? (start < ·)).getD (address size)

/-- The first name that occurs a second time. -/
def repeatedName? (seen : List Bytes) : List Bytes → Option Bytes
  | [] => none
  | name :: rest => if seen.contains name then some name else repeatedName? (name :: seen) rest

/-- Checks that every body of one sort starts inside the code. -/
def checkOffsets (sort : BodySort) (offsets : Array Nat) (size : Nat) : Except FormatError Unit :=
  match offsets.findIdx? (size ≤ ·) with
  | some i => .error (.bodyOffset sort i)
  | none => .ok ()

/-- Checks a call: the function must exist, and a linked function must take as many arguments as a
    call of fixed arity passes. -/
def checkCall (functions : Array Slot) (op : Opcode) (index address : Nat) :
    Except CompileError Unit :=
  match functions[index]? with
  | none => .error (.functionIndex index address)
  | some slot =>
    match op.fixedArity?, slot.function with
    | some passed, some f =>
      if f.arity = passed then .ok ()
      else .error (.arityMismatch slot.name f.arity op passed address)
    | _, _ => .ok ()

/-- Checks the calls up to `stop`, reading one instruction after the other, also behind returns.
    The reading ends without complaint where no instruction can be read. -/
def checkCalls (functions : Array Slot) (stop : Nat) (c : Cursor) : Except CompileError Unit :=
  if c.position < stop then
    match c.opcode?, _h : c.next? with
    | some op, some next =>
      if op.isCall then
        match c.operand 0 with
        | .error _ => .ok ()
        | .ok index =>
          match checkCall functions op index c.position with
          | .error e => .error e
          | .ok () => checkCalls functions stop next
      else checkCalls functions stop next
    | _, _ => .ok ()
  else .ok ()
termination_by stop - c.position
decreasing_by
  all_goals
    have := Cursor.position_lt_of_next? ‹_›
    omega

/-- Checks the calls of the bodies that start at the given offsets, bodies with one start being the
    same body. -/
def checkBodies (p : Parts) (starts : List Nat) (offsets : Array Nat) :
    Except CompileError Unit :=
  offsets.toList.eraseDups.forM fun start =>
    checkCalls p.functions (endAfter starts p.code.size start) ⟨p.code, start⟩

/-- Checks the sizes of the tables. -/
def checkSizes (p : Parts) : Except FormatError Unit :=
  if maxRegisters < p.registers.size then .error (.tooManyRegisters p.registers.size)
  else if 0xFFFF < p.constants.size then .error (.tooManyConstants p.constants.size)
  else if 256 < p.functions.size then .error (.tooManyFunctions p.functions.size)
  else if 0xFFFF < p.conditions.size || 0xFFFF < p.results.size then .error .tooManyBodies
  else .ok ()

/-- Checks that no two registers have the same name. -/
def checkNames (p : Parts) : Except FormatError Unit :=
  match repeatedName? [] (p.registers.toList.map (·.name)) with
  | some name => .error (.duplicateRegister name)
  | none => .ok ()

/-- Checks the tables against each other. -/
def checkTables (p : Parts) : Except FormatError Unit := do
  p.checkSizes
  p.checkNames
  checkOffsets .condition p.conditions p.code.size
  checkOffsets .result p.results p.code.size
  p.diagram.validate p.conditions.size p.results.size

/-- Checks all calls, those of the conditions first; `starts` are the starts of bodies. -/
def checkLinks (p : Parts) (starts : List Nat) : Except CompileError Unit := do
  p.checkBodies starts p.conditions
  p.checkBodies starts p.results

/-- Checks the tables, and then the calls. -/
def check (p : Parts) (starts : List Nat) : Except Error Unit := do
  p.checkTables.mapError .format
  (p.checkLinks starts).mapError .compile

end Parts

/-- Parts that pass the check. -/
structure Program where
  parts : Parts
  /-- The offsets at which bodies start, kept so as not to be computed again. -/
  starts : List Nat
  starts_eq : starts = parts.starts
  check_eq : parts.check starts = .ok ()

namespace Program

/-- The program of parts that pass the check. -/
def ofChecked (parts : Parts) (h : parts.check parts.starts = .ok ()) : Program :=
  { parts, starts := parts.starts, starts_eq := rfl, check_eq := h }

/-- The program of some parts, if they pass the check. -/
def create (parts : Parts) : Except Error Program :=
  let starts := parts.starts
  match h : parts.check starts with
  | .ok () => .ok { parts, starts, starts_eq := rfl, check_eq := h }
  | .error e => .error e

/-- Equal parts make equal programs. -/
@[ext] theorem ext_parts {p q : Program} (h : p.parts = q.parts) : p = q := by
  obtain ⟨parts, starts, hs, _⟩ := p
  obtain ⟨parts', starts', hs', _⟩ := q
  cases h
  subst hs hs'
  rfl

theorem parts_of_create {parts : Parts} {p : Program} (h : create parts = .ok p) :
    p.parts = parts := by
  simp only [create] at h
  split at h <;> cases h
  rfl

theorem create_parts (p : Program) : create p.parts = .ok p := by
  have h := p.check_eq
  rw [p.starts_eq] at h
  simp only [create]
  split
  · exact congrArg Except.ok (ext_parts rfl)
  · next e he => rw [h] at he; cases he

/-- The code. -/
def code (p : Program) : Array UInt8 := p.parts.code

/-- Where a body that starts at `start` ends. -/
def stopOf (p : Program) (start : Nat) : Nat := Parts.endAfter p.starts p.code.size start

/-- The offsets of the bodies of one sort. -/
def offsets (p : Program) : BodySort → Array Nat
  | .condition => p.parts.conditions
  | .result => p.parts.results

/-- The body of a condition or result, if there is one with that index. -/
def body? (p : Program) (sort : BodySort) (index : Nat) : Option Body :=
  (p.offsets sort)[index]?.map fun start => { sort, index, start, stop := p.stopOf start }

/-- The bodies of one sort in order. -/
def bodies (p : Program) (sort : BodySort) : List Body :=
  (p.offsets sort).toList.zipIdx.map fun (start, index) =>
    { sort, index, start, stop := p.stopOf start }

end Program

end EndpointRules
