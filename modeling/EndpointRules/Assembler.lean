import EndpointRules.Pool
import EndpointRules.Program

/-!
# Assembly of programs

An assembler collects code, constants, function names and body starts, and builds a program of
them.  Jumps lead forward to labels: a jump reserves two bytes, and marking its label fills them
with the distance from behind them to the mark, the high byte first.  The first misuse of a label
is remembered and reported by the build.  Offsets are addresses of 32 bits, and so are distances.
-/

namespace EndpointRules

/-- A label: where it was marked, or the offsets of the jumps that wait for the mark. -/
structure Label where
  position : Option Nat := none
  pending : Array Nat := #[]

/-- What has been written so far. -/
structure Assembler where
  code : Array UInt8 := #[]
  conditions : Array Nat := #[]
  results : Array Nat := #[]
  constants : Pool Value := {}
  functions : Pool Bytes := {}
  labels : Array Label := #[]
  /-- The first misuse of a label. -/
  error : Option CompileError := none

namespace Assembler

/-- The offset at which the next byte will stand. -/
def position (a : Assembler) : Nat := address a.code.size

/-- Appends a byte. -/
def byte (a : Assembler) (b : UInt8) : Assembler := { a with code := a.code.push b }

/-- The two bytes of a number below 65536, the high byte first. -/
def shortBytes (n : Nat) : UInt8 × UInt8 := (UInt8.ofNat (n / 256), UInt8.ofNat n)

/-- Appends a number as two bytes. -/
def short (a : Assembler) (n : Nat) : Assembler :=
  let (high, low) := shortBytes n
  (a.byte high).byte low

/-- Appends an opcode. -/
def opcode (a : Assembler) (op : Opcode) : Assembler := a.byte op.toByte

/-- The index of a constant, which is added to the pool if it is new. -/
def constant (a : Assembler) (v : Value) : Nat × Assembler :=
  let (i, constants) := a.constants.intern v
  (i, { a with constants })

/-- The index of a function name, which is added to the table if it is new. -/
def function (a : Assembler) (name : Bytes) : Nat × Assembler :=
  let (i, functions) := a.functions.intern name
  (i, { a with functions })

/-- Starts the body of the next condition or result here. -/
def startBody (a : Assembler) : BodySort → Assembler
  | .condition => { a with conditions := a.conditions.push a.position }
  | .result => { a with results := a.results.push a.position }

/-- A new label. -/
def label (a : Assembler) : Nat × Assembler :=
  (a.labels.size, { a with labels := a.labels.push {} })

/-- Remembers an error unless there is one already. -/
def fail (a : Assembler) (e : CompileError) : Assembler := { a with error := a.error.or (some e) }

/-- Reserves the two bytes of a jump to a label that is still to be marked. -/
def jump (a : Assembler) (label : Nat) : Assembler :=
  let offset := a.position
  let a := a.short 0
  match a.labels[label]? with
  | none => a.fail (.unknownLabel label)
  | some { position := some _, .. } => a.fail (.backwardJump label offset)
  | some { position := none, pending } =>
    { a with labels := a.labels.setIfInBounds label { pending := pending.push offset } }

/-- Writes the distance from a jump's operand at `offset` to `target` into the operand. -/
def patch (target : Nat) (a : Assembler) (offset : Nat) : Assembler :=
  let distance := addressDistance (offset + 2) target
  if 0xFFFF < distance then a.fail (.jumpTooLong distance offset)
  else
    let (high, low) := shortBytes distance
    { a with code := (a.code.setIfInBounds offset high).setIfInBounds (address (offset + 1)) low }

/-- Marks a label here and completes the jumps to it. -/
def mark (a : Assembler) (label : Nat) : Assembler :=
  match a.labels[label]? with
  | none => a.fail (.unknownLabel label)
  | some { position := some _, .. } => a.fail (.labelMarkedTwice label)
  | some { position := none, pending } =>
    pending.foldl (patch a.position)
      { a with labels := a.labels.setIfInBounds label { position := some a.position } }

/-- The implementation of a function name: the first of that name. -/
def implementation? (functions : List Function) (name : Bytes) : Option Function :=
  functions.find? (·.name == name)

/-- The tables of the program, unless something written so far rules a program out: a misuse of a
    label, a label that jumps wait for, too many constants or functions, or functions without
    implementation. -/
def parts (a : Assembler) (registers : Array Register) (functions : List Function)
    (diagram : Diagram) : Except CompileError Parts := do
  if let some e := a.error then throw e
  if let some i := a.labels.findIdx? (!·.pending.isEmpty) then throw (.labelNeverMarked i)
  if 0xFFFF < a.constants.size then throw (.tooManyConstants a.constants.size)
  if 256 < a.functions.size then throw (.tooManyFunctions a.functions.size)
  let names := a.functions.items.toList
  let missing := missingText (names.filter fun n => (implementation? functions n).isNone)
  if !missing.isEmpty then throw (.missingFunctions missing)
  let slots := names.filterMap fun n =>
    (implementation? functions n).map fun f => { name := n, function := some f : Slot }
  pure
    { code := a.code, conditions := a.conditions, results := a.results, registers
      constants := a.constants.items, functions := slots.toArray, diagram }

/-- Builds the program.  If the tables cannot be put together the assembler stays as it is;
    otherwise they leave it, and it is empty again. -/
def build (a : Assembler) (registers : Array Register) (functions : List Function)
    (diagram : Diagram) : Except Error Program × Assembler :=
  match a.parts registers functions diagram with
  | .error e => (.error (.compile e), a)
  | .ok parts => (Program.create parts, {})

end Assembler

end EndpointRules
