import EndpointRules.Image.Header
import EndpointRules.Program

/-!
# Programs as images

`Image.encode` writes the tables of a program one behind the other, without gaps.  Offsets of
bodies are written as offsets in the image.
-/

namespace EndpointRules

namespace Image

/-- A flag as a byte. -/
def flag (b : Bool) : UInt8 := if b then 1 else 0

/-- Writes a register: name, the two flags, the default and the provider's name, each of the last
    two behind a flag that says whether it is there. -/
def writeRegister (out : Sink) (r : Register) : Except CompileError Sink := do
  let out ← writeString out r.name
  let out := ((out.u8 (flag r.required)).u8 (flag r.temporary)).u8 (flag r.defaultValue.isSome)
  let out ← match r.defaultValue with
    | none => pure out
    | some v => writeConstant 0 v out
  let out := out.u8 (flag r.builtin.isSome)
  match r.builtin with
  | none => pure out
  | some name => writeString out name

/-- The header of the image of a program whose function names and registers take up `middle`
    bytes. -/
def headerOf (p : Parts) (middle : Nat) : Header :=
  let resultTable := headerSize + 4 * p.conditions.size
  let functionTable := resultTable + 4 * p.results.size
  let diagramTable := functionTable + middle
  { version := p.version
    conditionCount := p.conditions.size
    resultCount := p.results.size
    registerCount := p.registers.size
    constantCount := p.constants.size
    functionCount := p.functions.size
    nodeCount := p.diagram.nodeCount
    root := p.diagram.root
    conditionTable := headerSize
    resultTable
    functionTable
    constantPool := diagramTable + 4 * p.diagram.entries.size + p.code.size
    diagramTable }

/-- The image of a program.  It fails if a name or a constant has no written form. -/
def encode (program : Program) : Except CompileError (Array UInt8) := do
  let p := program.parts
  let middle ← p.functions.foldlM (fun out slot => writeString out slot.name) {}
  let middle ← p.registers.foldlM writeRegister middle
  let pool ← p.constants.foldlM (fun out v => writeConstant 0 v out) {}
  let header := headerOf p middle.size
  let codeStart := header.diagramTable + 4 * p.diagram.entries.size
  let out := header.write {}
  let out := p.conditions.foldl (fun out offset => out.u32 (codeStart + offset)) out
  let out := p.results.foldl (fun out offset => out.u32 (codeStart + offset)) out
  let out := out.append middle.bytes
  let out := p.diagram.entries.foldl Sink.i32 out
  return ((out.append p.code).append pool.bytes).bytes

end Image

end EndpointRules
