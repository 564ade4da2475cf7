import EndpointRules.Image.Header
import EndpointRules.Program

/-!
# Programs from images

`Image.decode` reads an image in three steps: the tables, with function names in place of
functions; the functions of those names; and the check that every program passes.
-/

namespace EndpointRules

namespace Image

open Reading

/-- The tables of an image: those of a program, but for the functions, of which an image holds the
    names. -/
structure Tables where
  names : Array Bytes
  parts : Parts

/-- Reads the offsets of bodies, which must lie in the code, and makes them offsets in the
    code. -/
def readOffsets (sort : BodySort) (codeStart codeEnd : Nat) :
    (count : Nat) → Array Nat → Source → Except FormatError (Array Nat × Source)
  | 0, done, s => .ok (done, s)
  | count + 1, done, s =>
    match checked Source.u32 s with
    | .error e => .error e
    | .ok (offset, s) =>
      if offset < codeStart || codeEnd ≤ offset then .error (.bodyOffset sort done.size)
      else readOffsets sort codeStart codeEnd count (done.push (offset - codeStart)) s

/-- Reads a flag, set by every byte but 0. -/
def readFlag : Reading Bool := do return (← checked Source.u8) != 0

/-- Reads a register. -/
def readRegister : Reading Register := do
  let name ← checked Source.string
  let required ← readFlag
  let temporary ← readFlag
  let defaultValue ← if ← readFlag then some <$> constant else pure none
  let builtin ← if ← readFlag then some <$> checked Source.string else pure none
  return { name, required, temporary, defaultValue, builtin }

/-- Reads the tables of an image of the given size. -/
def readTables (image : Array UInt8) : Reading Tables := do
  let h ← Header.read
  require (h.checkLayout image.size)
  seek h.conditionTable
  let conditions ← readOffsets .condition h.codeStart h.constantPool h.conditionCount #[]
  seek h.resultTable
  let results ← readOffsets .result h.codeStart h.constantPool h.resultCount #[]
  seek h.functionTable
  let names ← readMany (checked Source.string) h.functionCount #[]
  let registers ← readMany readRegister h.registerCount #[]
  if (← position) ≠ h.diagramTable then fail .registersMissDiagram
  let entries ← readMany (checked Source.i32) (3 * h.nodeCount) #[]
  seek h.constantPool
  let constants ← readMany constant h.constantCount #[]
  let reached ← position
  if reached ≠ image.size then fail (.trailingBytes reached)
  return {
    names
    parts := {
      code := image.extract h.codeStart h.constantPool
      conditions, results, registers, constants
      diagram := { entries, root := h.root }
      version := h.version } }

/-- The tables of an image. -/
def tables (image : Array UInt8) : Except FormatError Tables :=
  if image.size < headerSize then .error .tooShort
  else (readTables image { data := image }).map (·.1)

/-- The functions of the given names.  A name without function is an error, unless unresolved
    functions are allowed. -/
def link (registry : Registry) (allowUnresolved : Bool) (names : Array Bytes) :
    Except CompileError (Array Slot) :=
  let missing := missingText (names.toList.filter fun n => (registry.get? n).isNone)
  if allowUnresolved || missing.isEmpty then
    .ok (names.map fun name => { name, function := registry.get? name })
  else .error (.missingFunctions missing)

/-- The program of an image, with functions from a registry. -/
def decode (image : Array UInt8) (registry : Registry) (allowUnresolved : Bool) :
    Except Error Program := do
  let t ← (tables image).mapError .format
  let functions ← (link registry allowUnresolved t.names).mapError .compile
  Program.create { t.parts with functions }

end Image

end EndpointRules
