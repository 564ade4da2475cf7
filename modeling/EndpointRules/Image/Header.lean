import EndpointRules.Image.Constant

/-!
# Image headers

An image starts with a header of 44 bytes: the magic number, the version, the sizes of the tables
and their offsets in the image.  The tables stand in the order conditions, results, functions and
registers, diagram, code, constants; the code starts where the diagram ends.
-/

namespace EndpointRules

namespace Image

/-- The length of a header. -/
def headerSize : Nat := 44

/-- Sizes and places of the tables of an image. -/
structure Header where
  version : UInt16
  conditionCount : Nat
  resultCount : Nat
  registerCount : Nat
  constantCount : Nat
  functionCount : Nat
  nodeCount : Nat
  root : Int32
  conditionTable : Nat
  resultTable : Nat
  functionTable : Nat
  constantPool : Nat
  diagramTable : Nat
  deriving DecidableEq

namespace Header

open Reading

/-- The offset of the code: behind the nodes, three numbers of four bytes each. -/
def codeStart (h : Header) : Nat := h.diagramTable + 12 * h.nodeCount

/-- Writes a header. -/
def write (h : Header) (out : Sink) : Sink :=
  ((((((((((((((out.u32 imageMagic.toNat).u16 h.version.toNat).u16 h.conditionCount).u16
    h.resultCount).u16 h.registerCount).u16 h.constantCount).u16 h.functionCount).u32
    h.nodeCount).i32 h.root).u32 h.conditionTable).u32 h.resultTable).u32 h.functionTable).u32
    h.constantPool).u32 h.diagramTable)

/-- Reads a header; the magic number and the version must be right. -/
def read : Reading Header := do
  let magic ← checked Source.u32
  if magic ≠ imageMagic.toNat then fail (.wrongMagic (UInt32.ofNat magic))
  let version := UInt16.ofNat (← checked Source.u16)
  if version ≠ imageVersion then fail (.unsupportedVersion version)
  let conditionCount ← checked Source.u16
  let resultCount ← checked Source.u16
  let registerCount ← checked Source.u16
  let constantCount ← checked Source.u16
  let functionCount ← checked Source.u16
  let nodeCount ← checked Source.u32
  let root ← checked Source.i32
  let conditionTable ← checked Source.u32
  let resultTable ← checked Source.u32
  let functionTable ← checked Source.u32
  let constantPool ← checked Source.u32
  let diagramTable ← checked Source.u32
  return {
    version, conditionCount, resultCount, registerCount, constantCount, functionCount
    nodeCount, root, conditionTable, resultTable, functionTable, constantPool, diagramTable }

/-- Checks that the tables stand in order inside an image of the given size, that those of known
    length do not overlap what follows them, and that the registers are not too many. -/
def checkLayout (h : Header) (size : Nat) : Except FormatError Unit :=
  if h.conditionTable < headerSize || h.resultTable < h.conditionTable
      || h.functionTable < h.resultTable || h.diagramTable < h.functionTable
      || h.constantPool < h.diagramTable || size < h.constantPool then .error .tableOrder
  else if h.resultTable < h.conditionTable + 4 * h.conditionCount then
    .error .conditionsOverlapResults
  else if h.functionTable < h.resultTable + 4 * h.resultCount then
    .error .resultsOverlapFunctions
  else if h.constantPool < h.codeStart then .error .diagramOverlapsConstants
  else if maxRegisters < h.registerCount then .error (.tooManyRegisters h.registerCount)
  else .ok ()

end Header

end Image

end EndpointRules
