import EndpointRules.Proofs.Image.Header
import EndpointRules.Proofs.Image.Register

/-!
# Layouts of images

A layout is an image cut into its tables, each in the form in which it is written.  Where the tables
of an image stand further apart than they have to, the bytes between them are part of the layout but
mean nothing.
-/

namespace EndpointRules

namespace Image

/-- The tables of an image as they are written, and the bytes before each of the first three that
    belong to none. -/
structure Layout where
  root : Int32
  conditionGap : Bytes := []
  /-- Where the bodies of conditions start, counted from the start of the code. -/
  conditions : List Nat
  resultGap : Bytes := []
  /-- Where the bodies of results start, counted from the start of the code. -/
  results : List Nat
  functionGap : Bytes := []
  names : List Bytes
  registers : List RegisterForm
  entries : List Int32
  code : Bytes
  constants : List Form

namespace Layout

/-- The bytes of the function names and the registers. -/
def middle (w : Layout) : Bytes :=
  w.names.flatMap Word.sized ++ w.registers.flatMap RegisterForm.bytes

/-- The offset of the table of conditions. -/
def conditionTable (w : Layout) : Nat := headerSize + w.conditionGap.length

/-- The offset of the table of results. -/
def resultTable (w : Layout) : Nat :=
  w.conditionTable + 4 * w.conditions.length + w.resultGap.length

/-- The offset of the function names. -/
def functionTable (w : Layout) : Nat :=
  w.resultTable + 4 * w.results.length + w.functionGap.length

/-- The offset of the diagram. -/
def diagramTable (w : Layout) : Nat := w.functionTable + w.middle.length

/-- The offset of the code. -/
def codeStart (w : Layout) : Nat := w.diagramTable + 4 * w.entries.length

/-- The offset of the constants. -/
def constantPool (w : Layout) : Nat := w.codeStart + w.code.length

/-- The header of the image. -/
def header (w : Layout) : Header where
  version := imageVersion
  conditionCount := w.conditions.length
  resultCount := w.results.length
  registerCount := w.registers.length
  constantCount := w.constants.length
  functionCount := w.names.length
  nodeCount := w.entries.length / 3
  root := w.root
  conditionTable := w.conditionTable
  resultTable := w.resultTable
  functionTable := w.functionTable
  constantPool := w.constantPool
  diagramTable := w.diagramTable

/-- The bytes of the offset of a body, which the image counts from its own start. -/
def offsetBytes (codeStart offset : Nat) : Bytes := Word.bytes 4 (codeStart + offset)

/-- The bytes of a number of the diagram. -/
def entryBytes (n : Int32) : Bytes := Word.bytes 4 n.toUInt32.toNat

/-- The bytes from the diagram on. -/
def tail (w : Layout) : Bytes :=
  w.entries.flatMap entryBytes ++ (w.code ++ w.constants.flatMap Form.bytes)

/-- The bytes of the image. -/
def bytes (w : Layout) : Bytes :=
  w.header.bytes ++ (w.conditionGap ++ (w.conditions.flatMap (offsetBytes w.codeStart) ++
    (w.resultGap ++ (w.results.flatMap (offsetBytes w.codeStart) ++
    (w.functionGap ++ (w.middle ++ w.tail))))))

/-- The image can be read: the counts and the offsets fit their bytes, the bodies start in the code,
    and everything that the tables hold can be read. -/
structure Fits (w : Layout) : Prop where
  conditionCount : w.conditions.length ≤ 0xFFFF
  conditions : ∀ a ∈ w.conditions, a < w.code.length
  resultCount : w.results.length ≤ 0xFFFF
  results : ∀ a ∈ w.results, a < w.code.length
  nameCount : w.names.length ≤ 0xFFFF
  names : ∀ s ∈ w.names, s.length ≤ 0xFFFF
  registerCount : w.registers.length ≤ maxRegisters
  registers : ∀ r ∈ w.registers, r.Fits
  entries : w.entries.length % 3 = 0
  constantCount : w.constants.length ≤ 0xFFFF
  constants : ∀ f ∈ w.constants, f.Fits (maxConstantDepth + 1)
  constantPool : w.constantPool < 2 ^ 32

/-- The tables that the image holds. -/
def tables (w : Layout) : Tables where
  names := w.names.toArray
  parts := {
    code := w.code.toArray
    conditions := w.conditions.toArray
    results := w.results.toArray
    registers := (w.registers.map RegisterForm.value).toArray
    constants := (w.constants.map Form.value).toArray
    diagram := { entries := w.entries.toArray, root := w.root }
    version := imageVersion }

/-- The layout is canonical: the table of conditions follows the header, the tables of results and
    functions follow what is before them without a gap, and the registers and constants are
    canonical. -/
structure Canonical (w : Layout) : Prop where
  conditionTable : w.header.conditionTable = headerSize
  resultTable : w.header.resultTable = w.header.conditionTable + 4 * w.header.conditionCount
  functionTable : w.header.functionTable = w.header.resultTable + 4 * w.header.resultCount
  registers : ∀ r ∈ w.registers, r.Canonical
  constants : ∀ f ∈ w.constants, f.Canonical

/-- How the writer lays out a program. -/
def ofParts (p : Parts) : Layout where
  root := p.diagram.root
  conditions := p.conditions.toList
  results := p.results.toList
  names := p.functions.toList.map (·.name)
  registers := p.registers.toList.map RegisterForm.ofRegister
  entries := p.diagram.entries.toList
  code := p.code.toList
  constants := p.constants.toList.map Form.ofValue

end Layout

end Image

end EndpointRules
