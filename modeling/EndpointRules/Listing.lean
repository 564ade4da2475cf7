import EndpointRules.Listing.Instruction

/-!
# Listings of programs

The text of a whole program: sizes and opcode counts, then functions, registers, constants, the
diagram, and the code of every condition and result.
-/

namespace EndpointRules

open Bytes

namespace Listing

/-- A line of text with its line end. -/
def line (parts : List Bytes) : Bytes := parts.flatten ++ "\n"

/-- A line for each thing, with its index. -/
def numbered {α : Type} (items : Array α) (text : α → Bytes) : Bytes :=
  items.toList.zipIdx.flatMap fun (x, i) => line ["  ", decimal i, ": ", text x]

/-- The opcodes from the start of the code on, up to the first byte that is none. -/
def opcodes (p : Program) : List Opcode :=
  (Cursor.trail ⟨p.code, 0⟩).filterMap Cursor.opcode?

/-- How often each opcode occurs, in the order of their bytes; what does not occur is left out. -/
def usage (ops : List Opcode) : Bytes :=
  let used := Opcode.all.toList.filterMap fun op =>
    let count := ops.countP (· == op)
    if count = 0 then none else some (op.mnemonic ++ "=" ++ decimal count)
  if used.isEmpty then [] else " " ++ join ", " used

/-- The first section: sizes of the tables, and the opcodes of the code. -/
def overview (p : Program) : Bytes :=
  let parts := p.parts
  let ops := opcodes p
  [ line ["=== Bytecode Program ==="],
    line ["Version: ", versionText parts.version],
    line ["Conditions: ", decimal parts.conditions.size],
    line ["Results: ", decimal parts.results.size],
    line ["Registers: ", decimal parts.registers.size],
    line ["Functions: ", decimal parts.functions.size],
    line ["Constants: ", decimal parts.constants.size],
    line ["BDD Nodes: ", decimal parts.diagram.nodeCount],
    line ["BDD Root: ", Reference.text parts.diagram.root],
    line ["Instructions: ", decimal ops.length],
    line ["Opcode Usage:", usage ops] ].flatten

/-- A function: its name, and its arity if it is linked. -/
def slot (s : Slot) : Bytes :=
  match s.function with
  | some f => s.name ++ " (" ++ decimal f.arity ++ " args)"
  | none => s.name ++ " (unresolved)"

/-- A register: its name and what is special about it. -/
def register (r : Register) : Bytes :=
  r.name
    ++ (if r.required then " [required]" else "")
    ++ (if r.temporary then " [temp]" else "")
    ++ (match r.defaultValue with
      | some v => " default=" ++ v.summary
      | none => [])
    ++ (match r.builtin with
      | some name => " builtin=" ++ name
      | none => [])

/-- A node of the diagram. -/
def node (d : Diagram) (i : Nat) : Bytes :=
  line ["  ", blankPadded 4 i, ": var=", ofInt (d.condition i).toInt,
    " high=", Reference.text (d.high i), " low=", Reference.text (d.low i)]

/-- The diagram: its size, its root and its nodes. -/
def diagram (d : Diagram) : Bytes :=
  line ["Nodes: ", decimal d.nodeCount] ++ line ["Root: ", Reference.text d.root]
    ++ (List.range d.nodeCount).flatMap (node d)

/-- The first cursors of a list, up to and including the first that `stop` holds of. -/
def takeThrough (stop : Cursor → Bool) : List Cursor → List Cursor
  | [] => []
  | c :: rest => if stop c then [c] else c :: takeThrough stop rest

/-- Where the instructions listed for a body stand.  They start at the start of the body and go on
    to the first instruction that returns or that cannot be read in full, or to the end of the
    code. -/
def bodyCursors (p : Program) (start : Nat) : List Cursor :=
  takeThrough (fun c => c.isReturn || !c.isComplete) (Cursor.trail ⟨p.code, start⟩)

/-- A body: a heading and its lines. -/
def body (p : Program) (heading : Bytes) (b : Body) : Bytes :=
  line [heading, " ", decimal b.index, " (offset ", decimal b.start, "):"]
    ++ (bodyCursors p b.start).flatMap fun c => line ["  ", instruction p c]

/-- The listing of a program. -/
def text (p : Program) : Bytes :=
  [ overview p,
    line ["\n=== Functions ==="],
    numbered p.parts.functions slot,
    line ["\n=== Registers ==="],
    numbered p.parts.registers register,
    line ["\n=== Constant Pool ==="],
    numbered p.parts.constants Value.summary,
    line ["\n=== BDD Structure ==="],
    diagram p.parts.diagram,
    line ["\n=== Conditions ==="],
    (p.bodies .condition).flatMap (body p "Condition"),
    line ["\n=== Results ==="],
    (p.bodies .result).flatMap (body p "Result") ].flatten

end Listing

end EndpointRules
