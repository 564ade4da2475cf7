import EndpointRules.Program

/-!
# Register tables

A register table numbers registers in the order of their arrival, and keeps the number of each name
beside them.  Names are distinct, and there are at most 256 registers, so that a number fits one
byte; a request that would break either rule fails and changes nothing.
-/

namespace EndpointRules

/-- The registers of a program that is being written. -/
structure RegisterTable where
  registers : Array Register := #[]
  /-- The index of each name, in one byte. -/
  indices : Dict UInt8 := []

namespace RegisterTable

/-- The index of the register with a name. -/
def find? (t : RegisterTable) (name : Bytes) : Option Nat :=
  (Dict.get? t.indices name).map UInt8.toNat

/-- Adds a new register. -/
def add (t : RegisterTable) (r : Register) : Except CompileError (Nat × RegisterTable) :=
  if (t.find? r.name).isSome then .error (.registerExists r.name)
  else if maxRegisters ≤ t.registers.size then .error .registersExhausted
  else
    let index := UInt8.ofNat t.registers.size
    .ok (index.toNat, {
      registers := t.registers.push r
      indices := Dict.insert t.indices r.name index })

/-- The index of the register with a name, which is added as a temporary if there is none. -/
def ensure (t : RegisterTable) (name : Bytes) : Except CompileError (Nat × RegisterTable) :=
  match t.find? name with
  | some i => .ok (i, t)
  | none => t.add { name, temporary := true }

/-- The index of the register with a name, which must be there. -/
def index (t : RegisterTable) (name : Bytes) : Except CompileError Nat :=
  match t.find? name with
  | some i => .ok i
  | none => .error (.unknownRegister name)

end RegisterTable

end EndpointRules
