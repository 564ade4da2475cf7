import EndpointRules.Program

/-!
# Views of the registers

What the filling of registers needs to know of a program's registers: their values at the start,
which of them take parameters, which name a provider, and which must not stay null.
-/

namespace EndpointRules.Program

/-- Each register's default, or null. -/
def template (p : Program) : Array Value := p.parts.registers.map (·.defaultValue.getD .null)

/-- The registers with their indices. -/
def indexed (p : Program) : List (Register × Nat) := p.parts.registers.toList.zipIdx

/-- The registers that take parameters: name and index of those that are not temporary. -/
def inputs (p : Program) : List (Bytes × Nat) :=
  (p.indexed.filter (!·.1.temporary)).map fun (r, i) => (r.name, i)

/-- The registers that name a provider: index and provider's name. -/
def builtins (p : Program) : List (Nat × Bytes) :=
  p.indexed.filterMap fun (r, i) => r.builtin.map (i, ·)

/-- The registers that must not stay null: index and name of those that are required and not
    temporary. -/
def required (p : Program) : List (Nat × Bytes) :=
  (p.indexed.filter fun (r, _) => r.required && !r.temporary).map fun (r, i) => (i, r.name)

/-- The required registers that only a parameter can fill: without default and provider. -/
def hardRequired (p : Program) : List (Nat × Bytes) :=
  (p.indexed.filter fun (r, _) =>
    r.required && !r.temporary && r.defaultValue.isNone && r.builtin.isNone).map
      fun (r, i) => (i, r.name)

end EndpointRules.Program
