import EndpointRules.Endpoint
import EndpointRules.Program.Registers

/-!
# Filling of registers

Before an evaluation every register gets its value: the parameter of its name, unless the register
is temporary or the parameter is null; else what the provider of its builtin gives, unless that is
null; else its default; else null.  After that no required register may be null.

The registers that parameters have filled are remembered in a set.  A set of fewer than 64 numbers
fits a machine word, any other is an array of flags; which one is used makes no difference to the
registers.
-/

namespace EndpointRules

namespace RegisterFile

/-- A representation of sets of register indices below a given number. -/
structure IndexSet (σ : Type) where
  empty : (size : Nat) → σ
  insert : σ → Nat → σ
  contains : σ → Nat → Bool

/-- Sets of numbers below 64 as the bits of a word. -/
def wordSet : IndexSet UInt64 where
  empty _ := 0
  insert bits i := bits ||| ((1 : UInt64) <<< UInt64.ofNat i)
  contains bits i := ((bits >>> UInt64.ofNat i) &&& 1) == 1

/-- Sets as one flag for each number. -/
def flagSet : IndexSet (Array Bool) where
  empty size := Array.replicate size false
  insert flags i := flags.setIfInBounds i true
  contains flags i := flags.getD i false

/-- How filled registers are remembered. -/
inductive Strategy
  | word | flags
  deriving DecidableEq, Repr

/-- The number of registers from which on a word is too small. -/
def wordLimit : Nat := 64

/-- The strategy for a program: the one requested if it can be used, and a word if it can be used
    and nothing is requested. -/
def Strategy.choose (p : Program) (requested : Option Strategy) : Strategy :=
  match requested with
  | some .flags => .flags
  | _ => if p.parts.registers.size < wordLimit then .word else .flags

variable {σ : Type}

/-- Puts the parameters into the registers of their names. -/
def applyParameters (set : IndexSet σ) (p : Program) (parameters : Parameters) :
    Array Value × σ :=
  let inputs := p.inputs
  parameters.foldl (fun (registers, filled) (name, v) =>
    if v.isNull then (registers, filled)
    else match inputs.lookup name with
      | none => (registers, filled)
      | some i => (registers.setIfInBounds i v, set.insert filled i))
    (p.template, set.empty p.parts.registers.size)

/-- Asks the providers for the registers that no parameter has filled. -/
def applyProviders (set : IndexSet σ) (p : Program) (context : Context) (providers : Providers)
    (filled : σ) (registers : Array Value) : Array Value :=
  p.builtins.foldl (fun registers (i, name) =>
    if set.contains filled i then registers
    else match providers.get? name with
      | some (some provider) =>
        let v := provider context
        if v.isSet then registers.setIfInBounds i v else registers
      | _ => registers) registers

/-- Checks that no required register is null; the first that is decides the error. -/
def checkRequired (p : Program) (registers : Array Value) : Except Fault Unit :=
  match p.required.find? fun (i, _) => (registers.getD i .null).isNull with
  | some (_, name) => .error (.missingParameter name)
  | none => .ok ()

/-- Fills the registers, remembering filled ones in sets of the given representation. -/
def fillWith (set : IndexSet σ) (p : Program) (context : Context) (parameters : Parameters)
    (providers : Providers) : Except Fault Unit × Array Value :=
  let (registers, filled) := applyParameters set p parameters
  let registers := applyProviders set p context providers filled registers
  (checkRequired p registers, registers)

/-- Fills the registers by a strategy.  They are left as filled even where a required register is
    null. -/
def fill (strategy : Strategy) (p : Program) (context : Context) (parameters : Parameters)
    (providers : Providers) : Except Fault Unit × Array Value :=
  match strategy with
  | .word => fillWith wordSet p context parameters providers
  | .flags => fillWith flagSet p context parameters providers

end RegisterFile

end EndpointRules
