import EndpointRules.Machine.Run
import EndpointRules.RegisterFile

/-!
# The machine

A machine runs the bodies of a program on registers that all bodies share.  The diagram is walked
with the outcomes of condition bodies, and the result it ends with is the body that gives the
answer.  Failures are kept until the registers are filled anew, so a later body that returns does
not erase them.
-/

namespace EndpointRules

/-- What a machine is set up with. -/
structure Setup where
  program : Program
  strategy : RegisterFile.Strategy
  hooks : List Hook
  providers : Providers
  mode : Trace.Mode

/-- What the last body did: nothing has run since the registers were filled, it returned, or it
    failed. -/
inductive Status
  | ready | halted | trapped
  deriving DecidableEq, Repr

/-- The state of a machine between its operations. -/
structure Machine where
  frame : Frame
  context : Context := []
  status : Status := .ready
  /-- The last failure of a body since the registers were filled. -/
  trap : Option Failure := none
  /-- The events recorded so far. -/
  events : Array Trace.Event := #[]

namespace Machine

/-- A machine whose registers hold their defaults. -/
def start (setup : Setup) (cache : Option Uri.Cache) : Machine :=
  { frame := { registers := setup.program.template, cache } }

/-- Records an event if the mode asks for it. -/
def note (m : Machine) (mode : Trace.Mode) (event : Trace.Event) : Machine :=
  if mode.records event then { m with events := m.events.push event } else m

/-- Fills the registers for a new evaluation and forgets the last one's failure. -/
def reset (setup : Setup) (context : Context) (parameters : Parameters) (m : Machine) :
    Except Failure Unit × Machine :=
  let (result, registers) :=
    RegisterFile.fill setup.strategy setup.program context parameters setup.providers
  (result.mapError Failure.unplaced,
    { m with
      frame := { m.frame with registers, stack := m.frame.stack.clear }
      context, status := .ready, trap := none })

/-- What the bodies of a setup run in. -/
def setting (m : Machine) (setup : Setup) : Setting :=
  { program := setup.program, hooks := setup.hooks, context := m.context }

/-- The machine after a run of a body, which says how it ended. -/
def conclude (m : Machine) :
    Except Failure Exit × Frame × Array Trace.Event → Except Failure Exit × Machine
  | (.ok exit, frame, events) => (.ok exit, { m with frame, events, status := .halted })
  | (.error failure, frame, events) =>
    (.error failure, { m with frame, events, status := .trapped, trap := some failure })

/-- Runs a body and notes how it ended. -/
def run (setup : Setup) (body : Body) (m : Machine) : Except Failure Exit × Machine :=
  m.conclude ((m.setting setup).runBody (setup.mode == .instructions) body m.frame m.events)

/-- The answer of a condition whose body has run.  It holds if it returned an endpoint or a value
    that is neither null nor false. -/
def judge (setup : Setup) (index : Nat) :
    Except Failure Exit × Machine → Except Failure Bool × Machine
  | (.error failure, m) => (.error failure, m)
  | (.ok exit, m) =>
    let holds := match exit with
      | .endpoint _ => true
      | .value v => v.truthy
    (.ok holds, m.note setup.mode (.condition index holds))

/-- Runs a condition. -/
def test (setup : Setup) (index : Nat) (m : Machine) : Except Failure Bool × Machine :=
  match setup.program.body? .condition index with
  | none => (.error (.unplaced (.conditionIndex index)), m)
  | some body => judge setup index (m.run setup body)

/-- The answer of a result whose body has run. -/
def answer (index : Nat) : Except Failure Exit × Machine → Except Failure Answer × Machine
  | (.error failure, m) => (.error failure, m)
  | (.ok (.endpoint e), m) => (.ok (.endpoint index e), m)
  | (.ok (.value v), m) => (.ok (.value index v), m)

/-- Runs a result.  A negative number names no result, so nothing is run for it. -/
def resolve (setup : Setup) (index : Int) (m : Machine) : Except Failure Answer × Machine :=
  if index < 0 then (.ok (.unmatched false), m)
  else
    match setup.program.body? .result index.toNat with
    | none => (.error (.unplaced (.resultIndex index.toNat)), m)
    | some body => answer index.toNat (m.run setup body)

/-- Walks the diagram, running conditions as they are asked. -/
def decide (setup : Setup) (m : Machine) : Except Failure Diagram.Outcome × Machine :=
  match setup.program.parts.diagram.evaluate (test setup) m with
  | (.error (.condition failure), m) => (.error failure, m)
  | (.error .cycle, m) => (.error (.unplaced .cycle), m)
  | (.ok outcome, m) => (.ok outcome, m.note setup.mode (.outcome outcome))

/-- A whole evaluation: fills the registers, walks the diagram, and runs the result it ends
    with. -/
def evaluate (setup : Setup) (context : Context) (parameters : Parameters) (m : Machine) :
    Except Failure Answer × Machine :=
  match m.reset setup context parameters with
  | (.error failure, m) => (.error failure, m)
  | (.ok (), m) =>
    match m.decide setup with
    | (.error failure, m) => (.error failure, m)
    | (.ok (.terminal value), m) => (.ok (.unmatched value), m)
    | (.ok (.result index), m) => m.resolve setup index

/-! ## How a run is concluded -/

variable (setup : Setup) (m : Machine) (ended : Except Failure Exit × Frame × Array Trace.Event)

@[simp] theorem fst_conclude : (m.conclude ended).1 = ended.1 := by
  obtain ⟨_ | _, _⟩ := ended <;> rfl

@[simp] theorem frame_conclude : (m.conclude ended).2.frame = ended.2.1 := by
  obtain ⟨_ | _, _⟩ := ended <;> rfl

@[simp] theorem events_conclude : (m.conclude ended).2.events = ended.2.2 := by
  obtain ⟨_ | _, _⟩ := ended <;> rfl

@[simp] theorem context_conclude : (m.conclude ended).2.context = m.context := by
  obtain ⟨_ | _, _⟩ := ended <;> rfl

theorem status_conclude :
    (m.conclude ended).2.status = match ended.1 with
      | .ok _ => .halted
      | .error _ => .trapped := by
  obtain ⟨_ | _, _⟩ := ended <;> rfl

/-- Only a failure changes what is known of the last failure. -/
theorem trap_conclude :
    (m.conclude ended).2.trap = match ended.1 with
      | .ok _ => m.trap
      | .error failure => some failure := by
  obtain ⟨_ | _, _⟩ := ended <;> rfl

theorem resolve_of_neg {index : Int} (h : index < 0) :
    m.resolve setup index = (.ok (.unmatched false), m) := if_pos h

theorem resolve_natCast (index : Nat) :
    m.resolve setup index = match setup.program.body? .result index with
      | none => (.error (.unplaced (.resultIndex index)), m)
      | some body => answer index (m.run setup body) :=
  if_neg (Int.not_lt.2 (Int.natCast_nonneg index))

end Machine

end EndpointRules
