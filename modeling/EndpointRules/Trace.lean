import EndpointRules.Listing.Instruction

/-!
# Traces

What an evaluation records of itself, and how a record reads.  Recording is a matter of the mode
alone; the text of an instruction is its listing line with every run of blanks shortened.
-/

namespace EndpointRules

open Bytes

namespace Trace

/-- What is recorded: nothing, the conditions and the diagram's outcome, or every instruction as
    well. -/
inductive Mode
  | off | diagram | instructions
  deriving DecidableEq, Repr

/-- Something that happens in an evaluation. -/
inductive Event
  /-- The instruction at an offset is about to run in a body. -/
  | step (sort : BodySort) (index : Nat) (offset : Nat)
  | condition (index : Nat) (holds : Bool)
  | outcome (outcome : Diagram.Outcome)
  deriving DecidableEq, Repr

/-- Whether a mode records an event. -/
def Mode.records : Mode → Event → Bool
  | .off, _ => false
  | .diagram, .step .. => false
  | .diagram, _ => true
  | .instructions, _ => true

/-- How a record calls a sort of body. -/
def sortText : BodySort → Bytes
  | .condition => "cond "
  | .result => "result "

/-- The line that records an event in the evaluation of a program. -/
def line (p : Program) (event : Event) : Bytes :=
  let text : Bytes := match event with
    | .step sort index offset =>
      sortText sort ++ decimal index ++ " "
        ++ squeezeBlanks (Listing.instruction p ⟨p.code, offset⟩)
    | .condition index holds =>
      "condition " ++ decimal index ++ " -> " ++ Value.booleanText holds
    | .outcome (.result index) => "bdd -> result[" ++ decimal index ++ "]"
    | .outcome (.terminal value) => if value then "bdd -> TRUE" else "bdd -> FALSE"
  "[rules] " ++ text ++ "\n"

/-- The lines that record some events, in order. -/
def text (p : Program) (events : List Event) : Bytes := events.flatMap (line p)

end Trace

end EndpointRules
