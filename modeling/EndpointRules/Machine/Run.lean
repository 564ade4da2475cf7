import EndpointRules.Machine.Perform
import EndpointRules.Trace

/-!
# Runs of bodies

A body runs on an empty operand stack, instruction by instruction, until it returns, a fault occurs,
or its end is reached.  Every instruction leads to a higher address, so a body of `n` bytes runs at
most `n` instructions.
-/

namespace EndpointRules

namespace Setting

/-- The opcode at an offset of a body, if an instruction with all its operands stands there. -/
def fetch (s : Setting) (body : Body) (offset : Nat) : Except Fault Opcode :=
  if body.stop ≤ offset then .error .missingReturn
  else
    let byte := s.program.code.getD offset 0
    match Opcode.ofByte? byte with
    | none => .error (.unknownOpcode byte)
    | some op => if body.stop < offset + op.length then .error .truncatedOperands else .ok op

theorem lt_of_fetch {s : Setting} {body : Body} {offset : Nat} {op : Opcode}
    (h : s.fetch body offset = .ok op) : offset < body.stop := by
  unfold fetch at h
  split at h
  · cases h
  · omega

/-- Runs a body from an offset on.  `record` says whether the instructions are recorded behind the
    given events. -/
def runFrom (s : Setting) (record : Bool) (body : Body) (offset : Nat) (frame : Frame)
    (events : Array Trace.Event) : Except Failure Exit × Frame × Array Trace.Event :=
  match _h : s.fetch body offset with
  | .error fault => (.error ⟨fault, some offset⟩, frame, events)
  | .ok op =>
    let events := if record then events.push (.step body.sort body.index offset) else events
    match s.perform (Instruction.decode op s.program.code offset) frame with
    | (.error fault, frame) => (.error ⟨fault, some offset⟩, frame, events)
    | (.ok .next, frame) => runFrom s record body (offset + op.length) frame events
    | (.ok (.skip distance), frame) =>
      runFrom s record body (offset + op.length + distance) frame events
    | (.ok (.exit exit), frame) => (.ok exit, frame, events)
termination_by body.stop - offset
decreasing_by
  all_goals
    have := lt_of_fetch ‹_›
    have := op.length_pos
    omega

/-- Runs a body from its start, on an empty stack. -/
def runBody (s : Setting) (record : Bool) (body : Body) (frame : Frame)
    (events : Array Trace.Event) : Except Failure Exit × Frame × Array Trace.Event :=
  s.runFrom record body body.start { frame with stack := frame.stack.clear } events

end Setting

end EndpointRules
