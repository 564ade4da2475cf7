import EndpointRules.Address
import EndpointRules.Machine

/-!
# Runs on addresses of 32 bits

The counter of a running body is an address, and so is the end of an instruction where it is
compared with the end of the body.  Near the last address both come out at the start of the code,
and a run may go on there and never end, so a run is given a limit on the instructions that it may
carry out.  Elsewhere it is the run of the machine, whose addresses are numbers.
-/

namespace EndpointRules

/-- The instruction at an address of some code, with the bytes at the addresses behind it. -/
def Instruction.decodeWrapped (op : Opcode) (code : Array UInt8) (a : Nat) : Instruction :=
  ofBytes op fun place => (code.getD (address (a + place)) 0).toNat

namespace Setting

/-- The opcode at an address of a body, if the address behind its operands is not behind the
    body. -/
def fetchWrapped (s : Setting) (body : Body) (a : Nat) : Except Fault Opcode :=
  if body.stop ≤ a then .error .missingReturn
  else
    let byte := s.program.code.getD a 0
    match Opcode.ofByte? byte with
    | none => .error (.unknownOpcode byte)
    | some op =>
      if body.stop < address (a + op.length) then .error .truncatedOperands else .ok op

/-- Runs a body from an address on, if the run ends within the limit. -/
def runFromWrapped (s : Setting) (record : Bool) (body : Body) :
    (limit a : Nat) → Frame → Array Trace.Event →
      Option (Except Failure Exit × Frame × Array Trace.Event)
  | 0, _, _, _ => none
  | limit + 1, a, frame, events =>
    match s.fetchWrapped body a with
    | .error fault => some (.error ⟨fault, some a⟩, frame, events)
    | .ok op =>
      let events := if record then events.push (.step body.sort body.index a) else events
      match s.perform (Instruction.decodeWrapped op s.program.code a) frame with
      | (.error fault, frame) => some (.error ⟨fault, some a⟩, frame, events)
      | (.ok .next, frame) =>
        runFromWrapped s record body limit (address (a + op.length)) frame events
      | (.ok (.skip distance), frame) =>
        runFromWrapped s record body limit (address (a + op.length + distance)) frame events
      | (.ok (.exit exit), frame) => some (.ok exit, frame, events)

/-- Runs a body from its start, on an empty stack. -/
def runBodyWrapped (s : Setting) (record : Bool) (body : Body) (limit : Nat) (frame : Frame)
    (events : Array Trace.Event) : Option (Except Failure Exit × Frame × Array Trace.Event) :=
  s.runFromWrapped record body limit body.start { frame with stack := frame.stack.clear } events

end Setting

namespace Machine

/-- Runs a body and notes how it ended, if it does within the limit. -/
def runWrapped (setup : Setup) (limit : Nat) (body : Body) (m : Machine) :
    Option (Except Failure Exit × Machine) :=
  ((m.setting setup).runBodyWrapped (setup.mode == .instructions) body limit m.frame m.events).map
    m.conclude

/-- Runs a condition. -/
def testWrapped (setup : Setup) (limit index : Nat) (m : Machine) :
    Option (Except Failure Bool × Machine) :=
  match setup.program.body? .condition index with
  | none => some (.error (.unplaced (.conditionIndex index)), m)
  | some body => (m.runWrapped setup limit body).map (judge setup index)

/-- Runs a result, unless the number is negative. -/
def resolveWrapped (setup : Setup) (limit : Nat) (index : Int) (m : Machine) :
    Option (Except Failure Answer × Machine) :=
  if index < 0 then some (.ok (.unmatched false), m)
  else
    match setup.program.body? .result index.toNat with
    | none => some (.error (.unplaced (.resultIndex index.toNat)), m)
    | some body => (m.runWrapped setup limit body).map (answer index.toNat)

end Machine

end EndpointRules
