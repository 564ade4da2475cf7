import EndpointRules.Proofs.Machine.BodyRuns

/-!
# Histories of machines

A history is what a machine is asked for, one operation after the other.  Every operation gives a
reply and runs some bodies; `replies` and `runsOf` list those of a whole history.  The instructions
that a machine has recorded are those of its runs.
-/

namespace EndpointRules

namespace Machine

/-! ## Replies -/

/-- What a machine replies to an operation. -/
inductive Reply
  | filled (result : Except Failure Unit)
  | condition (result : Except Failure Bool)
  | answer (result : Except Failure Answer)
  | outcome (result : Except Failure Diagram.Outcome)

/-- The reply to an operation. -/
def Operation.reply (setup : Setup) (m : Machine) : Operation → Reply
  | .reset context parameters => .filled (m.reset setup context parameters).1
  | .test index => .condition (m.test setup index).1
  | .resolve index => .answer (m.resolve setup index).1
  | .decide => .outcome (m.decide setup).1
  | .evaluate context parameters => .answer (m.evaluate setup context parameters).1

/-- The replies to the operations of a history. -/
def replies (setup : Setup) (m : Machine) : List Operation → List Reply
  | [] => []
  | op :: history => op.reply setup m :: (op.apply setup m).replies setup history

/-! ## Runs -/

/-- The runs of bodies in a history, in order. -/
def runsOf (setup : Setup) (m : Machine) : List Operation → List BodyRun
  | [] => []
  | op :: history => op.runs setup m ++ (op.apply setup m).runsOf setup history

variable {setup : Setup} {m : Machine} {op : Operation} {history : List Operation}

@[simp] theorem after_nil : m.after setup [] = m := rfl

@[simp] theorem after_cons :
    m.after setup (op :: history) = (op.apply setup m).after setup history := rfl

/-! ## Recorded instructions -/

end Machine

end EndpointRules
