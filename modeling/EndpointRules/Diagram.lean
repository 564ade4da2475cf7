import EndpointRules.Error.Format

/-!
# Decision diagrams

A diagram is a table of nodes and a reference to start from.  A node asks a condition and goes on
to one of two references.  A reference is a number: 1 and -1 are the terminals true and false, a
number from `resultOffset` on is a result, any other positive `n` is node `n - 1`, and a negative
number is the complement of its opposite.  Complementing changes terminals and passes through
nodes, but leaves results alone.

The table holds three numbers for each node: the condition, the reference where it holds, and the
reference where it does not.  Node 0 stands for the terminals and is never visited.
-/

namespace EndpointRules

open Bytes

/-- A node table and the reference to start from. -/
structure Diagram where
  /-- Condition, high reference and low reference of each node in turn. -/
  entries : Array Int32
  root : Int32
  deriving DecidableEq

/-- Where a reference leads. -/
inductive Reference
  | terminal (value : Bool)
  | result (index : Nat)
  /-- A node, to be read with all terminals behind it negated if `complemented` holds. -/
  | node (index : Nat) (complemented : Bool)
  deriving DecidableEq, Repr

namespace Reference

/-- The number of the first result. -/
def resultOffset : Int32 := 100000000

/-- The reference that a number stands for. -/
def ofNumber (n : Int32) : Reference :=
  if resultOffset ≤ n then .result (n.toInt - resultOffset.toInt).toNat
  else if n = 1 then .terminal true
  else if n = -1 then .terminal false
  else .node (n.toInt.natAbs - 1) (n < 0)

/-- Whether a number is a terminal. -/
def isTerminal (n : Int32) : Bool := n == 1 || n == -1

/-- Whether a number is a result. -/
def isResult (n : Int32) : Bool := resultOffset ≤ n

/-- The number of the complement; a result is its own complement. -/
def complement (n : Int32) : Int32 := if isResult n then n else -n

/-- Whether a number refers to something in a diagram of the given size.  The least number has no
    opposite and refers to nothing. -/
def isValid (nodeCount resultCount : Nat) (n : Int32) : Bool :=
  n != 0 && n != Int32.minValue &&
    match ofNumber n with
    | .terminal _ => true
    | .result i => i < resultCount
    | .node i _ => i < nodeCount

/-- A reference as text. -/
def text (n : Int32) : Bytes :=
  if n = 1 then "TRUE"
  else if n = -1 then "FALSE"
  else if isResult n then "result[" ++ ofInt (n.toInt - resultOffset.toInt) ++ "]"
  else if n < 0 then "!node[" ++ ofInt (-n.toInt - 1) ++ "]"
  else "node[" ++ ofInt (n.toInt - 1) ++ "]"

end Reference

namespace Diagram

/-- What a walk through a diagram ends with. -/
inductive Outcome
  | result (index : Nat)
  | terminal (value : Bool)
  deriving DecidableEq, Repr

/-- Why a walk through a diagram fails: a condition gave an error, or more nodes were visited than
    there are. -/
inductive Stop (ε : Type)
  | condition (error : ε)
  | cycle
  deriving DecidableEq, Repr

/-- The number of nodes, node 0 included. -/
def nodeCount (d : Diagram) : Nat := d.entries.size / 3

/-- The condition that a node asks. -/
def condition (d : Diagram) (node : Nat) : Int32 := d.entries.getD (node * 3) 0

/-- Where a node leads when its condition holds. -/
def high (d : Diagram) (node : Nat) : Int32 := d.entries.getD (node * 3 + 1) 0

/-- Where a node leads when its condition does not hold. -/
def low (d : Diagram) (node : Nat) : Int32 := d.entries.getD (node * 3 + 2) 0

/-- Where a node leads. -/
def child (d : Diagram) (node : Nat) (holds : Bool) : Int32 :=
  if holds then d.high node else d.low node

/-- Checks the condition and the references of one node. -/
def checkNode (d : Diagram) (conditionCount resultCount node : Nat) : Except FormatError Unit :=
  let condition := d.condition node
  if condition < 0 || conditionCount ≤ condition.toInt.toNat then
    .error (.diagramCondition node condition)
  else if Reference.isValid d.nodeCount resultCount (d.high node)
      && Reference.isValid d.nodeCount resultCount (d.low node) then .ok ()
  else .error (.diagramChild node)

/-- Checks a diagram against the numbers of conditions and results: the length of the table, the
    root, and then the nodes in order, node 0 excepted. -/
def validate (d : Diagram) (conditionCount resultCount : Nat) : Except FormatError Unit :=
  if d.entries.size % 3 ≠ 0 then .error .diagramLength
  else if !Reference.isValid d.nodeCount resultCount d.root then .error (.diagramRoot d.root)
  else (List.range' 1 (d.nodeCount - 1)).forM (d.checkNode conditionCount resultCount)

variable {ε σ : Type}

/-- Walks from a reference, visiting at most `steps` nodes.  `ask` answers conditions and may
    change a state that the walk hands on. -/
def walk (d : Diagram) (ask : Nat → σ → Except ε Bool × σ) :
    (steps : Nat) → (reference : Int32) → σ → Except (Stop ε) Outcome × σ
  | steps, reference, s =>
    match Reference.ofNumber reference with
    | .terminal value => (.ok (.terminal value), s)
    | .result index => (.ok (.result index), s)
    | .node node complemented =>
      match steps with
      | 0 => (.error .cycle, s)
      | steps + 1 =>
        match ask (d.condition node).toInt.toNat s with
        | (.error e, s) => (.error (.condition e), s)
        | (.ok holds, s) =>
          let child := d.child node holds
          d.walk ask steps (if complemented then Reference.complement child else child) s

/-- Walks from the root.  A walk that visits more nodes than there are has met one of them twice,
    so it would not end. -/
def evaluate (d : Diagram) (ask : Nat → σ → Except ε Bool × σ) (s : σ) :
    Except (Stop ε) Outcome × σ :=
  d.walk ask d.nodeCount d.root s

end Diagram

end EndpointRules
