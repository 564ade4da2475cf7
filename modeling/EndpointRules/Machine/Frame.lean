import EndpointRules.Program
import EndpointRules.Uri.Cache

/-!
# Frames

A frame is what the instructions of a body change: the registers, the operand stack, and the cache
of URIs if there is one.  A step of a body either has a value or ends in a fault; in both cases it
leaves a frame.
-/

namespace EndpointRules

/-- An operand stack with room for some more operands. -/
structure Stack where
  /-- The operands, the top first. -/
  items : List Value := []
  /-- How many operands can be pushed before the stack has to grow. -/
  room : Nat := 16
  deriving DecidableEq

namespace Stack

/-- The number of operands for which there is space. -/
def capacity (s : Stack) : Nat := s.items.length + s.room

/-- Pushes an operand.  A stack without room first doubles its capacity. -/
def push (s : Stack) (v : Value) : Stack :=
  match s.room with
  | 0 => { items := v :: s.items, room := s.items.length - 1 }
  | room + 1 => { items := v :: s.items, room }

/-- The stack without its first `count` operands; its capacity stays. -/
def drop (s : Stack) (count : Nat) : Stack :=
  { items := s.items.drop count, room := s.room + count }

/-- The stack without operands; its capacity stays. -/
def clear (s : Stack) : Stack := { items := [], room := s.capacity }

@[simp] theorem items_push (s : Stack) (v : Value) : (s.push v).items = v :: s.items := by
  unfold push; split <;> rfl

theorem capacity_push {s : Stack} (h : 0 < s.capacity) (v : Value) :
    (s.push v).capacity = if s.items.length = s.capacity then 2 * s.capacity else s.capacity := by
  unfold push capacity at *
  split <;> simp_all <;> omega

theorem capacity_drop {s : Stack} {count : Nat} (h : count ≤ s.items.length) :
    (s.drop count).capacity = s.capacity := by
  simp only [drop, capacity, List.length_drop]
  omega

@[simp] theorem capacity_clear (s : Stack) : s.clear.capacity = s.capacity := by
  simp [clear, capacity]

end Stack

/-- What the instructions of a body change. -/
structure Frame where
  registers : Array Value
  stack : Stack := {}
  cache : Option Uri.Cache := none

/-- A computation on a frame: it has a value or ends in a fault, and leaves a frame in both
    cases. -/
def Exec (α : Type) : Type := Frame → Except Fault α × Frame

namespace Exec

instance : Monad Exec where
  pure x := fun f => (.ok x, f)
  bind m k := fun f =>
    match m f with
    | (.ok x, f) => k x f
    | (.error fault, f) => (.error fault, f)

theorem pure_apply {α : Type} (x : α) (f : Frame) : (pure x : Exec α) f = (.ok x, f) := rfl

theorem bind_apply {α β : Type} (m : Exec α) (k : α → Exec β) (f : Frame) :
    (m >>= k) f = match m f with
      | (.ok x, f) => k x f
      | (.error fault, f) => (.error fault, f) := rfl

theorem bind_assoc {α β γ : Type} (m : Exec α) (k : α → Exec β) (k' : β → Exec γ) :
    (m >>= k) >>= k' = m >>= fun x => k x >>= k' := by
  funext f
  simp only [bind_apply]
  rcases m f with ⟨_ | x, g⟩
  · rfl
  · rfl

/-- The computation that ends in a fault. -/
def fail {α : Type} (fault : Fault) : Exec α := fun f => (.error fault, f)

/-- The value of a computation that has no part in the frame. -/
def result {α : Type} (r : Except Fault α) : Exec α := fun f => (r, f)

/-- Pushes an operand. -/
def push (v : Value) : Exec Unit := fun f => (.ok (), { f with stack := f.stack.push v })

/-- Pops the top of the stack. -/
def pop : Exec Value := fun f =>
  match f.stack.items with
  | [] => (.error .stackUnderflow, f)
  | v :: _ => (.ok v, { f with stack := f.stack.drop 1 })

/-- The top of the stack, which stays there. -/
def peek : Exec Value := fun f =>
  match f.stack.items with
  | [] => (.error .stackUnderflow, f)
  | v :: _ => (.ok v, f)

/-- Pops several operands, all or none; they are given in the order of their pushes. -/
def popMany (count : Nat) : Exec (List Value) := fun f =>
  let taken := f.stack.items.take count
  if taken.length < count then (.error .stackUnderflow, f)
  else (.ok taken.reverse, { f with stack := f.stack.drop count })

/-- The value of a register. -/
def register (index : Nat) : Exec Value := fun f =>
  match f.registers[index]? with
  | none => (.error (.registerIndex index), f)
  | some v => (.ok v, f)

/-- Gives a register a new value. -/
def assign (index : Nat) (v : Value) : Exec Unit := fun f =>
  (.ok (), { f with registers := f.registers.setIfInBounds index v })

/-- A constant of the program. -/
def constant (p : Program) (index : Nat) : Exec Value :=
  match p.parts.constants[index]? with
  | none => fail (.constantIndex index)
  | some v => pure v

/-- The URI of a text, looked up in the cache if there is one. -/
def findUri? (text : Bytes) : Exec (Option Uri) := fun f =>
  match f.cache with
  | none => (.ok (Uri.parse? text), f)
  | some cache =>
    let (found, cache) := cache.get text
    (.ok found.uri?, { f with cache := some cache })

end Exec

end EndpointRules
