import Mathlib.Algebra.GroupWithZero.Nat
import Mathlib.Data.List.Induction
import EndpointRules.Assembler
import EndpointRules.Word

/-!
# Calls of an assembler

What a sequence of calls asks an assembler for, told from the calls alone: the offset at which each
call is made, where labels are marked and where jumps to them stand, and the bytes that each call
should leave in the code, those of a jump being known only once its label is marked.
-/

namespace EndpointRules.Assembler

/-- A call of an assembler. -/
inductive Call
  | byte (b : UInt8)
  | short (n : UInt16)
  | opcode (op : Opcode)
  | label
  | jump (label : Nat)
  | mark (label : Nat)
  | startBody (sort : BodySort)
  | constant (v : Value)
  | function (name : Bytes)
  | build (registers : Array Register) (functions : List Function) (diagram : Diagram)

namespace Call

/-- The assembler after a call. -/
def apply (a : Assembler) : Call → Assembler
  | byte b => a.byte b
  | short n => a.short n.toNat
  | opcode op => a.opcode op
  | label => a.label.2
  | jump l => a.jump l
  | mark l => a.mark l
  | startBody sort => a.startBody sort
  | constant v => (a.constant v).2
  | function name => (a.function name).2
  | build registers functions diagram => (a.build registers functions diagram).2

/-- The number of bytes that a call appends. -/
def width : Call → Nat
  | byte _ | opcode _ => 1
  | short _ | jump _ => 2
  | _ => 0

/-- The bytes that a call made at an offset stands for, its jumps leading to the `target` of their
    label.  The operand of a jump is the distance to the target from behind the operand, the high
    byte first. -/
def bytes (target : Nat → Nat) (offset : Nat) : Call → Bytes
  | byte b => [b]
  | short n => Word.bytes 2 n.toNat
  | opcode op => [op.toByte]
  | jump l => Word.bytes 2 (target l - (offset + 2))
  | _ => []

/-- Whether the call marks a label. -/
def marks (label : Nat) : Call → Bool
  | mark l => l == label
  | _ => false

/-- Whether the call is a jump to a label. -/
def jumpsTo (label : Nat) : Call → Bool
  | jump l => l == label
  | _ => false

/-- Whether the call starts a body of a sort. -/
def starts (sort : BodySort) : Call → Bool
  | startBody s => s == sort
  | _ => false

@[simp] theorem length_bytes (c : Call) (target : Nat → Nat) (offset : Nat) :
    (c.bytes target offset).length = c.width := by
  cases c <;> simp [bytes, width]

end Call

/-- The assembler after calls of a new one. -/
def ofCalls (calls : List Call) : Assembler := calls.foldl Call.apply {}

/-- The number of bytes that calls append. -/
def extent (calls : List Call) : Nat := (calls.map Call.width).sum

/-- Calls of which the first is made at `offset`, each with the offset at which it is made. -/
def placedFrom (offset : Nat) : List Call → List (Nat × Call)
  | [] => []
  | c :: calls => (offset, c) :: placedFrom (offset + c.width) calls

/-- Calls of a new assembler, each with the offset at which it is made. -/
def placed (calls : List Call) : List (Nat × Call) := placedFrom 0 calls

/-- The offsets of the calls that have a property, in the order of the calls. -/
def offsetsOf (property : Call → Bool) (calls : List Call) : List Nat :=
  ((placed calls).filter fun (_, c) => property c).map (·.1)

/-- The offset at which a label is marked first.  A label that is not marked has target 0, so that
    the operand of a jump to it is 0. -/
def target (calls : List Call) (label : Nat) : Nat := (offsetsOf (Call.marks label) calls).headD 0

/-- There are addresses for the operands of all jumps. -/
def Addressed (calls : List Call) : Prop :=
  ∀ offset label, (offset, Call.jump label) ∈ placed calls → offset + 2 ≤ 0x100000000

/-- The bytes that calls stand for, in the order of the calls. -/
def layOut (target : Nat → Nat) (calls : List Call) : Bytes :=
  (placed calls).flatMap fun (offset, c) => c.bytes target offset

variable {calls : List Call} {c : Call} {offset label : Nat}

@[simp] theorem ofCalls_append_singleton (calls : List Call) (c : Call) :
    ofCalls (calls ++ [c]) = c.apply (ofCalls calls) := by
  simp [ofCalls]

@[simp] theorem extent_nil : extent [] = 0 := rfl

theorem extent_cons (c : Call) (calls : List Call) :
    extent (c :: calls) = c.width + extent calls := rfl

theorem extent_append (calls calls' : List Call) :
    extent (calls ++ calls') = extent calls + extent calls' := by
  simp [extent]

@[simp] theorem extent_append_singleton (calls : List Call) (c : Call) :
    extent (calls ++ [c]) = extent calls + c.width :=
  extent_append calls [c]

theorem placedFrom_append (offset : Nat) (calls calls' : List Call) :
    placedFrom offset (calls ++ calls') =
      placedFrom offset calls ++ placedFrom (offset + extent calls) calls' := by
  induction calls generalizing offset with
  | nil => rfl
  | cons c calls ih =>
    rw [List.cons_append, placedFrom, placedFrom, ih, extent_cons, List.cons_append,
      Nat.add_assoc]

@[simp] theorem placed_append_singleton (calls : List Call) (c : Call) :
    placed (calls ++ [c]) = placed calls ++ [(extent calls, c)] := by
  rw [placed, placedFrom_append, Nat.zero_add]
  rfl

theorem mem_placed_append_cons (before : List Call) (c : Call) (after : List Call) :
    (extent before, c) ∈ placed (before ++ c :: after) := by
  rw [placed, placedFrom_append, Nat.zero_add]
  exact List.mem_append_right _ List.mem_cons_self

theorem offsetsOf_append_singleton (property : Call → Bool) (calls : List Call) (c : Call) :
    offsetsOf property (calls ++ [c]) =
      offsetsOf property calls ++ if property c then [extent calls] else [] := by
  by_cases h : property c <;> simp [offsetsOf, h]

/-- Calls without the property add no offset. -/
theorem offsetsOf_append_singleton_of_not {property : Call → Bool} (h : property c = false) :
    offsetsOf property (calls ++ [c]) = offsetsOf property calls := by
  simp [offsetsOf_append_singleton, h]

theorem mem_offsetsOf {property : Call → Bool} :
    offset ∈ offsetsOf property calls ↔ ∃ c, (offset, c) ∈ placed calls ∧ property c = true := by
  simp [offsetsOf]

theorem mem_of_mem_placed (h : (offset, c) ∈ placed calls) : c ∈ calls := by
  induction calls using List.reverseRecOn with
  | nil => cases h
  | append_singleton calls d ih =>
    rw [placed_append_singleton, List.mem_append, List.mem_singleton] at h
    rcases h with h | h
    · exact List.mem_append_left _ (ih h)
    · cases h
      exact List.mem_append_right _ List.mem_cons_self

theorem mem_offsetsOf_jumpsTo :
    offset ∈ offsetsOf (Call.jumpsTo label) calls ↔ (offset, Call.jump label) ∈ placed calls := by
  rw [mem_offsetsOf]
  constructor
  · intro ⟨c, hmem, hjump⟩
    obtain rfl : c = .jump label := by cases c <;> simp_all [Call.jumpsTo]
    exact hmem
  · intro hmem
    exact ⟨_, hmem, beq_self_eq_true label⟩

/-- A call ends where the calls end or before. -/
theorem add_width_le_extent (h : (offset, c) ∈ placed calls) : offset + c.width ≤ extent calls := by
  induction calls using List.reverseRecOn with
  | nil => cases h
  | append_singleton calls d ih =>
    rw [placed_append_singleton, List.mem_append, List.mem_singleton] at h
    rw [extent_append_singleton]
    rcases h with h | h
    · have := ih h
      omega
    · cases h
      omega

/-- The operand of a jump lies inside the bytes that the calls append. -/
theorem add_two_le_extent (h : offset ∈ offsetsOf (Call.jumpsTo label) calls) :
    offset + 2 ≤ extent calls :=
  add_width_le_extent (mem_offsetsOf_jumpsTo.1 h)

theorem Addressed.of_append_singleton (h : Addressed (calls ++ [c])) : Addressed calls := by
  intro offset label hmem
  apply h offset label
  rw [placed_append_singleton]
  exact List.mem_append_left _ hmem

/-- There are addresses for all jumps if the bytes that calls append are no more than that. -/
theorem addressed_of_extent_le (h : extent calls ≤ 0x100000000) : Addressed calls :=
  fun _ _ hmem => Nat.le_trans (add_width_le_extent hmem) h

theorem layOut_append_singleton (target : Nat → Nat) (calls : List Call) (c : Call) :
    layOut target (calls ++ [c]) = layOut target calls ++ c.bytes target (extent calls) := by
  simp [layOut]

@[simp] theorem length_layOut (target : Nat → Nat) (calls : List Call) :
    (layOut target calls).length = extent calls := by
  induction calls using List.reverseRecOn with
  | nil => rfl
  | append_singleton calls c ih => simp [layOut_append_singleton, ih]

/-- The bytes of a call stand at its offset. -/
theorem take_drop_layOut (target : Nat → Nat) (h : (offset, c) ∈ placed calls) :
    ((layOut target calls).drop offset).take c.width = c.bytes target offset := by
  induction calls using List.reverseRecOn with
  | nil => cases h
  | append_singleton calls d ih =>
    rw [placed_append_singleton, List.mem_append, List.mem_singleton] at h
    rw [layOut_append_singleton]
    rcases h with h | h
    · have hend := add_width_le_extent h
      rw [List.drop_append_of_le_length (by rw [length_layOut]; omega),
        List.take_append_of_le_length (by rw [List.length_drop, length_layOut]; omega), ih h]
    · cases h
      rw [List.drop_left' (length_layOut target calls),
        List.take_of_length_le (Nat.le_of_eq (Call.length_bytes c target _))]

end EndpointRules.Assembler
