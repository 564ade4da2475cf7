import EndpointRules.Machine.Instruction
import EndpointRules.Proofs.Program.Bodies

/-!
# Checked calls

The check of a program reads every body instruction by instruction, up to the first byte that is no
opcode.  Every call that stands at an address of this reading names a function of the table, and a
linked function is passed as many arguments as it takes.
-/

namespace EndpointRules

theorem Instruction.decode_of_isCall {op : Opcode} (h : op.isCall = true) (code : Array UInt8)
    (a : Nat) : decode op code a = .call op.fixedArity? (code.getD (a + 1) 0).toNat := by
  cases op <;> first | rfl | cases h

theorem Instruction.isCall_of_decode {op : Opcode} {code : Array UInt8} {a index : Nat}
    {arity : Option Nat} (h : decode op code a = .call arity index) :
    op.isCall = true ∧ arity = op.fixedArity? ∧ index = (code.getD (a + 1) 0).toNat := by
  have hcall : op.isCall = true := by cases op <;> first | rfl | cases h
  rw [decode_of_isCall hcall] at h
  cases h
  exact ⟨hcall, rfl, rfl⟩

/-- The function of a call is in the table, and a linked function gets as many arguments as it
    takes. -/
def Parts.Links (functions : Array Slot) (arity : Option Nat) (index : Nat) : Prop :=
  ∃ slot, functions[index]? = some slot ∧
    ∀ f, slot.function = some f → arity.getD f.arity = f.arity

theorem Parts.links_of_checkCall {functions : Array Slot} {op : Opcode} {index address : Nat}
    (h : checkCall functions op index address = .ok ()) :
    Links functions op.fixedArity? index := by
  unfold checkCall at h
  split at h
  · cases h
  · next slot hslot =>
    refine ⟨slot, hslot, fun f hf => ?_⟩
    split at h
    · next passed f' hpassed hf' =>
      obtain rfl : f = f' := Option.some.inj (hf.symm.trans hf')
      split at h
      · next heq => simp [hpassed, heq]
      · cases h
    · next hnot =>
      cases hfixed : op.fixedArity? with
      | none => rfl
      | some passed => exact absurd hf (hnot passed f hfixed)

namespace Cursor

variable {c : Cursor} {op : Opcode}

theorem opcode?_of_lt (h : c.position < c.code.size) :
    c.opcode? = Opcode.ofByte? (c.code.getD c.position 0) := by
  rw [opcode?, byte?, Array.getD, dif_pos h, Array.getElem?_eq_getElem h]
  rfl

theorem extract_byte {code : Array UInt8} {a : Nat} (h : a < code.size) :
    (code.extract a (a + 1)).toList = [code.getD a 0] := by
  rw [Array.extract_succ_right (Nat.lt_succ_self _) h,
    Array.extract_empty_of_stop_le_start (Nat.le_refl _)]
  simp [Array.getD, h]

theorem extract_two_bytes {code : Array UInt8} {a : Nat} (h : a + 1 < code.size) :
    (code.extract a (a + 2)).toList = [code.getD a 0, code.getD (a + 1) 0] := by
  rw [Array.extract_succ_right (by omega) h, Array.toList_push,
    extract_byte (Nat.lt_of_succ_lt h)]
  simp [Array.getD, h]

theorem operand_zero {width : Nat} {widths : List Nat} (hop : c.opcode? = some op)
    (hwidths : op.widths = width :: widths) (hsize : c.position + 1 + width ≤ c.code.size) :
    c.operand 0 =
      .ok (Word.value (c.code.extract (c.position + 1) (c.position + 1 + width)).toList) := by
  simp only [operand, operandFrom, hop, hwidths, Int.not_lt.2 (Int.le_refl 0), if_false,
    Int.toNat_zero, List.getElem?_cons_zero, List.take_zero, List.foldl_nil]
  rw [if_neg (by omega)]

theorem operand_zero_of_isCall (hop : c.opcode? = some op) (hcall : op.isCall = true)
    (hsize : c.position + 1 < c.code.size) :
    c.operand 0 = .ok (c.code.getD (c.position + 1) 0).toNat := by
  have hwidths : op.widths = [1] := by cases op <;> first | rfl | cases hcall
  rw [operand_zero hop hwidths (by omega), extract_byte hsize]
  simp [Word.value]

theorem jumpTarget_of_jump (hop : c.opcode? = some .jumpIfSetOrPop)
    (hsize : c.position + 2 < c.code.size) :
    c.jumpTarget = .ok (c.position + 3 + ((c.code.getD (c.position + 1) 0).toNat * 256 +
      (c.code.getD (c.position + 2) 0).toNat)) := by
  have hoperand := operand_zero hop rfl (by omega : c.position + 1 + 2 ≤ c.code.size)
  rw [extract_two_bytes hsize] at hoperand
  rw [jumpTarget, hop]
  dsimp only
  rw [hoperand]
  simp [Word.value, Opcode.isJump, Except.map, Opcode.length]

end Cursor

/-- The check at an address where an opcode stands. -/
theorem Parts.checkCalls_of_opcode? {functions : Array Slot} {stop : Nat} {c : Cursor} {op : Opcode}
    (hlt : c.position < stop) (hop : c.opcode? = some op) :
    checkCalls functions stop c =
      let rest := checkCalls functions stop { c with position := c.position + op.length }
      if op.isCall then
        match c.operand 0 with
        | .error _ => .ok ()
        | .ok index =>
          match checkCall functions op index c.position with
          | .error e => .error e
          | .ok () => rest
      else rest := by
  have hnext : c.next? = some { c with position := c.position + op.length } := by
    rw [Cursor.next?, hop]
    rfl
  rw [checkCalls, if_pos hlt]
  split
  · next op' c' hop' hnext' =>
    obtain rfl : op = op' := Option.some.inj (hop.symm.trans hop')
    obtain rfl := Option.some.inj (hnext.symm.trans hnext')
    rfl
  · next hnot => exact absurd hnext (hnot op _ hop)

/-- The addresses at which the reading of a body finds instructions, one behind the other from the
    start of the body. -/
inductive Program.Reads (p : Program) (body : Body) : Nat → Prop
  | start (hstop : body.start < body.stop) : p.Reads body body.start
  | next {a : Nat} {op : Opcode} (ha : p.Reads body a)
      (hop : (Cursor.mk p.code a).opcode? = some op) (hstop : a + op.length < body.stop) :
      p.Reads body (a + op.length)

namespace Program

variable {p : Program} {sort : BodySort} {index : Nat} {body : Body}

theorem lt_stop_of_reads {a : Nat} (h : p.Reads body a) : a < body.stop := by
  cases h with
  | start hstop => exact hstop
  | next _ _ hstop => exact hstop

/-- The instruction behind one that the reading finds is found as well, unless the body ends
    before it. -/
theorem reads_next_or_le {a : Nat} {op : Opcode} (h : p.Reads body a)
    (hop : (Cursor.mk p.code a).opcode? = some op) :
    p.Reads body (a + op.length) ∨ body.stop ≤ a + op.length := by
  by_cases hstop : a + op.length < body.stop
  · exact .inl (.next h hop hstop)
  · exact .inr (Nat.le_of_not_lt hstop)

/-- Every jump that the reading of a body finds leads to an instruction that it finds, or out of
    the body. -/
def JumpsLand (p : Program) (body : Body) : Prop :=
  ∀ a target, p.Reads body a → (Cursor.mk p.code a).jumpTarget = .ok target →
    p.Reads body target ∨ body.stop ≤ target

/-- The check goes on from every address of the reading. -/
theorem checkCalls_of_reads (hbody : p.body? sort index = some body) {a : Nat}
    (h : p.Reads body a) :
    Parts.checkCalls p.parts.functions body.stop ⟨p.code, a⟩ = .ok () := by
  induction h with
  | start => exact checkCalls_eq hbody
  | @next a op ha hop hstop ih =>
    have hlt : a < body.stop := lt_stop_of_reads ha
    have hsize := stop_le_size hbody
    rw [Parts.checkCalls_of_opcode? hlt hop] at ih
    dsimp only at ih
    split at ih
    · next hcall =>
      -- the operand can be read, since another instruction follows inside the body
      have hlength : 1 < op.length := by cases op <;> first | decide | cases hcall
      rw [Cursor.operand_zero_of_isCall hop hcall (by dsimp only; omega)] at ih
      dsimp only at ih
      split at ih
      · cases ih
      · exact ih
    · exact ih

/-- Every call that the reading of a body finds is linked. -/
theorem links_of_reads (hbody : p.body? sort index = some body) {a : Nat} {op : Opcode}
    (h : p.Reads body a) (hop : (Cursor.mk p.code a).opcode? = some op) (hcall : op.isCall = true)
    (hstop : a + op.length ≤ body.stop) :
    Parts.Links p.parts.functions op.fixedArity? (p.code.getD (a + 1) 0).toNat := by
  have hsize := stop_le_size hbody
  have hcheck := checkCalls_of_reads hbody h
  have hlength : 1 < op.length := by cases op <;> first | decide | cases hcall
  rw [Parts.checkCalls_of_opcode? (lt_stop_of_reads h) hop, if_pos hcall,
    Cursor.operand_zero_of_isCall hop hcall (by dsimp only; omega)] at hcheck
  dsimp only at hcheck
  split at hcheck
  · cases hcheck
  · next hlinked => exact Parts.links_of_checkCall hlinked

end Program

end EndpointRules
