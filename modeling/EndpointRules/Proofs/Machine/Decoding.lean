import EndpointRules.Proofs.Machine.Linking
import EndpointRules.Proofs.Machine.StackEffects
import EndpointRules.Proofs.Machine.Wrapped
import EndpointRules.Proofs.Program.Ranges

/-!
# Two readings of an instruction

The machine takes the operands of an instruction from fixed places behind the opcode.  A cursor
finds them by a table of operand widths.  At every address where the machine carries out an
instruction, both read the same: the opcode, the values of the operands, the address behind the
instruction and the address that a jump leads to.  The exception is an instruction that goes on
behind the last address: the machine finds the rest of it at the start of the code, the cursor looks
for it behind the last address.
-/

namespace EndpointRules

/-! ## Operands by their widths -/

/-- The instruction of an opcode with the values of its operands, in the order in which they stand
    behind the opcode. -/
def Instruction.ofOperands? : Opcode → List Nat → Option Instruction
  | .loadConst, [index] => some (.loadConstant index)
  | .loadConstWide, [index] => some (.loadConstant index)
  | .setRegister, [index] => some (.setRegister index)
  | .loadRegister, [index] => some (.loadRegister index)
  | .not, [] => some (.test .isFalse)
  | .isSet, [] => some (.test .isSet)
  | .isTrue, [] => some (.test .isTrue)
  | .testRegisterIsSet, [index] => some (.testRegister .isSet index)
  | .testRegisterNotSet, [index] => some (.testRegister .isNotSet index)
  | .testRegisterIsTrue, [index] => some (.testRegister .isTrue index)
  | .testRegisterIsFalse, [index] => some (.testRegister .isFalse index)
  | .list0, [] => some (.makeList 0)
  | .list1, [] => some (.makeList 1)
  | .list2, [] => some (.makeList 2)
  | .listN, [count] => some (.makeList count)
  | .map0, [] => some (.makeMap 0)
  | .map1, [] => some (.makeMap 1)
  | .map2, [] => some (.makeMap 2)
  | .map3, [] => some (.makeMap 3)
  | .map4, [] => some (.makeMap 4)
  | .mapN, [pairs] => some (.makeMap pairs)
  | .resolveTemplate, [count, constant] => some (.resolveTemplate count constant)
  | .call0, [function] => some (.call (some 0) function)
  | .call1, [function] => some (.call (some 1) function)
  | .call2, [function] => some (.call (some 2) function)
  | .call3, [function] => some (.call (some 3) function)
  | .call, [function] => some (.call none function)
  | .getProperty, [constant] => some (.getProperty constant)
  | .getIndex, [index] => some (.getIndex index)
  | .getPropertyReg, [register, constant] => some (.getPropertyOf register constant)
  | .getIndexReg, [register, index] => some (.getIndexOf register index)
  | .equals, [] => some .equals
  | .stringEquals, [] => some .stringEquals
  | .booleanEquals, [] => some .booleanEquals
  | .substring, [start, stop, reverse] => some (.substring start stop (reverse != 0))
  | .isValidHostLabel, [] => some .isHostLabel
  | .parseUrl, [] => some .parseUrl
  | .uriEncode, [] => some .uriEncode
  | .split, [] => some .split
  | .returnError, [] => some .raise
  -- The lowest bit of the flags announces headers, the one above it properties.
  | .returnEndpoint, [flags] => some (.returnEndpoint (flags / 2 % 2 == 1) (flags % 2 == 1))
  | .returnValue, [] => some .returnValue
  | .jumpIfSetOrPop, [distance] => some (.jumpIfSetOrPop distance)
  | _, _ => none

/-- The numbers of some widths that stand one behind the other from a place on. -/
def operandsAt (code : Array UInt8) (start : Nat) : (widths : List Nat) → List Nat
  | [] => []
  | width :: widths =>
    Word.value (code.extract start (start + width)).toList ::
      operandsAt code (start + width) widths

variable {code : Array UInt8} {start place width : Nat} {widths : List Nat}

theorem le_foldl_widths (start : Nat) (widths : List Nat) :
    start ≤ widths.foldl (· + ·) start := by
  induction widths generalizing start with
  | nil => exact Nat.le_refl start
  | cons width widths ih => exact Nat.le_trans (Nat.le_add_right _ _) (ih (start + width))

/-- Every operand ends before the instruction does. -/
theorem foldl_take_widths_le (start : Nat) (h : widths[place]? = some width) :
    (widths.take place).foldl (· + ·) start + width ≤ widths.foldl (· + ·) start := by
  induction widths generalizing start place with
  | nil => cases h
  | cons width' widths ih =>
    cases place with
    | zero =>
      cases h
      exact le_foldl_widths (start + width) widths
    | succ place => exact ih _ h

theorem getElem?_operandsAt (code : Array UInt8) (start : Nat) (h : widths[place]? = some width) :
    let first := (widths.take place).foldl (· + ·) start
    (operandsAt code start widths)[place]? =
      some (Word.value (code.extract first (first + width)).toList) := by
  induction widths generalizing start place with
  | nil => cases h
  | cons width' widths ih =>
    cases place with
    | zero =>
      cases h
      rfl
    | succ place => exact ih _ h

theorem length_operandsAt (code : Array UInt8) (start : Nat) (widths : List Nat) :
    (operandsAt code start widths).length = widths.length := by
  induction widths generalizing start with
  | nil => rfl
  | cons width widths ih => simp [operandsAt, ih]

theorem operandsAt_one (h : start < code.size) :
    operandsAt code start (1 :: widths) =
      (code.getD start 0).toNat :: operandsAt code (start + 1) widths := by
  rw [operandsAt, Cursor.extract_byte h]
  simp [Word.value]

theorem operandsAt_two (h : start + 1 < code.size) :
    operandsAt code start (2 :: widths) =
      ((code.getD start 0).toNat * 256 + (code.getD (start + 1) 0).toNat) ::
        operandsAt code (start + 2) widths := by
  rw [operandsAt, Cursor.extract_two_bytes h]
  simp [Word.value]

/-- A cursor reads the operands that stand behind the opcode by their widths. -/
theorem Cursor.operand_eq {c : Cursor} {op : Opcode} (hop : c.opcode? = some op)
    (hsize : c.position + op.length ≤ c.code.size)
    (hplace : place < (operandsAt c.code (c.position + 1) op.widths).length) :
    c.operand place = .ok (operandsAt c.code (c.position + 1) op.widths)[place] := by
  have hlt : place < op.widths.length := by rwa [length_operandsAt] at hplace
  have hwidth : op.widths[place]? = some op.widths[place] := List.getElem?_eq_getElem hlt
  have hend := foldl_take_widths_le (c.position + 1) hwidth
  have hlength : op.widths.foldl (· + ·) (c.position + 1) = c.position + op.length := by
    rw [op.length_eq]
    exact List.foldl_assoc
  have hvalue := getElem?_operandsAt c.code (c.position + 1) hwidth
  rw [List.getElem?_eq_getElem hplace] at hvalue
  rw [operand, operandFrom, hop, Option.some.inj hvalue]
  dsimp only
  rw [if_neg (by omega), Int.toNat_natCast, hwidth]
  dsimp only
  rw [if_neg (by omega)]

/-- The machine finds the operands of an opcode where they stand by their widths. -/
theorem Instruction.ofOperands?_operandsAt {op : Opcode} {a : Nat} (h : a + op.length ≤ code.size) :
    ofOperands? op (operandsAt code (a + 1) op.widths) = some (decode op code a) := by
  have hnil : ∀ start, operandsAt code start [] = [] := fun _ => rfl
  cases op <;> simp only [Opcode.length, Opcode.widths, reduceIte, Nat.reduceEqDiff]
    at h ⊢ <;>
    simp (disch := omega) only [operandsAt_one, operandsAt_two, hnil, ofOperands?, decode, ofBytes]

namespace Cursor

variable {c : Cursor}

theorem operandWrapped_eq (h : c.position + 1 < 0x100000000) (index : Int) :
    c.operandWrapped index = c.operand index := by
  rw [operandWrapped, address_of_lt h, operand]

theorem jumpTargetWrapped_eq (h : c.position + 1 < 0x100000000) :
    c.jumpTargetWrapped = c.jumpTarget.map address := by
  unfold jumpTargetWrapped jumpTarget
  cases c.opcode? with
  | none => rfl
  | some op =>
    dsimp only
    by_cases hjump : op.isJump
    · rw [if_pos hjump, if_pos hjump, operandWrapped_eq h]
      cases c.operand 0 <;> rfl
    · rw [if_neg hjump, if_neg hjump]
      rfl

end Cursor

/-! ## The reading of the machine -/

namespace Setting

variable {s : Setting} {sort : BodySort} {index : Nat} {body : Body} {a : Nat} {op : Opcode}

/-- A cursor at an address of a body reads the instruction there as the machine does. -/
structure ReadsAlike (s : Setting) (body : Body) (a : Nat) (op : Opcode) : Prop where
  opcode : (Cursor.mk s.program.code a).opcode? = some op
  /-- All operands can be read, and the machine uses their values in their order. -/
  operands : ∃ values, values.length = (Cursor.mk s.program.code a).operandCount ∧
    (∀ (i : Nat) (h : i < values.length),
      (Cursor.mk s.program.code a).operandWrapped i = .ok values[i]) ∧
    Instruction.ofOperands? op values = some (.decodeWrapped op s.program.code a)
  next : (Cursor.mk s.program.code a).nextWrapped? =
    some ⟨s.program.code, address (a + op.length)⟩
  /-- Without a jump a run goes on where the cursor moves to. -/
  falls : ∀ f g, s.perform (.decodeWrapped op s.program.code a) f = (.ok .next, g) →
    s.StepWrapped body (a, f) (address (a + op.length), g)
  /-- A jump leads where the cursor says. -/
  jumps : op = .jumpIfSetOrPop → ∃ target,
    (Cursor.mk s.program.code a).jumpTargetWrapped = .ok target ∧
      ∀ f v rest, f.stack.items = v :: rest → v.isSet = true →
        s.StepWrapped body (a, f) (target, f)
  /-- A run goes on nowhere else. -/
  leads : ∀ f q, s.StepWrapped body (a, f) q → q.1 = address (a + op.length) ∨
    op = .jumpIfSetOrPop ∧ (Cursor.mk s.program.code a).jumpTargetWrapped = .ok q.1

/-- A jump over some bytes leads where the cursor says. -/
theorem jumpTargetWrapped_of_decode {distance : Nat}
    (hop : (Cursor.mk s.program.code a).opcode? = some op)
    (hsize : a + op.length ≤ s.program.code.size) (hlast : a + op.length < 0x100000000)
    (hdecode : Instruction.decode op s.program.code a = .jumpIfSetOrPop distance) :
    op = .jumpIfSetOrPop ∧
      (Cursor.mk s.program.code a).jumpTargetWrapped =
        .ok (address (a + op.length + distance)) := by
  obtain rfl : op = .jumpIfSetOrPop := by cases op <;> first | rfl | cases hdecode
  have hlength : Opcode.jumpIfSetOrPop.length = 3 := rfl
  rw [Cursor.jumpTargetWrapped_eq (by dsimp only; omega),
    Cursor.jumpTarget_of_jump hop (by dsimp only; omega)]
  cases hdecode
  exact ⟨rfl, rfl⟩

theorem readsAlike_of_fetch (hbody : s.program.body? sort index = some body)
    (hfetch : s.fetchWrapped body a = .ok op) (hlast : a + op.length < 0x100000000) :
    s.ReadsAlike body a op := by
  obtain ⟨hstart, hbyte, hstop⟩ := fetchWrapped_eq_ok_iff.1 hfetch
  rw [address_of_lt hlast] at hstop
  have hplain : s.fetch body a = .ok op := fetch_eq_ok_iff.2 ⟨hbyte, hstop⟩
  obtain ⟨hop, -⟩ := opcode?_of_fetch hbody hplain
  have hpos := op.length_pos
  have hsize : a + op.length ≤ s.program.code.size :=
    Nat.le_trans hstop (Program.stop_le_size hbody)
  have hdecode : Instruction.decodeWrapped op s.program.code a = .decode op s.program.code a :=
    Instruction.decodeWrapped_eq (Nat.le_of_lt hlast)
  refine ⟨hop, ⟨operandsAt s.program.code (a + 1) op.widths, ?_, ?_, ?_⟩, ?_, ?_, ?_, ?_⟩
  · simp [length_operandsAt, Cursor.operandCount, hop]
  · intro i hi
    rw [Cursor.operandWrapped_eq (by dsimp only; omega)]
    exact Cursor.operand_eq hop hsize hi
  · rw [hdecode]
    exact Instruction.ofOperands?_operandsAt hsize
  · simp [Cursor.nextWrapped?, hop]
  · exact fun f g hperform => .next hfetch hperform
  · rintro rfl
    have hjump : Instruction.decode .jumpIfSetOrPop s.program.code a = .jumpIfSetOrPop _ := rfl
    refine ⟨_, (jumpTargetWrapped_of_decode hop hsize hlast hjump).2, ?_⟩
    intro f v rest hitems hset
    refine .skip hfetch ?_
    rw [hdecode, hjump, perform_jumpIfSetOrPop, hitems]
    simp [hset]
  · intro f q hstep
    cases hstep with
    | next hfetch' _ =>
      cases hfetch.symm.trans hfetch'
      exact .inl rfl
    | skip hfetch' hperform =>
      cases hfetch.symm.trans hfetch'
      rw [hdecode] at hperform
      exact .inr (jumpTargetWrapped_of_decode hop hsize hlast (eq_jump_of_skip hperform))

/-- The cursor and the machine read alike at every address of a body at which the machine carries
    out an instruction, whatever the code is, if the instruction ends before the last address: and
    so at all addresses of a body that ends four bytes before the last address.  The instruction may
    be the last one in the code. -/
theorem cursor_reads_fetched (hbody : s.program.body? sort index = some body) :
    (∀ a op, s.fetchWrapped body a = .ok op → a + op.length < 0x100000000 →
      s.ReadsAlike body a op) ∧
    (body.stop + 3 < 0x100000000 → ∀ a op, s.fetchWrapped body a = .ok op →
      s.ReadsAlike body a op) := by
  refine ⟨fun a op => readsAlike_of_fetch hbody, fun hstop a op hfetch => ?_⟩
  have hstart := (fetchWrapped_eq_ok_iff.1 hfetch).1
  have hlength := op.length_le_four
  exact readsAlike_of_fetch hbody hfetch (by omega)

/-- A condition that is a jump, and a result that reads a property of a register at the end of the
    code. -/
def mixedWidths : Program where
  parts := {
    code := #[0x2A, 0x01, 0x02, 0x1A, 0x01, 0x02, 0x03]
    conditions := #[0]
    results := #[3]
    diagram := { entries := #[], root := Reference.resultOffset } }
  starts := [0, 3]
  starts_eq := by decide
  check_eq := by cbv

/-- The jump leads far behind the code, and the constant follows a register of one byte. -/
theorem cursor_reads_mixedWidths :
    let s : Setting := { program := mixedWidths, hooks := [], context := [] }
    (mixedWidths.body? .condition 0 = some ⟨.condition, 0, 0, 3⟩ ∧
      mixedWidths.body? .result 0 = some ⟨.result, 0, 3, 7⟩) ∧
      (Instruction.decodeWrapped .jumpIfSetOrPop mixedWidths.code 0 = .jumpIfSetOrPop 258 ∧
        s.ReadsAlike ⟨.condition, 0, 0, 3⟩ 0 .jumpIfSetOrPop) ∧
      Instruction.decodeWrapped .getPropertyReg mixedWidths.code 3 = .getPropertyOf 1 515 ∧
        s.ReadsAlike ⟨.result, 0, 3, 7⟩ 3 .getPropertyReg := by
  intro s
  have hcondition : mixedWidths.body? .condition 0 = some ⟨.condition, 0, 0, 3⟩ := rfl
  have hresult : mixedWidths.body? .result 0 = some ⟨.result, 0, 3, 7⟩ := rfl
  have hfirst : s.fetchWrapped ⟨.condition, 0, 0, 3⟩ 0 = .ok .jumpIfSetOrPop := rfl
  have hsecond : s.fetchWrapped ⟨.result, 0, 3, 7⟩ 3 = .ok .getPropertyReg := rfl
  exact ⟨⟨hcondition, hresult⟩, ⟨rfl, (cursor_reads_fetched hcondition).1 0 _ hfirst (by decide)⟩,
    rfl, (cursor_reads_fetched hresult).2 (by decide) 3 _ hsecond⟩

/-! ## An instruction across the last address -/

/-- Behind `n` bytes that are no opcodes, a condition of one byte that loads a constant with an
    index of two bytes, and a result that is the first byte of that index. -/
def straddling (n : Nat) : Program :=
  .ofCallsNothing
    { code := Parts.padded n #[0x01, 0x00]
      conditions := #[n]
      results := #[n + 1]
      diagram := { entries := #[], root := 1 } }
    { sizes := by simp [Parts.checkSizes_eq_ok_iff]
      names := rfl
      conditions := by simp
      results := by simp
      diagram := by
        show Diagram.validate { entries := #[], root := 1 } 1 1 = .ok ()
        decide }
    (Parts.callsNothing_padded n (by
      intro byte hbyte op hop
      simp only [List.mem_toArray, List.mem_cons, List.not_mem_nil, or_false] at hbyte
      rcases hbyte with rfl | rfl <;> cases hop <;> rfl))

theorem body?_straddling (n : Nat) :
    (straddling n).body? .condition 0 = some ⟨.condition, 0, n, n + 1⟩ := by
  have hbody : (straddling n).body? .condition 0 =
      some ⟨.condition, 0, n, (straddling n).stopOf n⟩ := rfl
  have hresult : n + 1 ∈ (straddling n).offsets .result := by
    show n + 1 ∈ #[n + 1]
    simp
  have hle : (straddling n).stopOf n ≤ n + 1 :=
    Program.stopOf_le_of_mem hresult (Nat.lt_succ_self n)
  have hlt : n < (straddling n).stopOf n := by
    rcases Program.stop_cases hbody with ⟨-, hlast⟩ | ⟨-, hlt⟩
    · exact absurd (hlast .result (n + 1) hresult) (Nat.not_le.2 (Nat.lt_succ_self n))
    · exact hlt
  rw [hbody, show (straddling n).stopOf n = n + 1 by omega]

section

variable {n : Nat} {s : Setting}

theorem code_straddling (hs : s.program = straddling n) :
    s.program.code = Parts.padded n #[0x01, 0x00] := by
  rw [hs]
  rfl

theorem getD_code_straddling (hs : s.program = straddling n) (k : Nat) :
    s.program.code.getD (n + k) 0 = #[0x01, 0x00].getD k 0 := by
  rw [code_straddling hs]
  exact Parts.getD_padded_add n k _

/-- With the opcode two bytes before the end of 2³² bytes, the machine finds that the instruction
    ends at address 1. -/
theorem fetchWrapped_straddling (hn : n + 2 = 0x100000000) (hs : s.program = straddling n) :
    s.fetchWrapped ⟨.condition, 0, n, n + 1⟩ n = .ok .loadConstWide := by
  have hend : address (n + Opcode.loadConstWide.length) = 1 := by
    rw [show n + Opcode.loadConstWide.length = 0x100000000 + 1 by show n + 3 = _; omega]
    rfl
  refine fetchWrapped_eq_ok_iff.2 ⟨Nat.lt_succ_self n, ?_, ?_⟩
  · rw [show s.program.code.getD n 0 = 0x01 from getD_code_straddling hs 0]
    rfl
  · rw [hend]
    exact Nat.le_add_left 1 n

/-- It takes the first byte of the code for the second one of the index. -/
theorem decodeWrapped_straddling (hn : n + 2 = 0x100000000) (hs : s.program = straddling n) :
    Instruction.decodeWrapped .loadConstWide s.program.code n = .loadConstant 0xFF := by
  have hbyte : s.program.code.getD 0 0 = 0xFF := by
    rw [code_straddling hs]
    exact Parts.getD_padded_of_lt (by omega)
  have hwrapped : address (n + 2) = 0 := by
    rw [hn]
    rfl
  show Instruction.loadConstant ((s.program.code.getD (address (n + 1)) 0).toNat * 256 +
    (s.program.code.getD (address (n + 2)) 0).toNat) = _
  rw [address_of_lt (by omega : n + 1 < 0x100000000), getD_code_straddling hs 1, hwrapped, hbyte]
  rfl

/-- The cursor finds the index cut short. -/
theorem operandWrapped_straddling (hn : n + 2 = 0x100000000) (hs : s.program = straddling n) :
    (Cursor.mk s.program.code n).operandWrapped 0 = .error (.truncatedInstruction n) := by
  have hsize : s.program.code.size = n + 2 := by
    rw [code_straddling hs, Parts.size_padded]
    rfl
  have hopcode : (Cursor.mk s.program.code n).opcode? = some .loadConstWide := by
    rw [Cursor.opcode?_of_lt (by dsimp only; omega)]
    dsimp only
    rw [show s.program.code.getD n 0 = 0x01 from getD_code_straddling hs 0]
    rfl
  rw [Cursor.operandWrapped, address_of_lt (by dsimp only; omega), Cursor.operandFrom, hopcode]
  refine if_pos ?_
  show s.program.code.size < n + 1 + 2
  omega

end

/-- The machine carries out the instruction there, and the cursor cannot read its operand. -/
theorem not_readsAlike_straddling :
    let s : Setting := { program := straddling (0x100000000 - 2), hooks := [], context := [] }
    let body : Body := ⟨.condition, 0, 0x100000000 - 2, 0x100000000 - 1⟩
    s.program.body? .condition 0 = some body ∧
      s.fetchWrapped body body.start = .ok .loadConstWide ∧
      Instruction.decodeWrapped .loadConstWide s.program.code body.start = .loadConstant 0xFF ∧
      (Cursor.mk s.program.code body.start).operandWrapped 0 =
        .error (.truncatedInstruction body.start) ∧
      ¬ s.ReadsAlike body body.start .loadConstWide := by
  intro s body
  have hfetch : s.fetchWrapped body body.start = .ok .loadConstWide :=
    fetchWrapped_straddling (by decide) rfl
  have hoperand : (Cursor.mk s.program.code body.start).operandWrapped 0 =
      .error (.truncatedInstruction body.start) :=
    operandWrapped_straddling (by decide) rfl
  refine ⟨body?_straddling _, hfetch, decodeWrapped_straddling (by decide) rfl, hoperand, ?_⟩
  intro halike
  obtain ⟨values, hlength, hvalues, -⟩ := halike.operands
  have hcount : (Cursor.mk s.program.code body.start).operandCount = 1 := by
    rw [Cursor.operandCount, halike.opcode]
    rfl
  have hread := hvalues 0 (by omega)
  cases hoperand.symm.trans hread

end Setting

end EndpointRules
