import EndpointRules.Proofs.Listing.Bodies
import EndpointRules.Proofs.Listing.Layout
import EndpointRules.Trace

/-!
# Lines

A listing has a line for each instruction, and so has a trace for each step.  Summaries escape the
line ends of a string, but a note repeats the names of registers, functions and properties as they
are.  So the text of an instruction has as many line ends as the names that its note shows.
-/

namespace EndpointRules

open Bytes

namespace Listing

variable {p : Program} {c : Cursor} {op : Opcode} {s t : Bytes}

/-- How many line ends a text has. -/
def lineEnds (s : Bytes) : Nat := s.count '\n'.toUInt8

/-! ## The names that are shown -/

/-- The name of a register, if there is such a register. -/
def registerName? (p : Program) (index : Nat) : Option Bytes :=
  p.parts.registers[index]?.map Register.name

/-- The name of a function, if there is such a function. -/
def functionName? (p : Program) (index : Nat) : Option Bytes :=
  p.parts.functions[index]?.map Slot.name

/-- The name of a property, if there is such a constant and it is a string. -/
def propertyName? (p : Program) (index : Nat) : Option Bytes :=
  match p.parts.constants[index]? with
  | some (.string s) => some s
  | _ => none

/-- The names that the operands of an instruction stand for. -/
def namesOf (p : Program) (op : Opcode) (operands : List Nat) : List Bytes :=
  let operand i := operands.getD i 0
  match op with
  | .setRegister | .loadRegister | .testRegisterIsSet | .testRegisterNotSet
  | .testRegisterIsTrue | .testRegisterIsFalse | .getIndexReg => (registerName? p (operand 0)).toList
  | .getPropertyReg => (registerName? p (operand 0)).toList ++ (propertyName? p (operand 1)).toList
  | .getProperty => (propertyName? p (operand 0)).toList
  | .call0 | .call1 | .call2 | .call3 | .call => (functionName? p (operand 0)).toList
  | _ => []

/-- The names that the line for the instruction under a cursor shows; none if some operand is cut
    off. -/
def names (p : Program) (c : Cursor) : List Bytes :=
  match c.opcode? with
  | none => []
  | some op => if (operands c).length < c.operandCount then [] else namesOf p op (operands c)

/-! ## Counting line ends -/

@[simp] theorem lineEnds_nil : lineEnds [] = 0 := rfl

@[simp] theorem lineEnds_append (s t : Bytes) : lineEnds (s ++ t) = lineEnds s + lineEnds t :=
  List.count_append

theorem lineEnds_eq_zero_iff : lineEnds s = 0 ↔ '\n'.toUInt8 ∉ s := List.count_eq_zero

theorem lineEnds_of_visible (h : Visible s) : lineEnds s = 0 := by
  rw [lineEnds_eq_zero_iff]
  intro hend
  exact absurd (h _ hend) (by decide)

@[simp] theorem lineEnds_decimal (n : Nat) : lineEnds (decimal n) = 0 :=
  lineEnds_of_visible (visible_decimal n)

@[simp] theorem lineEnds_ofInt (n : Int) : lineEnds (ofInt n) = 0 := by
  cases n with
  | ofNat n => exact lineEnds_decimal n
  | negSucc n =>
    refine lineEnds_of_visible ?_
    rw [ofInt, Visible, List.forall_mem_cons]
    exact ⟨by decide, visible_decimal (n + 1)⟩

/-- An escaped text has no line end, as each of them is written as two other bytes. -/
@[simp] theorem lineEnds_escaped (s : Bytes) : lineEnds (Value.escaped s) = 0 := by
  rw [lineEnds_eq_zero_iff, Value.escaped, List.mem_flatMap]
  intro hmem
  obtain ⟨b, -, hb⟩ := hmem
  by_cases hend : b = '\n'.toUInt8
  · rw [if_pos (by simpa using hend)] at hb
    exact absurd hb (by decide)
  · rw [if_neg (by simpa using hend)] at hb
    split_ifs at hb
    case neg => exact hend (List.mem_singleton.1 hb).symm
    all_goals exact absurd hb (by decide)

@[simp] theorem lineEnds_booleanText (b : Bool) : lineEnds (Value.booleanText b) = 0 := by
  cases b <;> decide

theorem lineEnds_stringSummary (s : Bytes) : lineEnds (Value.stringSummary s) = 0 := by
  rw [Value.stringSummary]
  split <;> simp only [lineEnds_append, lineEnds_escaped] <;> decide

@[simp] theorem lineEnds_summary (v : Value) : lineEnds v.summary = 0 := by
  cases v with
  | null => decide
  | string s => exact lineEnds_stringSummary s
  | uri u =>
    simp only [Value.summary, lineEnds_append, lineEnds_of_visible u.visible_text]
    decide
  | _ =>
    simp only [Value.summary, lineEnds_append, lineEnds_decimal, lineEnds_ofInt,
      lineEnds_booleanText]
    decide

/-! ## Notes -/

@[simp] theorem lineEnds_constantNote (p : Program) (index : Nat) :
    lineEnds (constantNote p index) = 0 := by
  rw [constantNote]
  cases p.parts.constants[index]? with
  | none => decide
  | some v => exact lineEnds_summary v

theorem lineEnds_getD {missing : Bytes} (h : lineEnds missing = 0) (name : Option Bytes) :
    lineEnds (name.getD missing) = lineEnds name.toList.flatten := by
  cases name <;> simp [h]

@[simp] theorem lineEnds_registerNote (p : Program) (index : Nat) :
    lineEnds (registerNote p index) = lineEnds (registerName? p index).toList.flatten :=
  lineEnds_getD (by decide) (registerName? p index)

@[simp] theorem lineEnds_functionNote (p : Program) (index : Nat) :
    lineEnds (functionNote p index) = lineEnds (functionName? p index).toList.flatten :=
  lineEnds_getD (by decide) (functionName? p index)

@[simp] theorem lineEnds_propertyNote (p : Program) (index : Nat) :
    lineEnds (propertyNote p index) = lineEnds (propertyName? p index).toList.flatten := by
  rw [propertyNote, propertyName?]
  cases p.parts.constants[index]? with
  | none => decide
  | some v => cases v <;> simp

@[simp] theorem lineEnds_targetNote (c : Cursor) : lineEnds (targetNote c) = 0 := by
  rw [targetNote]
  cases c.jumpTarget with
  | error =>
    show lineEnds "<invalid target>" = 0
    decide
  | ok target =>
    simp only [lineEnds_append, lineEnds_of_visible (visible_zeroPadded 4 target)]
    decide

/-- A note has the line ends of the names in it. -/
theorem lineEnds_note (p : Program) (c : Cursor) (op : Opcode) (numbers : List Nat) :
    lineEnds (note p c op numbers) = lineEnds (namesOf p op numbers).flatten := by
  cases op <;> simp [note, namesOf] <;> decide

/-! ## Lines -/

theorem lineEnds_shownNote (p : Program) (c : Cursor) :
    lineEnds (shownNote p c) = lineEnds (names p c).flatten := by
  cases hop : c.opcode? with
  | none => simp [shownNote, names, hop]
  | some op =>
    by_cases hcut : (operands c).length < c.operandCount
    · simp [shownNote, names, hop, hcut]
    · simp [shownNote, names, hop, hcut, lineEnds_note]

theorem lineEnds_remark {gap : Bytes} (hgap : lineEnds gap = 0) (p : Program) (c : Cursor) :
    lineEnds (remark gap p c) = lineEnds (shownNote p c) := by
  by_cases hcut : (operands c).length < c.operandCount
  · rw [remark, if_pos hcut, shownNote_of_lt hcut]
    decide
  · have hmark : lineEnds "; " = 0 := by decide
    by_cases hnote : shownNote p c = []
    · simp [remark, hcut, hnote]
    · simp [remark, hcut, hnote, hgap, hmark]

theorem lineEnds_replicate_blank (k : Nat) : lineEnds (List.replicate k blank) = 0 := by
  rw [lineEnds_eq_zero_iff]
  intro hmem
  exact absurd (List.eq_of_mem_replicate hmem) (by decide)

theorem lineEnds_operandText (numbers : List Nat) : lineEnds (operandText numbers) = 0 := by
  rw [lineEnds_eq_zero_iff, operandText, List.mem_flatMap]
  intro hend
  obtain ⟨n, -, hmem⟩ := hend
  rcases List.mem_cons.1 hmem with hblank | hdigit
  · exact absurd hblank (by decide)
  · exact lineEnds_eq_zero_iff.1 (lineEnds_decimal n) hdigit

/-- Only the note of a line may have line ends. -/
theorem lineEnds_layOut {gap : Bytes} (hgap : lineEnds gap = 0) (width : Nat) (p : Program)
    (c : Cursor) : lineEnds (layOut width gap p c) = lineEnds (shownNote p c) := by
  have hoffset : lineEnds (zeroPadded 4 c.position ++ ": ") = 0 := by
    rw [lineEnds_append, lineEnds_of_visible (visible_zeroPadded 4 c.position)]
    decide
  rw [layOut, lineEnds_append, hoffset, Nat.zero_add]
  cases hop : c.opcode? with
  | none =>
    have hliterals : lineEnds "UNKNOWN_OPCODE(0x" = 0 ∧ lineEnds ")" = 0 := by decide
    simp [shownNote, hop, hliterals, lineEnds_of_visible (visible_upperHex _)]
  | some op =>
    simp [lineEnds_of_visible op.visible_mnemonic, lineEnds_replicate_blank, lineEnds_operandText,
      lineEnds_remark hgap]

/-- The text of an instruction has the line ends of the names that it shows. -/
theorem lineEnds_instruction (p : Program) (c : Cursor) :
    lineEnds (instruction p c) = lineEnds (names p c).flatten := by
  have hgap : lineEnds "  " = 0 := by decide
  have htrim : lineEnds (instruction p c) = lineEnds (layOut mnemonicWidth "  " p c) := by
    rw [instruction_eq]
    exact count_dropTrailingBlanks (by decide) _
  rw [htrim, lineEnds_layOut hgap, lineEnds_shownNote]

theorem lineEnds_instruction_eq_zero_iff :
    lineEnds (instruction p c) = 0 ↔ ∀ name ∈ names p c, '\n'.toUInt8 ∉ name := by
  simp [lineEnds_instruction, lineEnds_eq_zero_iff]

theorem lineEnds_line (parts : List Bytes) :
    lineEnds (line parts) = lineEnds parts.flatten + 1 := lineEnds_append _ _

/-- The listing of a body has its heading, and for each instruction a line and the line ends in its
    text. -/
theorem lineEnds_body (p : Program) (sort : BodySort) (b : Body) :
    lineEnds (body p (headingOf sort) b) = 1 + (p.listed b.start).length +
      lineEnds ((p.listed b.start).flatMap fun a => instruction p ⟨p.code, a⟩) := by
  have hheading : lineEnds (headingOf sort) = 0 ∧ lineEnds " " = 0 ∧ lineEnds " (offset " = 0 ∧
      lineEnds "):" = 0 := by
    cases sort <;> decide
  have hindent : lineEnds "  " = 0 := by decide
  have hlines : ∀ cursors : List Cursor,
      lineEnds (cursors.flatMap fun c => line ["  ", instruction p c]) =
        cursors.length + lineEnds (cursors.flatMap (instruction p)) := by
    intro cursors
    induction cursors with
    | nil => rfl
    | cons c cursors ih =>
      rw [List.flatMap_cons, lineEnds_append, ih, lineEnds_line]
      simp [hindent]
      omega
  rw [body, lineEnds_append, lineEnds_line, hlines, Program.bodyCursors_eq,
    List.flatMap_map]
  simp [hheading]
  omega

theorem lineEnds_step (p : Program) (sort : BodySort) (index a : Nat) :
    lineEnds (Trace.line p (.step sort index a)) = 1 + lineEnds (instruction p ⟨p.code, a⟩) := by
  have hliterals : lineEnds "[rules] " = 0 ∧ lineEnds (Trace.sortText sort) = 0 ∧
      lineEnds " " = 0 ∧ lineEnds "\n" = 1 := by
    cases sort <;> decide
  have hsqueeze : lineEnds (squeezeBlanks (instruction p ⟨p.code, a⟩)) =
      lineEnds (instruction p ⟨p.code, a⟩) := count_squeezeBlanks (by decide) _
  simp [Trace.line, hliterals, hsqueeze]
  omega

/-- The text of an instruction is a single line exactly if no name that it shows has a line end.
    The listing of a body has its heading and one line for each instruction exactly if this is so
    for all of them, and the record of a step is one line exactly if it is so there. -/
theorem single_line_iff (p : Program) :
    (∀ a, '\n'.toUInt8 ∉ instruction p ⟨p.code, a⟩ ↔
      ∀ name ∈ names p ⟨p.code, a⟩, '\n'.toUInt8 ∉ name) ∧
    (∀ sort b, lineEnds (body p (headingOf sort) b) = 1 + (p.listed b.start).length ↔
      ∀ a ∈ p.listed b.start, ∀ name ∈ names p ⟨p.code, a⟩, '\n'.toUInt8 ∉ name) ∧
    ∀ sort index a, lineEnds (Trace.line p (.step sort index a)) = 1 ↔
      ∀ name ∈ names p ⟨p.code, a⟩, '\n'.toUInt8 ∉ name := by
  refine ⟨?_, ?_, ?_⟩
  · intro a
    rw [← lineEnds_eq_zero_iff, lineEnds_instruction_eq_zero_iff]
  · intro sort b
    rw [lineEnds_body, Nat.add_eq_left, lineEnds_eq_zero_iff, List.mem_flatMap]
    simp [← lineEnds_eq_zero_iff, lineEnds_instruction_eq_zero_iff]
  · intro sort index a
    rw [lineEnds_step, Nat.add_eq_left, lineEnds_instruction_eq_zero_iff]

/-- A result that is the value of a register with a line end in its name. -/
def brokenName : Program where
  parts := {
    code := #[0x03, 0x00, 0x28]
    results := #[0]
    registers := #[{ name := "a\nb" }]
    diagram := { entries := #[], root := Reference.resultOffset } }
  starts := [0]
  starts_eq := by decide
  check_eq := by cbv

/-- Two instructions are listed in three lines, and the record of the first one has two. -/
theorem broken_line_brokenName :
    brokenName.body? .result 0 = some ⟨.result, 0, 0, 3⟩ ∧ brokenName.listed 0 = [0, 2] ∧
      instruction brokenName ⟨brokenName.code, 0⟩ = "0000: LOAD_REGISTER          0  ; a\nb" ∧
      lineEnds (body brokenName (headingOf .result) ⟨.result, 0, 0, 3⟩) = 4 ∧
      Setting.executed { program := brokenName, hooks := [], context := [] } ⟨.result, 0, 0, 3⟩
        { registers := #[.boolean true] } = [0, 2] ∧
      lineEnds (Trace.line brokenName (.step .result 0 0)) = 2 := by
  have hlisted : brokenName.listed 0 = [0, 2] := by cbv
  have hfirst : instruction brokenName ⟨brokenName.code, 0⟩ =
      "0000: LOAD_REGISTER          0  ; a\nb" := by decide
  have hsecond : instruction brokenName ⟨brokenName.code, 2⟩ = "0002: RETURN_VALUE" := by decide
  refine ⟨rfl, hlisted, hfirst, ?_, by decide +kernel, ?_⟩
  · rw [lineEnds_body, hlisted, List.flatMap_cons, List.flatMap_cons, hfirst, hsecond]
    decide
  · rw [lineEnds_step, hfirst]
    decide

end Listing

end EndpointRules
