import EndpointRules.Proofs.Listing.Layout
import EndpointRules.Proofs.Machine.Executed
import EndpointRules.Trace

/-!
# Padding

A listing sets the mnemonics in a column and has two blanks in front of a note; a record of a step
is the same line squeezed.  In the line but for its note this takes out the padding and nothing
else.  But squeezing does not know where the note begins, so a record shows the note as it is exactly
if the note is tight.
-/

namespace EndpointRules

open Bytes

namespace Listing

variable {p : Program} {c : Cursor} {op : Opcode} {s : Bytes}

/-- The line up to its note, without padding. -/
def front (c : Cursor) (op : Opcode) : Bytes :=
  zeroPadded 4 c.position ++ ": " ++ op.mnemonic ++ operandText (operands c)

/-- The line without padding, but with every blank of its note. -/
def plainLine (p : Program) (c : Cursor) : Bytes := layOut 0 " " p c

/-! ## Squeezing takes out the padding -/

theorem eq_blank_of_head?_operandText_append (hs : ∀ b ∈ s.head?, b = blank) (numbers : List Nat) :
    ∀ b ∈ (operandText numbers ++ s).head?, b = blank := by
  cases numbers with
  | nil => exact hs
  | cons n numbers => simp [operandText]

theorem eq_blank_of_head?_remark (p : Program) (c : Cursor) :
    ∀ b ∈ (remark " " p c).head?, b = blank := by
  have hcut : (ofString " <truncated>").head? = some blank := by decide
  rw [remark]
  split_ifs
  · simp [hcut]
  · simp
  · have hgap : ofString " " = [blank] := by decide
    simp [hgap]

theorem squeeze_trim_remark (s : Bytes) (p : Program) (c : Cursor) :
    squeezeBlanks (dropTrailingBlanks (s ++ remark "  " p c)) =
      squeezeBlanks (dropTrailingBlanks (s ++ remark " " p c)) := by
  rw [remark, remark]
  split_ifs with hcut hnote
  · rfl
  · rfl
  · have hgaps : ofString "  " = List.replicate 1 blank ++ [blank] ∧ ofString " " = [blank] := by
      decide
    have h := squeeze_trim_append_blanks (t := blank :: (ofString "; " ++ shownNote p c)) s 1
      (by simp)
    simpa [hgaps] using h

theorem plainLine_eq (hop : c.opcode? = some op) :
    plainLine p c = front c op ++ remark " " p c := by
  rw [plainLine, layOut, hop]
  simp [front]

/-- A record of a step shows the line without padding, squeezed and without blanks at its end. -/
theorem squeezeBlanks_instruction (p : Program) (c : Cursor) :
    squeezeBlanks (instruction p c) = squeezeBlanks (dropTrailingBlanks (plainLine p c)) := by
  rw [instruction_eq]
  cases hop : c.opcode? with
  | none => rw [plainLine, layOut, layOut, hop]
  | some op =>
    have hstart := eq_blank_of_head?_operandText_append (eq_blank_of_head?_remark p c) (operands c)
    rw [plainLine_eq hop, front, List.append_assoc, ← squeeze_trim_append_blanks _
      (mnemonicWidth - op.mnemonic.length) hstart, layOut, hop]
    simpa using squeeze_trim_remark (zeroPadded 4 c.position ++ ": "
      ++ op.mnemonic.rightpad mnemonicWidth blank ++ operandText (operands c)) p c

/-! ## The line without padding -/

theorem tight_append_operandText (hs : Tight s) (h : s ≠ []) (numbers : List Nat) :
    Tight (s ++ operandText numbers) := by
  induction numbers generalizing s with
  | nil => simpa [operandText] using hs
  | cons n numbers ih =>
    have hn := hs.append (visible_decimal n).tight h (decimal_ne_nil n)
    simpa [operandText] using ih hn (by simp)

theorem tight_offset_append (n : Nat) (hs : Tight s) (h : s ≠ []) :
    Tight (zeroPadded 4 n ++ ": " ++ s) := by
  have hcolon : ofString ": " = [':'.toUInt8, blank] ∧ Visible [':'.toUInt8] := by decide
  have hoffset := ((visible_zeroPadded 4 n).append hcolon.2).tight
  simpa [hcolon.1] using hoffset.append hs (by simp) h

/-- The line up to its note is made of words with single blanks between them. -/
theorem tight_front (c : Cursor) (op : Opcode) : Tight (front c op) := by
  have hmnemonic : op.mnemonic ≠ [] := by
    cases op <;> decide
  have hword := tight_offset_append c.position op.visible_mnemonic.tight hmnemonic
  exact tight_append_operandText hword (by simp [hmnemonic]) (operands c)

theorem front_ne_nil (c : Cursor) (op : Opcode) : front c op ≠ [] := by
  have hcolon : ofString ": " ≠ [] := by decide
  simp [front, hcolon]

/-- The line without padding is tight, or it is made of a tight text, a blank and its note. -/
theorem plainLine_cases (p : Program) (c : Cursor) :
    (shownNote p c = [] ∧ Tight (plainLine p c)) ∨
      shownNote p c ≠ [] ∧ ∃ s, Tight s ∧ plainLine p c = s ++ blank :: shownNote p c := by
  cases hop : c.opcode? with
  | none =>
    have hliterals : Visible "UNKNOWN_OPCODE(0x" ∧ Visible ")" ∧ ofString ")" ≠ [] := by decide
    have hword := (hliterals.1.append (visible_upperHex (c.byte?.getD 0))).append hliterals.2.1
    refine .inl ⟨by rw [shownNote, hop], ?_⟩
    rw [plainLine, layOut, hop]
    exact tight_offset_append c.position hword.tight (by simp [hliterals.2.2])
  | some op =>
    have hfront := tight_front c op
    rw [plainLine_eq hop]
    by_cases hcut : (operands c).length < c.operandCount
    · have hmark : ofString " <truncated>" = blank :: ofString "<truncated>" ∧
          Visible "<truncated>" ∧ ofString "<truncated>" ≠ [] := by decide
      refine .inl ⟨shownNote_of_lt hcut, ?_⟩
      rw [remark, if_pos hcut, hmark.1]
      exact hfront.append hmark.2.1.tight (front_ne_nil c op) hmark.2.2
    · by_cases hnote : shownNote p c = []
      · refine .inl ⟨hnote, ?_⟩
        simpa [remark, hcut, hnote] using hfront
      · have hmark : ofString " " ++ ofString "; " = [blank, ';'.toUInt8, blank] ∧
            Visible [';'.toUInt8] := by decide
        refine .inr ⟨hnote, _, hfront.append hmark.2.tight (front_ne_nil c op) (by simp), ?_⟩
        rw [remark, if_neg hcut, if_neg hnote, hmark.1]
        simp

/-- Squeezing leaves the trimmed line alone exactly if its note is tight when trimmed. -/
theorem squeeze_trim_plainLine_iff (p : Program) (c : Cursor) :
    squeezeBlanks (dropTrailingBlanks (plainLine p c)) = dropTrailingBlanks (plainLine p c) ↔
      Tight (dropTrailingBlanks (shownNote p c)) := by
  rcases plainLine_cases p c with ⟨hnote, htight⟩ | ⟨_, s, hs, heq⟩
  · rw [htight.squeeze_trim, dropTrailingBlanks_of_last htight.last, hnote]
    exact iff_of_true rfl tight_nil
  · rw [heq]
    exact hs.squeeze_append_iff

/-- Squeezing and trimming leave the line alone exactly if its note is tight. -/
theorem squeeze_trim_plainLine_eq_self_iff (p : Program) (c : Cursor) :
    squeezeBlanks (dropTrailingBlanks (plainLine p c)) = plainLine p c ↔
      Tight (shownNote p c) := by
  rcases plainLine_cases p c with ⟨hnote, htight⟩ | ⟨hnote, s, hs, heq⟩
  · rw [htight.squeeze_trim, hnote]
    exact iff_of_true rfl tight_nil
  · rw [heq]
    exact hs.squeeze_trim_append_iff hnote

end Listing

/-! ## Records of steps -/

namespace Trace

open Listing

/-- A listing shows the padded line without the blanks at its end.  The record of a step shows what is
    left of the line without padding when it is trimmed and squeezed.  Nothing but padding is missing
    against the listing exactly if the note, trimmed, is tight, and the whole note is in the record
    exactly if it is tight itself. -/
theorem step_line_iff (p : Program) (sort : BodySort) (index a : Nat) :
    let c : Cursor := ⟨p.code, a⟩
    let record := line p (.step sort index a)
    let lead := "[rules] " ++ sortText sort ++ decimal index ++ " "
    instruction p c = dropTrailingBlanks (layOut mnemonicWidth "  " p c) ∧
      record = lead ++ squeezeBlanks (dropTrailingBlanks (plainLine p c)) ++ "\n" ∧
      (record = lead ++ dropTrailingBlanks (plainLine p c) ++ "\n" ↔
        Tight (dropTrailingBlanks (shownNote p c))) ∧
      (record = lead ++ plainLine p c ++ "\n" ↔ Tight (shownNote p c)) := by
  intro c record lead
  have hrecord : record = lead ++ squeezeBlanks (dropTrailingBlanks (plainLine p c)) ++ "\n" := by
    rw [← squeezeBlanks_instruction]
    simp [record, lead, line, c]
  refine ⟨instruction_eq p c, hrecord, ?_, ?_⟩
  · rw [hrecord, List.append_cancel_right_eq, List.append_cancel_left_eq]
    exact squeeze_trim_plainLine_iff p c
  · rw [hrecord, List.append_cancel_right_eq, List.append_cancel_left_eq]
    exact squeeze_trim_plainLine_eq_self_iff p c

/-- A result that is a string with two blanks in it. -/
def twoBlanks : Program where
  parts := {
    code := #[0x00, 0x00, 0x28]
    results := #[0]
    constants := #[.string "a  b"]
    diagram := { entries := #[], root := Reference.resultOffset } }
  starts := [0]
  starts_eq := by decide
  check_eq := by cbv

/-- The record of the first step of a run shows another constant than the listing. -/
theorem step_line_ne_twoBlanks :
    Setting.executed { program := twoBlanks, hooks := [], context := [] } ⟨.result, 0, 0, 3⟩
        { registers := #[] } = [0, 2] ∧
      instruction twoBlanks ⟨twoBlanks.code, 0⟩ =
        "0000: LOAD_CONST             0  ; \"a  b\"" ∧
      shownNote twoBlanks ⟨twoBlanks.code, 0⟩ = "\"a  b\"" ∧
      ¬ Tight (dropTrailingBlanks (shownNote twoBlanks ⟨twoBlanks.code, 0⟩)) ∧
      line twoBlanks (.step .result 0 0) = "[rules] result 0 0000: LOAD_CONST 0 ; \"a b\"\n" ∧
      line twoBlanks (.step .result 0 0) ≠ "[rules] result 0 0000: LOAD_CONST 0 ; \"a  b\"\n" := by
  have hnote : shownNote twoBlanks ⟨twoBlanks.code, 0⟩ = "\"a  b\"" := by decide
  have hloose : ¬ Tight (dropTrailingBlanks "\"a  b\"") := by
    intro h
    exact absurd (squeezeBlanks_of_isChain h.chain) (by decide)
  have hrecord : line twoBlanks (.step .result 0 0) =
      "[rules] result 0 0000: LOAD_CONST 0 ; \"a b\"\n" := by decide
  refine ⟨by decide +kernel, by decide, hnote, ?_, hrecord, ?_⟩
  · rw [hnote]
    exact hloose
  · rw [hrecord]
    decide

end Trace

end EndpointRules
