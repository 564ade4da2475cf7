import EndpointRules.Listing.Instruction
import EndpointRules.Proofs.Bytes.Blanks
import EndpointRules.Proofs.Bytes.Decimal
import EndpointRules.Proofs.Uri.Characters

/-!
# Lines and their parts

The line for an instruction is put together from visible text, from blanks, and from a note.  Only
the note may hold other bytes, since it shows constants and names of the program.
-/

namespace EndpointRules

open Bytes

/-! ## Visible text -/

namespace Bytes

variable {s t : Bytes}

/-- Every byte is behind the blank: none is a control character. -/
def Visible (s : Bytes) : Prop := ∀ b ∈ s, blank < b

instance (s : Bytes) : Decidable (Visible s) :=
  decidable_of_iff (s.all fun b => decide (blank < b)) (by simp [Visible])

theorem Visible.tight (h : Visible s) : Tight s := by
  refine tight_of_not_mem ?_
  intro hmem
  exact absurd (h _ hmem) (by decide)

theorem Visible.append (hs : Visible s) (ht : Visible t) : Visible (s ++ t) := by
  intro b hb
  exact (List.mem_append.1 hb).elim (hs b) (ht b)

theorem visible_decimal (n : Nat) : Visible (decimal n) := by
  intro b hb
  have hdigit := isDigit_of_mem_decimal hb
  simp only [isDigit, Bool.and_eq_true, decide_eq_true_eq] at hdigit
  exact Nat.lt_of_lt_of_le (by decide) hdigit.1

theorem visible_zeroPadded (width n : Nat) : Visible (zeroPadded width n) := by
  rw [zeroPadded, List.leftpad]
  refine Visible.append ?_ (visible_decimal n)
  intro b hb
  rw [List.eq_of_mem_replicate hb]
  decide

theorem visible_upperHex (b : UInt8) : Visible (upperHex b) := by
  have hdigit : ∀ n : UInt8, n < 16 → blank < upperHexDigit n := by
    intro n hn
    have h := Text.isHexDigit_upperHexDigit hn
    simp only [isHexDigit, isDigit, Bool.or_eq_true, Bool.and_eq_true, decide_eq_true_eq,
      UInt8.le_iff_toNat_le, UInt8.reduceToNat] at h
    show 0x20 < (upperHexDigit n).toNat
    omega
  have hhigh := hdigit _ (Text.div_lt_sixteen b)
  have hlow := hdigit _ (Text.mod_lt_sixteen b)
  simp [Visible, upperHex, hhigh, hlow]

end Bytes

theorem Opcode.visible_mnemonic (op : Opcode) : Visible op.mnemonic := by
  cases op <;> decide

theorem Uri.visible_text (u : Uri) : Visible u.text := by
  have h := Uri.decomposes_of_ofText? u.ofText?_eq
  have hplain : ∀ {brackets s}, Uri.Spelled brackets s → ∀ b ∈ s, blank < b := by
    intro brackets s hs b hb
    have hbyte := hs.plain b hb
    simp only [Uri.isPlain, Bool.and_eq_true, decide_eq_true_eq] at hbyte
    exact hbyte.1.1.1
  exact (h.forall_mem_iff (by decide)).2 ⟨hplain (Uri.spelled_of_schemeForm h.scheme),
    hplain h.authority, hplain h.path, fun query hq => hplain (h.query query hq),
    fun fragment hf => hplain (h.fragment fragment hf)⟩

namespace Listing

variable {p : Program} {c : Cursor} {op : Opcode}

/-! ## The parts of a line -/

/-- The note in the line for the instruction under a cursor; empty if the line has none. -/
def shownNote (p : Program) (c : Cursor) : Bytes :=
  match c.opcode? with
  | none => []
  | some op => if (operands c).length < c.operandCount then [] else note p c op (operands c)

/-- Operands in decimal, each behind a blank. -/
def operandText (numbers : List Nat) : Bytes := numbers.flatMap fun n => blank :: decimal n

/-- What stands behind the operands: that some are cut off, or the note behind `gap` and a
    semicolon. -/
def remark (gap : Bytes) (p : Program) (c : Cursor) : Bytes :=
  if (operands c).length < c.operandCount then " <truncated>"
  else if shownNote p c = [] then [] else gap ++ "; " ++ shownNote p c

/-- The line for the instruction under a cursor, its mnemonic filled up with blanks to `width`
    columns, and `gap` in front of the note. -/
def layOut (width : Nat) (gap : Bytes) (p : Program) (c : Cursor) : Bytes :=
  zeroPadded 4 c.position ++ ": " ++
    match c.opcode? with
    | none => "UNKNOWN_OPCODE(0x" ++ upperHex (c.byte?.getD 0) ++ ")"
    | some op => op.mnemonic.rightpad width blank
        ++ operandText (operands c) ++ remark gap p c

theorem shownNote_of_lt (h : (operands c).length < c.operandCount) : shownNote p c = [] := by
  cases hop : c.opcode? with
  | none => simp [shownNote, hop]
  | some op => simp [shownNote, hop, h]

theorem shownNote_eq (hop : c.opcode? = some op) (h : ¬ (operands c).length < c.operandCount) :
    shownNote p c = note p c op (operands c) := by
  rw [shownNote, hop]
  exact if_neg h

/-- The line is laid out with the padding, and then blanks at its end are left off. -/
theorem instruction_eq (p : Program) (c : Cursor) :
    instruction p c = dropTrailingBlanks (layOut mnemonicWidth "  " p c) := by
  cases hop : c.opcode? with
  | none =>
    have hend : (")" : Bytes) = [0x29] := by decide
    rw [instruction, layOut, hop]
    simp only [hend, ← List.append_assoc]
    exact (dropTrailingBlanks_concat_of_ne (by decide) _).symm
  | some op =>
    by_cases hcut : (operands c).length < c.operandCount
    · have hend : (" <truncated>" : Bytes) = ofString " <truncated" ++ [0x3E] := by decide
      rw [instruction, layOut, hop, remark, if_pos hcut, operandText]
      simp only [hcut, if_true, hend, ← List.append_assoc]
      exact (dropTrailingBlanks_concat_of_ne (by decide) _).symm
    · rw [instruction, layOut, hop, remark, if_neg hcut, shownNote_eq hop hcut, operandText]
      by_cases hnote : note p c op (operands c) = []
      · simp [hcut, hnote]
      · have hgap : ("  ; " : Bytes) = ofString "  " ++ ofString "; " := by decide
        simp [hcut, hnote, hgap]

end Listing

end EndpointRules
