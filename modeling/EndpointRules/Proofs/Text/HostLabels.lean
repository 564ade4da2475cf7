import EndpointRules.Proofs.Text.Splitting

/-!
# Dotted host labels

Checking a host label with dots goes from dot to dot and checks what stands between two of them.
These are the parts into which the text is split at its dots, whether there is no dot, one at either
end, or one behind the other.
-/

namespace EndpointRules

open Bytes

variable {c : UInt8} {s before after : Bytes}

/-! ## Cutting at one byte -/

namespace Bytes

/-- A text of one byte occurs where the byte is first found. -/
theorem breakOn?_eq_some_of_cut (h : cut c s = (before, some after)) :
    breakOn? [c] s = some (before, after) := by
  obtain ⟨hs, hmark⟩ := cut_eq_iff.1 h
  rw [hs, Option.elim_some]
  exact breakOn?_append hmark [] after

theorem breakOn?_eq_none_of_cut (h : cut c s = (before, none)) : breakOn? [c] s = none := by
  obtain ⟨hs, hmark⟩ := cut_eq_iff.1 h
  rw [Option.elim_none, List.append_nil] at hs
  refine Text.breakOn?_eq_none_iff.2 fun place hoccurs => hmark ?_
  have hmem : c ∈ s.drop place := hoccurs.subset List.mem_cons_self
  exact hs ▸ List.mem_of_mem_drop hmem

end Bytes

namespace Text

/-! ## Labels -/

/-- An ASCII letter, a digit or a hyphen. -/
def LabelByte (b : UInt8) : Prop :=
  ('A'.toUInt8 ≤ b ∧ b ≤ 'Z'.toUInt8) ∨ ('a'.toUInt8 ≤ b ∧ b ≤ 'z'.toUInt8) ∨
    ('0'.toUInt8 ≤ b ∧ b ≤ '9'.toUInt8) ∨ b = '-'.toUInt8

/-- A label without dots. -/
structure Label (s : Bytes) : Prop where
  length : 1 ≤ s.length ∧ s.length ≤ 63
  byte : ∀ b ∈ s, LabelByte b
  first : s.head? ≠ some '-'.toUInt8

theorem labelByte_iff {b : UInt8} : LabelByte b ↔ (isAlnum b || b == '-'.toUInt8) = true := by
  have hmarks : 'A'.toUInt8 = 0x41 ∧ 'Z'.toUInt8 = 0x5A ∧ 'a'.toUInt8 = 0x61 ∧
      'z'.toUInt8 = 0x7A ∧ '0'.toUInt8 = 0x30 ∧ '9'.toUInt8 = 0x39 := by decide
  simp [LabelByte, isAlnum, isAlpha, isDigit, hmarks, or_assoc]

theorem isAlnum_hyphen : isAlnum '-'.toUInt8 = false := by decide

/-- Of the bytes of a label, the letters and digits are those that are no hyphen. -/
theorem LabelByte.isAlnum_iff {b : UInt8} (h : LabelByte b) :
    isAlnum b = true ↔ b ≠ '-'.toUInt8 := by
  have hclass := labelByte_iff.1 h
  rw [Bool.or_eq_true, beq_iff_eq] at hclass
  constructor
  · rintro halnum rfl
    rw [isAlnum_hyphen] at halnum
    cases halnum
  · exact hclass.resolve_right

theorem isLabel_iff : isLabel s = true ↔ Label s := by
  cases s with
  | nil =>
    constructor
    · intro h
      cases h
    · intro h
      exact absurd h.length.1 (by decide)
  | cons b s =>
    simp only [isLabel, List.head?_cons, Option.any_some, Bool.and_eq_true, decide_eq_true_eq,
      List.all_eq_true]
    constructor
    · intro ⟨⟨hlength, halnum⟩, hall⟩
      have hbyte : ∀ b' ∈ b :: s, LabelByte b' := fun b' hb' => labelByte_iff.2 (hall b' hb')
      refine ⟨⟨Nat.succ_pos _, hlength⟩, hbyte, ?_⟩
      rw [List.head?_cons, ne_eq, Option.some.injEq]
      exact (hbyte b List.mem_cons_self).isAlnum_iff.1 halnum
    · intro h
      have hb := h.first
      rw [List.head?_cons, ne_eq, Option.some.injEq] at hb
      refine ⟨⟨h.length.2, (h.byte b List.mem_cons_self).isAlnum_iff.2 hb⟩, ?_⟩
      exact fun b' hb' => labelByte_iff.1 (h.byte b' hb')

/-! ## Labels with dots -/

/-- Each round of the check takes off the part that splitting takes off. -/
theorem isDottedLabel_iff :
    isDottedLabel s = true ↔ ∀ part ∈ split "." 0 s, isLabel part = true := by
  have hdot : ("." : Bytes) = ['.'.toUInt8] := by decide
  rw [hdot]
  fun_induction isDottedLabel s with
  | case1 s label hcut =>
    have hlabel : label = s := by simpa using (cut_eq_iff.1 hcut).1.symm
    rw [split_of_breakOn?_eq_none (breakOn?_eq_none_of_cut hcut), hlabel, List.forall_mem_singleton]
  | case2 s label rest hcut ih =>
    have hbreak := breakOn?_eq_some_of_cut hcut
    rw [split_of_breakOn?_eq_some (List.cons_ne_nil _ _) Nat.zero_ne_one hbreak,
      List.forall_mem_cons, Bool.and_eq_true]
    exact Iff.and Iff.rfl ih

/-- A text is a host label with dots exactly if each part between its dots is a host label without
    dots, and these are the labels. -/
theorem isHostLabel_by_parts (s : Bytes) :
    (isHostLabel s true = true ↔ ∀ part ∈ split "." 0 s, isHostLabel part false = true) ∧
      (isHostLabel s false = true ↔ Label s) :=
  ⟨isDottedLabel_iff, isLabel_iff⟩

/-- Between two dots, and behind the last one, there is a part without bytes. -/
example : split "." 0 "a..b." = (["a", "", "b", ""] : List Bytes) := by cbv

end Text

end EndpointRules
