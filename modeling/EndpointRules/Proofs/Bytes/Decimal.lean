import Mathlib.Data.List.TakeWhile
import EndpointRules.Uri

/-!
# Numbers in decimal

A number in decimal is made of digits, and reading them gives the number back.  So a number can be
told from a text that begins with it, if no digit stands behind it.
-/

namespace EndpointRules.Bytes

variable {b : UInt8} {m n : Nat} {i j : Int} {s t : Bytes}

/-- The text does not begin with a digit. -/
def NoDigitFirst (s : Bytes) : Prop := ∀ b ∈ s.head?, isDigit b = false

theorem noDigitFirst_nil : NoDigitFirst [] := nofun

theorem noDigitFirst_cons (h : isDigit b = false) : NoDigitFirst (b :: s) := by
  intro c hc
  obtain rfl : b = c := by simpa using hc
  exact h

/-- A decimal digit as a byte is a digit of the same value. -/
theorem toUInt8_of_isDigit {c : Char} (h : c.isDigit = true) :
    isDigit c.toUInt8 = true ∧ c.toUInt8.toNat = c.toNat := by
  obtain ⟨hlow, hhigh⟩ : 48 ≤ c.toNat ∧ c.toNat ≤ 57 := by
    simpa [Char.isDigit, UInt32.le_iff_toNat_le] using h
  have hvalue : c.toUInt8.toNat = c.toNat := by
    show c.toNat % 256 = c.toNat
    omega
  refine ⟨?_, hvalue⟩
  simp only [isDigit, Bool.and_eq_true, decide_eq_true_eq, UInt8.le_iff_toNat_le,
    UInt8.reduceToNat, hvalue]
  exact ⟨hlow, hhigh⟩

theorem isDigit_of_mem_decimal (h : b ∈ decimal n) : isDigit b = true := by
  obtain ⟨c, hc, rfl⟩ := List.mem_map.1 h
  exact (toUInt8_of_isDigit (Nat.isDigit_of_mem_toDigits (by decide) (by decide) hc)).1

theorem decimal_ne_nil (n : Nat) : decimal n ≠ [] := by
  simp [decimal, Nat.toDigits_ne_nil]

/-- Reading a number in decimal gives the number. -/
theorem ofDigits_decimal (n : Nat) : Uri.ofDigits (decimal n) = n := by
  have hread : ∀ cs : List Char, (∀ c ∈ cs, c.isDigit = true) → ∀ k,
      (cs.map Char.toUInt8).foldl (fun k c => k * 10 + (c.toNat - 0x30)) k =
        Nat.ofDigitChars 10 cs k := by
    intro cs hcs
    induction cs with
    | nil => exact fun k => rfl
    | cons c cs ih =>
      intro k
      rw [List.forall_mem_cons] at hcs
      rw [List.map_cons, List.foldl_cons, ih hcs.2, (toUInt8_of_isDigit hcs.1).2, Nat.mul_comm]
      rfl
  have hdigits : ∀ c ∈ Nat.toDigits 10 n, c.isDigit = true := fun c hc =>
    Nat.isDigit_of_mem_toDigits (by decide) (by decide) hc
  exact (hread _ hdigits 0).trans Nat.ofDigitChars_ten_toDigits

/-- The digits at the beginning of a text are those of the number. -/
theorem takeWhile_decimal_append (hs : NoDigitFirst s) (n : Nat) :
    (decimal n ++ s).takeWhile isDigit = decimal n := by
  rw [List.takeWhile_append_of_pos fun b hb => isDigit_of_mem_decimal hb]
  cases s with
  | nil => simp
  | cons b s => simp [hs b rfl]

theorem decimal_append_inj (hs : NoDigitFirst s) (ht : NoDigitFirst t)
    (h : decimal m ++ s = decimal n ++ t) : m = n ∧ s = t := by
  have hdigits := congrArg (List.takeWhile isDigit) h
  rw [takeWhile_decimal_append hs, takeWhile_decimal_append ht] at hdigits
  have hnumber := congrArg Uri.ofDigits hdigits
  rw [ofDigits_decimal, ofDigits_decimal] at hnumber
  rw [hdigits] at h
  exact ⟨hnumber, List.append_cancel_left h⟩

/-- The first byte of a natural number is a digit, and so no minus sign. -/
theorem decimal_append_ne_minus (m : Nat) (s t : Bytes) : decimal m ++ s ≠ '-'.toUInt8 :: t := by
  intro h
  obtain ⟨b, rest, heq⟩ := List.exists_cons_of_ne_nil (decimal_ne_nil m)
  rw [heq, List.cons_append] at h
  have hdigit : isDigit b = true := isDigit_of_mem_decimal (n := m) (by simp [heq])
  rw [(List.cons.inj h).1] at hdigit
  exact absurd hdigit (by decide)

theorem ofInt_append_inj (hs : NoDigitFirst s) (ht : NoDigitFirst t)
    (h : ofInt i ++ s = ofInt j ++ t) : i = j ∧ s = t := by
  cases i with
  | ofNat m =>
    cases j with
    | ofNat n =>
      obtain ⟨rfl, hrest⟩ := decimal_append_inj hs ht h
      exact ⟨rfl, hrest⟩
    | negSucc n => exact absurd h (decimal_append_ne_minus m s _)
  | negSucc m =>
    cases j with
    | ofNat n => exact absurd h.symm (decimal_append_ne_minus n t _)
    | negSucc n =>
      obtain ⟨hnumber, hrest⟩ := decimal_append_inj hs ht (List.cons.inj h).2
      obtain rfl := Nat.succ.inj hnumber
      exact ⟨rfl, hrest⟩

end EndpointRules.Bytes
