import Mathlib.Algebra.GroupWithZero.Nat
import EndpointRules.Word

/-!
# Numbers as bytes and back

Bytes of a fixed count and the numbers below the corresponding power of 256 stand for each other,
and so do numbers of 32 bits and signed ones.
-/

namespace EndpointRules

namespace Word

theorem value_lt (s : Bytes) : value s < 256 ^ s.length := by
  rw [← List.reverse_reverse s]
  induction s.reverse with
  | nil => decide
  | cons b t ih =>
    rw [List.reverse_cons, value_append_singleton, List.length_append, List.length_singleton,
      Nat.pow_succ]
    have := b.toNat_lt
    omega

/-- The number of the bytes of a number that fits. -/
theorem value_bytes {width n : Nat} (h : n < 256 ^ width) : value (bytes width n) = n := by
  induction width generalizing n with
  | zero =>
    rw [Nat.pow_zero] at h
    obtain rfl : n = 0 := by omega
    rfl
  | succ width ih =>
    have hdiv : n / 256 < 256 ^ width := by
      rw [Nat.pow_succ] at h
      omega
    rw [bytes, value_append_singleton, ih hdiv, UInt8.toNat_ofNat']
    omega

/-- The bytes of the number that bytes stand for. -/
theorem bytes_value (s : Bytes) : bytes s.length (value s) = s := by
  rw [← List.reverse_reverse s]
  induction s.reverse with
  | nil => rfl
  | cons b t ih =>
    have hb := b.toNat_lt
    have hdiv : (value t.reverse * 256 + b.toNat) / 256 = value t.reverse := by omega
    have hlow : UInt8.ofNat (value t.reverse * 256 + b.toNat) = b := by
      apply UInt8.toNat_inj.1
      rw [UInt8.toNat_ofNat']
      omega
    rw [List.reverse_cons, value_append_singleton, List.length_append, List.length_singleton,
      bytes, hdiv, hlow, ih]

theorem bytes_one (b : UInt8) : bytes 1 b.toNat = [b] := by
  simp [bytes]

/-- The number of 32 bits that a signed number is written as. -/
theorem toInt32_toNat (n : Int32) : (UInt32.ofNat n.toUInt32.toNat).toInt32 = n := by
  simp

theorem toNat_toInt32 {n : Nat} (h : n < 256 ^ 4) :
    (UInt32.ofNat n).toInt32.toUInt32.toNat = n := by
  simp only [UInt32.toUInt32_toInt32, UInt32.toNat_ofNat']
  omega

/-- A string behind its length in two bytes. -/
def sized (s : Bytes) : Bytes := bytes 2 s.length ++ s

/-- A byte is set in every number but 0. -/
theorem toNat_bne_zero (b : UInt8) : (b.toNat != 0) = (b != 0) := by
  rw [Bool.eq_iff_iff, bne_iff_ne, bne_iff_ne, ne_eq, ne_eq, ← UInt8.toNat_inj]
  rfl

end Word

end EndpointRules
