import EndpointRules.Bytes

/-!
# Numbers as bytes

A number in a fixed count of bytes, the high byte first.
-/

namespace EndpointRules.Word

/-- The lowest `width` bytes of a number, the high byte first. -/
def bytes : (width n : Nat) → Bytes
  | 0, _ => []
  | width + 1, n => bytes width (n / 256) ++ [UInt8.ofNat n]

/-- The number that bytes stand for. -/
def value (bytes : Bytes) : Nat := bytes.foldl (fun n b => n * 256 + b.toNat) 0

@[simp] theorem length_bytes (width n : Nat) : (bytes width n).length = width := by
  induction width generalizing n with
  | zero => rfl
  | succ width ih => simp [bytes, ih]

@[simp] theorem value_append_singleton (s : Bytes) (b : UInt8) :
    value (s ++ [b]) = value s * 256 + b.toNat := by
  simp [value]

end EndpointRules.Word
