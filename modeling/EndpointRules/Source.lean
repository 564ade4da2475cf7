import EndpointRules.Word

/-!
# Byte sources

A place in a piece of binary data from which numbers and strings are read.  A read that would go
past the end fails; the offset of the first failure is kept, and from then on every read gives
zero or the empty string and leaves the place alone.
-/

namespace EndpointRules

/-- Binary data, the offset of the next read, and the offset of the first failed read. -/
structure Source where
  data : Array UInt8
  position : Nat := 0
  failure : Option Nat := none

namespace Source

/-- Whether a read has failed. -/
def failed (s : Source) : Bool := s.failure.isSome

/-- The offset of the first failed read, and 0 before there is one. -/
def failureOffset (s : Source) : Nat := s.failure.getD 0

/-- Moves to an offset, which may lie past the end. -/
def seek (s : Source) (position : Nat) : Source := { s with position }

/-- Whether `count` bytes can be read. -/
def admits (s : Source) (count : Nat) : Bool :=
  !s.failed && s.position + count ≤ s.data.size

/-- The source after a read that failed here. -/
def fail (s : Source) : Source := { s with failure := s.failure.or (some s.position) }

/-- Reads `count` bytes, or none of them. -/
def take (s : Source) (count : Nat) : Bytes × Source :=
  if s.admits count then
    ((s.data.extract s.position (s.position + count)).toList,
      { s with position := s.position + count })
  else ([], s.fail)

/-- Reads a number of `width` bytes. -/
def word (s : Source) (width : Nat) : Nat × Source :=
  let (bytes, s) := s.take width
  (Word.value bytes, s)

/-- Reads a byte. -/
def u8 (s : Source) : Nat × Source := s.word 1

/-- Reads a number of two bytes. -/
def u16 (s : Source) : Nat × Source := s.word 2

/-- Reads a number of four bytes. -/
def u32 (s : Source) : Nat × Source := s.word 4

/-- Reads a signed number of four bytes. -/
def i32 (s : Source) : Int32 × Source :=
  let (n, s) := s.u32
  ((UInt32.ofNat n).toInt32, s)

/-- Reads a string behind its length in two bytes. -/
def string (s : Source) : Bytes × Source :=
  let (length, s) := s.u16
  s.take length

end Source

end EndpointRules
