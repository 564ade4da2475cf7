import EndpointRules.Word

/-!
# Byte sinks

A growing piece of binary data.  Numbers go in with their high byte first.
-/

namespace EndpointRules

/-- The bytes written so far. -/
structure Sink where
  bytes : Array UInt8 := #[]

namespace Sink

/-- The number of bytes written. -/
def size (s : Sink) : Nat := s.bytes.size

/-- Appends bytes. -/
def raw (s : Sink) (data : Bytes) : Sink := { bytes := data.foldl Array.push s.bytes }

/-- Appends the bytes of an array. -/
def append (s : Sink) (data : Array UInt8) : Sink := { bytes := s.bytes ++ data }

/-- Appends a byte. -/
def u8 (s : Sink) (v : UInt8) : Sink := { bytes := s.bytes.push v }

/-- Appends the lowest two bytes of a number. -/
def u16 (s : Sink) (n : Nat) : Sink := s.raw (Word.bytes 2 n)

/-- Appends the lowest four bytes of a number. -/
def u32 (s : Sink) (n : Nat) : Sink := s.raw (Word.bytes 4 n)

/-- Appends a signed number as four bytes. -/
def i32 (s : Sink) (n : Int32) : Sink := s.u32 n.toUInt32.toNat

/-- Appends a string of at most 65535 bytes behind its length in two bytes. -/
def string (s : Sink) (text : Bytes) : Sink := (s.u16 text.length).raw text

/-- Overwrites the four bytes at an offset. -/
def patchU32 (s : Sink) (offset n : Nat) : Sink :=
  { bytes := (Word.bytes 4 n).zipIdx.foldl (fun out (b, i) => out.setIfInBounds (offset + i) b)
      s.bytes }

end Sink

end EndpointRules
