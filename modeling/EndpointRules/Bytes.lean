/-!
# Byte strings

All text in the library is a list of bytes: lengths, cuts and comparisons count bytes, and text is
compared byte by byte, unsigned, a proper start of a text coming before it.  That order is the
lexicographic order of the standard library.

A string literal stands for its code points, one byte each; every literal of the library is
ASCII.
-/

namespace EndpointRules

/-- A byte string. -/
abbrev Bytes := List UInt8

namespace Bytes

/-- One byte for each code point, reduced modulo 256. -/
def ofString (s : String) : Bytes := s.toList.map Char.toUInt8

instance : Coe String Bytes := ⟨ofString⟩

/-- The quotation mark. -/
def quoteMark : UInt8 := 0x22

/-- The backslash. -/
def backslash : UInt8 := 0x5C

/-- The blank. -/
def blank : UInt8 := 0x20

/-! ## Character classes -/

/-- `0` to `9`. -/
def isDigit (c : UInt8) : Bool := 0x30 ≤ c && c ≤ 0x39

/-- `A` to `Z` and `a` to `z`. -/
def isAlpha (c : UInt8) : Bool := (0x41 ≤ c && c ≤ 0x5A) || (0x61 ≤ c && c ≤ 0x7A)

/-- An ASCII letter or digit; a byte from 0x80 on is neither. -/
def isAlnum (c : UInt8) : Bool := isAlpha c || isDigit c

/-- `0` to `9`, `A` to `F` and `a` to `f`. -/
def isHexDigit (c : UInt8) : Bool :=
  isDigit c || (0x41 ≤ c && c ≤ 0x46) || (0x61 ≤ c && c ≤ 0x66)

/-! ## Numbers as text -/

/-- The decimal digits of a natural number, without leading zeros. -/
def decimal (n : Nat) : Bytes := (Nat.toDigits 10 n).map Char.toUInt8

/-- An integer in decimal, with a minus sign if it is negative. -/
def ofInt : Int → Bytes
  | .ofNat n => decimal n
  | .negSucc n => '-'.toUInt8 :: decimal (n + 1)

/-- Upper-case digit of a number below 16. -/
def upperHexDigit (n : UInt8) : UInt8 := if n < 10 then 0x30 + n else 0x37 + n

/-- Lower-case digit of a number below 16. -/
def lowerHexDigit (n : UInt8) : UInt8 := if n < 10 then 0x30 + n else 0x57 + n

/-- The two upper-case hexadecimal digits of a byte. -/
def upperHex (c : UInt8) : Bytes := [upperHexDigit (c / 16), upperHexDigit (c % 16)]

/-- The two lower-case hexadecimal digits of a byte. -/
def lowerHex (c : UInt8) : Bytes := [lowerHexDigit (c / 16), lowerHexDigit (c % 16)]

/-- A number in decimal, filled up with zeros on the left to `width` digits. -/
def zeroPadded (width n : Nat) : Bytes := (decimal n).leftpad width '0'.toUInt8

/-- A number in decimal, filled up with blanks on the left to `width` columns. -/
def blankPadded (width n : Nat) : Bytes := (decimal n).leftpad width blank

/-! ## Cutting and joining -/

/-- What stands before the first `c`, and what stands after it if there is one. -/
def cut (c : UInt8) (s : Bytes) : Bytes × Option Bytes :=
  (s.takeWhile (· != c), (s.dropWhile (· != c)).tail?)

/-- What stands after the last `c`; the whole text if there is none. -/
def afterLast (c : UInt8) (s : Bytes) : Bytes := (s.reverse.takeWhile (· != c)).reverse

/-- What stands before the last `c` and what stands after it, if there is one. -/
def cutLast? (c : UInt8) (s : Bytes) : Option (Bytes × Bytes) :=
  (s.reverse.dropWhile (· != c)).tail?.map fun before => (before.reverse, afterLast c s)

/-- What stands before and after the first occurrence of `d`. -/
def breakOn? (d : Bytes) : Bytes → Option (Bytes × Bytes)
  | [] => if d.isEmpty then some ([], []) else none
  | c :: s =>
    if d.isPrefixOf (c :: s) then some ([], (c :: s).drop d.length)
    else (breakOn? d s).map fun (before, after) => (c :: before, after)

/-- The texts in order with `separator` between neighbours. -/
def join (separator : Bytes) (texts : List Bytes) : Bytes := separator.intercalate texts

/-- The text without the blanks at its end. -/
def dropTrailingBlanks (s : Bytes) : Bytes := (s.reverse.dropWhile (· == blank)).reverse

/-- Every run of blanks shortened to one blank. -/
def squeezeBlanks (s : Bytes) : Bytes :=
  (s.foldl (fun out c =>
    if c == blank && out.head? == some blank then out else c :: out) []).reverse

/-- What stands after the first `c` is shorter. -/
theorem length_lt_of_cut {c : UInt8} {s before after : Bytes}
    (h : cut c s = (before, some after)) : after.length < s.length := by
  have hrest := (List.dropWhile_suffix (l := s) (· != c)).length_le
  have hafter : (s.dropWhile (· != c)).tail? = some after := (Prod.mk.inj h).2
  cases hdrop : s.dropWhile (· != c) with
  | nil => simp [hdrop] at hafter
  | cons mark rest =>
    rw [hdrop] at hrest hafter
    cases hafter
    exact hrest

/-- What stands after the first occurrence of `d` is shorter, unless `d` is empty. -/
theorem length_lt_of_breakOn? {d s before after : Bytes} (hd : d ≠ [])
    (h : breakOn? d s = some (before, after)) : after.length < s.length := by
  induction s generalizing before with
  | nil => simp [breakOn?, hd] at h
  | cons c s ih =>
    rw [breakOn?] at h
    split at h
    · cases h
      have := List.length_pos_iff.2 hd
      simp only [List.length_drop, List.length_cons]
      omega
    · obtain ⟨⟨b, a⟩, hb, heq⟩ := Option.map_eq_some_iff.1 h
      cases heq
      exact Nat.lt_succ_of_lt (ih hb)

end Bytes

end EndpointRules
