import EndpointRules.Bytes

/-!
# Absolute URIs

A URI is a text `scheme://authority[path][?query][#fragment]` with a non-empty authority.  It is
cut from the outside in: the scheme ends at the first `://`, the fragment starts at the first
`#`, the query at the first `?` before it, the path at the first `/` before that.  Every component
may hold any byte except blanks, control characters and a few marks; square brackets belong to the
authority alone, and each `%` starts an escape of two hexadecimal digits.

`Uri` keeps the text together with the proof that its components are those of the text, so two
URIs with one text are equal.
-/

namespace EndpointRules

open Bytes

namespace Uri

/-- What a URI consists of.  `host` is the part of the authority behind the user information and
    before the colon that ends it; a host in brackets keeps them. -/
structure Components where
  scheme : Bytes
  authority : Bytes
  host : Bytes
  path : Bytes
  query : Option Bytes
  fragment : Option Bytes
  deriving DecidableEq, Repr

/-- Letters, digits, `+`, `-` and `.`. -/
def isSchemeByte (c : UInt8) : Bool :=
  isAlnum c || c == '+'.toUInt8 || c == '-'.toUInt8 || c == '.'.toUInt8

/-- A letter followed by bytes of a scheme. -/
def isScheme : Bytes → Bool
  | [] => false
  | c :: rest => isAlpha c && rest.all isSchemeByte

/-- `[` or `]`. -/
def isBracket (c : UInt8) : Bool := c == '['.toUInt8 || c == ']'.toUInt8

/-- The printable marks that no component holds: quotation mark, angle brackets, backslash,
    circumflex, grave accent, braces and bar. -/
def barredMarks : List UInt8 := [0x22, 0x3C, 0x3E, 0x5C, 0x5E, 0x60, 0x7B, 0x7C, 0x7D]

/-- A byte other than `%` that a component may hold. -/
def isPlain (brackets : Bool) (c : UInt8) : Bool :=
  0x20 < c && c != 0x7F && !barredMarks.contains c && (brackets || !isBracket c)

/-- A component of plain bytes and complete escapes. -/
def isComponent (brackets : Bool) : Bytes → Bool
  | [] => true
  | c :: rest =>
    if c == '%'.toUInt8 then
      match rest with
      | a :: b :: rest => isHexDigit a && isHexDigit b && isComponent brackets rest
      | _ => false
    else isPlain brackets c && isComponent brackets rest

/-- The host of an authority.  After the last `@` stands either a bracketed host, or a host
    without brackets up to the last `:`; behind the host there may be a colon and digits. -/
def hostOf? (authority : Bytes) : Option Bytes :=
  let hostPort := afterLast '@'.toUInt8 authority
  if hostPort.head? == some '['.toUInt8 then
    match cut ']'.toUInt8 hostPort with
    | (_, none) => none
    | (inner, some []) => some (inner ++ [']'.toUInt8])
    | (inner, some (mark :: number)) =>
      if mark == ':'.toUInt8 && number.all isDigit then some (inner ++ [']'.toUInt8]) else none
  else if hostPort.isEmpty || hostPort.any isBracket then none
  else match cutLast? ':'.toUInt8 hostPort with
    | none => some hostPort
    | some (host, number) => if !host.isEmpty && number.all isDigit then some host else none

/-- Cuts a text into the components of a URI, if it is one. -/
def Components.ofText? (text : Bytes) : Option Components := do
  let (scheme, rest) ← breakOn? "://" text
  let (rest, fragment) := cut '#'.toUInt8 rest
  let (rest, query) := cut '?'.toUInt8 rest
  let authority := rest.takeWhile (· != '/'.toUInt8)
  let path := rest.dropWhile (· != '/'.toUInt8)
  guard (isScheme scheme)
  guard (!authority.isEmpty && isComponent true authority && isComponent false path)
  guard (isComponent false (query.getD []) && isComponent false (fragment.getD []))
  guard (!(fragment.getD []).contains '#'.toUInt8)
  let host ← hostOf? authority
  pure { scheme, authority, host, path, query, fragment }

end Uri

/-- A URI: its text, and the components the text is cut into. -/
structure Uri where
  text : Bytes
  components : Uri.Components
  ofText?_eq : Uri.Components.ofText? text = some components

namespace Uri

/-- Reads a URI. -/
def parse? (text : Bytes) : Option Uri :=
  match h : Components.ofText? text with
  | none => none
  | some components => some { text, components, ofText?_eq := h }

/-- URIs with one text are equal, since the text decides the components. -/
@[ext] theorem ext_text {a b : Uri} (h : a.text = b.text) : a = b := by
  obtain ⟨text, components, ha⟩ := a
  obtain ⟨text', components', hb⟩ := b
  cases h
  obtain rfl : components = components' := Option.some.inj (ha.symm.trans hb)
  rfl

instance : DecidableEq Uri := fun a b =>
  if h : a.text = b.text then isTrue (ext_text h) else isFalse fun e => h (e ▸ rfl)

theorem text_of_parse? {text : Bytes} {u : Uri} (h : parse? text = some u) : u.text = text := by
  unfold parse? at h
  split at h <;> cases h
  rfl

theorem parse?_text (u : Uri) : parse? u.text = some u := by
  unfold parse?
  split
  · next h => rw [u.ofText?_eq] at h; cases h
  · exact congrArg some (ext_text rfl)

/-- Whether a query mark was present, the query itself being possibly empty. -/
def hasQuery (u : Uri) : Bool := u.components.query.isSome

/-- The path with a slash at either end; a slash alone for the empty path. -/
def normalizedPath (u : Uri) : Bytes :=
  let slash := '/'.toUInt8
  let path := u.components.path
  let rooted := if path.head? == some slash then path else slash :: path
  if rooted.getLast? == some slash then rooted else rooted ++ [slash]

/-- The number that decimal digits stand for. -/
def ofDigits (digits : Bytes) : Nat := digits.foldl (fun n c => n * 10 + (c.toNat - 0x30)) 0

/-- One to three digits of value at most 255. -/
def isOctet (s : Bytes) : Bool :=
  !s.isEmpty && s.length ≤ 3 && s.all isDigit && ofDigits s ≤ 255

/-- Reads an octet up to the next dot or the end, `count` octets having been read before it.  The
    reading is over with a verdict, or goes on behind the dot with one octet more. -/
def readOctet (count : Nat) (host : Bytes) : Bool ⊕ (Nat × Bytes) :=
  match cut '.'.toUInt8 host with
  | (octet, behind) =>
    if !isOctet octet then .inl false
    else match behind with
      | none => .inl (count + 1 == 4)
      | some rest => .inr (count + 1, rest)

/-- What stands behind an octet is shorter. -/
theorem length_lt_of_readOctet {count count' : Nat} {host rest : Bytes}
    (h : readOctet count host = .inr (count', rest)) : rest.length < host.length := by
  unfold readOctet at h
  split at h
  next octet behind hcut =>
  split at h
  · cases h
  · cases behind with
    | none => cases h
    | some rest =>
      cases h
      exact length_lt_of_cut hcut

/-- Reads octets to the end of a host, `count` octets having been read before it: whether all are
    octets, and four of them. -/
def readOctets (count : Nat) (host : Bytes) : Bool :=
  match _h : readOctet count host with
  | .inl verdict => verdict
  | .inr (count, rest) => readOctets count rest
termination_by host.length
decreasing_by exact length_lt_of_readOctet ‹_›

/-- Four octets with single dots between them. -/
def isDottedQuad (host : Bytes) : Bool := readOctets 0 host

/-- Whether the host is an address: a dotted quad, or anything in brackets. -/
def isIp (u : Uri) : Bool :=
  let host := u.components.host
  (2 ≤ host.length && host.head? == some '['.toUInt8 && host.getLast? == some ']'.toUInt8)
    || isDottedQuad host

end Uri

end EndpointRules
