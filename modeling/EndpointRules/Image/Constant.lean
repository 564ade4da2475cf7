import EndpointRules.Error
import EndpointRules.Sink
import EndpointRules.Source

/-!
# Constants in images

A constant is a tag byte and what the tag calls for.  Strings and keys stand behind their length,
collections behind their count, both in two bytes; an integer takes four bytes.  At most
`maxConstantDepth` containers enclose a constant, and a URI has no written form.
-/

namespace EndpointRules

namespace Image

/-! ## Writing -/

/-- Writes a string, if its length fits two bytes. -/
def writeString (out : Sink) (s : Bytes) : Except CompileError Sink :=
  if 0xFFFF < s.length then .error (.stringTooLong s.length) else .ok (out.string s)

/-- Writes a count, if it fits two bytes. -/
def writeCount (out : Sink) (what : Counted) (count : Nat) : Except CompileError Sink :=
  if 0xFFFF < count then .error (.countTooLarge what count) else .ok (out.u16 count)

/-- Writes the parts of a template: 1 for a slot, 0 and the text for any other part. -/
def writeParts : List TemplatePart → Sink → Except CompileError Sink
  | [], out => .ok out
  | .slot :: rest, out => writeParts rest (out.u8 1)
  | .text s :: rest, out =>
    match writeString (out.u8 0) s with
    | .error e => .error e
    | .ok out => writeParts rest out

mutual

/-- Writes a constant that `depth` containers enclose. -/
def writeConstant (depth : Nat) (v : Value) (out : Sink) : Except CompileError Sink :=
  if maxConstantDepth < depth then .error .constantTooDeep
  else match v with
  | .null => .ok (out.u8 0)
  | .string s => writeString (out.u8 1) s
  | .integer n =>
    if n < -2147483648 || 2147483647 < n then .error (.integerTooLarge n)
    else .ok ((out.u8 2).i32 (Int32.ofInt n))
  | .boolean b => .ok ((out.u8 3).u8 (if b then 1 else 0))
  | .list items =>
    match writeCount (out.u8 4) .list items.length with
    | .error e => .error e
    | .ok out => writeItems depth items out
  | .map entries =>
    match writeCount (out.u8 5) .map entries.length with
    | .error e => .error e
    | .ok out => writeEntries depth entries out
  | .template parts =>
    match writeCount (out.u8 6) .template parts.length with
    | .error e => .error e
    | .ok out => writeParts parts out
  | .uri u => .error (.uriConstant u.text)

/-- Writes the items of a list that `depth` containers enclose. -/
def writeItems (depth : Nat) : List Value → Sink → Except CompileError Sink
  | [], out => .ok out
  | v :: rest, out =>
    match writeConstant (depth + 1) v out with
    | .error e => .error e
    | .ok out => writeItems depth rest out

/-- Writes the entries of a map that `depth` containers enclose. -/
def writeEntries (depth : Nat) : List (Bytes × Value) → Sink → Except CompileError Sink
  | [], out => .ok out
  | (key, v) :: rest, out =>
    match writeString out key with
    | .error e => .error e
    | .ok out =>
      match writeConstant (depth + 1) v out with
      | .error e => .error e
      | .ok out => writeEntries depth rest out

end

/-! ## Reading -/

/-- A reader of binary data; a read past the end is an error. -/
def Reading (α : Type) : Type := Source → Except FormatError (α × Source)

namespace Reading

instance : Monad Reading where
  pure x := fun s => .ok (x, s)
  bind m k := fun s =>
    match m s with
    | .ok (x, s) => k x s
    | .error e => .error e

theorem pure_apply {α : Type} (x : α) (s : Source) : (pure x : Reading α) s = .ok (x, s) := rfl

theorem bind_apply {α β : Type} (m : Reading α) (k : α → Reading β) (s : Source) :
    (m >>= k) s = match m s with
      | .ok (x, s) => k x s
      | .error e => .error e := rfl

/-- The reader that ends in an error. -/
def fail {α : Type} (e : FormatError) : Reading α := fun _ => .error e

/-- The reader that goes on if a check succeeds. -/
def require (check : Except FormatError Unit) : Reading Unit := fun s =>
  match check with
  | .ok () => .ok ((), s)
  | .error e => .error e

/-- The offset of the next read. -/
def position : Reading Nat := fun s => .ok (s.position, s)

/-- Moves to an offset of the image. -/
def seek (offset : Nat) : Reading Unit := fun s => .ok ((), s.seek offset)

/-- The reader that makes a failed read of a source an error. -/
def checked {α : Type} (read : Source → α × Source) : Reading α := fun s =>
  match read s with
  | (x, s) =>
    match s.failure with
    | some offset => .error (.unexpectedEnd offset)
    | none => .ok (x, s)

end Reading

open Reading

/-- Reads `count` things one after the other behind those already read. -/
def readMany {α : Type} (read : Reading α) :
    (count : Nat) → Array α → Source → Except FormatError (Array α × Source)
  | 0, done, s => .ok (done, s)
  | count + 1, done, s =>
    match read s with
    | .error e => .error e
    | .ok (x, s) => readMany read count (done.push x) s

/-- Reads a part of a template: a slot unless its first byte is 0. -/
def readPart : Reading TemplatePart := do
  if (← checked Source.u8) != 0 then pure .slot
  else pure (.text (← checked Source.string))

/-- Reads an entry of a map with the given reader of values. -/
def readEntry (read : Reading Value) : Reading (Bytes × Value) := do
  let key ← checked Source.string
  let v ← read
  pure (key, v)

/-- Reads a constant of at most `levels` levels of nesting, the constant itself being one. -/
def readConstant : (levels : Nat) → Reading Value
  | 0 => fail .constantTooDeep
  | levels + 1 => do
    let start ← position
    match ← checked Source.u8 with
    | 0 => pure .null
    | 1 => return .string (← checked Source.string)
    | 2 => return .integer (← checked Source.i32).toInt
    | 3 => return .boolean ((← checked Source.u8) != 0)
    | 4 =>
      let count ← checked Source.u16
      return .list (← readMany (readConstant levels) count #[]).toList
    | 5 =>
      let count ← checked Source.u16
      let entries ← readMany (readEntry (readConstant levels)) count #[]
      return .map (Dict.ofPairs entries.toList)
    | 6 =>
      let count ← checked Source.u16
      return .template (← readMany readPart count #[]).toList
    | tag => fail (.unknownTag (UInt8.ofNat tag) start)

/-- Reads a constant that no container encloses. -/
def constant : Reading Value := readConstant (maxConstantDepth + 1)

end Image

end EndpointRules
