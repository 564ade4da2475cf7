import EndpointRules.Proofs.Dict
import EndpointRules.Proofs.Value
import EndpointRules.Proofs.Word

/-!
# Written forms of constants

A constant of an image is written in a form that says more than its value: any byte but 0 stands for
`true` and for a slot of a template, and the entries of a map come in any order and repeat keys.
The form of a value that is canonical is the one that the writer chooses, and it is the shortest.
-/

namespace EndpointRules

namespace Image

/-! ## Parts of templates -/

/-- How a part of a template is written. -/
inductive PartForm
  | text (s : Bytes)
  /-- A slot with its byte. -/
  | slot (byte : UInt8)

namespace PartForm

/-- The bytes of a part. -/
def bytes : PartForm → Bytes
  | text s => 0 :: Word.sized s
  | slot byte => [byte]

/-- The part that is written. -/
def value : PartForm → TemplatePart
  | text s => .text s
  | slot _ => .slot

/-- The length of a text fits two bytes, and the byte of a slot is not that of a text. -/
def Fits : PartForm → Prop
  | text s => s.length ≤ 0xFFFF
  | slot byte => byte ≠ 0

/-- The byte of a slot is 1. -/
def Canonical : PartForm → Prop
  | text _ => True
  | slot byte => byte = 1

/-- How the writer writes a part. -/
def ofPart : TemplatePart → PartForm
  | .text s => text s
  | .slot => slot 1

theorem value_ofPart (part : TemplatePart) : (ofPart part).value = part := by
  cases part <;> rfl

theorem ofPart_value_eq_iff {f : PartForm} : ofPart f.value = f ↔ f.Canonical := by
  cases f with
  | text s => exact ⟨fun _ => trivial, fun _ => rfl⟩
  | slot byte =>
    constructor
    · rintro ⟨⟩
      rfl
    · rintro rfl
      rfl

theorem length_ofPart_value (f : PartForm) : (ofPart f.value).bytes.length = f.bytes.length := by
  cases f <;> rfl

end PartForm

/-! ## Constants -/

/-- How a constant is written. -/
inductive Form
  | null
  | string (s : Bytes)
  | integer (n : Int32)
  /-- A boolean with its byte. -/
  | boolean (byte : UInt8)
  | list (items : List Form)
  /-- The entries of a map in the order in which they are written. -/
  | map (entries : List (Bytes × Form))
  | template (parts : List PartForm)

namespace Form

mutual

/-- The bytes of a constant. -/
def bytes : Form → Bytes
  | null => [0]
  | string s => 1 :: Word.sized s
  | integer n => 2 :: Word.bytes 4 n.toUInt32.toNat
  | boolean byte => [3, byte]
  | list items => 4 :: (Word.bytes 2 items.length ++ bytesOfItems items)
  | map entries => 5 :: (Word.bytes 2 entries.length ++ bytesOfEntries entries)
  | template parts => 6 :: (Word.bytes 2 parts.length ++ parts.flatMap PartForm.bytes)

/-- The bytes of the items of a list. -/
def bytesOfItems : List Form → Bytes
  | [] => []
  | f :: rest => f.bytes ++ bytesOfItems rest

/-- The bytes of the entries of a map. -/
def bytesOfEntries : List (Bytes × Form) → Bytes
  | [] => []
  | (key, f) :: rest => (Word.sized key ++ f.bytes) ++ bytesOfEntries rest

end

mutual

/-- The value of a constant. -/
def value : Form → Value
  | null => .null
  | string s => .string s
  | integer n => .integer n.toInt
  | boolean byte => .boolean (byte != 0)
  | list items => .list (valueOfItems items)
  | map entries => .map (Dict.ofPairs (valueOfEntries entries))
  | template parts => .template (parts.map PartForm.value)

/-- The values of the items of a list. -/
def valueOfItems : List Form → List Value
  | [] => []
  | f :: rest => f.value :: valueOfItems rest

/-- The values of the entries of a map. -/
def valueOfEntries : List (Bytes × Form) → List (Bytes × Value)
  | [] => []
  | (key, f) :: rest => (key, f.value) :: valueOfEntries rest

end

mutual

/-- How the writer writes a value; a URI, which it refuses, counts as null here. -/
def ofValue : Value → Form
  | .null => null
  | .string s => string s
  | .integer n => integer (Int32.ofInt n)
  | .boolean b => boolean (if b then 1 else 0)
  | .list items => list (ofItems items)
  | .map entries => map (ofEntries entries)
  | .template parts => template (parts.map PartForm.ofPart)
  | .uri _ => null

/-- How the writer writes the items of a list. -/
def ofItems : List Value → List Form
  | [] => []
  | v :: rest => ofValue v :: ofItems rest

/-- How the writer writes the entries of a map. -/
def ofEntries : List (Bytes × Value) → List (Bytes × Form)
  | [] => []
  | (key, v) :: rest => (key, ofValue v) :: ofEntries rest

end

/-- The bytes of an entry of a map. -/
def entryBytes (e : Bytes × Form) : Bytes := Word.sized e.1 ++ e.2.bytes

theorem bytesOfItems_eq (items : List Form) : bytesOfItems items = items.flatMap bytes := by
  induction items with
  | nil => rw [bytesOfItems, List.flatMap_nil]
  | cons f rest ih => rw [bytesOfItems, ih, List.flatMap_cons]

theorem bytesOfEntries_eq (entries : List (Bytes × Form)) :
    bytesOfEntries entries = entries.flatMap entryBytes := by
  induction entries with
  | nil => rw [bytesOfEntries, List.flatMap_nil]
  | cons e rest ih => rw [bytesOfEntries, ih, List.flatMap_cons, entryBytes]

theorem valueOfItems_eq (items : List Form) : valueOfItems items = items.map value := by
  induction items with
  | nil => rw [valueOfItems, List.map_nil]
  | cons f rest ih => rw [valueOfItems, ih, List.map_cons]

theorem valueOfEntries_eq (entries : List (Bytes × Form)) :
    valueOfEntries entries = entries.map fun e => (e.1, e.2.value) := by
  induction entries with
  | nil => rw [valueOfEntries, List.map_nil]
  | cons e rest ih => rw [valueOfEntries, ih, List.map_cons]

theorem ofItems_eq (items : List Value) : ofItems items = items.map ofValue := by
  induction items with
  | nil => rw [ofItems, List.map_nil]
  | cons v rest ih => rw [ofItems, ih, List.map_cons]

theorem ofEntries_eq (entries : List (Bytes × Value)) :
    ofEntries entries = entries.map fun e => (e.1, ofValue e.2) := by
  induction entries with
  | nil => rw [ofEntries, List.map_nil]
  | cons e rest ih => rw [ofEntries, ih, List.map_cons]

/-- The form can be read with a number of levels: it is not nested more deeply, and the lengths and
    counts in it fit two bytes. -/
def Fits : (levels : Nat) → Form → Prop
  | 0, _ => False
  | _ + 1, null | _ + 1, integer _ | _ + 1, boolean _ => True
  | _ + 1, string s => s.length ≤ 0xFFFF
  | levels + 1, list items => items.length ≤ 0xFFFF ∧ ∀ f ∈ items, Fits levels f
  | levels + 1, map entries =>
    entries.length ≤ 0xFFFF ∧ ∀ e ∈ entries, e.1.length ≤ 0xFFFF ∧ Fits levels e.2
  | _ + 1, template parts => parts.length ≤ 0xFFFF ∧ ∀ f ∈ parts, f.Fits

/-- At any depth the bytes of booleans and slots are 0 or 1, and the keys of every map ascend
    strictly. -/
inductive Canonical : Form → Prop
  | null : Canonical null
  | string (s : Bytes) : Canonical (string s)
  | integer (n : Int32) : Canonical (integer n)
  | boolean {byte : UInt8} (h : byte = 0 ∨ byte = 1) : Canonical (boolean byte)
  | list {items : List Form} (h : ∀ f ∈ items, Canonical f) : Canonical (list items)
  | map {entries : List (Bytes × Form)} (hkeys : Dict.Sorted entries)
      (h : ∀ e ∈ entries, Canonical e.2) : Canonical (map entries)
  | template {parts : List PartForm} (h : ∀ f ∈ parts, f.Canonical) : Canonical (template parts)

end Form

end Image

end EndpointRules
