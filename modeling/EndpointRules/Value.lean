import EndpointRules.Dict
import EndpointRules.Uri

/-!
# Values

The values that rules compute with.  Equality is structural and decidable; two URI values are equal
exactly when their texts are.  `Value.WellFormed` says that every map inside a value has its
entries in ascending order of their keys, which all operations of the library keep.
-/

namespace EndpointRules

/-- A part of a template: text, or a slot to be filled by a string. -/
inductive TemplatePart
  | text (text : Bytes)
  | slot
  deriving DecidableEq, Repr

/-- A value.  The entries of a map are in ascending order of their keys. -/
inductive Value
  | null
  | string (text : Bytes)
  | integer (n : Int)
  | boolean (b : Bool)
  | list (items : List Value)
  | map (entries : List (Bytes × Value))
  | template (parts : List TemplatePart)
  | uri (uri : Uri)

instance : Inhabited Value := ⟨.null⟩

/-- The kinds of values. -/
inductive Kind
  | null | string | integer | boolean | list | map | template | uri
  deriving DecidableEq, Repr

/-- How messages call a kind. -/
def Kind.name : Kind → Bytes
  | .null => "null"
  | .string => "string"
  | .integer => "integer"
  | .boolean => "boolean"
  | .list => "list"
  | .map => "map"
  | .template => "template"
  | .uri => "uri"

namespace TemplatePart

/-- Whether the part waits for an argument. -/
def isSlot : TemplatePart → Bool
  | .slot => true
  | .text _ => false

end TemplatePart

namespace Value

/-- The kind of a value. -/
def kind : Value → Kind
  | .null => .null
  | .string _ => .string
  | .integer _ => .integer
  | .boolean _ => .boolean
  | .list _ => .list
  | .map _ => .map
  | .template _ => .template
  | .uri _ => .uri

/-- The bytes of a string. -/
def string? : Value → Option Bytes
  | .string s => some s
  | _ => none

/-- The truth of a boolean. -/
def boolean? : Value → Option Bool
  | .boolean b => some b
  | _ => none

/-! ## Questions asked of a value -/

/-- Everything but null is set. -/
def isSet : Value → Bool
  | .null => false
  | _ => true

/-- Null, and nothing else. -/
def isNull (v : Value) : Bool := !v.isSet

/-- The boolean true, and nothing else. -/
def isTrue : Value → Bool
  | .boolean b => b
  | _ => false

/-- The boolean false, and nothing else. -/
def isFalse : Value → Bool
  | .boolean b => !b
  | _ => false

/-- A condition holds unless its value is null or false. -/
def truthy (v : Value) : Bool := v.isSet && !v.isFalse

/-- The number of slots of a template. -/
def slotCount (parts : List TemplatePart) : Nat := parts.countP TemplatePart.isSlot

/-! ## Access -/

/-- What a URI answers to a property name; null for a name it does not know. -/
def ofUriProperty (u : Uri) (name : Bytes) : Value :=
  if name == Bytes.ofString "scheme" then .string u.components.scheme
  else if name == Bytes.ofString "authority" then .string u.components.authority
  else if name == Bytes.ofString "path" then .string u.components.path
  else if name == Bytes.ofString "normalizedPath" then .string u.normalizedPath
  else if name == Bytes.ofString "isIp" then .boolean u.isIp
  else .null

/-- The entry of a map, or the property of a URI; null for a missing name and for every other
    kind of value. -/
def property (v : Value) (name : Bytes) : Value :=
  match v with
  | .map entries => (Dict.get? entries name).getD .null
  | .uri u => ofUriProperty u name
  | _ => .null

/-- An element of a list; null outside the list and for every other kind of value. -/
def index (v : Value) (i : Int) : Value :=
  match v with
  | .list items => if i < 0 then .null else items.getD i.toNat .null
  | _ => .null

/-! ## Equality -/

mutual

/-- Whether two values are the same. -/
def same : Value → Value → Bool
  | .null, .null => true
  | .string a, .string b => a == b
  | .integer a, .integer b => a == b
  | .boolean a, .boolean b => a == b
  | .list xs, .list ys => sameItems xs ys
  | .map xs, .map ys => sameEntries xs ys
  | .template a, .template b => a == b
  | .uri a, .uri b => a == b
  | _, _ => false

/-- Whether two lists hold the same values in order. -/
def sameItems : List Value → List Value → Bool
  | [], [] => true
  | x :: xs, y :: ys => same x y && sameItems xs ys
  | _, _ => false

/-- Whether two lists hold the same entries in order. -/
def sameEntries : List (Bytes × Value) → List (Bytes × Value) → Bool
  | [], [] => true
  | (k, x) :: xs, (l, y) :: ys => k == l && same x y && sameEntries xs ys
  | _, _ => false

end

mutual

theorem same_iff : (a b : Value) → (same a b = true ↔ a = b)
  | .null, b | .string _, b | .integer _, b | .boolean _, b | .template _, b | .uri _, b => by
    cases b <;> simp [same]
  | .list xs, b => by cases b <;> simp [same, sameItems_iff xs]
  | .map xs, b => by cases b <;> simp [same, sameEntries_iff xs]

theorem sameItems_iff : (a b : List Value) → (sameItems a b = true ↔ a = b)
  | [], b => by cases b <;> simp [sameItems]
  | x :: xs, b => by cases b <;> simp [sameItems, same_iff x, sameItems_iff xs]

theorem sameEntries_iff : (a b : List (Bytes × Value)) → (sameEntries a b = true ↔ a = b)
  | [], b => by cases b <;> simp [sameEntries]
  | (k, x) :: xs, b => by
    cases b <;> simp [sameEntries, same_iff x, sameEntries_iff xs, Prod.ext_iff]

end

instance : DecidableEq Value := fun a b => decidable_of_iff _ (same_iff a b)

/-! ## Order inside maps -/

mutual

/-- Every map inside the value has its entries in ascending order of their keys. -/
def WellFormed : Value → Prop
  | .list items => WellFormedItems items
  | .map entries => Dict.Sorted entries ∧ WellFormedEntries entries
  | _ => True

/-- Every item is well formed. -/
def WellFormedItems : List Value → Prop
  | [] => True
  | v :: rest => WellFormed v ∧ WellFormedItems rest

/-- The value of every entry is well formed. -/
def WellFormedEntries : List (Bytes × Value) → Prop
  | [] => True
  | (_, v) :: rest => WellFormed v ∧ WellFormedEntries rest

end

end Value

end EndpointRules
