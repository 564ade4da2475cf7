import Mathlib.Data.List.Basic
import EndpointRules.Proofs.Image.Tables
import EndpointRules.Proofs.Image.Unique
import EndpointRules.Proofs.Image.Writer

/-!
# Round trips between programs and images

A program that is written to an image is read back from it.  An image that can be read is written
back as the canonical image of its tables, which is no longer.
-/

namespace EndpointRules

namespace Image

variable {image : Array UInt8} {registry : Registry} {allowUnresolved : Bool} {p : Program}

/-! ## Linking -/

theorem link_eq_ok {functions : Array Slot}
    (hlinked : ∀ slot ∈ functions, registry.get? slot.name = slot.function)
    (hallowed : allowUnresolved = true ∨ ∀ slot ∈ functions, slot.function.isSome) :
    link registry allowUnresolved (functions.map (·.name)) = .ok functions := by
  have hslots : (functions.map (·.name)).map (fun name => Slot.mk name (registry.get? name)) =
      functions := by
    rw [Array.map_map]
    refine (Array.map_congr_left fun slot hslot => ?_).trans (Array.map_id functions)
    rw [Function.comp_apply, hlinked slot hslot]
    rfl
  have hcomplete : allowUnresolved = true ∨ ((functions.map (·.name)).toList.filter fun name =>
      (registry.get? name).isNone) = [] := by
    refine hallowed.imp_right fun hall => List.filter_eq_nil_iff.2 fun name hname => ?_
    obtain ⟨slot, hslot, rfl⟩ := Array.mem_map.1 (Array.mem_toList_iff.1 hname)
    rw [hlinked slot hslot, Option.isNone_eq_false_iff.2 (hall slot hslot)]
    decide
  unfold link
  rw [hslots]
  refine if_pos ?_
  rcases hcomplete with rfl | hcomplete
  · rfl
  · rw [hcomplete]
    exact Bool.or_true _

theorem names_of_link {names : Array Bytes} {functions : Array Slot}
    (h : link registry allowUnresolved names = .ok functions) : functions.map (·.name) = names := by
  unfold link at h
  dsimp only at h
  split at h
  · cases h
    exact Array.map_map.trans (Array.map_id names)
  · cases h

/-- What is done with the tables of an image. -/
theorem decode_of_tables {t : Tables} (h : tables image = .ok t) :
    decode image registry allowUnresolved = (do
      let functions ← (link registry allowUnresolved t.names).mapError .compile
      Program.create { t.parts with functions }) := by
  rw [decode, h]
  rfl

theorem decode_eq_ok_iff :
    decode image registry allowUnresolved = .ok p ↔ ∃ t functions, tables image = .ok t ∧
      link registry allowUnresolved t.names = .ok functions ∧
        Program.create { t.parts with functions } = .ok p := by
  simp only [decode, Except.bind_eq_ok_iff, Except.mapError_eq_ok_iff]
  constructor
  · rintro ⟨t, ht, functions, hlink, hcreate⟩
    exact ⟨t, functions, ht, hlink, hcreate⟩
  · rintro ⟨t, functions, ht, hlink, hcreate⟩
    exact ⟨t, ht, functions, hlink, hcreate⟩

/-! ## From programs to images and back -/

/-- Decoding undoes encoding.  A program whose maps are in order, as maps are, and whose tables
    before the constants end below 2 ^ 32 has an image exactly if all that it holds can be written.
    The image is read as the program itself if the registry has the program's functions. -/
theorem decode_encode (hversion : p.parts.version = imageVersion) (hvalues : p.parts.WellFormed)
    (hpool : (Layout.ofParts p.parts).constantPool < 2 ^ 32) :
    ((∃ image, encode p = .ok image) ↔ p.parts.Storable) ∧
      ∀ image registry allowUnresolved, encode p = .ok image →
        (∀ slot ∈ p.parts.functions, registry.get? slot.name = slot.function) →
        (allowUnresolved = true ∨ ∀ slot ∈ p.parts.functions, slot.function.isSome) →
          decode image registry allowUnresolved = .ok p := by
  constructor
  · constructor
    · rintro ⟨image, himage⟩
      exact ((encode_eq_ok_iff hversion).1 himage).1
    · intro hstorable
      exact ⟨_, (encode_eq_ok_iff hversion).2 ⟨hstorable, rfl⟩⟩
  · intro image registry allowUnresolved himage hlinked hallowed
    obtain ⟨hstorable, rfl⟩ := (encode_eq_ok_iff hversion).1 himage
    have htables := tables_eq_ok_iff.2 ⟨_, Layout.fits_ofParts hstorable hpool, rfl,
      Layout.tables_ofParts hversion hstorable hvalues⟩
    exact decode_eq_ok_iff.2 ⟨_, p.parts.functions, htables, link_eq_ok hlinked hallowed,
      p.create_parts⟩

/-- A function that returns its argument. -/
def echo : Function where
  name := "echo"
  arity := 1
  apply
    | [v] => .ok v
    | _ => .ok .null

/-- A program with a result that calls a function. -/
def stored : Program where
  parts := {
    code := #[0x00, 0x00, 0x14, 0x00, 0x28]
    results := #[0]
    registers := #[{
      name := "Region"
      required := true
      defaultValue := some (.map [("a", .integer (-1)), ("b", .boolean true)]) }]
    constants := #[.list [.string "us", .template [.text "//", .slot]]]
    functions := #[{ name := "echo", function := some echo }]
    diagram := { entries := #[], root := 100000000 } }
  starts := [0]
  starts_eq := by decide
  check_eq := by cbv

/-- The image of `stored`. -/
def storedImage : Array UInt8 := #[
  0x52, 0x55, 0x4C, 0x45, 1, 1, 0, 0, 0, 1, 0, 1, 0, 1, 0, 1, 0, 0, 0, 0, 5, 245, 225, 0,
  0, 0, 0, 44, 0, 0, 0, 44, 0, 0, 0, 48, 0, 0, 0, 87, 0, 0, 0, 82,
  0, 0, 0, 82, 0, 4, 101, 99, 104, 111,
  0, 6, 82, 101, 103, 105, 111, 110, 1, 0,
  1, 5, 0, 2, 0, 1, 97, 2, 255, 255, 255, 255, 0, 1, 98, 3, 1, 0,
  0, 0, 20, 0, 40,
  4, 0, 2, 1, 0, 2, 117, 115, 6, 0, 2, 0, 0, 2, 47, 47, 1]

theorem wellFormed_stored : stored.parts.WellFormed where
  registers := by
    intro r hr v hv
    obtain rfl := Array.mem_singleton.1 hr
    cases hv
    exact ⟨Dict.isSorted_iff.1 rfl, trivial, trivial, trivial⟩
  constants := by
    intro v hv
    obtain rfl := Array.mem_singleton.1 hv
    exact ⟨trivial, trivial, trivial⟩

/-- The program is read from its image. -/
theorem decode_storedImage :
    encode stored = .ok storedImage ∧
      decode storedImage (Registry.ofList [echo]) false = .ok stored := by
  have hencode : encode stored = .ok storedImage := by cbv
  have hpool : (Layout.ofParts stored.parts).constantPool < 2 ^ 32 := by decide
  have hlinked : ∀ slot ∈ stored.parts.functions,
      (Registry.ofList [echo]).get? slot.name = slot.function := by
    intro slot hslot
    obtain rfl := Array.mem_singleton.1 hslot
    rfl
  have hall : ∀ slot ∈ stored.parts.functions, slot.function.isSome := by
    intro slot hslot
    obtain rfl := Array.mem_singleton.1 hslot
    rfl
  exact ⟨hencode, (decode_encode rfl wellFormed_stored hpool).2 _ _ _ hencode hlinked (.inr hall)⟩

/-! ## From images to programs and back -/

/-- Encoding undoes decoding up to the choice of the writer.  What has been read from an image can
    be written, the new image is no longer and is read as the same program, and it is the old one
    exactly if the only layout of that is canonical. -/
theorem encode_decode (h : decode image registry allowUnresolved = .ok p) :
    ∃ image', encode p = .ok image' ∧ image'.size ≤ image.size ∧
      decode image' registry allowUnresolved = .ok p ∧
        ∃ w : Layout, w.Fits ∧ w.bytes = image.toList ∧
          (∀ w' : Layout, w'.Fits → w'.bytes = image.toList → w' = w) ∧
            (image' = image ↔ w.Canonical) := by
  obtain ⟨t, functions, htables, hlink, hcreate⟩ := decode_eq_ok_iff.1 h
  obtain ⟨w, hw, hbytes, rfl⟩ := tables_eq_ok_iff.1 htables
  have hparts : p.parts = { w.tables.parts with functions } := Program.parts_of_create hcreate
  have hlayout : Layout.ofParts p.parts = w.normal := by
    rw [hparts]
    exact Layout.ofParts_eq_normal (names_of_link hlink)
  have hnormal := Layout.fits_normal hw
  have hversion : p.parts.version = imageVersion := by rw [hparts]; rfl
  have hstorable : p.parts.Storable := by
    rw [hparts]
    exact Layout.storable_tables hw (names_of_link hlink)
  refine ⟨w.normal.bytes.toArray, ?_, ?_, ?_, w, hw, hbytes, ?_, ?_⟩
  · exact (encode_eq_ok_iff hversion).2 ⟨hstorable, by rw [hlayout]⟩
  · rw [List.size_toArray, ← Array.length_toList, ← hbytes]
    exact Layout.length_bytes_normal_le hw
  · have htables' : tables w.normal.bytes.toArray = .ok w.tables :=
      tables_eq_ok_iff.2 ⟨w.normal, hnormal, rfl, Layout.tables_normal hw⟩
    rw [decode_of_tables htables', ← decode_of_tables htables, h]
  · intro w' hw' hbytes'
    exact Layout.eq_of_bytes_eq hw' hw (hbytes'.trans hbytes.symm)
  · rw [← Layout.normal_eq_iff hw, ← Array.toList_inj, ← hbytes]
    constructor
    · exact Layout.eq_of_bytes_eq hnormal hw
    · intro heq
      rw [heq]

/-- A program with a constant and nothing else. -/
def constantOnly : Program where
  parts := { constants := #[.boolean true], diagram := { entries := #[], root := 1 } }
  starts := []
  starts_eq := by decide
  check_eq := by cbv

/-- An image of `constantOnly` in which the byte of the constant is 2. -/
def looseImage : Array UInt8 := #[
  0x52, 0x55, 0x4C, 0x45, 1, 1, 0, 0, 0, 0, 0, 0, 0, 1, 0, 0, 0, 0, 0, 0, 0, 0, 0, 1,
  0, 0, 0, 44, 0, 0, 0, 44, 0, 0, 0, 44, 0, 0, 0, 44, 0, 0, 0, 44, 3, 2]

/-- The loose image is written again, and as another one. -/
theorem encode_looseImage :
    decode looseImage [] false = .ok constantOnly ∧
      ∃ image', encode constantOnly = .ok image' ∧ image'.size ≤ looseImage.size ∧
        decode image' [] false = .ok constantOnly ∧
          ∃ w : Layout, w.Fits ∧ w.bytes = looseImage.toList ∧
            (∀ w' : Layout, w'.Fits → w'.bytes = looseImage.toList → w' = w) ∧
              (image' = looseImage ↔ w.Canonical) := by
  have htables : tables looseImage = .ok { names := #[], parts := constantOnly.parts } := by cbv
  have hlink : link [] false #[] = .ok #[] := by cbv
  have hdecode : decode looseImage [] false = .ok constantOnly :=
    decode_eq_ok_iff.2 ⟨_, #[], htables, hlink, constantOnly.create_parts⟩
  exact ⟨hdecode, encode_decode hdecode⟩

end Image

end EndpointRules
