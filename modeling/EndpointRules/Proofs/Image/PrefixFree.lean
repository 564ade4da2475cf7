import EndpointRules.Proofs.Image.RoundTrip

/-!
# Images are prefix free

An image shows where it ends.  Bytes that are cut off anywhere inside an image, or that go on behind
one, are no image, and this is found out from the bytes alone: whatever functions there are, the
bytes are refused for their format.
-/

namespace EndpointRules

namespace Image

variable {image image' : Array UInt8} {registry : Registry} {allowUnresolved : Bool} {p : Program}

/-- No image is a proper start of another. -/
theorem eq_of_isPrefix {t t' : Tables} (ht : tables image = .ok t) (ht' : tables image' = .ok t')
    (h : image.toList <+: image'.toList) : image = image' := by
  obtain ⟨w, hw, hbytes, -⟩ := tables_eq_ok_iff.1 ht
  obtain ⟨w', hw', hbytes', -⟩ := tables_eq_ok_iff.1 ht'
  obtain ⟨rest, hrest⟩ := h
  have heq : w.bytes ++ rest = w'.bytes ++ [] := by
    rw [hbytes, hbytes', hrest, List.append_nil]
  obtain ⟨-, rfl⟩ := Layout.selfDelimiting hw hw' heq
  rw [List.append_nil] at hrest
  exact Array.toList_inj.1 hrest

theorem decode_of_tables_eq_error {e : FormatError} (h : tables image = .error e)
    (registry : Registry) (allowUnresolved : Bool) :
    decode image registry allowUnresolved = .error (.format e) := by
  rw [decode, h]
  rfl

/-- Where some bytes can be decoded, no proper start of them and no bytes that they are a proper
    start of can be: their format is wrong, whatever functions there are and whether or not
    functions may be missing. -/
theorem decode_eq_error_of_isPrefix (h : decode image registry allowUnresolved = .ok p)
    (hne : image' ≠ image)
    (hstart : image'.toList <+: image.toList ∨ image.toList <+: image'.toList)
    (registry' : Registry) (allowUnresolved' : Bool) :
    ∃ e, decode image' registry' allowUnresolved' = .error (.format e) := by
  obtain ⟨t, -, ht, -⟩ := decode_eq_ok_iff.1 h
  cases ht' : tables image' with
  | error e => exact ⟨e, decode_of_tables_eq_error ht' registry' allowUnresolved'⟩
  | ok t' =>
    rcases hstart with hshorter | hlonger
    · exact absurd (eq_of_isPrefix ht' ht hshorter) hne
    · exact absurd (eq_of_isPrefix ht ht' hlonger).symm hne

/-- The image of `stored` without its last byte, which belongs to a template in a list, and the
    image with another byte behind it. -/
theorem decode_eq_error_storedImage :
    decode storedImage (Registry.ofList [echo]) false = .ok stored ∧
      (storedImage.pop ≠ storedImage ∧ storedImage.pop.toList <+: storedImage.toList ∧
        ∀ registry allowUnresolved,
          ∃ e, decode storedImage.pop registry allowUnresolved = .error (.format e)) ∧
      (storedImage.push 0 ≠ storedImage ∧ storedImage.toList <+: (storedImage.push 0).toList ∧
        ∀ registry allowUnresolved,
          ∃ e, decode (storedImage.push 0) registry allowUnresolved = .error (.format e)) := by
  have hlinked : ∀ slot ∈ stored.parts.functions,
      (Registry.ofList [echo]).get? slot.name = slot.function := by
    intro slot hslot
    obtain rfl := Array.mem_singleton.1 hslot
    rfl
  have hall : ∀ slot ∈ stored.parts.functions, slot.function.isSome := by
    intro slot hslot
    obtain rfl := Array.mem_singleton.1 hslot
    rfl
  have htables : tables storedImage = .ok
      { names := stored.parts.functions.map (·.name)
        parts := { stored.parts with functions := #[] } } := by cbv
  have hdecode : decode storedImage (Registry.ofList [echo]) false = .ok stored :=
    decode_eq_ok_iff.2 ⟨_, _, htables, link_eq_ok hlinked (.inr hall), stored.create_parts⟩
  have hshorter : storedImage.pop ≠ storedImage := by decide
  have hlonger : storedImage.push 0 ≠ storedImage := by decide
  have hstart : storedImage.pop.toList <+: storedImage.toList := ⟨[1], rfl⟩
  have hstart' : storedImage.toList <+: (storedImage.push 0).toList := ⟨[0], rfl⟩
  exact ⟨hdecode,
    ⟨hshorter, hstart, decode_eq_error_of_isPrefix hdecode hshorter (.inl hstart)⟩,
    ⟨hlonger, hstart', decode_eq_error_of_isPrefix hdecode hlonger (.inr hstart')⟩⟩

end Image

end EndpointRules
