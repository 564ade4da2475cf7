import EndpointRules.Proofs.Image.Layout
import EndpointRules.Proofs.Program.Bodies

/-!
# Images of programs

A program has an image exactly if its names, registers and constants have written forms, and the
image is then that of the writer's layout of the program.
-/

namespace EndpointRules

/-- The names of the functions, the registers and the constants can be written. -/
structure Parts.Storable (p : Parts) : Prop where
  names : ∀ slot ∈ p.functions, slot.name.length ≤ 0xFFFF
  registers : ∀ r ∈ p.registers, r.Storable
  constants : ∀ v ∈ p.constants, v.Storable

/-- The defaults of the registers and the constants are well-formed values. -/
structure Parts.WellFormed (p : Parts) : Prop where
  registers : ∀ r ∈ p.registers, r.WellFormed
  constants : ∀ v ∈ p.constants, v.WellFormed

namespace Image

theorem appends_slot : Sink.Appends (fun out (slot : Slot) => writeString out slot.name)
    (·.name.length ≤ 0xFFFF) fun slot => Word.sized slot.name :=
  fun out slot => appends_string out slot.name

/-- Puts together the header, the offsets, the names and registers in `middle`, the diagram, the
    code and the constants in `pool`. -/
def assemble (p : Parts) (middle pool : Sink) : Array UInt8 :=
  let header := headerOf p middle.size
  let codeStart := header.diagramTable + 4 * p.diagram.entries.size
  let out := header.write {}
  let out := p.conditions.foldl (fun out offset => out.u32 (codeStart + offset)) out
  let out := p.results.foldl (fun out offset => out.u32 (codeStart + offset)) out
  let out := out.append middle.bytes
  let out := p.diagram.entries.foldl Sink.i32 out
  ((out.append p.code).append pool.bytes).bytes

theorem encode_eq (p : Program) : encode p = (do
    let names ← p.parts.functions.foldlM (fun out slot => writeString out slot.name) {}
    let middle ← p.parts.registers.foldlM writeRegister names
    let pool ← p.parts.constants.foldlM (fun out v => writeConstant 0 v out) {}
    return assemble p.parts middle pool) := rfl

theorem headerOf_eq {p : Parts} (h : p.version = imageVersion) :
    headerOf p (Layout.ofParts p).middle.length = (Layout.ofParts p).header := by
  refine (Header.mk.injEq ..).mpr ⟨h, ?_⟩
  simp [Layout.ofParts, Layout.conditionTable, Layout.resultTable, Layout.functionTable,
    Layout.diagramTable, Layout.codeStart, Layout.constantPool, Diagram.nodeCount, Layout.middle]

theorem middle_ofParts (p : Parts) : (Layout.ofParts p).middle =
    (p.functions.toList.flatMap fun slot => Word.sized slot.name) ++
      p.registers.toList.flatMap fun r => (RegisterForm.ofRegister r).bytes := by
  simp [Layout.middle, Layout.ofParts, List.flatMap_map]

theorem bytes_raw_empty (data : Bytes) : (({} : Sink).raw data).bytes = data.toArray := by
  rw [Sink.bytes_raw, Array.empty_append]

/-- The writer puts the pieces of a program together as its layout says. -/
theorem assemble_eq {p : Parts} (h : p.version = imageVersion) :
    assemble p (({} : Sink).raw (Layout.ofParts p).middle)
      (({} : Sink).raw (p.constants.toList.flatMap fun v => (Form.ofValue v).bytes)) =
        (Layout.ofParts p).bytes.toArray := by
  have hsize : (({} : Sink).raw (Layout.ofParts p).middle).size =
      (Layout.ofParts p).middle.length := by
    rw [Sink.size, bytes_raw_empty, List.size_toArray]
  have hcodeStart : (Layout.ofParts p).header.diagramTable + 4 * p.diagram.entries.size =
      (Layout.ofParts p).codeStart := rfl
  have hoffset (codeStart : Nat) : ∀ (out : Sink) (offset : Nat),
      out.u32 (codeStart + offset) = out.raw (Layout.offsetBytes codeStart offset) := fun _ _ => rfl
  have hentry : ∀ (out : Sink) (n : Int32), out.i32 n = out.raw (Layout.entryBytes n) :=
    fun _ _ => rfl
  rw [assemble, hsize, headerOf_eq h]
  rw [hcodeStart, ← Array.foldl_toList, ← Array.foldl_toList, ← Array.foldl_toList,
    Header.write_eq_raw, Sink.foldl_eq_raw (hoffset _), Sink.foldl_eq_raw (hoffset _),
    Sink.foldl_eq_raw hentry]
  simp only [Sink.append_eq_raw, Sink.raw_raw, bytes_raw_empty]
  simp [Layout.bytes, Layout.tail, Layout.ofParts, List.flatMap_map]

/-- When a program has an image, and which one. -/
theorem encode_eq_ok_iff {p : Program} (hversion : p.parts.version = imageVersion)
    {image : Array UInt8} :
    encode p = .ok image ↔
      p.parts.Storable ∧ (Layout.ofParts p.parts).bytes.toArray = image := by
  simp only [encode_eq, Except.bind_eq_ok_iff, ← Array.foldlM_toList, appends_slot.foldlM,
    appends_register.foldlM, appends_value.foldlM]
  constructor
  · rintro ⟨_, ⟨hnames, rfl⟩, _, ⟨hregisters, rfl⟩, _, ⟨hconstants, rfl⟩, himage⟩
    rw [Sink.raw_raw, ← middle_ofParts, assemble_eq hversion] at himage
    cases himage
    exact ⟨⟨by simpa using hnames, by simpa using hregisters, by simpa using hconstants⟩, rfl⟩
  · rintro ⟨⟨hnames, hregisters, hconstants⟩, rfl⟩
    refine ⟨_, ⟨by simpa using hnames, rfl⟩, _, ⟨by simpa using hregisters, rfl⟩, _,
      ⟨by simpa using hconstants, rfl⟩, ?_⟩
    rw [Sink.raw_raw, ← middle_ofParts, assemble_eq hversion]
    rfl

end Image

end EndpointRules
