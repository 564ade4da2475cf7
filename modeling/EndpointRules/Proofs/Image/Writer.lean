import EndpointRules.Proofs.Image.Encode
import EndpointRules.Proofs.Image.Sections

/-!
# Layouts that the writer chooses

The layout of a program that can be written fits and holds the program's tables.  For the tables of
a given layout the writer chooses one that is no longer, and the given one exactly if it is
canonical.
-/

namespace EndpointRules

namespace Image

namespace Layout

/-! ## Layouts of programs -/

theorem fits_ofParts {p : Program} (h : p.parts.Storable)
    (hpool : (ofParts p.parts).constantPool < 2 ^ 32) : (ofParts p.parts).Fits := by
  obtain ⟨hregisters, hconstants, hfunctions, hconditions, hresults⟩ :=
    Parts.checkSizes_eq_ok_iff.1 p.checked.sizes
  exact {
    conditionCount := by simpa [ofParts] using hconditions
    conditions := by simpa [ofParts] using p.checked.conditions
    resultCount := by simpa [ofParts] using hresults
    results := by simpa [ofParts] using p.checked.results
    nameCount := by
      simp only [ofParts, List.length_map, Array.length_toList]
      omega
    names := by simpa [ofParts] using h.names
    registerCount := by simpa [ofParts] using hregisters
    registers := by
      intro f hf
      obtain ⟨r, hr, rfl⟩ := List.mem_map.1 hf
      exact RegisterForm.fits_ofRegister (h.registers r (Array.mem_toList_iff.1 hr))
    entries := by
      simpa [ofParts] using Diagram.size_mod_three_of_validate p.checked.diagram
    constantCount := by simpa [ofParts] using hconstants
    constants := by
      intro f hf
      obtain ⟨v, hv, rfl⟩ := List.mem_map.1 hf
      exact Form.fits_ofValue (Value.storable_iff.1 (h.constants v (Array.mem_toList_iff.1 hv)))
    constantPool := hpool }

theorem tables_ofParts {p : Parts} (hversion : p.version = imageVersion) (h : p.Storable)
    (hp : p.WellFormed) :
    (ofParts p).tables =
      { names := p.functions.map (·.name), parts := { p with functions := #[] } } := by
  have hnames : (p.functions.toList.map (·.name)).toArray = p.functions.map (·.name) := by
    rw [← Array.toList_map, Array.toArray_toList]
  have hregisters : (p.registers.toList.map RegisterForm.ofRegister).map RegisterForm.value =
      p.registers.toList := by
    rw [List.map_map]
    refine map_eq_self_iff.2 fun r hr => ?_
    have hr := Array.mem_toList_iff.1 hr
    exact RegisterForm.value_ofRegister (h.registers r hr) (hp.registers r hr)
  have hconstants : (p.constants.toList.map Form.ofValue).map Form.value = p.constants.toList := by
    rw [List.map_map]
    refine map_eq_self_iff.2 fun v hv => ?_
    have hv := Array.mem_toList_iff.1 hv
    exact Form.value_ofValue (Value.storable_iff.1 (h.constants v hv)) (hp.constants v hv)
  rw [tables, ofParts]
  dsimp only
  rw [hnames, hregisters, hconstants, ← hversion]

/-! ## Layouts of tables -/

variable {w : Layout}

/-- The layout that the writer chooses for the tables of a layout. -/
def normal (w : Layout) : Layout where
  root := w.root
  conditions := w.conditions
  results := w.results
  names := w.names
  registers := w.registers.map fun r => RegisterForm.ofRegister r.value
  entries := w.entries
  code := w.code
  constants := w.constants.map fun f => Form.ofValue f.value

theorem ofParts_eq_normal {functions : Array Slot}
    (h : functions.map (·.name) = w.tables.names) :
    ofParts { w.tables.parts with functions } = w.normal := by
  have hnames : functions.toList.map (·.name) = w.names := by
    rw [← Array.toList_map, h]
    rfl
  rw [ofParts, hnames]
  simp [tables, normal, List.map_map, Function.comp_def]

theorem storable_tables {functions : Array Slot} (hw : w.Fits)
    (h : functions.map (·.name) = w.tables.names) :
    Parts.Storable { w.tables.parts with functions } where
  names slot hslot := by
    have hname : slot.name ∈ w.tables.names := by
      rw [← h]
      exact Array.mem_map_of_mem hslot
    exact hw.names _ (List.mem_toArray.1 hname)
  registers r hr := by
    obtain ⟨f, hf, rfl⟩ := List.mem_map.1 (List.mem_toArray.1 hr)
    exact RegisterForm.storable_value (hw.registers f hf)
  constants v hv := by
    obtain ⟨f, hf, rfl⟩ := List.mem_map.1 (List.mem_toArray.1 hv)
    exact Value.storable_iff.2 (Form.fits_value (hw.constants f hf))

theorem length_middle_normal_le (hw : w.Fits) : w.normal.middle.length ≤ w.middle.length := by
  simp only [middle, normal, List.length_append, List.length_flatMap, List.map_map]
  refine Nat.add_le_add_left (List.sum_le_sum fun r hr => ?_) _
  exact RegisterForm.length_ofRegister_value_le (hw.registers r hr)

theorem constantPool_normal_le (hw : w.Fits) : w.normal.constantPool ≤ w.constantPool := by
  have hmiddle := length_middle_normal_le hw
  simp only [constantPool, codeStart, diagramTable, functionTable, resultTable, conditionTable] at *
  simp only [normal, List.length_nil] at *
  omega

/-- The writer's layout is no longer than any other of the same tables. -/
theorem length_bytes_normal_le (hw : w.Fits) : w.normal.bytes.length ≤ w.bytes.length := by
  rw [length_bytes, length_bytes]
  refine Nat.add_le_add (constantPool_normal_le hw) ?_
  simp only [normal, List.length_flatMap, List.map_map]
  exact List.sum_le_sum fun f hf => Form.length_ofValue_value_le (hw.constants f hf)

theorem fits_normal (hw : w.Fits) : w.normal.Fits := { hw with
  registerCount := by simpa [normal] using hw.registerCount
  registers := by
    intro f hf
    obtain ⟨r, hr, rfl⟩ := List.mem_map.1 hf
    exact RegisterForm.fits_ofRegister (RegisterForm.storable_value (hw.registers r hr))
  constantCount := by simpa [normal] using hw.constantCount
  constants := by
    intro f hf
    obtain ⟨g, hg, rfl⟩ := List.mem_map.1 hf
    exact Form.fits_ofValue (Form.fits_value (hw.constants g hg))
  constantPool := Nat.lt_of_le_of_lt (constantPool_normal_le hw) hw.constantPool }

theorem tables_normal (hw : w.Fits) : w.normal.tables = w.tables := by
  have hregisters : (w.registers.map fun r => RegisterForm.ofRegister r.value).map
      RegisterForm.value = w.registers.map RegisterForm.value := by
    rw [List.map_map]
    refine List.map_inj_left.2 fun r hr => ?_
    have hfits := hw.registers r hr
    exact RegisterForm.value_ofRegister (RegisterForm.storable_value hfits)
      (RegisterForm.wellFormed_value hfits)
  have hconstants : (w.constants.map fun f => Form.ofValue f.value).map Form.value =
      w.constants.map Form.value := by
    rw [List.map_map]
    refine List.map_inj_left.2 fun f hf => ?_
    have hfits := hw.constants f hf
    exact Form.value_ofValue (Form.fits_value hfits) (Form.wellFormed_value hfits)
  rw [tables, tables, normal]
  dsimp only
  rw [hregisters, hconstants]

/-- The first tables follow each other without a gap exactly if nothing stands between them. -/
theorem gaps_eq_nil_iff :
    (w.conditionGap = [] ∧ w.resultGap = [] ∧ w.functionGap = []) ↔
      w.header.conditionTable = headerSize ∧
        w.header.resultTable = w.header.conditionTable + 4 * w.header.conditionCount ∧
        w.header.functionTable = w.header.resultTable + 4 * w.header.resultCount := by
  simp only [header, functionTable, resultTable, conditionTable, ← List.length_eq_zero_iff]
  omega

/-- The writer chooses the layout itself exactly if it is canonical. -/
theorem normal_eq_iff (hw : w.Fits) : w.normal = w ↔ w.Canonical := by
  have hregisters : (w.registers.map fun r => RegisterForm.ofRegister r.value) = w.registers ↔
      ∀ r ∈ w.registers, r.Canonical := by
    rw [map_eq_self_iff]
    exact forall₂_congr fun r hr => RegisterForm.ofRegister_value_eq_iff (hw.registers r hr)
  have hconstants : (w.constants.map fun f => Form.ofValue f.value) = w.constants ↔
      ∀ f ∈ w.constants, f.Canonical := by
    rw [map_eq_self_iff]
    exact forall₂_congr fun f hf => Form.ofValue_value_eq_iff (hw.constants f hf)
  constructor
  · intro h
    have hgaps : w.conditionGap = [] ∧ w.resultGap = [] ∧ w.functionGap = [] := by
      rw [← h]
      exact ⟨rfl, rfl, rfl⟩
    obtain ⟨hcondition, hresult, hfunction⟩ := gaps_eq_nil_iff.1 hgaps
    exact ⟨hcondition, hresult, hfunction, hregisters.1 (congrArg registers h),
      hconstants.1 (congrArg constants h)⟩
  · rintro ⟨hcondition, hresult, hfunction, hcanonical, hcanonical'⟩
    obtain ⟨hgap₁, hgap₂, hgap₃⟩ := gaps_eq_nil_iff.2 ⟨hcondition, hresult, hfunction⟩
    rw [normal, hregisters.2 hcanonical, hconstants.2 hcanonical']
    exact (Layout.mk.injEq ..).mpr
      ⟨rfl, hgap₁.symm, rfl, hgap₂.symm, rfl, hgap₃.symm, rfl, rfl, rfl, rfl, rfl⟩

end Layout

end Image

end EndpointRules
