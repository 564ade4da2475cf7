import EndpointRules.Proofs.Image.Layout

/-!
# Sections of images

Where the tables of a layout stand in its image, and how a layout is found again from the places of
its tables.
-/

namespace EndpointRules

namespace Image

/-! ## Cutting and joining -/

section

variable {data x rest : Bytes} {a b : Nat}

/-- What stands behind a piece that ends at `b`. -/
theorem drop_eq_of_drop_eq (h : data.drop a = x ++ rest) (hb : b = a + x.length) :
    data.drop b = rest := by
  rw [hb, ← List.drop_drop, h, List.drop_left]

/-- A piece that ends at `b` and what stands from there on. -/
theorem append_drop_eq (h : ∃ rest, data.drop a = x ++ rest) (hb : b = a + x.length) :
    x ++ data.drop b = data.drop a := by
  obtain ⟨rest, h⟩ := h
  rw [drop_eq_of_drop_eq h hb, h]

/-- The piece from `a` up to `b` and what stands from there on. -/
theorem take_append_drop_eq (h : a ≤ b) :
    (data.drop a).take (b - a) ++ data.drop b = data.drop a := by
  have hb : data.drop b = (data.drop a).drop (b - a) := by
    rw [List.drop_drop, Nat.add_sub_cancel' h]
  rw [hb, List.take_append_drop]

theorem length_take_drop (h : a ≤ b) (hb : b ≤ data.length) :
    ((data.drop a).take (b - a)).length = b - a := by
  rw [List.length_take, List.length_drop]
  omega

end

namespace Layout

theorem length_offsets (codeStart : Nat) (offsets : List Nat) :
    (offsets.flatMap (offsetBytes codeStart)).length = 4 * offsets.length := by
  induction offsets with
  | nil => rfl
  | cons a offsets ih =>
    rw [List.flatMap_cons, List.length_append, ih, offsetBytes, Word.length_bytes, List.length_cons]
    omega

theorem length_entries (entries : List Int32) :
    (entries.flatMap entryBytes).length = 4 * entries.length := by
  induction entries with
  | nil => rfl
  | cons n entries ih =>
    rw [List.flatMap_cons, List.length_append, ih, entryBytes, Word.length_bytes, List.length_cons]
    omega

end Layout

/-- The tables of a layout stand in some data where a header says, whatever is between them. -/
structure Layout.Stands (w : Layout) (h : Header) (data : Bytes) : Prop where
  readable : h.Readable
  accepted : h.checkLayout data.length = .ok ()
  header : ∃ rest, data = h.bytes ++ rest
  root : w.root = h.root
  conditionCount : w.conditions.length = h.conditionCount
  conditions : ∀ a ∈ w.conditions, h.codeStart + a < h.constantPool
  conditionBytes : ∃ rest, data.drop h.conditionTable =
    w.conditions.flatMap (offsetBytes h.codeStart) ++ rest
  resultCount : w.results.length = h.resultCount
  results : ∀ a ∈ w.results, h.codeStart + a < h.constantPool
  resultBytes : ∃ rest, data.drop h.resultTable =
    w.results.flatMap (offsetBytes h.codeStart) ++ rest
  nameCount : w.names.length = h.functionCount
  names : ∀ s ∈ w.names, s.length ≤ 0xFFFF
  registerCount : w.registers.length = h.registerCount
  registers : ∀ r ∈ w.registers, r.Fits
  middleBytes : ∃ rest, data.drop h.functionTable = w.middle ++ rest
  diagramTable : h.functionTable + w.middle.length = h.diagramTable
  entryCount : w.entries.length = 3 * h.nodeCount
  entryBytes : ∃ rest, data.drop h.diagramTable = w.entries.flatMap Layout.entryBytes ++ rest
  code : w.code = (data.drop h.codeStart).take (h.constantPool - h.codeStart)
  constantCount : w.constants.length = h.constantCount
  constants : ∀ f ∈ w.constants, f.Fits (maxConstantDepth + 1)
  constantBytes : data.drop h.constantPool = w.constants.flatMap Form.bytes

namespace Layout

variable {w : Layout}

theorem length_bytes (w : Layout) :
    w.bytes.length = w.constantPool + (w.constants.flatMap Form.bytes).length := by
  simp only [bytes, tail, List.length_append, Header.length_bytes, length_offsets, length_entries,
    constantPool, codeStart, diagramTable, functionTable, resultTable, conditionTable]
  omega

theorem readable_header (hw : w.Fits) : w.header.Readable := by
  have hpool : w.constantPool < 256 ^ 4 := hw.constantPool
  have hregisters : w.registers.length ≤ 256 := hw.registerCount
  have hresults : w.conditionTable ≤ w.resultTable :=
    Nat.le_trans (Nat.le_add_right _ _) (Nat.le_add_right _ _)
  have hfunctions : w.resultTable ≤ w.functionTable :=
    Nat.le_trans (Nat.le_add_right _ _) (Nat.le_add_right _ _)
  have hdiagram : w.functionTable ≤ w.diagramTable := Nat.le_add_right _ _
  have hentries : w.diagramTable + 4 * w.entries.length ≤ w.constantPool := Nat.le_add_right _ _
  exact {
    version := rfl
    conditionCount := hw.conditionCount
    resultCount := hw.resultCount
    registerCount := Nat.le_trans hregisters (by decide)
    constantCount := hw.constantCount
    functionCount := hw.nameCount
    nodeCount := by
      change w.entries.length / 3 < 256 ^ 4
      omega
    conditionTable := by
      change w.conditionTable < 256 ^ 4
      omega
    resultTable := by
      change w.resultTable < 256 ^ 4
      omega
    functionTable := by
      change w.functionTable < 256 ^ 4
      omega
    constantPool := hpool
    diagramTable := by
      change w.diagramTable < 256 ^ 4
      omega }

/-- In the image of a layout that fits its tables stand where its header says. -/
theorem stands_bytes (hw : w.Fits) : w.Stands w.header w.bytes := by
  have hheader : w.bytes.drop 0 = w.header.bytes ++ _ := rfl
  have hgap₁ : w.bytes.drop headerSize = w.conditionGap ++ _ :=
    drop_eq_of_drop_eq hheader (by rw [Header.length_bytes, Nat.zero_add])
  have hconditions : w.bytes.drop w.conditionTable =
      w.conditions.flatMap (offsetBytes w.codeStart) ++ _ := drop_eq_of_drop_eq hgap₁ rfl
  have hgap₂ : w.bytes.drop (w.conditionTable + 4 * w.conditions.length) = w.resultGap ++ _ :=
    drop_eq_of_drop_eq hconditions (by rw [length_offsets])
  have hresults : w.bytes.drop w.resultTable =
      w.results.flatMap (offsetBytes w.codeStart) ++ _ := drop_eq_of_drop_eq hgap₂ rfl
  have hgap₃ : w.bytes.drop (w.resultTable + 4 * w.results.length) = w.functionGap ++ _ :=
    drop_eq_of_drop_eq hresults (by rw [length_offsets])
  have hmiddle : w.bytes.drop w.functionTable = w.middle ++ _ := drop_eq_of_drop_eq hgap₃ rfl
  have hentries : w.bytes.drop w.diagramTable = w.entries.flatMap entryBytes ++ _ :=
    drop_eq_of_drop_eq hmiddle rfl
  have hcode : w.bytes.drop w.codeStart = w.code ++ _ :=
    drop_eq_of_drop_eq hentries (by rw [length_entries, codeStart])
  have hconstants : w.bytes.drop w.constantPool = w.constants.flatMap Form.bytes :=
    drop_eq_of_drop_eq hcode rfl
  have hthird : 3 * (w.entries.length / 3) = w.entries.length :=
    Nat.mul_div_cancel' (Nat.dvd_of_mod_eq_zero hw.entries)
  have hstart : w.header.codeStart = w.codeStart := by
    rw [Header.codeStart, header, codeStart]
    dsimp only
    omega
  have hlength := w.length_bytes
  have hinside : ∀ a < w.code.length, w.header.codeStart + a < w.header.constantPool := by
    intro a ha
    rw [hstart]
    exact Nat.add_lt_add_left ha _
  have hfunctions : w.functionTable ≤ w.diagramTable := Nat.le_add_right _ _
  have hcodeTake : w.code = (w.bytes.drop w.codeStart).take (w.constantPool - w.codeStart) := by
    rw [hcode, constantPool, Nat.add_sub_cancel_left, List.take_left]
  exact {
    readable := readable_header hw
    accepted := by
      rw [Header.checkLayout_eq_ok_iff, hstart, hlength]
      exact ⟨Nat.le_add_right _ _, Nat.le_add_right _ _, Nat.le_add_right _ _, hfunctions,
        Nat.le_add_right _ _, Nat.le_add_right _ _, hw.registerCount⟩
    header := ⟨_, rfl⟩
    root := rfl
    conditionCount := rfl
    conditions := fun a ha => hinside a (hw.conditions a ha)
    conditionBytes := ⟨_, hstart ▸ hconditions⟩
    resultCount := rfl
    results := fun a ha => hinside a (hw.results a ha)
    resultBytes := ⟨_, hstart ▸ hresults⟩
    nameCount := rfl
    names := hw.names
    registerCount := rfl
    registers := hw.registers
    middleBytes := ⟨_, hmiddle⟩
    diagramTable := rfl
    entryCount := hthird.symm
    entryBytes := ⟨_, hentries⟩
    code := by
      rw [hstart]
      exact hcodeTake
    constantCount := rfl
    constants := hw.constants
    constantBytes := hconstants }

/-- Tables that stand in some data make a layout of that data together with what is between them. -/
theorem Stands.exists_fits {h : Header} {data : Bytes} (hw : w.Stands h data) :
    ∃ w' : Layout, w'.Fits ∧ w'.bytes = data ∧ w'.tables = w.tables := by
  obtain ⟨horder₁, horder₂, horder₃, horder₄, horder₅, horder₆, hregisters⟩ :=
    Header.checkLayout_eq_ok_iff.1 hw.accepted
  have hstart : h.codeStart = h.diagramTable + 12 * h.nodeCount := rfl
  have hconditionCount := hw.conditionCount
  have hresultCount := hw.resultCount
  have hentryCount := hw.entryCount
  let gap (a b : Nat) : Bytes := (data.drop a).take (b - a)
  let w' : Layout := { w with
    conditionGap := gap headerSize h.conditionTable
    resultGap := gap (h.conditionTable + 4 * h.conditionCount) h.resultTable
    functionGap := gap (h.resultTable + 4 * h.resultCount) h.functionTable }
  have hgap {a b : Nat} (ha : a ≤ b) (hb : b ≤ data.length) : (gap a b).length = b - a :=
    length_take_drop ha hb
  -- the offsets of the new layout are those of the header
  have hconditionTable : w'.conditionTable = h.conditionTable := by
    change headerSize + (gap headerSize h.conditionTable).length = _
    rw [hgap horder₁ (by omega)]
    omega
  have hresultTable : w'.resultTable = h.resultTable := by
    change w'.conditionTable + 4 * w.conditions.length + (gap _ h.resultTable).length = _
    rw [hgap horder₂ (by omega)]
    omega
  have hfunctionTable : w'.functionTable = h.functionTable := by
    change w'.resultTable + 4 * w.results.length + (gap _ h.functionTable).length = _
    rw [hgap horder₃ (by omega)]
    omega
  have hdiagramTable : w'.diagramTable = h.diagramTable := by
    change w'.functionTable + w.middle.length = _
    rw [hfunctionTable, hw.diagramTable]
  have hcodeStart : w'.codeStart = h.codeStart := by
    change w'.diagramTable + 4 * w.entries.length = _
    omega
  have hconstantPool : w'.constantPool = h.constantPool := by
    change w'.codeStart + w.code.length = _
    rw [hcodeStart, hw.code, length_take_drop horder₅ horder₆]
    omega
  have hnodes : w.entries.length / 3 = h.nodeCount := by omega
  have hversion := hw.readable.version
  have hheader : w'.header = h := by
    cases h
    exact (Header.mk.injEq ..).mpr ⟨hversion.symm, hw.conditionCount, hw.resultCount,
      hw.registerCount, hw.constantCount, hw.nameCount, hnodes, hw.root, hconditionTable,
      hresultTable, hfunctionTable, hconstantPool, hdiagramTable⟩
  have hbytes : w'.bytes = data := by
    -- the pieces are put together from the last one on
    have hconstants : w.code ++ w.constants.flatMap Form.bytes = data.drop h.codeStart := by
      rw [← hw.constantBytes, hw.code, take_append_drop_eq horder₅]
    have htail : w'.tail = data.drop h.diagramTable := by
      change w.entries.flatMap Layout.entryBytes ++ _ = _
      rw [hconstants]
      refine append_drop_eq hw.entryBytes ?_
      rw [length_entries]
      omega
    have hmiddle : w'.middle ++ w'.tail = data.drop h.functionTable := by
      rw [htail]
      exact append_drop_eq hw.middleBytes hw.diagramTable.symm
    have hresults : w'.results.flatMap (offsetBytes w'.codeStart) ++ (w'.functionGap ++
        (w'.middle ++ w'.tail)) = data.drop h.resultTable := by
      rw [hmiddle, take_append_drop_eq horder₃, hcodeStart]
      refine append_drop_eq hw.resultBytes ?_
      rw [length_offsets, hw.resultCount]
    have hconditions : w'.conditions.flatMap (offsetBytes w'.codeStart) ++ (w'.resultGap ++
        (w'.results.flatMap (offsetBytes w'.codeStart) ++ (w'.functionGap ++
        (w'.middle ++ w'.tail)))) = data.drop h.conditionTable := by
      rw [hresults, take_append_drop_eq horder₂, hcodeStart]
      refine append_drop_eq hw.conditionBytes ?_
      rw [length_offsets, hw.conditionCount]
    rw [bytes, hconditions, take_append_drop_eq horder₁, hheader]
    obtain ⟨rest, hdata⟩ := hw.header
    exact append_drop_eq (a := 0) ⟨rest, hdata⟩ (by rw [Header.length_bytes, Nat.zero_add])
  have hinside {a : Nat} (ha : h.codeStart + a < h.constantPool) : a < w.code.length := by
    rw [hw.code, length_take_drop horder₅ horder₆]
    omega
  refine ⟨w', ?_, hbytes, rfl⟩
  exact {
    conditionCount := hconditionCount ▸ hw.readable.conditionCount
    conditions := fun a ha => hinside (hw.conditions a ha)
    resultCount := hresultCount ▸ hw.readable.resultCount
    results := fun a ha => hinside (hw.results a ha)
    nameCount := hw.nameCount ▸ hw.readable.functionCount
    names := hw.names
    registerCount := hw.registerCount ▸ hregisters
    registers := hw.registers
    entries := by
      change w.entries.length % 3 = 0
      omega
    constantCount := hw.constantCount ▸ hw.readable.constantCount
    constants := hw.constants
    constantPool := hconstantPool ▸ hw.readable.constantPool }

end Layout

end Image

end EndpointRules
