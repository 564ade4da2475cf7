import EndpointRules.Proofs.Except
import EndpointRules.Proofs.Image.Sections

/-!
# Reading of tables

The tables of an image can be read exactly if the image is that of a layout that fits, and then they
are the tables of that layout.
-/

namespace EndpointRules

namespace Image

open Reading

theorem reads_offsets {sort : BodySort} {codeStart codeEnd : Nat} (hend : codeEnd ≤ 256 ^ 4)
    (count : Nat) (done : Array Nat) :
    Reads (readOffsets sort codeStart codeEnd count done) fun b xs =>
      ∃ offsets : List Nat, offsets.length = count ∧ (∀ a ∈ offsets, codeStart + a < codeEnd) ∧
        offsets.flatMap (Layout.offsetBytes codeStart) = b ∧ xs = done ++ offsets.toArray := by
  induction count generalizing done with
  | zero =>
    refine (reads_pure done).congr fun b xs => ?_
    constructor
    · rintro ⟨rfl, rfl⟩
      exact ⟨[], rfl, by simp, rfl, by simp⟩
    · rintro ⟨offsets, hcount, -, rfl, rfl⟩
      obtain rfl := List.eq_nil_of_length_eq_zero hcount
      exact ⟨rfl, by simp⟩
  | succ count ih =>
    let rest : Nat → Reading (Array Nat) := fun offset s =>
      if offset < codeStart || codeEnd ≤ offset then .error (.bodyOffset sort done.size)
      else readOffsets sort codeStart codeEnd count (done.push (offset - codeStart)) s
    have heq : readOffsets sort codeStart codeEnd (count + 1) done =
        (checked Source.u32 >>= rest) := by
      funext s
      rw [bind_apply, readOffsets]
      split
      · next e hread => rw [hread]
      · next offset s₁ hread => rw [hread]
    have hrest : ∀ offset, Reads (rest offset) fun b xs =>
        (codeStart ≤ offset ∧ offset < codeEnd) ∧ ∃ offsets : List Nat, offsets.length = count ∧
          (∀ a ∈ offsets, codeStart + a < codeEnd) ∧
          offsets.flatMap (Layout.offsetBytes codeStart) = b ∧
          xs = done.push (offset - codeStart) ++ offsets.toArray := by
      intro offset
      by_cases hin : codeStart ≤ offset ∧ offset < codeEnd
      · have hgo : rest offset =
            readOffsets sort codeStart codeEnd count (done.push (offset - codeStart)) := by
          funext s
          exact if_neg (by simp only [Bool.or_eq_true, decide_eq_true_eq]; omega)
        rw [hgo]
        exact (ih _).congr fun b xs => ⟨fun h => ⟨hin, h⟩, fun h => h.2⟩
      · have hstop : rest offset = fail (.bodyOffset sort done.size) := by
          funext s
          exact if_pos (by simp only [Bool.or_eq_true, decide_eq_true_eq]; omega)
        rw [hstop]
        exact (reads_fail _).congr fun b xs => ⟨False.elim, fun h => absurd h.1 hin⟩
    rw [heq]
    refine ((reads_word 4).bind hrest).congr fun b xs => ?_
    constructor
    · rintro ⟨_, _, _, rfl, ⟨offset, -, rfl, rfl⟩, ⟨hstart, hstop⟩, offsets, hcount, hoffsets, rfl,
        rfl⟩
      have hback : codeStart + (id offset - codeStart) = offset := Nat.add_sub_cancel' hstart
      refine ⟨(id offset - codeStart) :: offsets, by simp [hcount], ?_, ?_, by simp⟩
      · intro a ha
        rcases List.mem_cons.1 ha with rfl | ha
        · rw [hback]
          exact hstop
        · exact hoffsets a ha
      · rw [List.flatMap_cons, Layout.offsetBytes, hback]
    · rintro ⟨offsets, hcount, hoffsets, rfl, rfl⟩
      cases offsets with
      | nil => cases hcount
      | cons a offsets =>
        have ha : codeStart + a < codeEnd := hoffsets a (by simp)
        refine ⟨_, _, codeStart + a, List.flatMap_cons,
          ⟨codeStart + a, Nat.lt_of_lt_of_le ha hend, rfl, rfl⟩, ⟨Nat.le_add_right _ _, ha⟩,
          offsets, ?_, ?_, rfl, ?_⟩
        · simpa using hcount
        · exact fun a' ha' => hoffsets a' (List.mem_cons_of_mem _ ha')
        · rw [Nat.add_sub_cancel_left]
          simp

/-- What is read when tables are read. -/
theorem exists_stands_of_readTables {image : Array UInt8} {t : Tables} {s : Source}
    (hread : readTables image { data := image } = .ok (t, s)) :
    ∃ (w : Layout) (h : Header), w.Stands h image.toList ∧ w.tables = t := by
  unfold readTables at hread
  obtain ⟨_, r₀, header, hheader, ⟨h, hreadable, rfl, hmeans⟩, hread⟩ :=
    (reads_header.bind_eq_ok_iff (Nat.zero_le _)).1 hread
  obtain rfl : h = header := hmeans
  obtain ⟨haccepted, hread⟩ := require_eq_ok_iff.1 hread
  obtain ⟨horder₁, horder₂, horder₃, horder₄, horder₅, horder₆, -⟩ :=
    Header.checkLayout_eq_ok_iff.1 haccepted
  have hcodeStart : h.codeStart = h.diagramTable + 12 * h.nodeCount := rfl
  have hend : h.constantPool ≤ 256 ^ 4 := Nat.le_of_lt hreadable.constantPool
  rw [bind_seek] at hread
  obtain ⟨_, r₁, _, hconditionBytes, ⟨conditions, hconditionCount, hconditions, rfl, rfl⟩, hread⟩ :=
    ((reads_offsets hend _ _).bind_eq_ok_iff (by omega)).1 hread
  rw [bind_seek] at hread
  obtain ⟨_, r₂, _, hresultBytes, ⟨results, hresultCount, hresults, rfl, rfl⟩, hread⟩ :=
    ((reads_offsets hend _ _).bind_eq_ok_iff (by omega)).1 hread
  rw [bind_seek] at hread
  obtain ⟨_, r₃, _, hnameBytes, ⟨names, hnameCount, hnames, rfl, rfl⟩, hread⟩ :=
    ((reads_readMany reads_string _ _).bind_eq_ok_iff (by omega)).1 hread
  obtain ⟨hbehind, hinside⟩ := drop_of_drop_eq (by omega) hnameBytes
  obtain ⟨_, r₄, _, hregisterBytes, ⟨registers, hregisterCount, hregisters, rfl, rfl⟩, hread⟩ :=
    ((reads_readMany reads_register _ _).bind_eq_ok_iff hinside).1 hread
  rw [bind_position] at hread
  obtain ⟨hdiagram, hread⟩ := unless_eq_ok_iff.1 hread
  have hdiagram := Decidable.not_not.1 hdiagram
  rw [hdiagram] at hread
  obtain ⟨_, r₅, _, hentryBytes, ⟨entries, hentryCount, -, rfl, rfl⟩, hread⟩ :=
    ((reads_readMany reads_i32 _ _).bind_eq_ok_iff (by omega)).1 hread
  rw [bind_seek] at hread
  obtain ⟨_, r₆, _, hconstantBytes, ⟨constants, hconstantCount, hconstants, rfl, rfl⟩, hread⟩ :=
    ((reads_readMany reads_outermost _ _).bind_eq_ok_iff (by omega)).1 hread
  rw [bind_position] at hread
  obtain ⟨hreached, hread⟩ := unless_eq_ok_iff.1 hread
  have hreached := Decidable.not_not.1 hreached
  cases hread
  have hlast : r₆ = [] := by
    rw [← (drop_of_drop_eq (by omega) hconstantBytes).1, hreached, ← Array.length_toList,
      List.drop_length]
  let code := (image.toList.drop h.codeStart).take (h.constantPool - h.codeStart)
  let w : Layout :=
    { root := h.root, conditions, results, names, registers, entries, code, constants }
  refine ⟨w, h, ?_, ?_⟩
  · exact {
      readable := hreadable
      accepted := haccepted
      header := ⟨r₀, hheader⟩
      root := rfl
      conditionCount := hconditionCount
      conditions := hconditions
      conditionBytes := ⟨r₁, hconditionBytes⟩
      resultCount := hresultCount
      results := hresults
      resultBytes := ⟨r₂, hresultBytes⟩
      nameCount := hnameCount
      names := hnames
      registerCount := hregisterCount
      registers := hregisters
      middleBytes := ⟨r₄, by rw [hnameBytes, ← hbehind, hregisterBytes, ← List.append_assoc]; rfl⟩
      diagramTable := by rw [Layout.middle, List.length_append, ← Nat.add_assoc, hdiagram]
      entryCount := hentryCount
      entryBytes := ⟨r₅, hentryBytes⟩
      code := rfl
      constantCount := hconstantCount
      constants := hconstants
      constantBytes := by rw [hconstantBytes, hlast, List.append_nil] }
  · have hcode : code.toArray = image.extract h.codeStart h.constantPool := by
      apply Array.toList_inj.1
      rw [Array.toList_extract, List.extract_eq_take_drop]
    simp [Layout.tables, w, hcode, hreadable.version]

/-- Tables that stand where a header says are read. -/
theorem readTables_of_stands {image : Array UInt8} {w : Layout} {h : Header}
    (hw : w.Stands h image.toList) :
    readTables image { data := image } =
      .ok (w.tables, { data := image, position := image.size }) := by
  have hsize : image.toList.length = image.size := Array.length_toList
  obtain ⟨horder₁, horder₂, horder₃, horder₄, horder₅, horder₆, -⟩ :=
    Header.checkLayout_eq_ok_iff.1 hw.accepted
  have hcodeStart : h.codeStart = h.diagramTable + 12 * h.nodeCount := rfl
  obtain ⟨r₀, hheader⟩ := hw.header
  obtain ⟨r₁, hconditionBytes⟩ := hw.conditionBytes
  obtain ⟨r₂, hresultBytes⟩ := hw.resultBytes
  obtain ⟨r₃, hmiddleBytes⟩ := hw.middleBytes
  obtain ⟨r₅, hentryBytes⟩ := hw.entryBytes
  have hend : h.constantPool ≤ 256 ^ 4 := Nat.le_of_lt hw.readable.constantPool
  have hnameBytes : image.toList.drop h.functionTable =
      w.names.flatMap Word.sized ++ (w.registers.flatMap RegisterForm.bytes ++ r₃) := by
    rw [hmiddleBytes, Layout.middle, List.append_assoc]
  obtain ⟨hregisterBytes, hinside⟩ := drop_of_drop_eq (by omega) hnameBytes
  have hdiagram : h.functionTable + (w.names.flatMap Word.sized).length +
      (w.registers.flatMap RegisterForm.bytes).length = h.diagramTable := by
    rw [← hw.diagramTable, Layout.middle, List.length_append, Nat.add_assoc]
  have hconstantBytes : image.toList.drop h.constantPool =
      w.constants.flatMap Form.bytes ++ [] := by
    rw [hw.constantBytes, List.append_nil]
  have hreached : h.constantPool + (w.constants.flatMap Form.bytes).length = image.size := by
    rw [← hw.constantBytes, List.length_drop]
    omega
  have haccepted : h.checkLayout image.size = .ok () := hsize ▸ hw.accepted
  unfold readTables
  rw [reads_header.bind_eq (Nat.zero_le _) hheader ⟨h, hw.readable, rfl, rfl⟩]
  dsimp only [id]
  rw [bind_require haccepted, bind_seek, (reads_offsets hend _ _).bind_eq (by omega) hconditionBytes
      ⟨w.conditions, hw.conditionCount, hw.conditions, rfl, rfl⟩,
    bind_seek, (reads_offsets hend _ _).bind_eq (by omega) hresultBytes
      ⟨w.results, hw.resultCount, hw.results, rfl, rfl⟩,
    bind_seek, (reads_readMany reads_string _ _).bind_eq (by omega) hnameBytes
      ⟨w.names, hw.nameCount, hw.names, rfl, rfl⟩,
    (reads_readMany reads_register _ _).bind_eq hinside hregisterBytes
      ⟨w.registers, hw.registerCount, hw.registers, rfl, rfl⟩,
    bind_position, if_neg (fun h => h hdiagram), hdiagram,
    (reads_readMany reads_i32 _ _).bind_eq (by omega) hentryBytes
      ⟨w.entries, hw.entryCount, fun _ _ => trivial, rfl, rfl⟩,
    bind_seek, (reads_readMany reads_outermost _ _).bind_eq (by omega) hconstantBytes
      ⟨w.constants, hw.constantCount, hw.constants, rfl, rfl⟩,
    bind_position, if_neg (fun h => h hreached), hreached]
  rw [pure_apply, Layout.tables, hw.root, hw.readable.version]
  have hcode : image.extract h.codeStart h.constantPool = w.code.toArray := by
    apply Array.toList_inj.1
    rw [Array.toList_extract, List.extract_eq_take_drop, hw.code]
  simp [hcode]

/-- The images of which the tables can be read are those of the layouts that fit. -/
theorem tables_eq_ok_iff {image : Array UInt8} {t : Tables} :
    tables image = .ok t ↔ ∃ w : Layout, w.Fits ∧ w.bytes = image.toList ∧ w.tables = t := by
  have hsize : image.toList.length = image.size := Array.length_toList
  rw [tables]
  constructor
  · intro h
    split at h
    · cases h
    obtain ⟨⟨t', s⟩, hread, rfl⟩ := Except.map_eq_ok_iff.1 h
    obtain ⟨w, header, hw, rfl⟩ := exists_stands_of_readTables hread
    exact hw.exists_fits
  · rintro ⟨w, hw, hbytes, rfl⟩
    have hheader : headerSize ≤ image.size := by
      rw [← hsize, ← hbytes, Layout.bytes, List.length_append, Header.length_bytes]
      exact Nat.le_add_right _ _
    rw [if_neg (Nat.not_lt.2 hheader), readTables_of_stands (hbytes ▸ Layout.stands_bytes hw)]
    rfl

end Image

end EndpointRules
