import EndpointRules.Program
import EndpointRules.Proofs.Except

/-!
# What the check of a program finds out

The tables are not too large, and the diagram has three numbers for each node.  A body runs from an
offset inside the code to an offset that is at most the size of the code, a later one if the code is
no longer than addresses tell, and the calls in it have been checked up to that offset.  If the
check fails it is for the tables, or for a call of a function that does not exist or takes another
number of arguments.
-/

namespace EndpointRules

namespace Parts

theorem lt_size_of_mem_starts {p : Parts} {a : Nat} (h : a ∈ p.starts) : a < p.code.size := by
  simp only [starts, List.mem_filter, List.mem_range] at h
  exact h.1

theorem endAfter_le {starts : List Nat} {size start : Nat} (h : ∀ a ∈ starts, a ≤ size) :
    endAfter starts size start ≤ size := by
  unfold endAfter
  cases hf : starts.find? (start < ·) with
  | none => exact address_le size
  | some a => exact h a (List.mem_of_find?_eq_some hf)

theorem lt_endAfter {starts : List Nat} {size start : Nat} (h : start < address size) :
    start < endAfter starts size start := by
  unfold endAfter
  cases hf : starts.find? (start < ·) with
  | none => exact h
  | some a => simpa using List.find?_some hf

theorem checkOffsets_eq_ok_iff {sort : BodySort} {offsets : Array Nat} {size : Nat} :
    checkOffsets sort offsets size = .ok () ↔ ∀ a ∈ offsets, a < size := by
  have hiff : offsets.findIdx? (size ≤ ·) = none ↔ ∀ a ∈ offsets, a < size := by
    simp [Array.findIdx?_eq_none_iff]
  rw [← hiff, checkOffsets]
  cases offsets.findIdx? (size ≤ ·) <;> simp

theorem checkSizes_eq_ok_iff {p : Parts} :
    p.checkSizes = .ok () ↔ p.registers.size ≤ maxRegisters ∧ p.constants.size ≤ 0xFFFF ∧
      p.functions.size ≤ 256 ∧ p.conditions.size ≤ 0xFFFF ∧ p.results.size ≤ 0xFFFF := by
  unfold checkSizes
  simp only [Bool.or_eq_true, decide_eq_true_eq]
  constructor
  · intro h
    split at h
    · cases h
    split at h
    · cases h
    split at h
    · cases h
    split at h
    · cases h
    omega
  · rintro ⟨h₁, h₂, h₃, h₄, h₅⟩
    rw [if_neg (by omega), if_neg (by omega), if_neg (by omega), if_neg (by omega)]

/-- What the check of the tables finds out about them. -/
structure Checked (p : Parts) : Prop where
  sizes : p.checkSizes = .ok ()
  names : p.checkNames = .ok ()
  conditions : ∀ a ∈ p.conditions, a < p.code.size
  results : ∀ a ∈ p.results, a < p.code.size
  diagram : p.diagram.validate p.conditions.size p.results.size = .ok ()

theorem checkTables_eq_ok_iff {p : Parts} : p.checkTables = .ok () ↔ p.Checked := by
  simp only [checkTables, Except.bind_eq_ok_iff]
  constructor
  · intro ⟨⟨⟩, hsizes, ⟨⟩, hnames, ⟨⟩, hconditions, ⟨⟩, hresults, hdiagram⟩
    exact ⟨hsizes, hnames, checkOffsets_eq_ok_iff.1 hconditions, checkOffsets_eq_ok_iff.1 hresults,
      hdiagram⟩
  · intro h
    exact ⟨⟨⟩, h.sizes, ⟨⟩, h.names, ⟨⟩, checkOffsets_eq_ok_iff.2 h.conditions, ⟨⟩,
      checkOffsets_eq_ok_iff.2 h.results, h.diagram⟩

/-! ## Code without calls -/

/-- No byte of the code is the opcode of a call. -/
def CallsNothing (code : Array UInt8) : Prop :=
  ∀ byte ∈ code, ∀ op, Opcode.ofByte? byte = some op → op.isCall = false

theorem checkCalls_of_callsNothing {functions : Array Slot} {stop : Nat} {c : Cursor}
    (h : CallsNothing c.code) : checkCalls functions stop c = .ok () := by
  have hnot : ∀ {c : Cursor} {op : Opcode}, CallsNothing c.code → c.opcode? = some op →
      op.isCall = false := by
    intro c op h hop
    obtain ⟨byte, hbyte, hop⟩ := Option.bind_eq_some_iff.1 hop
    exact h byte (Array.mem_of_getElem? hbyte) op hop
  fun_induction checkCalls functions stop c with
  | case2 _ _ _ _ _ hop hcall => cases hcall.symm.trans (hnot h hop)
  | case3 _ _ _ _ _ hop hcall => cases hcall.symm.trans (hnot h hop)
  | case4 _ _ _ _ hnext _ _ ih => exact ih (by rwa [Cursor.code_of_next? hnext])
  | _ => rfl

theorem checkLinks_of_callsNothing {p : Parts} (starts : List Nat) (h : CallsNothing p.code) :
    p.checkLinks starts = .ok () := by
  have hbodies : ∀ offsets, p.checkBodies starts offsets = .ok () := by
    intro offsets
    rw [checkBodies, List.forM_eq_forM, Except.forM_eq_ok_iff]
    exact fun start _ => checkCalls_of_callsNothing h
  rw [checkLinks, Except.bind_eq_ok_iff]
  exact ⟨⟨⟩, hbodies p.conditions, hbodies p.results⟩

/-- Some bytes behind others that are no opcodes. -/
def padded (n : Nat) (bytes : Array UInt8) : Array UInt8 := Array.replicate n 0xFF ++ bytes

variable {n a : Nat} {bytes : Array UInt8}

@[simp] theorem size_padded : (padded n bytes).size = n + bytes.size := by simp [padded]

theorem getD_padded_of_lt (h : a < n) : (padded n bytes).getD a 0 = 0xFF := by
  rw [padded, Array.getD_eq_getD_getElem?, Array.getElem?_append_left (by simpa using h),
    Array.getElem?_replicate, if_pos h]
  rfl

theorem getD_padded_add (n a : Nat) (bytes : Array UInt8) :
    (padded n bytes).getD (n + a) 0 = bytes.getD a 0 := by
  rw [padded, Array.getD_eq_getD_getElem?, Array.getElem?_append_right (by simp),
    Array.size_replicate, Nat.add_sub_cancel_left, Array.getD_eq_getD_getElem?]

theorem callsNothing_padded (n : Nat) (h : CallsNothing bytes) : CallsNothing (padded n bytes) := by
  intro byte hbyte op hop
  rcases Array.mem_append.1 hbyte with hbyte | hbyte
  · rw [(Array.mem_replicate.1 hbyte).2] at hop
    cases hop
  · exact h byte hbyte op hop

/-! ## Failed checks -/

theorem kind_of_checkCall_eq_error {functions : Array Slot} {op : Opcode} {index address : Nat}
    {e : CompileError} (h : checkCall functions op index address = .error e) :
    e.kind = .bounds ∨ e.kind = .arityMismatch := by
  unfold checkCall at h
  split at h
  · cases h
    exact .inl rfl
  · split at h
    · split at h
      · cases h
      · cases h
        exact .inr rfl
    · cases h

theorem kind_of_checkCalls_eq_error {functions : Array Slot} {stop : Nat} {c : Cursor}
    {e : CompileError} (h : checkCalls functions stop c = .error e) :
    e.kind = .bounds ∨ e.kind = .arityMismatch := by
  fun_induction checkCalls functions stop c with
  | case2 _ _ _ _ _ _ _ _ _ e' hcheck =>
    cases h
    exact kind_of_checkCall_eq_error hcheck
  | case3 _ _ _ _ _ _ _ _ _ _ ih => exact ih h
  | case4 _ _ _ _ _ _ _ ih => exact ih h
  | _ => cases h

theorem kind_of_checkLinks_eq_error {p : Parts} {starts : List Nat} {e : CompileError}
    (h : p.checkLinks starts = .error e) : e.kind = .bounds ∨ e.kind = .arityMismatch := by
  have hbodies : ∀ offsets, p.checkBodies starts offsets = .error e →
      e.kind = .bounds ∨ e.kind = .arityMismatch := by
    intro offsets herror
    rw [checkBodies, List.forM_eq_forM] at herror
    obtain ⟨start, -, hcalls⟩ := Except.exists_of_forM_eq_error herror
    exact kind_of_checkCalls_eq_error hcalls
  rw [checkLinks, Except.bind_eq_error_iff] at h
  rcases h with h | ⟨⟨⟩, -, h⟩
  · exact hbodies p.conditions h
  · exact hbodies p.results h

end Parts

/-- The tables of a rejected program are wrong, or one of its calls is. -/
theorem Program.kind_of_create_eq_error {parts : Parts} {e : Error}
    (h : create parts = .error e) :
    (∃ cause, e = .format cause) ∨ e.kind = .bounds ∨ e.kind = .arityMismatch := by
  simp only [create] at h
  split at h
  · cases h
  · next e' hcheck =>
    cases h
    simp only [Parts.check, Except.bind_eq_error_iff, Except.mapError_eq_error_iff] at hcheck
    rcases hcheck with ⟨cause, -, rfl⟩ | ⟨⟨⟩, -, cause, hlinks, rfl⟩
    · exact .inl ⟨cause, rfl⟩
    · exact .inr (Parts.kind_of_checkLinks_eq_error hlinks)

theorem Diagram.size_mod_three_of_validate {d : Diagram} {conditionCount resultCount : Nat}
    (h : d.validate conditionCount resultCount = .ok ()) : d.entries.size % 3 = 0 := by
  unfold validate at h
  split at h
  · cases h
  · next hlength => exact Decidable.not_not.1 hlength

namespace Program

variable {p : Program} {sort : BodySort} {index : Nat} {body : Body}

theorem checked (p : Program) : p.parts.Checked := by
  have h := p.check_eq
  simp only [Parts.check, Except.bind_eq_ok_iff, Except.mapError_eq_ok_iff] at h
  obtain ⟨⟨⟩, htables, -⟩ := h
  exact Parts.checkTables_eq_ok_iff.1 htables

theorem checkLinks_eq (p : Program) : p.parts.checkLinks p.starts = .ok () := by
  have h := p.check_eq
  simp only [Parts.check, Except.bind_eq_ok_iff, Except.mapError_eq_ok_iff] at h
  obtain ⟨⟨⟩, -, hlinks⟩ := h
  exact hlinks

theorem check_of_callsNothing {parts : Parts} (htables : parts.Checked)
    (hcalls : Parts.CallsNothing parts.code) : parts.check parts.starts = .ok () := by
  simp only [Parts.check, Except.bind_eq_ok_iff, Except.mapError_eq_ok_iff]
  exact ⟨⟨⟩, Parts.checkTables_eq_ok_iff.2 htables, Parts.checkLinks_of_callsNothing _ hcalls⟩

/-- The program of tables that are in order and of code that calls nothing. -/
def ofCallsNothing (parts : Parts) (htables : parts.Checked)
    (hcalls : Parts.CallsNothing parts.code) : Program :=
  ofChecked parts (check_of_callsNothing htables hcalls)

theorem offset_lt_size (p : Program) (sort : BodySort) :
    ∀ a ∈ p.offsets sort, a < p.code.size := by
  cases sort with
  | condition => exact p.checked.conditions
  | result => exact p.checked.results

theorem stopOf_le_size (p : Program) (start : Nat) : p.stopOf start ≤ p.code.size := by
  apply Parts.endAfter_le
  intro a ha
  rw [p.starts_eq] at ha
  exact Nat.le_of_lt (Parts.lt_size_of_mem_starts ha)

/-- What a body of a program is: it starts at an offset of its sort and ends where that offset's
    body ends. -/
theorem body?_eq_some_iff :
    p.body? sort index = some body ↔
      ∃ start, (p.offsets sort)[index]? = some start ∧
        { sort, index, start, stop := p.stopOf start } = body := by
  rw [body?, Option.map_eq_some_iff]

/-- Every index in range has a body. -/
theorem exists_body?_of_lt (p : Program) (sort : BodySort) {index : Nat}
    (h : index < (p.offsets sort).size) : ∃ body, p.body? sort index = some body :=
  ⟨_, body?_eq_some_iff.2 ⟨_, Array.getElem?_eq_getElem h, rfl⟩⟩

/-- A body is not empty if there are addresses for the whole code. -/
theorem start_lt_stop (h : p.body? sort index = some body) (hsize : p.code.size < 0x100000000) :
    body.start < body.stop := by
  obtain ⟨start, hstart, rfl⟩ := body?_eq_some_iff.1 h
  have hmem : start ∈ p.offsets sort := Array.mem_of_getElem? hstart
  apply Parts.lt_endAfter
  rw [address_of_lt hsize]
  exact p.offset_lt_size sort start hmem

theorem start_lt_size (h : p.body? sort index = some body) : body.start < p.code.size := by
  obtain ⟨start, hstart, rfl⟩ := body?_eq_some_iff.1 h
  exact p.offset_lt_size sort start (Array.mem_of_getElem? hstart)

theorem stop_le_size (h : p.body? sort index = some body) : body.stop ≤ p.code.size := by
  obtain ⟨start, -, rfl⟩ := body?_eq_some_iff.1 h
  exact p.stopOf_le_size start

/-- The calls of every body have been checked. -/
theorem checkCalls_eq (h : p.body? sort index = some body) :
    Parts.checkCalls p.parts.functions body.stop ⟨p.code, body.start⟩ = .ok () := by
  obtain ⟨start, hstart, rfl⟩ := body?_eq_some_iff.1 h
  have hmem : start ∈ p.offsets sort := Array.mem_of_getElem? hstart
  have hlinks := p.checkLinks_eq
  simp only [Parts.checkLinks, Except.bind_eq_ok_iff] at hlinks
  obtain ⟨⟨⟩, hconditions, hresults⟩ := hlinks
  have hbodies : p.parts.checkBodies p.starts (p.offsets sort) = .ok () := by
    cases sort with
    | condition => exact hconditions
    | result => exact hresults
  rw [Parts.checkBodies, List.forM_eq_forM, Except.forM_eq_ok_iff] at hbodies
  exact hbodies start (by simpa using hmem)

end Program

end EndpointRules
