import Mathlib.Data.List.Nodup
import EndpointRules.Proofs.Program.Registers
import EndpointRules.RegisterTable

/-!
# Names and indices of register tables

A register table answers from the indices of its names, while a program is made of its registers.
The two are in step: a name has an index exactly if the register there has the name.  Every call
keeps them so, those that fail included.  Hence names are distinct, indices never change, and the
check of a program finds nothing wrong with the names of the registers or with their number.
-/

namespace EndpointRules

namespace RegisterTable

/-- What a table is asked for. -/
inductive Call
  | add (r : Register)
  | ensure (name : Bytes)
  | index (name : Bytes)

/-- The reply to a call, and the table after a call that succeeds. -/
def Call.run (t : RegisterTable) : Call → Except CompileError (Nat × RegisterTable)
  | add r => t.add r
  | ensure name => t.ensure name
  | index name => (t.index name).map (·, t)

/-- The table after a call.  One that fails changes nothing. -/
def Call.apply (t : RegisterTable) (c : Call) : RegisterTable :=
  match c.run t with
  | .ok (_, t') => t'
  | .error _ => t

/-- The table after calls that are made one after the other, starting without registers. -/
def ofCalls (calls : List Call) : RegisterTable := calls.foldl Call.apply {}

/-- The names by their indices are those of the registers, and there is room for every index. -/
structure InStep (t : RegisterTable) : Prop where
  size_le : t.registers.size ≤ maxRegisters
  find?_iff : ∀ name i, t.find? name = some i ↔ ∃ r, t.registers[i]? = some r ∧ r.name = name

/-- The table with one register more. -/
def extend (t : RegisterTable) (r : Register) : RegisterTable where
  registers := t.registers.push r
  indices := Dict.insert t.indices r.name (UInt8.ofNat t.registers.size)

variable {t t' : RegisterTable} {r : Register} {name : Bytes} {i : Nat} {c : Call}
  {calls : List Call} {e : CompileError}

/-! ## Calls -/

theorem index_eq_ok_iff : t.index name = .ok i ↔ t.find? name = some i := by
  rw [index]
  cases t.find? name with
  | none => exact ⟨nofun, nofun⟩
  | some j => simp

/-- As long as there is room, the number of registers fits one byte and is the new index. -/
theorem find?_extend (h : t.registers.size < maxRegisters) (r : Register) (name : Bytes) :
    (t.extend r).find? name = if r.name = name then some t.registers.size else t.find? name := by
  have hbyte : (UInt8.ofNat t.registers.size).toNat = t.registers.size :=
    UInt8.toNat_ofNat_of_lt' h
  rw [find?, extend, Dict.get?_insert]
  by_cases hname : r.name = name
  · simp [hname, hbyte]
  · simp [hname, find?]

/-- A register is added unless its name is taken or the table is full. -/
theorem add_cases (t : RegisterTable) (r : Register) :
    (∃ i, t.find? r.name = some i ∧ t.add r = .error (.registerExists r.name)) ∨
      (t.find? r.name = none ∧ maxRegisters ≤ t.registers.size ∧
        t.add r = .error .registersExhausted) ∨
      (t.find? r.name = none ∧ t.registers.size < maxRegisters ∧
        t.add r = .ok (t.registers.size, t.extend r)) := by
  unfold add
  cases hfind : t.find? r.name with
  | some i => exact .inl ⟨i, rfl, rfl⟩
  | none =>
    by_cases hfull : maxRegisters ≤ t.registers.size
    · exact .inr (.inl ⟨rfl, hfull, by simp [hfull]⟩)
    · have hroom : t.registers.size < maxRegisters := Nat.lt_of_not_le hfull
      have hbyte : (UInt8.ofNat t.registers.size).toNat = t.registers.size :=
        UInt8.toNat_ofNat_of_lt' hroom
      exact .inr (.inr ⟨rfl, hroom, by simp [hfull, hbyte, extend]⟩)

theorem add_eq_ok_iff :
    t.add r = .ok (i, t') ↔
      t.find? r.name = none ∧ t.registers.size < maxRegisters ∧ i = t.registers.size ∧
        t' = t.extend r := by
  rcases add_cases t r with ⟨j, hfind, hadd⟩ | ⟨hfind, hfull, hadd⟩ | ⟨hfind, hroom, hadd⟩
  · simp [hadd, hfind]
  · simp [hadd, Nat.not_lt.2 hfull]
  · simp [hadd, hfind, hroom, eq_comm]

/-- A call that succeeds leaves the table as it is, or it adds a register with a new name. -/
theorem of_run_eq_ok (h : c.run t = .ok (i, t')) :
    t' = t ∨ ∃ r, t.find? r.name = none ∧ t.registers.size < maxRegisters ∧ t' = t.extend r := by
  have hadd : ∀ r, t.add r = .ok (i, t') →
      ∃ r, t.find? r.name = none ∧ t.registers.size < maxRegisters ∧ t' = t.extend r := by
    intro r hadd
    obtain ⟨hfind, hroom, -, heq⟩ := add_eq_ok_iff.1 hadd
    exact ⟨r, hfind, hroom, heq⟩
  cases c with
  | add r => exact .inr (hadd r h)
  | ensure name =>
    simp only [Call.run, ensure] at h
    split at h
    · cases h
      exact .inl rfl
    · exact .inr (hadd _ h)
  | index name =>
    obtain ⟨j, -, heq⟩ := Except.map_eq_ok_iff.1 h
    cases heq
    exact .inl rfl

/-- A call leaves the table as it is, or it adds a register with a new name. -/
theorem apply_cases (t : RegisterTable) (c : Call) :
    c.apply t = t ∨
      ∃ r, t.find? r.name = none ∧ t.registers.size < maxRegisters ∧ c.apply t = t.extend r := by
  unfold Call.apply
  split
  · next h => exact of_run_eq_ok h
  · exact .inl rfl

theorem apply_of_run_eq_error (h : c.run t = .error e) : c.apply t = t := by
  rw [Call.apply, h]

/-! ## What calls keep -/

theorem inStep_empty : InStep {} := by
  refine ⟨Nat.zero_le _, fun name i => ?_⟩
  simp [find?, Dict.get?]

/-- A name that is new and gets the next index keeps the table in step: all other names and indices
    stay as they are. -/
theorem InStep.extend (h : t.InStep) (hnew : t.find? r.name = none)
    (hroom : t.registers.size < maxRegisters) : (t.extend r).InStep where
  size_le := by
    simp only [RegisterTable.extend, Array.size_push]
    exact hroom
  find?_iff := by
    intro name i
    rw [find?_extend hroom]
    simp only [RegisterTable.extend, Array.getElem?_push]
    by_cases hi : i = t.registers.size
    · -- The last index is that of the new name and of no name before.
      have hnone : t.find? name ≠ some t.registers.size := by
        intro hfind
        obtain ⟨s, hs, -⟩ := (h.find?_iff _ _).1 hfind
        rw [Array.getElem?_eq_none (Nat.le_refl _)] at hs
        cases hs
      by_cases hname : r.name = name <;> simp [hi, hname, hnone]
    · by_cases hname : r.name = name
      · have hold : ∀ s, t.registers[i]? = some s → s.name ≠ name := by
          intro s hs hsame
          have hfind := (h.find?_iff name i).2 ⟨s, hs, hsame⟩
          rw [← hname, hnew] at hfind
          cases hfind
        have hne : t.registers.size ≠ i := Ne.symm hi
        simpa [hi, hname, hne] using hold
      · simp [hi, hname, h.find?_iff]

theorem InStep.apply (h : t.InStep) (c : Call) : (c.apply t).InStep := by
  rcases apply_cases t c with heq | ⟨r, hnew, hroom, heq⟩
  · rw [heq]
    exact h
  · rw [heq]
    exact h.extend hnew hroom

theorem ofCalls_append (calls more : List Call) :
    ofCalls (calls ++ more) = more.foldl Call.apply (ofCalls calls) := by
  rw [ofCalls, List.foldl_append, ofCalls]

theorem InStep.foldl (h : t.InStep) (calls : List Call) : (calls.foldl Call.apply t).InStep := by
  induction calls generalizing t with
  | nil => exact h
  | cons c calls ih => exact ih (h.apply c)

theorem inStep_ofCalls (calls : List Call) : (ofCalls calls).InStep := inStep_empty.foldl calls

/-- Registers are only added, and behind the others. -/
theorem registers_prefix_foldl (t : RegisterTable) (calls : List Call) :
    t.registers.toList <+: (calls.foldl Call.apply t).registers.toList := by
  induction calls generalizing t with
  | nil => exact List.prefix_refl _
  | cons c calls ih =>
    refine List.IsPrefix.trans ?_ (ih (c.apply t))
    rcases apply_cases t c with heq | ⟨r, -, -, heq⟩
    · exact ⟨[], by rw [heq, List.append_nil]⟩
    · rw [heq, extend, Array.toList_push]
      exact List.prefix_append _ _

/-! ## What a table in step answers -/

namespace InStep

theorem find?_eq_none_iff (h : t.InStep) :
    t.find? name = none ↔ ∀ r ∈ t.registers, r.name ≠ name := by
  constructor
  · intro hnone r hr hname
    obtain ⟨i, hi⟩ := Array.getElem?_of_mem hr
    have hfind := (h.find?_iff name i).2 ⟨r, hi, hname⟩
    rw [hnone] at hfind
    cases hfind
  · intro hfresh
    cases hfind : t.find? name with
    | none => rfl
    | some i =>
      obtain ⟨r, hr, hname⟩ := (h.find?_iff name i).1 hfind
      exact absurd hname (hfresh r (Array.mem_of_getElem? hr))

theorem nodup_names (h : t.InStep) : (t.registers.toList.map (·.name)).Nodup := by
  have hindex : ∀ i name, (t.registers.toList.map (·.name))[i]? = some name →
      t.find? name = some i := by
    intro i name hi
    rw [h.find?_iff]
    simpa using hi
  refine List.nodup_iff_getElem?_ne_getElem?.2 ?_
  intro i j hij hj heq
  have hname := List.getElem?_eq_getElem hj
  have hfirst := hindex i _ (heq.trans hname)
  rw [hindex j _ hname] at hfirst
  exact Nat.ne_of_gt hij (Option.some.inj hfirst)

/-- A name that is known is found, and one that is not becomes that of a temporary. -/
theorem ensure_cases (h : t.InStep) (name : Bytes) :
    (∃ i, t.index name = .ok i ∧ t.ensure name = .ok (i, t)) ∨
      (∀ r ∈ t.registers, r.name ≠ name) ∧ t.ensure name = t.add { name, temporary := true } := by
  cases hfind : t.find? name with
  | some i => exact .inl ⟨i, index_eq_ok_iff.2 hfind, by rw [ensure, hfind]⟩
  | none => exact .inr ⟨h.find?_eq_none_iff.1 hfind, by rw [ensure, hfind]⟩

end InStep

/-! ## Programs -/

end RegisterTable

theorem Diagram.exists_of_validate_eq_error {d : Diagram} {conditionCount resultCount : Nat}
    {e : FormatError} (h : d.validate conditionCount resultCount = .error e) :
    e = .diagramLength ∨ e = .diagramRoot d.root ∨
      ∃ node, e = .diagramCondition node (d.condition node) ∨ e = .diagramChild node := by
  unfold validate at h
  split at h
  · cases h
    exact .inl rfl
  split at h
  · cases h
    exact .inr (.inl rfl)
  · rw [List.forM_eq_forM] at h
    obtain ⟨node, -, hnode⟩ := Except.exists_of_forM_eq_error h
    refine .inr (.inr ⟨node, ?_⟩)
    simp only [checkNode] at hnode
    split at hnode
    · cases hnode
      exact .inl rfl
    split at hnode
    · cases hnode
    · cases hnode
      exact .inr rfl

/-- The check of the tables finds fault with the registers only if there are too many of them, or
    if two have the same name. -/
theorem Parts.ne_of_checkTables_eq_error {p : Parts} {e : FormatError}
    (h : p.checkTables = .error e) (hsize : p.registers.size ≤ maxRegisters)
    (hnames : (p.registers.toList.map (·.name)).Nodup) :
    (∀ count, e ≠ .tooManyRegisters count) ∧ ∀ name, e ≠ .duplicateRegister name := by
  have hoffsets : ∀ sort offsets, checkOffsets sort offsets p.code.size = .error e →
      ∃ i, e = .bodyOffset sort i := by
    intro sort offsets hcheck
    unfold checkOffsets at hcheck
    split at hcheck
    · cases hcheck
      exact ⟨_, rfl⟩
    · cases hcheck
  simp only [checkTables, Except.bind_eq_error_iff] at h
  rcases h with hsizes | ⟨_, _, hrepeated | ⟨_, _, hcondition | ⟨_, _, hresult | ⟨_, _, hdiagram⟩⟩⟩⟩
  · rw [checkSizes, if_neg (Nat.not_lt.2 hsize)] at hsizes
    split at hsizes
    · cases hsizes
      simp
    split at hsizes
    · cases hsizes
      simp
    split at hsizes
    · cases hsizes
      simp
    · cases hsizes
  · have hnone : repeatedName? [] (p.registers.toList.map (·.name)) = none :=
      repeatedName?_eq_none_iff.2 ⟨hnames, fun _ _ => List.not_mem_nil⟩
    rw [checkNames, hnone] at hrepeated
    cases hrepeated
  · obtain ⟨i, rfl⟩ := hoffsets _ _ hcondition
    simp
  · obtain ⟨i, rfl⟩ := hoffsets _ _ hresult
    simp
  · rcases Diagram.exists_of_validate_eq_error hdiagram with rfl | rfl | ⟨node, rfl | rfl⟩
    all_goals simp

namespace RegisterTable

/-- A program is never rejected because of the registers of a table in step. -/
theorem InStep.ne_of_create_eq_error {t : RegisterTable} (h : t.InStep) {parts : Parts} {e : Error}
    (hregisters : parts.registers = t.registers) (hcreate : Program.create parts = .error e) :
    (∀ count, e ≠ .format (.tooManyRegisters count)) ∧
      ∀ name, e ≠ .format (.duplicateRegister name) := by
  have hcheck : parts.check parts.starts = .error e := by
    simp only [Program.create] at hcreate
    split at hcreate
    · cases hcreate
    · next hcheck =>
      cases hcreate
      exact hcheck
  simp only [Parts.check, Except.bind_eq_error_iff, Except.mapError_eq_error_iff] at hcheck
  rcases hcheck with ⟨cause, htables, rfl⟩ | ⟨_, _, cause, _, rfl⟩
  · obtain ⟨hcount, hname⟩ := Parts.ne_of_checkTables_eq_error htables
      (hregisters ▸ h.size_le) (hregisters ▸ h.nodup_names)
    refine ⟨fun count heq => ?_, fun name heq => ?_⟩
    · exact hcount count (Error.format.inj heq)
    · exact hname name (Error.format.inj heq)
  · simp

/-- After all calls names and indices stand in one-to-one correspondence.  There are at most 256
    registers, no two of them with one name, and a name has an index exactly if the register there
    has the name.  A register is added if its name is new and there is room; it gets the number of
    registers before it as its index and comes behind them, as it was given.  A name that is ensured
    is found, or else added as a temporary.  A call that fails changes nothing, and no call changes
    the registers or the indices that there are.  No program is rejected because of these
    registers. -/
theorem one_to_one_ofCalls (calls : List Call) :
    let t := ofCalls calls
    t.registers.size ≤ 256 ∧ (t.registers.toList.map (·.name)).Nodup ∧
      (∀ name i, t.index name = .ok i ↔ ∃ r, t.registers[i]? = some r ∧ r.name = name) ∧
      (∀ r, (∃ reply, t.add r = .ok reply) ↔
        t.registers.size < 256 ∧ ∀ s ∈ t.registers, s.name ≠ r.name) ∧
      (∀ r i t', t.add r = .ok (i, t') →
        i = t.registers.size ∧ t'.registers = t.registers.push r) ∧
      (∀ name, (∃ i, t.index name = .ok i ∧ t.ensure name = .ok (i, t)) ∨
        (∀ s ∈ t.registers, s.name ≠ name) ∧ t.ensure name = t.add { name, temporary := true }) ∧
      (∀ c e, c.run t = .error e → ofCalls (calls ++ [c]) = t) ∧
      (∀ more, t.registers.toList <+: (ofCalls (calls ++ more)).registers.toList ∧
        ∀ name i, t.index name = .ok i → (ofCalls (calls ++ more)).index name = .ok i) ∧
      ∀ parts e, parts.registers = t.registers → Program.create parts = .error e →
        (∀ count, e ≠ .format (.tooManyRegisters count)) ∧
          ∀ name, e ≠ .format (.duplicateRegister name) := by
  intro t
  have h : t.InStep := inStep_ofCalls calls
  have hindex : ∀ (t : RegisterTable), t.InStep → ∀ name i,
      t.index name = .ok i ↔ ∃ r, t.registers[i]? = some r ∧ r.name = name := by
    intro t h name i
    rw [index_eq_ok_iff, h.find?_iff]
  refine ⟨h.size_le, h.nodup_names, hindex t h, ?_, ?_, h.ensure_cases, ?_, ?_,
    fun parts e => h.ne_of_create_eq_error⟩
  · intro r
    rw [← h.find?_eq_none_iff]
    constructor
    · intro ⟨⟨i, t'⟩, hadd⟩
      obtain ⟨hnew, hroom, -⟩ := add_eq_ok_iff.1 hadd
      exact ⟨hroom, hnew⟩
    · intro ⟨hroom, hnew⟩
      exact ⟨_, add_eq_ok_iff.2 ⟨hnew, hroom, rfl, rfl⟩⟩
  · intro r i t' hadd
    obtain ⟨-, -, hi, rfl⟩ := add_eq_ok_iff.1 hadd
    exact ⟨hi, rfl⟩
  · intro c e herror
    rw [ofCalls_append]
    exact apply_of_run_eq_error herror
  · intro more
    have hkept : t.registers.toList <+: (ofCalls (calls ++ more)).registers.toList := by
      rw [ofCalls_append]
      exact registers_prefix_foldl t more
    refine ⟨hkept, fun name i hi => ?_⟩
    obtain ⟨r, hr, hname⟩ := (hindex t h name i).1 hi
    refine (hindex _ (inStep_ofCalls _) name i).2 ⟨r, ?_, hname⟩
    rw [← Array.getElem?_toList] at hr ⊢
    obtain ⟨hlt, heq⟩ := List.getElem?_eq_some_iff.1 hr
    rw [List.prefix_iff_getElem?.1 hkept i hlt, heq]

end RegisterTable

end EndpointRules
