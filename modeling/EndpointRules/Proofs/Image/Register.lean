import EndpointRules.Image.Decode
import EndpointRules.Image.Encode
import EndpointRules.Proofs.Image.ReadConstant
import EndpointRules.Proofs.Image.WriteConstant

/-!
# Registers as bytes

A register is written with four flags: whether it is required, whether it is temporary, and whether
a default and a provider's name follow.  Any byte but 0 is read as a flag that is set, and the
writer writes 1.
-/

namespace EndpointRules

/-- The names and the default of the register can be written. -/
structure Register.Storable (r : Register) : Prop where
  name : r.name.length ≤ 0xFFFF
  defaultValue : ∀ v ∈ r.defaultValue, v.Storable
  builtin : ∀ name ∈ r.builtin, name.length ≤ 0xFFFF

/-- The default of the register is a well-formed value. -/
def Register.WellFormed (r : Register) : Prop := ∀ v ∈ r.defaultValue, v.WellFormed

namespace Image

/-- How a register is written.  What may be missing stands behind its flag. -/
structure RegisterForm where
  name : Bytes
  required : UInt8
  temporary : UInt8
  defaultValue : Option (UInt8 × Form)
  builtin : Option (UInt8 × Bytes)

/-- The bytes of something that may be missing. -/
def optionBytes {φ : Type} (bytes : φ → Bytes) : Option (UInt8 × φ) → Bytes
  | none => [0]
  | some (flag, f) => flag :: bytes f

namespace RegisterForm

/-- The bytes of a register. -/
def bytes (r : RegisterForm) : Bytes :=
  Word.sized r.name ++ (r.required :: r.temporary ::
    (optionBytes Form.bytes r.defaultValue ++ optionBytes Word.sized r.builtin))

/-- The register that is written. -/
def value (r : RegisterForm) : Register where
  name := r.name
  required := r.required != 0
  temporary := r.temporary != 0
  defaultValue := r.defaultValue.map fun x => x.2.value
  builtin := r.builtin.map fun x => x.2

/-- The form can be read: the lengths fit, and what is there has a flag that is set. -/
structure Fits (r : RegisterForm) : Prop where
  name : r.name.length ≤ 0xFFFF
  defaultValue : ∀ x ∈ r.defaultValue, x.1 ≠ 0 ∧ x.2.Fits (maxConstantDepth + 1)
  builtin : ∀ x ∈ r.builtin, x.1 ≠ 0 ∧ x.2.length ≤ 0xFFFF

/-- The flags are 0 or 1, and the default is canonical. -/
structure Canonical (r : RegisterForm) : Prop where
  required : r.required = 0 ∨ r.required = 1
  temporary : r.temporary = 0 ∨ r.temporary = 1
  defaultValue : ∀ x ∈ r.defaultValue, x.1 = 1 ∧ x.2.Canonical
  builtin : ∀ x ∈ r.builtin, x.1 = 1

/-- How the writer writes a register. -/
def ofRegister (r : Register) : RegisterForm where
  name := r.name
  required := flag r.required
  temporary := flag r.temporary
  defaultValue := r.defaultValue.map fun v => (1, Form.ofValue v)
  builtin := r.builtin.map fun name => (1, name)

end RegisterForm

theorem flag_ne_zero (b : Bool) : (flag b != 0) = b := by
  cases b <;> rfl

theorem flag_bne_zero_eq_iff {byte : UInt8} : flag (byte != 0) = byte ↔ byte = 0 ∨ byte = 1 := by
  constructor
  · intro h
    rw [← h]
    cases byte != 0
    · exact .inl rfl
    · exact .inr rfl
  · rintro (rfl | rfl) <;> rfl

namespace RegisterForm

variable {r : Register} {f : RegisterForm}

theorem fits_ofRegister (h : r.Storable) : (ofRegister r).Fits where
  name := h.name
  defaultValue x hx := by
    obtain ⟨v, hv, rfl⟩ := Option.map_eq_some_iff.1 hx
    exact ⟨(by decide : (1 : UInt8) ≠ 0),
      Form.fits_ofValue (Value.storable_iff.1 (h.defaultValue v hv))⟩
  builtin x hx := by
    obtain ⟨name, hname, rfl⟩ := Option.map_eq_some_iff.1 hx
    exact ⟨(by decide : (1 : UInt8) ≠ 0), h.builtin name hname⟩

theorem storable_value (h : f.Fits) : f.value.Storable where
  name := h.name
  defaultValue v hv := by
    obtain ⟨x, hx, rfl⟩ := Option.map_eq_some_iff.1 hv
    exact Value.storable_iff.2 (Form.fits_value (h.defaultValue x hx).2)
  builtin name hname := by
    obtain ⟨x, hx, rfl⟩ := Option.map_eq_some_iff.1 hname
    exact (h.builtin x hx).2

theorem wellFormed_value (h : f.Fits) : f.value.WellFormed := by
  intro v hv
  obtain ⟨x, hx, rfl⟩ := Option.map_eq_some_iff.1 hv
  exact Form.wellFormed_value (h.defaultValue x hx).2

theorem value_ofRegister (h : r.Storable) (hr : r.WellFormed) : (ofRegister r).value = r := by
  obtain ⟨name, required, temporary, defaultValue, builtin⟩ := r
  rw [ofRegister, value]
  dsimp only
  rw [flag_ne_zero, flag_ne_zero, Option.map_map, Option.map_map]
  congr 1
  · cases defaultValue with
    | none => rfl
    | some v =>
      have hfits := Value.storable_iff.1 (h.defaultValue v rfl)
      exact congrArg some (Form.value_ofValue hfits (hr v rfl))
  · cases builtin <;> rfl

/-- Writing the register of a form gives the form again exactly when it is canonical. -/
theorem ofRegister_value_eq_iff (h : f.Fits) : ofRegister f.value = f ↔ f.Canonical := by
  obtain ⟨name, required, temporary, defaultValue, builtin⟩ := f
  simp only [ofRegister, value, RegisterForm.mk.injEq, true_and, flag_bne_zero_eq_iff]
  have hdefault : Option.map (fun v => ((1 : UInt8), Form.ofValue v))
        (defaultValue.map fun x => x.2.value) = defaultValue ↔
      ∀ x ∈ defaultValue, x.1 = 1 ∧ x.2.Canonical := by
    cases defaultValue with
    | none => simp
    | some x =>
      obtain ⟨flag, f⟩ := x
      have hf := Form.ofValue_value_eq_iff (h.defaultValue (flag, f) rfl).2
      simp only [Option.map_some, Option.some.injEq, Prod.mk.injEq, Option.mem_def,
        forall_eq', hf]
      exact and_congr_left' eq_comm
  have hbuiltin : Option.map (fun name => ((1 : UInt8), name)) (builtin.map fun x => x.2) =
      builtin ↔ ∀ x ∈ builtin, x.1 = 1 := by
    cases builtin with
    | none => simp
    | some x =>
      obtain ⟨flag, name⟩ := x
      simp [eq_comm]
  rw [hdefault, hbuiltin]
  exact ⟨fun ⟨h₁, h₂, h₃, h₄⟩ => ⟨h₁, h₂, h₃, h₄⟩, fun ⟨h₁, h₂, h₃, h₄⟩ => ⟨h₁, h₂, h₃, h₄⟩⟩

theorem length_ofRegister_value_le (h : f.Fits) :
    (ofRegister f.value).bytes.length ≤ f.bytes.length := by
  obtain ⟨name, required, temporary, defaultValue, builtin⟩ := f
  have hdefault : (optionBytes Form.bytes (Option.map (fun v => ((1 : UInt8), Form.ofValue v))
        (defaultValue.map fun x => x.2.value))).length ≤
      (optionBytes Form.bytes defaultValue).length := by
    cases defaultValue with
    | none => exact Nat.le_refl _
    | some x =>
      obtain ⟨flag, f⟩ := x
      exact Nat.succ_le_succ (Form.length_ofValue_value_le (h.defaultValue (flag, f) rfl).2)
  have hbuiltin : (optionBytes Word.sized (Option.map (fun name => ((1 : UInt8), name))
      (builtin.map fun x => x.2))).length = (optionBytes Word.sized builtin).length := by
    cases builtin <;> rfl
  simp only [bytes, ofRegister, value, List.length_append, List.length_cons, hbuiltin]
  omega

end RegisterForm

/-! ## Reading -/

section

open Reading

theorem reads_flag :
    Reads readFlag (Denotes (fun _ : UInt8 => True) ([·]) fun byte => byte != 0) := by
  refine (reads_bind_pure reads_u8 fun n => n != 0).congr fun b x => ?_
  constructor
  · rintro ⟨byte, -, rfl, rfl⟩
    exact ⟨byte, trivial, rfl, (Word.toNat_bne_zero byte).symm⟩
  · rintro ⟨byte, -, rfl, rfl⟩
    exact ⟨byte, trivial, rfl, Word.toNat_bne_zero byte⟩

variable {α β φ : Type} {read : Reading α} {fits : φ → Prop} {bytes : φ → Bytes} {value : φ → α}

/-- Reads a flag, and what follows it if it is set. -/
def readOptional (read : Reading α) : Reading (Option α) := do
  if ← readFlag then some <$> read else pure none

theorem reads_optional (h : Reads read (Denotes fits bytes value)) :
    Reads (readOptional read)
      (Denotes (fun f : Option (UInt8 × φ) => ∀ x ∈ f, x.1 ≠ 0 ∧ fits x.2) (optionBytes bytes)
        (Option.map fun x => value x.2)) := by
  have hbranch : ∀ present : Bool, Reads (if present then some <$> read else pure none)
      fun b x => if present then ∃ f, fits f ∧ bytes f = b ∧ some (value f) = x
        else b = [] ∧ x = none := by
    intro present
    cases present with
    | true => exact reads_bind_pure h some
    | false => exact reads_pure none
  refine (reads_flag.bind hbranch).congr fun b x => ?_
  constructor
  · rintro ⟨_, _, _, rfl, ⟨flag, -, rfl, rfl⟩, hx⟩
    split at hx
    · next hflag =>
      obtain ⟨f, hf, rfl, rfl⟩ := hx
      refine ⟨some (flag, f), ?_, rfl, rfl⟩
      rintro _ ⟨⟩
      exact ⟨bne_iff_ne.1 hflag, hf⟩
    · next hflag =>
      obtain ⟨rfl, rfl⟩ := hx
      obtain rfl : flag = 0 := by simpa using hflag
      exact ⟨none, by simp, rfl, rfl⟩
  · rintro ⟨f, hf, rfl, rfl⟩
    cases f with
    | none => exact ⟨[0], [], false, rfl, ⟨0, trivial, rfl, rfl⟩, rfl, rfl⟩
    | some x =>
      obtain ⟨flag, f⟩ := x
      obtain ⟨hflag, hf⟩ := hf _ rfl
      exact ⟨[flag], bytes f, true, rfl, ⟨flag, trivial, rfl, bne_iff_ne.2 hflag⟩, f, hf, rfl, rfl⟩

/-- Reading goes on behind what may be missing. -/
theorem bind_readOptional (read : Reading α) (k : Option α → Reading β) :
    (readFlag >>= fun present => if present then some <$> read >>= k else pure none >>= k) =
      (readOptional read >>= k) := by
  funext s
  rw [bind_apply, bind_apply, readOptional, bind_apply]
  cases readFlag s with
  | error e => rfl
  | ok r =>
    obtain ⟨present, s₁⟩ := r
    cases present <;> rfl

theorem reads_register :
    Reads readRegister (Denotes RegisterForm.Fits RegisterForm.bytes RegisterForm.value) := by
  rw [readRegister]
  simp only [bind_readOptional]
  refine (reads_string.bind fun name => reads_flag.bind fun required =>
    reads_flag.bind fun temporary => (reads_optional reads_outermost).bind fun defaultValue =>
    (reads_optional reads_string).bind fun builtin => reads_pure _).congr fun b r => ?_
  constructor
  · rintro ⟨_, _, _, rfl, ⟨name, hname, rfl, rfl⟩, _, _, _, rfl, ⟨required, -, rfl, rfl⟩,
      _, _, _, rfl, ⟨temporary, -, rfl, rfl⟩, _, _, _, rfl, ⟨defaultValue, hdefault, rfl, rfl⟩,
      _, _, _, rfl, ⟨builtin, hbuiltin, rfl, rfl⟩, rfl, rfl⟩
    refine ⟨⟨name, required, temporary, defaultValue, builtin⟩, ⟨hname, hdefault, hbuiltin⟩, ?_,
      rfl⟩
    simp [RegisterForm.bytes]
  · rintro ⟨⟨name, required, temporary, defaultValue, builtin⟩, ⟨hname, hdefault, hbuiltin⟩, rfl,
      rfl⟩
    exact ⟨_, _, _, rfl, ⟨name, hname, rfl, rfl⟩, [required], _, _, rfl,
      ⟨required, trivial, rfl, rfl⟩, [temporary], _, _, rfl, ⟨temporary, trivial, rfl, rfl⟩,
      _, _, _, rfl, ⟨defaultValue, hdefault, rfl, rfl⟩, _, [], _, (List.append_nil _).symm,
      ⟨builtin, hbuiltin, rfl, rfl⟩, rfl, rfl⟩

end

/-! ## Writing -/

theorem appends_value : Sink.Appends (fun out v => writeConstant 0 v out) Value.Storable
    fun v => (Form.ofValue v).bytes := by
  intro out v out'
  rw [Value.storable_iff]
  exact appends_constant (Nat.zero_add _) out v out'

/-- Writes a flag, and what follows it if it is set. -/
def writeOptional {α : Type} (write : Sink → α → Except CompileError Sink) (out : Sink) :
    Option α → Except CompileError Sink
  | none => .ok (out.u8 0)
  | some x => write (out.u8 1) x

theorem appends_optional {α φ : Type} {write : Sink → α → Except CompileError Sink}
    {fits : α → Prop} {form : α → φ} {bytes : φ → Bytes}
    (h : Sink.Appends write fits fun x => bytes (form x)) :
    Sink.Appends (writeOptional write) (fun x => ∀ y ∈ x, fits y)
      fun x => optionBytes bytes (x.map fun y => (1, form y)) := by
  intro out x out'
  cases x with
  | none =>
    rw [writeOptional, Except.ok.injEq, eq_comm]
    exact ⟨fun h => ⟨by simp, h⟩, fun h => h.2⟩
  | some y =>
    rw [writeOptional, h, Sink.u8_eq_raw, Sink.raw_raw]
    simp [optionBytes]

/-- Writing a register is writing its parts one after the other. -/
theorem writeRegister_eq (out : Sink) (r : Register) :
    writeRegister out r = (do
      let out ← writeString out r.name
      let out ← writeOptional (fun out v => writeConstant 0 v out)
        (out.raw [flag r.required, flag r.temporary]) r.defaultValue
      writeOptional writeString out r.builtin) := by
  obtain ⟨name, required, temporary, defaultValue, builtin⟩ := r
  unfold writeRegister
  cases writeString out name with
  | error e => rfl
  | ok out₁ =>
    cases defaultValue with
    | none => cases builtin <;> rfl
    | some v => cases builtin <;> rfl

theorem appends_register : Sink.Appends writeRegister Register.Storable
    fun r => (RegisterForm.ofRegister r).bytes := by
  have hdefault := appends_optional appends_value
  have hbuiltin : Sink.Appends (writeOptional writeString)
      (fun x => ∀ name ∈ x, name.length ≤ 0xFFFF)
      fun x => optionBytes Word.sized (x.map fun name => (1, name)) :=
    @appends_optional Bytes Bytes writeString _ id Word.sized appends_string
  intro out r out'
  rw [writeRegister_eq, Except.bind_eq_ok_iff]
  constructor
  · rintro ⟨out₁, hout₁, hout'⟩
    obtain ⟨out₂, hout₂, hout'⟩ := Except.bind_eq_ok_iff.1 hout'
    obtain ⟨hname, rfl⟩ := (appends_string _ _ _).1 hout₁
    obtain ⟨hvalue, rfl⟩ := (hdefault _ _ _).1 hout₂
    obtain ⟨hprovider, rfl⟩ := (hbuiltin _ _ _).1 hout'
    refine ⟨⟨hname, hvalue, hprovider⟩, ?_⟩
    simp [RegisterForm.bytes, RegisterForm.ofRegister]
  · rintro ⟨⟨hname, hvalue, hprovider⟩, rfl⟩
    refine ⟨_, (appends_string _ _ _).2 ⟨hname, rfl⟩, ?_⟩
    refine Except.bind_eq_ok_iff.2 ⟨_, (hdefault _ _ _).2 ⟨hvalue, rfl⟩, ?_⟩
    refine (hbuiltin _ _ _).2 ⟨hprovider, ?_⟩
    simp [RegisterForm.bytes, RegisterForm.ofRegister]

end Image

end EndpointRules
