import EndpointRules.Proofs.Machine.Straight

/-!
# Short forms of instructions

Some opcodes stand for a sequence of others: they read a register where the others would load it
first, or they have the size of a list or a map, the number of arguments of a call or the high byte
of an index built in.  `ShortFor` lists them with the sequences that they replace.  Wherever the two
stand, they leave the same frame, or both fail.
-/

namespace EndpointRules

/-- Pushing and popping an operand leaves no trace once another is pushed. -/
@[simp] theorem Stack.push_drop_push (s : Stack) (v w : Value) :
    ((s.push v).drop 1).push w = s.push w := by
  obtain ⟨items, room⟩ := s
  cases room with
  | zero => cases items <;> simp [push, drop]
  | succ room => simp [push, drop]

/-- Nothing is linked to the slot, or a function of that many arguments. -/
def Slot.Takes (slot : Slot) (arity : Nat) : Prop := ∀ f, slot.function = some f → f.arity = arity

/-- The instruction is a short form of the others, given the functions that calls refer to. -/
inductive ShortFor (functions : Array Slot) : Written → List Written → Prop
  | constant (c : UInt8) : ShortFor functions ⟨.loadConst, [c], rfl⟩ [⟨.loadConstWide, [0, c], rfl⟩]
  | isSet (r : UInt8) : ShortFor functions ⟨.testRegisterIsSet, [r], rfl⟩
      [⟨.loadRegister, [r], rfl⟩, ⟨.isSet, [], rfl⟩]
  | isNotSet (r : UInt8) : ShortFor functions ⟨.testRegisterNotSet, [r], rfl⟩
      [⟨.loadRegister, [r], rfl⟩, ⟨.isSet, [], rfl⟩, ⟨.not, [], rfl⟩]
  | isTrue (r : UInt8) : ShortFor functions ⟨.testRegisterIsTrue, [r], rfl⟩
      [⟨.loadRegister, [r], rfl⟩, ⟨.isTrue, [], rfl⟩]
  | isFalse (r : UInt8) : ShortFor functions ⟨.testRegisterIsFalse, [r], rfl⟩
      [⟨.loadRegister, [r], rfl⟩, ⟨.not, [], rfl⟩]
  | property (r high low : UInt8) : ShortFor functions ⟨.getPropertyReg, [r, high, low], rfl⟩
      [⟨.loadRegister, [r], rfl⟩, ⟨.getProperty, [high, low], rfl⟩]
  | index (r i : UInt8) : ShortFor functions ⟨.getIndexReg, [r, i], rfl⟩
      [⟨.loadRegister, [r], rfl⟩, ⟨.getIndex, [i], rfl⟩]
  | list0 : ShortFor functions ⟨.list0, [], rfl⟩ [⟨.listN, [0], rfl⟩]
  | list1 : ShortFor functions ⟨.list1, [], rfl⟩ [⟨.listN, [1], rfl⟩]
  | list2 : ShortFor functions ⟨.list2, [], rfl⟩ [⟨.listN, [2], rfl⟩]
  | map0 : ShortFor functions ⟨.map0, [], rfl⟩ [⟨.mapN, [0], rfl⟩]
  | map1 : ShortFor functions ⟨.map1, [], rfl⟩ [⟨.mapN, [1], rfl⟩]
  | map2 : ShortFor functions ⟨.map2, [], rfl⟩ [⟨.mapN, [2], rfl⟩]
  | map3 : ShortFor functions ⟨.map3, [], rfl⟩ [⟨.mapN, [3], rfl⟩]
  | map4 : ShortFor functions ⟨.map4, [], rfl⟩ [⟨.mapN, [4], rfl⟩]
  | call0 (index : UInt8) {slot : Slot} (hslot : functions[index.toNat]? = some slot)
      (htakes : slot.Takes 0) : ShortFor functions ⟨.call0, [index], rfl⟩ [⟨.call, [index], rfl⟩]
  | call1 (index : UInt8) {slot : Slot} (hslot : functions[index.toNat]? = some slot)
      (htakes : slot.Takes 1) : ShortFor functions ⟨.call1, [index], rfl⟩ [⟨.call, [index], rfl⟩]
  | call2 (index : UInt8) {slot : Slot} (hslot : functions[index.toNat]? = some slot)
      (htakes : slot.Takes 2) : ShortFor functions ⟨.call2, [index], rfl⟩ [⟨.call, [index], rfl⟩]
  | call3 (index : UInt8) {slot : Slot} (hslot : functions[index.toNat]? = some slot)
      (htakes : slot.Takes 3) : ShortFor functions ⟨.call3, [index], rfl⟩ [⟨.call, [index], rfl⟩]

/-- None of the instructions jumps or returns. -/
theorem ShortFor.straight {functions : Array Slot} {w v : Written} {ws : List Written}
    (h : ShortFor functions w ws) (hv : v ∈ w :: ws) : v.instruction.Straight := by
  have hop : v.op.isReturn = false ∧ v.op.isJump = false := by
    revert v
    cases h <;> simp [Opcode.isReturn, Opcode.isJump]
  exact Written.straight hop.1 hop.2

/-- On a frame the computations leave the same frame, or both end in a fault. -/
def Exec.SameEffect (m m' : Exec Unit) (f : Frame) : Prop :=
  (∃ g, m f = (.ok (), g) ∧ m' f = (.ok (), g)) ∨
    (∃ fault g, m f = (.error fault, g)) ∧ ∃ fault g, m' f = (.error fault, g)

theorem Exec.SameEffect.of_eq {m m' : Exec Unit} (h : m = m') (f : Frame) :
    SameEffect m m' f := by
  subst h
  cases hm : m f with
  | mk r g =>
    cases r with
    | ok _ => exact .inl ⟨g, hm, hm⟩
    | error fault => exact .inr ⟨⟨fault, g, hm⟩, fault, g, hm⟩

namespace Setting

open Exec

variable {s t : Setting} {b c : Body} {a a' arity index constant place : Nat} {w : Written}
  {ws : List Written} {slot : Slot}

/-! ## Sequences -/

theorem performAll_test (predicate : Predicate) (is : List Instruction) (v : Value) (f : Frame) :
    s.performAll (.test predicate :: is) { f with stack := f.stack.push v } =
      s.performAll is { f with stack := f.stack.push (.boolean (predicate.holds v)) } := by
  simp [performAll, perform, bind_apply, pure_apply, Exec.push, Exec.pop]

/-- A test of a register and the tests of its value behind a load of it. -/
theorem sameEffect_testRegister (predicate : Predicate) (is : List Instruction)
    (h : ∀ (v : Value) (f : Frame), s.performAll is { f with stack := f.stack.push v } =
      (.ok (), { f with stack := f.stack.push (.boolean (predicate.holds v)) })) (f : Frame) :
    SameEffect (s.performAll [.testRegister predicate index])
      (s.performAll (.loadRegister index :: is)) f := by
  cases hregister : f.registers[index]? with
  | none =>
    right
    simp [performAll, perform, bind_apply, register, hregister]
  | some v =>
    left
    simp [performAll, perform, bind_apply, pure_apply, register, hregister, Exec.push, h]

/-- The name of a property has no part in the frame. -/
theorem exists_propertyName_eq (s : Setting) (index : Nat) :
    ∃ r, s.propertyName index = result r := by
  unfold propertyName Exec.constant
  cases s.program.parts.constants[index]? with
  | none => exact ⟨.error (.constantIndex index), rfl⟩
  | some v =>
    cases v with
    | string name => exact ⟨.ok name, rfl⟩
    | _ => exact ⟨.error .propertyName, rfl⟩

/-- The short form finds out the name first, the others look at the register first. -/
theorem sameEffect_getPropertyOf (f : Frame) :
    SameEffect (s.performAll [.getPropertyOf index constant])
      (s.performAll [.loadRegister index, .getProperty constant]) f := by
  obtain ⟨r, hname⟩ := s.exists_propertyName_eq constant
  cases hregister : f.registers[index]? with
  | none =>
    right
    cases r <;> simp [performAll, perform, bind_apply, register, result, hregister, hname]
  | some v =>
    cases r with
    | error fault =>
      right
      simp [performAll, perform, bind_apply, pure_apply, register, result, Exec.push, hregister,
        hname]
    | ok name =>
      left
      simp [performAll, perform, bind_apply, pure_apply, register, result, Exec.push, Exec.pop,
        hregister, hname]

theorem sameEffect_getIndexOf (f : Frame) :
    SameEffect (s.performAll [.getIndexOf index place])
      (s.performAll [.loadRegister index, .getIndex place]) f := by
  cases hregister : f.registers[index]? with
  | none =>
    right
    simp [performAll, perform, bind_apply, register, hregister]
  | some v =>
    left
    simp [performAll, perform, bind_apply, pure_apply, register, hregister, Exec.push, Exec.pop]

/-- A call with as many arguments as the function of the slot takes, if there is one. -/
theorem sameEffect_call (hslot : s.program.parts.functions[index]? = some slot)
    (htakes : slot.Takes arity) (f : Frame) :
    SameEffect (s.performAll [.call (some arity) index]) (s.performAll [.call none index]) f := by
  have hcall : s.callFunction (some arity) index = s.callFunction none index := by
    rw [callFunction, callFunction, hslot]
    dsimp only
    cases hfunction : slot.function with
    | none => rfl
    | some function =>
      obtain rfl := htakes function hfunction
      rfl
  exact .of_eq (by simp only [performAll, perform, hcall]) f

/-- A short form has the effect of the instructions that it stands for. -/
theorem sameEffect_of_shortFor (h : ShortFor s.program.parts.functions w ws) (f : Frame) :
    SameEffect (s.performAll [w.instruction]) (s.performAll (ws.map (·.instruction))) f := by
  cases h with
  | constant c =>
    -- the high byte of the index is zero
    have hindex : (0 : UInt8).toNat * 256 + c.toNat = c.toNat := by simp
    exact .of_eq (congrArg (fun index => s.performAll [.loadConstant index]) hindex.symm) f
  | isSet r =>
    exact sameEffect_testRegister .isSet [.test .isSet] (fun v f => performAll_test _ _ v f) f
  | isNotSet r =>
    refine sameEffect_testRegister .isNotSet [.test .isSet, .test .isFalse] (fun v f => ?_) f
    rw [performAll_test, performAll_test]
    rfl
  | isTrue r =>
    exact sameEffect_testRegister .isTrue [.test .isTrue] (fun v f => performAll_test _ _ v f) f
  | isFalse r =>
    exact sameEffect_testRegister .isFalse [.test .isFalse] (fun v f => performAll_test _ _ v f) f
  | property r high low => exact sameEffect_getPropertyOf f
  | index r i => exact sameEffect_getIndexOf f
  | call0 index hslot htakes
  | call1 index hslot htakes
  | call2 index hslot htakes
  | call3 index hslot htakes => exact sameEffect_call hslot htakes f
  | _ => exact .of_eq rfl f

/-! ## Short forms in bodies -/

/-- Runs that come with one frame to a short form and to the instructions that it stands for, come
    with one frame to the end of both, or fail on both. -/
theorem leads_or_fails_of_shortFor (h : ShortFor s.program.parts.functions w ws)
    (hagrees : s.Agrees t) (hs : s.Holds b a w.bytes) (ht : t.Holds c a' (Written.code ws))
    (f : Frame) :
    (∃ g, s.Leads b (a, f) (a + w.bytes.length, g) ∧
        t.Leads c (a', f) (a' + (Written.code ws).length, g)) ∨
      (s.FailsBefore b (a, f) (a + w.bytes.length) ∧
        t.FailsBefore c (a', f) (a' + (Written.code ws).length)) := by
  have hone : Written.code [w] = w.bytes := List.append_nil w.bytes
  rw [← hone] at hs ⊢
  have hshort : ∀ v ∈ [w], v.instruction.Straight := fun v hv =>
    h.straight (List.mem_cons.2 (.inl (List.mem_singleton.1 hv)))
  have hlong : ∀ v ∈ ws, v.instruction.Straight := fun v hv =>
    h.straight (List.mem_cons_of_mem w hv)
  rcases sameEffect_of_shortFor h f with ⟨g, hleft, hright⟩ | ⟨⟨_, _, hleft⟩, _, _, hright⟩
  · rw [performAll_eq_of_agrees hagrees] at hright
    exact .inl ⟨g, leads_of_performAll hs hshort hleft, leads_of_performAll ht hlong hright⟩
  · rw [performAll_eq_of_agrees hagrees] at hright
    exact .inr ⟨failsBefore_of_performAll hs hshort hleft,
      failsBefore_of_performAll ht hlong hright⟩

/-- Two bodies that return a property of a register, the first by a short form. -/
def twoForms : Program where
  parts := {
    code := #[0x1A, 0x00, 0x00, 0x00, 0x28, 0x03, 0x00, 0x18, 0x00, 0x00, 0x28]
    conditions := #[0, 5]
    registers := #[{ name := "Bucket" }]
    constants := #[.string "region"]
    diagram := { entries := #[], root := 1 } }
  starts := [0, 5]
  starts_eq := by decide
  check_eq := by cbv

/-- The setting of the runs of `twoForms`. -/
def formed : Setting := { program := twoForms, hooks := [], context := [] }

/-- Whatever the register holds, both bodies come to their returns with one frame, or fail. -/
theorem leads_or_fails_twoForms :
    formed.Holds ⟨.condition, 0, 0, 5⟩ 0 (Written.bytes ⟨.getPropertyReg, [0, 0, 0], rfl⟩) ∧
    formed.Holds ⟨.condition, 1, 5, 11⟩ 5
      (Written.code [⟨.loadRegister, [0], rfl⟩, ⟨.getProperty, [0, 0], rfl⟩]) ∧
    ∀ f, (∃ g, formed.Leads ⟨.condition, 0, 0, 5⟩ (0, f) (4, g) ∧
        formed.Leads ⟨.condition, 1, 5, 11⟩ (5, f) (10, g)) ∨
      (formed.FailsBefore ⟨.condition, 0, 0, 5⟩ (0, f) 4 ∧
        formed.FailsBefore ⟨.condition, 1, 5, 11⟩ (5, f) 10) := by
  have hshort : formed.Holds ⟨.condition, 0, 0, 5⟩ 0
      (Written.bytes ⟨.getPropertyReg, [0, 0, 0], rfl⟩) := ⟨by decide, by decide⟩
  have hlong : formed.Holds ⟨.condition, 1, 5, 11⟩ 5
      (Written.code [⟨.loadRegister, [0], rfl⟩, ⟨.getProperty, [0, 0], rfl⟩]) :=
    ⟨by decide, by decide⟩
  exact ⟨hshort, hlong, fun f =>
    leads_or_fails_of_shortFor (.property 0 0 0) ⟨rfl, rfl, rfl, rfl⟩ hshort hlong f⟩

end Setting

end EndpointRules
