import EndpointRules.Proofs.Except
import EndpointRules.Proofs.Machine.Composed

/-!
# Faults of instructions

The operations on values fail with type errors only.  An instruction is composed of primitive
computations, assigns registers only if it is `setRegister`, and misses a function only if it is a
call whose index the program's table of functions does not have.  Only one instruction raises an
error of the rules, and none reaches the end of a body.
-/

namespace EndpointRules

/-- Whether instructions in general may raise the fault, and not only a call that misses its
    function, the rules themselves, or the end of a body. -/
def Fault.isCommon : Fault → Bool
  | missingReturn | functionIndex _ | rule _ => false
  | raised kind _ => kind == .typeError
  | _ => true

theorem Fault.isCommon_of_kind {fault : Fault} (h : fault.kind = .typeError) :
    fault.isCommon = true := by
  cases fault with
  | raised kind message => exact beq_iff_eq.2 h
  | _ => first | rfl | cases h

theorem Fault.kind_of_isCommon {fault : Fault} (h : fault.isCommon = true) :
    fault.kind ≠ .missingReturn ∧ fault.kind ≠ .ruleError := by
  cases fault with
  | missingReturn => cases h
  | functionIndex index => cases h
  | rule message => cases h
  | raised kind message =>
    have hkind : kind = .typeError := beq_iff_eq.1 h
    subst hkind
    exact ⟨nofun, nofun⟩
  | _ => exact ⟨nofun, nofun⟩

namespace Operation

variable {operation : Bytes} {fault : Fault}

theorem kind_of_stringArgument {v : Value} (h : stringArgument operation v = .error fault) :
    fault.kind = .typeError := by
  cases v <;> simp only [stringArgument, Except.error.injEq, reduceCtorEq] at h <;> subst h <;> rfl

theorem kind_of_substring {input start stop reverse : Value}
    (h : substring operation input start stop reverse = .error fault) :
    fault.kind = .typeError := by
  unfold substring at h
  rcases Except.bind_eq_error_iff.1 h with htext | ⟨text, -, h⟩
  · exact kind_of_stringArgument htext
  · cases start <;> cases stop <;> cases reverse <;> cases h <;> rfl

theorem kind_of_isHostLabel {label dots : Value}
    (h : isHostLabel operation label dots = .error fault) : fault.kind = .typeError := by
  unfold isHostLabel at h
  rcases Except.bind_eq_error_iff.1 h with htext | ⟨text, -, h⟩
  · exact kind_of_stringArgument htext
  · cases dots <;> cases h <;> rfl

theorem kind_of_split {input delimiter limit : Value}
    (h : split operation input delimiter limit = .error fault) : fault.kind = .typeError := by
  unfold split at h
  rcases Except.bind_eq_error_iff.1 h with htext | ⟨text, -, h⟩
  · exact kind_of_stringArgument htext
  · split at h
    · split at h
      · cases h
      · cases h
        rfl
    · cases h
      rfl

end Operation

namespace Setting

/-- An opcode reads a string operand as the functions read an argument. -/
theorem popString_eq (op : Opcode) :
    popString op = Exec.pop >>= fun v => Exec.result (Operation.stringArgument op.mnemonic v) := by
  unfold popString
  congr 1
  funext v
  cases v <;> rfl

theorem kind_of_compareTyped {op : Opcode} {kind : Kind} {a b : Value} {fault : Fault}
    (h : compareTyped op kind a b = .error fault) : fault.kind = .typeError := by
  unfold compareTyped at h
  split at h
  · cases h
  · split at h
    · cases h
      rfl
    · cases h

theorem kind_of_mapOfPairs {entries : Dict Value} {items : List Value} {fault : Fault}
    (h : mapOfPairs entries items = .error fault) : fault.kind = .typeError := by
  fun_induction mapOfPairs entries items with
  | case1 entries v key rest ih => exact ih h
  | case2 =>
    cases h
    rfl
  | case3 => cases h

theorem kind_of_headerValues {name : Bytes} {v : Value} {fault : Fault}
    (h : headerValues name v = .error fault) : fault.kind = .typeError := by
  unfold headerValues at h
  split at h
  · cases h
  · obtain ⟨item, -, hitem⟩ := Except.exists_of_mapM_eq_error h
    split at hitem
    · cases hitem
    · cases hitem
      rfl
  · cases h
    rfl

theorem kind_of_headersOfMap {entries : Dict Value} {fault : Fault}
    (h : headersOfMap entries = .error fault) : fault.kind = .typeError := by
  obtain ⟨⟨name, v⟩, -, hentry⟩ := Except.exists_of_mapM_eq_error h
  exact kind_of_headerValues (Except.map_eq_error_iff.1 hentry)

theorem kind_of_fillTemplate {place : Nat} {parts : List TemplatePart} {arguments : List Value}
    {fault : Fault} (h : fillTemplate place parts arguments = .error fault) :
    fault.kind = .typeError ∨ fault = .stackUnderflow := by
  fun_induction fillTemplate place parts arguments with
  | case1 => cases h
  | case2 place s parts arguments ih => exact ih (Except.map_eq_error_iff.1 h)
  | case3 place parts s arguments ih => exact ih (Except.map_eq_error_iff.1 h)
  | case4 =>
    cases h
    exact .inl rfl
  | case5 =>
    cases h
    exact .inr rfl

/-! ## Instructions -/

variable {s : Setting} {assigns : Prop} {raises : Fault → Prop}

open Exec

section

-- What instructions are made of raises common faults, apart from calls.
variable (hraises : ∀ fault, fault.isCommon = true → raises fault)

include hraises

theorem composed_result {α : Type} {r : Except Fault α}
    (h : ∀ fault, r = .error fault → fault.kind = .typeError) :
    Composed assigns raises (Exec.result r) :=
  .result fun fault hr => hraises fault (Fault.isCommon_of_kind (h fault hr))

theorem composed_pop : Composed assigns raises Exec.pop :=
  .pop (hraises _ rfl)

theorem composed_popMany (count : Nat) : Composed assigns raises (Exec.popMany count) :=
  .popMany count (hraises _ rfl)

theorem composed_register (index : Nat) : Composed assigns raises (Exec.register index) :=
  .register index (hraises _ rfl)

theorem composed_constant {p : Program} (index : Nat) :
    Composed assigns raises (Exec.constant p index) :=
  .constant (hraises _ rfl)

theorem composed_resolveTemplate (count index : Nat) :
    Composed assigns raises (s.resolveTemplate count index) := by
  unfold resolveTemplate
  refine .bind (composed_constant hraises index) fun v => ?_
  split
  · next parts =>
    have hfill : Composed assigns raises (do
        let arguments ← popMany count
        push (.string (← Exec.result (fillTemplate 0 parts arguments)))) := by
      refine .bind (composed_popMany hraises count) fun arguments => ?_
      refine .bind (.result fun fault hfault => hraises fault ?_) fun text => .push _
      rcases kind_of_fillTemplate hfault with h | rfl
      · exact Fault.isCommon_of_kind h
      · rfl
    dsimp only
    split
    · exact .bind (.fail (hraises _ rfl)) fun _ => hfill
    · exact hfill
  · exact .fail (hraises _ rfl)

theorem composed_propertyName (index : Nat) :
    Composed assigns raises (s.propertyName index) := by
  unfold propertyName
  refine .bind (composed_constant hraises index) fun v => ?_
  split
  · exact .pure _
  · exact .fail (hraises _ rfl)

theorem composed_popString (op : Opcode) : Composed assigns raises (popString op) := by
  rw [popString_eq]
  exact .bind (composed_pop hraises) fun v =>
    composed_result hraises fun fault => Operation.kind_of_stringArgument

theorem composed_popUri : Composed assigns raises popUri := by
  unfold popUri
  refine .bind (composed_pop hraises) fun v => ?_
  split
  · exact .pure _
  · refine .bind (.findUri? _) fun found => ?_
    split
    · exact .pure _
    · exact .fail (hraises _ rfl)
  · exact .fail (hraises _ rfl)

theorem composed_popProperties (present : Bool) :
    Composed assigns raises (popProperties present) := by
  unfold popProperties
  split
  · refine .bind (composed_pop hraises) fun v => ?_
    split
    · exact .pure _
    · exact .fail (hraises _ rfl)
  · exact .pure _

theorem composed_popHeaders (present : Bool) :
    Composed assigns raises (popHeaders present) := by
  unfold popHeaders
  split
  · refine .bind (composed_pop hraises) fun v => ?_
    split
    · exact composed_result hraises fun fault => kind_of_headersOfMap
    · exact .fail (hraises _ rfl)
  · exact .pure _

theorem composed_popEndpoint (hasProperties hasHeaders : Bool) :
    Composed assigns raises (s.popEndpoint hasProperties hasHeaders) := by
  unfold popEndpoint
  refine .bind (composed_popUri hraises) fun uri => ?_
  refine .bind (composed_popProperties hraises _) fun properties => ?_
  exact .bind (composed_popHeaders hraises _) fun headers => .pure _

theorem composed_callFunction {arity : Option Nat} {index : Nat}
    (hmissed : s.program.parts.functions[index]? = none → raises (.functionIndex index)) :
    Composed assigns raises (s.callFunction arity index) := by
  unfold callFunction
  split
  · next hnone => exact .fail (hmissed hnone)
  · split
    · exact .fail (hraises _ rfl)
    · refine .bind (composed_popMany hraises _) fun arguments => ?_
      split
      · exact .push _
      · exact .fail (hraises _ rfl)

end

/-- The faults that an instruction may raise. -/
inductive Raises (s : Setting) : Instruction → Fault → Prop
  | common {i : Instruction} {fault : Fault} (h : fault.isCommon = true) : Raises s i fault
  | missed {arity : Option Nat} {index : Nat} (h : s.program.parts.functions[index]? = none) :
      Raises s (.call arity index) (.functionIndex index)
  | rule (message : Bytes) : Raises s .raise (.rule message)

/-- Only a call misses a function, and only one that the table of functions does not have. -/
theorem Raises.exists_call {i : Instruction} {index : Nat}
    (h : s.Raises i (.functionIndex index)) :
    ∃ arity, i = .call arity index ∧ s.program.parts.functions[index]? = none := by
  cases h with
  | common h => cases h
  | missed h => exact ⟨_, rfl, h⟩

theorem Raises.kind_ne_missingReturn {i : Instruction} {fault : Fault} (h : s.Raises i fault) :
    fault.kind ≠ .missingReturn := by
  cases h with
  | common h => exact (Fault.kind_of_isCommon h).1
  | missed _ => nofun
  | rule message => nofun

theorem Raises.eq_raise {i : Instruction} {fault : Fault} (h : s.Raises i fault)
    (hkind : fault.kind = .ruleError) : i = .raise := by
  cases h with
  | common h => exact absurd hkind (Fault.kind_of_isCommon h).2
  | missed _ => cases hkind
  | rule message => rfl

/-- What every instruction is made of. -/
theorem composed_perform (s : Setting) (i : Instruction) :
    Composed (∃ index, i = .setRegister index) (s.Raises i) (s.perform i) := by
  have hraises : ∀ fault, fault.isCommon = true → s.Raises i fault := fun _ => .common
  cases i with
  | loadConstant index =>
    exact .bind (composed_constant hraises index) fun v => .bind (.push v) fun _ => .pure _
  | setRegister index =>
    exact .bind (composed_register hraises index) fun _ => .bind (composed_pop hraises) fun v =>
      .bind (.assign index v ⟨index, rfl⟩) fun _ => .pure _
  | loadRegister index =>
    exact .bind (composed_register hraises index) fun v => .bind (.push v) fun _ => .pure _
  | test predicate =>
    exact .bind (composed_pop hraises) fun v => .bind (.push _) fun _ => .pure _
  | testRegister predicate index =>
    exact .bind (composed_register hraises index) fun v => .bind (.push _) fun _ => .pure _
  | makeList count =>
    exact .bind (composed_popMany hraises count) fun items => .bind (.push _) fun _ => .pure _
  | makeMap pairs =>
    exact .bind (composed_popMany hraises _) fun items =>
      .bind (composed_result hraises fun fault => kind_of_mapOfPairs) fun entries =>
      .bind (.push _) fun _ => .pure _
  | resolveTemplate count index =>
    exact .bind (composed_resolveTemplate hraises count index) fun _ => .pure _
  | call arity index =>
    exact .bind (composed_callFunction hraises .missed) fun _ => .pure _
  | getProperty index =>
    exact .bind (composed_propertyName hraises index) fun name =>
      .bind (composed_pop hraises) fun v => .bind (.push _) fun _ => .pure _
  | getIndex index =>
    exact .bind (composed_pop hraises) fun v => .bind (.push _) fun _ => .pure _
  | getPropertyOf r index =>
    exact .bind (composed_propertyName hraises index) fun name =>
      .bind (composed_register hraises r) fun v => .bind (.push _) fun _ => .pure _
  | getIndexOf r index =>
    exact .bind (composed_register hraises r) fun v => .bind (.push _) fun _ => .pure _
  | equals =>
    exact .bind (composed_pop hraises) fun b => .bind (composed_pop hraises) fun a =>
      .bind (.push _) fun _ => .pure _
  | stringEquals =>
    exact .bind (composed_pop hraises) fun b => .bind (composed_pop hraises) fun a =>
      .bind (composed_result hraises fun fault => kind_of_compareTyped) fun v =>
      .bind (.push v) fun _ => .pure _
  | booleanEquals =>
    exact .bind (composed_pop hraises) fun b => .bind (composed_pop hraises) fun a =>
      .bind (composed_result hraises fun fault => kind_of_compareTyped) fun v =>
      .bind (.push v) fun _ => .pure _
  | substring start stop reverse =>
    exact .bind (composed_pop hraises) fun input =>
      .bind (composed_result hraises fun fault => Operation.kind_of_substring) fun v =>
      .bind (.push v) fun _ => .pure _
  | isHostLabel =>
    exact .bind (composed_pop hraises) fun dots => .bind (composed_pop hraises) fun label =>
      .bind (composed_result hraises fun fault => Operation.kind_of_isHostLabel) fun v =>
      .bind (.push v) fun _ => .pure _
  | parseUrl =>
    refine .bind (composed_popString hraises _) fun text => ?_
    split
    · exact .bind (.push _) fun _ => .pure _
    · exact .bind (.findUri? _) fun found => .bind (.push _) fun _ => .pure _
  | uriEncode =>
    refine .bind (composed_popString hraises _) fun text => ?_
    split
    · exact .bind (.push _) fun _ => .pure _
    · exact .bind (.push _) fun _ => .pure _
  | split =>
    exact .bind (composed_pop hraises) fun limit => .bind (composed_pop hraises) fun delimiter =>
      .bind (composed_pop hraises) fun input =>
      .bind (composed_result hraises fun fault => Operation.kind_of_split) fun v =>
      .bind (.push v) fun _ => .pure _
  | raise =>
    exact .bind (composed_pop hraises) fun v => .fail (.rule _)
  | returnEndpoint hasProperties hasHeaders =>
    exact .bind (composed_popEndpoint hraises _ _) fun e => .pure _
  | returnValue =>
    exact .bind (composed_pop hraises) fun v => .pure _
  | jumpIfSetOrPop distance =>
    refine .bind (.peek (hraises _ rfl)) fun v => ?_
    split
    · exact .pure _
    · exact .bind (composed_pop hraises) fun _ => .pure _

end Setting

end EndpointRules
