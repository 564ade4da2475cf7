import EndpointRules.Proofs.Machine.Linking
import EndpointRules.Proofs.Machine.Likeness

/-!
# Effects of instructions on the operand stack

Every opcode takes a number of operands off the stack and leaves a number of them in their place.
Both numbers can be told from the opcode, its operand bytes and the declared arity of the function
it calls, apart from the jump, which leaves its operand only if it is taken.  Below the operands
that an instruction takes, the stack is kept.  An instruction that finds fewer operands than it
takes never completes, and no other instruction underflows the stack.
-/

namespace EndpointRules

/-! ## Numbers of operands -/

namespace Opcode

/-- The number of operands that an opcode takes off the stack, given its first operand byte and the
    declared arity of the function that this byte stands for. -/
def takes (op : Opcode) (first arity : Nat) : Nat :=
  match op with
  | loadConst | loadConstWide | loadRegister | getPropertyReg | getIndexReg => 0
  | testRegisterIsSet | testRegisterNotSet | testRegisterIsTrue | testRegisterIsFalse => 0
  | list0 | map0 | call0 => 0
  | list1 | call1 => 1
  | list2 | map1 | call2 => 2
  | call3 => 3
  | map2 => 4
  | map3 => 6
  | map4 => 8
  | listN | resolveTemplate => first
  | mapN => first * 2
  | call => arity
  | equals | stringEquals | booleanEquals | isValidHostLabel => 2
  | split => 3
  -- The URL, and the properties and the headers if the flags announce them.
  | returnEndpoint => 1 + (first / 2 % 2 + first % 2)
  | _ => 1

/-- The number of operands that an opcode leaves in the place of those it takes. -/
def leaves (op : Opcode) (jumped : Bool) : Nat :=
  match op with
  | setRegister | returnError | returnEndpoint | returnValue => 0
  | jumpIfSetOrPop => jumped.toNat
  | _ => 1

end Opcode

namespace Instruction

/-- The number of operands that an instruction takes off the stack. -/
def takes (arityOf : Nat → Nat) : Instruction → Nat
  | loadConstant _ | loadRegister _ | testRegister .. | getPropertyOf .. | getIndexOf .. => 0
  | makeList count | resolveTemplate count _ => count
  | makeMap pairs => pairs * 2
  | call arity index => arity.getD (arityOf index)
  | equals | stringEquals | booleanEquals | isHostLabel => 2
  | split => 3
  | returnEndpoint hasProperties hasHeaders => 1 + (hasProperties.toNat + hasHeaders.toNat)
  | _ => 1

/-- The number of operands that an instruction leaves in the place of those it takes. -/
def leaves (jumped : Bool) : Instruction → Nat
  | setRegister _ | raise | returnEndpoint .. | returnValue => 0
  | jumpIfSetOrPop _ => jumped.toNat
  | _ => 1

theorem toNat_mod_two (n : Nat) : (n % 2 == 1).toNat = n % 2 := by
  rcases Nat.mod_two_eq_zero_or_one n with h | h <;> rw [h] <;> rfl

theorem takes_decode (arityOf : Nat → Nat) (op : Opcode) (code : Array UInt8) (offset : Nat) :
    let first := (code.getD (offset + 1) 0).toNat
    (decode op code offset).takes arityOf = op.takes first (arityOf first) := by
  intro first
  by_cases hop : op = .returnEndpoint
  · subst hop
    simp only [decode, ofBytes, takes, Opcode.takes, toNat_mod_two, first]
  · cases op <;> first | rfl | exact absurd rfl hop

theorem leaves_decode (jumped : Bool) (op : Opcode) (code : Array UInt8) (offset : Nat) :
    (decode op code offset).leaves jumped = op.leaves jumped := by
  cases op <;> rfl

end Instruction

/-- The run goes on behind bytes that it skips. -/
def Control.jumps : Control → Bool
  | .skip _ => true
  | _ => false

/-! ## Computations -/

namespace Exec

variable {α β : Type}

/-- A stack becomes another one by taking operands off its top and leaving others there. -/
def Replaces (takes leaves : Nat) (before after : List Value) : Prop :=
  takes ≤ before.length ∧
    ∃ left : List Value, left.length = leaves ∧ after = left ++ before.drop takes

/-- A computation takes operands and leaves others.  It replaces them whenever it has a value, and
    it underflows the stack only if that holds fewer operands. -/
structure HasEffect (takes leaves : Nat) (m : Exec α) : Prop where
  replaces : ∀ {f g x}, m f = (.ok x, g) → Replaces takes leaves f.stack.items g.stack.items
  underflows : ∀ {f g fault}, m f = (.error fault, g) → fault.kind = .stackUnderflow →
    f.stack.items.length < takes

namespace HasEffect

variable {takes takes' leaves left : Nat} {m : Exec α} {k : α → Exec β}

theorem pure (x : α) : HasEffect 0 0 (Pure.pure x : Exec α) where
  replaces h := by
    cases h
    exact ⟨Nat.zero_le _, [], rfl, rfl⟩
  underflows h := by cases h

/-- A computation that never has a value and does not underflow has any effect. -/
theorem fail {fault : Fault} (h : (fault.kind == .stackUnderflow) = false) :
    HasEffect takes leaves (Exec.fail fault : Exec α) where
  replaces h' := by cases h'
  underflows h' hkind := by
    cases h'
    exact absurd hkind (ne_of_beq_false h)

theorem result {r : Except Fault α}
    (h : ∀ fault, r = .error fault → fault.kind ≠ .stackUnderflow) :
    HasEffect 0 0 (Exec.result r) := by
  cases r with
  | ok x => exact pure x
  | error fault => exact fail (beq_false_of_ne (h fault rfl))

theorem constant {p : Program} (index : Nat) : HasEffect 0 0 (Exec.constant p index) := by
  unfold Exec.constant
  split
  · exact fail rfl
  · exact pure _

theorem register (index : Nat) : HasEffect 0 0 (Exec.register index) where
  replaces h := by
    unfold Exec.register at h
    split at h <;> cases h
    exact ⟨Nat.zero_le _, [], rfl, rfl⟩
  underflows h hkind := by
    unfold Exec.register at h
    split at h <;> cases h
    cases hkind

theorem assign (index : Nat) (v : Value) : HasEffect 0 0 (Exec.assign index v) where
  replaces h := by
    cases h
    exact ⟨Nat.zero_le _, [], rfl, rfl⟩
  underflows h := by cases h

theorem findUri? (text : Bytes) : HasEffect 0 0 (Exec.findUri? text) where
  replaces {f g x} h := by
    obtain ⟨cache, heq⟩ := Exec.exists_findUri?_eq text f
    rw [heq] at h
    cases h
    exact ⟨Nat.zero_le _, [], rfl, rfl⟩
  underflows {f g x} h := by
    obtain ⟨cache, heq⟩ := Exec.exists_findUri?_eq text f
    rw [heq] at h
    cases h

theorem push (v : Value) : HasEffect 0 1 (Exec.push v) where
  replaces {f g x} h := by
    cases h
    exact ⟨Nat.zero_le _, [v], rfl, f.stack.items_push v⟩
  underflows h := by cases h

theorem pop : HasEffect 1 0 Exec.pop where
  replaces {f g x} h := by
    unfold Exec.pop at h
    split at h
    · cases h
    · next rest hitems =>
      cases h
      exact ⟨by rw [hitems]; exact Nat.le_add_left 1 _, [], rfl, rfl⟩
  underflows {f g x} h _ := by
    unfold Exec.pop at h
    split at h
    · next hitems =>
      rw [hitems]
      exact Nat.zero_lt_one
    · cases h

theorem popMany (count : Nat) : HasEffect count 0 (Exec.popMany count) where
  replaces {f g items} h := by
    have hle := le_length_of_popMany h
    rw [popMany_eq, if_neg (Nat.not_lt.2 hle)] at h
    cases h
    exact ⟨hle, [], rfl, rfl⟩
  underflows {f g fault} h _ := by
    rw [popMany_eq] at h
    split at h
    · next hcount => exact hcount
    · cases h

/-- Effects compose.  The second computation takes first what the first one has left, and the rest
    from below. -/
theorem comp (hm : HasEffect takes left m)
    (hk : ∀ {f g x}, m f = (.ok x, g) → HasEffect takes' leaves (k x)) :
    HasEffect (takes + (takes' - left)) (leaves + (left - takes')) (m >>= k) where
  replaces {f h y} heq := by
    rw [bind_apply] at heq
    split at heq
    · next x g hfirst =>
      obtain ⟨hle, items, hitems, hg⟩ := hm.replaces hfirst
      obtain ⟨hle', items', hitems', hh⟩ := (hk hfirst).replaces heq
      rw [hg, List.length_append, List.length_drop] at hle'
      refine ⟨by omega, items' ++ items.drop takes', ?_, ?_⟩
      · rw [List.length_append, List.length_drop, hitems', hitems]
      · rw [hh, hg, List.drop_append, List.drop_drop, hitems, List.append_assoc]
    · cases heq
  underflows {f h fault} heq hkind := by
    rw [bind_apply] at heq
    split at heq
    · next x g hfirst =>
      obtain ⟨hle, items, hitems, hg⟩ := hm.replaces hfirst
      have hlt := (hk hfirst).underflows heq hkind
      rw [hg, List.length_append, List.length_drop] at hlt
      omega
    · next fault' g hfirst =>
      cases heq
      exact Nat.lt_add_right _ (hm.underflows hfirst hkind)

/-- What is taken adds up, as long as nothing is left in between. -/
theorem bind (hm : HasEffect takes 0 m)
    (hk : ∀ {f g x}, m f = (.ok x, g) → HasEffect takes' leaves (k x)) :
    HasEffect (takes + takes') leaves (m >>= k) := by
  have h := hm.comp hk
  rwa [Nat.sub_zero, Nat.zero_sub, Nat.add_zero] at h

/-- A computation before another one that leaves the stack alone adds nothing to its effect. -/
theorem after (hm : HasEffect 0 0 m) (hk : ∀ x, HasEffect takes leaves (k x)) :
    HasEffect takes leaves (m >>= k) := by
  have h := hm.bind fun {_ _ x} _ => hk x
  rwa [Nat.zero_add] at h

theorem pop_bind {k : Value → Exec β} (hk : ∀ v, HasEffect takes leaves (k v)) :
    HasEffect (takes + 1) leaves (Exec.pop >>= k) := by
  have h := pop.bind fun {_ _ v} _ => hk v
  rwa [Nat.add_comm] at h

theorem popMany_bind {count : Nat} {k : List Value → Exec β}
    (hk : ∀ items : List Value, items.length = count → HasEffect 0 leaves (k items)) :
    HasEffect count leaves (Exec.popMany count >>= k) :=
  (popMany count).bind fun h => hk _ (length_of_popMany h)

/-- Nothing is added by a value at the end. -/
theorem ends (hm : HasEffect takes leaves m) (y : β) :
    HasEffect takes leaves (m >>= fun _ => Pure.pure y) := by
  have h := hm.comp fun _ => pure y
  rwa [Nat.zero_sub, Nat.add_zero, Nat.sub_zero, Nat.zero_add] at h

/-- A push at the end of an instruction. -/
theorem push_next (v : Value) : HasEffect 0 1 (Exec.push v >>= fun _ => Pure.pure Control.next) :=
  (push v).ends _

end HasEffect

end Exec

/-! ## Instructions -/

namespace Setting

open Exec

variable {s : Setting}

/-- The declared arity of a function of the program. -/
def declaredArity (s : Setting) (index : Nat) : Nat :=
  (s.program.parts.functions[index]?.bind (·.function)).elim 0 (·.arity)

theorem hasEffect_result {α : Type} {r : Except Fault α}
    (h : ∀ fault, r = .error fault → fault.kind = .typeError) :
    HasEffect 0 0 (Exec.result r) := by
  refine .result fun fault hr hkind => ?_
  rw [h fault hr] at hkind
  cases hkind

/-- A template never lacks an argument if there is one for each of its slots. -/
theorem fillTemplate_ne_stackUnderflow {place : Nat} {parts : List TemplatePart}
    {arguments : List Value} (h : Value.slotCount parts = arguments.length) :
    fillTemplate place parts arguments ≠ .error .stackUnderflow := by
  fun_induction fillTemplate place parts arguments with
  | case1 =>
    intro hfill
    cases hfill
  | case2 place s parts arguments ih =>
    intro hfill
    exact ih h (Except.map_eq_error_iff.1 hfill)
  | case3 place parts s arguments ih =>
    intro hfill
    rw [Value.slotCount, List.countP_cons_of_pos rfl] at h
    exact ih (Nat.succ.inj h) (Except.map_eq_error_iff.1 hfill)
  | case4 =>
    intro hfill
    cases hfill
  | case5 =>
    rw [Value.slotCount, List.countP_cons_of_pos rfl] at h
    cases h

theorem hasEffect_callFunction (arity : Option Nat) (index : Nat) :
    HasEffect (arity.getD (s.declaredArity index)) 1 (s.callFunction arity index) := by
  unfold callFunction
  split
  · exact .fail rfl
  · next slot hslot =>
    split
    · exact .fail rfl
    · next f hf =>
      have harity : s.declaredArity index = f.arity := by simp [declaredArity, hslot, hf]
      rw [harity]
      refine .popMany_bind fun arguments _ => ?_
      split
      · exact .push _
      · exact .fail rfl

theorem hasEffect_resolveTemplate (count index : Nat) :
    HasEffect count 1 (s.resolveTemplate count index) := by
  unfold resolveTemplate
  refine .after (.constant index) fun v => ?_
  split
  · next parts =>
    dsimp only
    split
    · show HasEffect count 1 (Exec.fail (.templateArity _ count))
      exact .fail rfl
    · next hcount =>
      rw [not_not] at hcount
      refine .popMany_bind fun arguments hlength => ?_
      have hfill : HasEffect 0 0 (Exec.result (fillTemplate 0 parts arguments)) := by
        refine .result fun fault hfault hkind => ?_
        rcases kind_of_fillTemplate hfault with h | rfl
        · rw [h] at hkind
          cases hkind
        · exact fillTemplate_ne_stackUnderflow (hcount.trans hlength.symm) hfault
      exact .after hfill fun text => .push _
  · exact .fail rfl

theorem hasEffect_propertyName (index : Nat) : HasEffect 0 0 (s.propertyName index) := by
  unfold propertyName
  refine .after (.constant index) fun v => ?_
  split
  · exact .pure _
  · exact .fail rfl

theorem hasEffect_popString (op : Opcode) : HasEffect 1 0 (popString op) := by
  rw [popString_eq]
  exact .pop_bind fun v => hasEffect_result fun fault => Operation.kind_of_stringArgument

theorem hasEffect_popString_bind {α : Type} {op : Opcode} {leaves : Nat}
    {k : Option Bytes → Exec α} (hk : ∀ text, HasEffect 0 leaves (k text)) :
    HasEffect 1 leaves (popString op >>= k) :=
  (hasEffect_popString op).bind fun {_ _ text} _ => hk text

theorem hasEffect_popUri : HasEffect 1 0 popUri := by
  unfold popUri
  refine .pop_bind fun v => ?_
  split
  · exact .pure _
  · refine .after (.findUri? _) fun found => ?_
    split
    · exact .pure _
    · exact .fail rfl
  · exact .fail rfl

theorem hasEffect_popProperties (present : Bool) :
    HasEffect present.toNat 0 (popProperties present) := by
  cases present with
  | false => exact .pure _
  | true =>
    refine .pop_bind fun v => ?_
    split
    · exact .pure _
    · exact .fail rfl

theorem hasEffect_popHeaders (present : Bool) :
    HasEffect present.toNat 0 (popHeaders present) := by
  cases present with
  | false => exact .pure _
  | true =>
    refine .pop_bind fun v => ?_
    split
    · exact hasEffect_result fun fault => kind_of_headersOfMap
    · exact .fail rfl

theorem hasEffect_popEndpoint (hasProperties hasHeaders : Bool) :
    HasEffect (1 + (hasProperties.toNat + hasHeaders.toNat)) 0
      (s.popEndpoint hasProperties hasHeaders) :=
  hasEffect_popUri.bind fun _ => (hasEffect_popProperties _).bind fun _ =>
    (hasEffect_popHeaders _).bind fun _ => .pure _

/-- The jump looks at the top of the stack, which it keeps if it is taken. -/
theorem perform_jumpIfSetOrPop (s : Setting) (distance : Nat) (f : Frame) :
    s.perform (.jumpIfSetOrPop distance) f =
      match f.stack.items with
      | [] => (.error .stackUnderflow, f)
      | v :: _ =>
        if v.isSet then (.ok (.skip distance), f)
        else (.ok .next, { f with stack := f.stack.drop 1 }) := by
  cases hitems : f.stack.items with
  | nil => simp [perform, bind_apply, peek, hitems]
  | cons v rest =>
    cases hset : v.isSet with
    | true => simp [perform, bind_apply, peek, hitems, hset, pure_apply]
    | false => simp [perform, bind_apply, peek, hitems, hset, pop, pure_apply]

/-- The effect of every instruction but the jump does not depend on how it goes on. -/
theorem hasEffect_perform (s : Setting) (jumped : Bool) (i : Instruction)
    (h : ∀ distance, i ≠ .jumpIfSetOrPop distance) :
    HasEffect (i.takes s.declaredArity) (i.leaves jumped) (s.perform i) := by
  cases i with
  | loadConstant index => exact .after (.constant index) fun v => .push_next v
  | setRegister index =>
    exact .after (.register index) fun _ => .pop_bind fun v => .after (.assign index v) fun _ =>
      .pure _
  | loadRegister index => exact .after (.register index) fun v => .push_next v
  | test predicate => exact .pop_bind fun v => .push_next _
  | testRegister predicate index => exact .after (.register index) fun v => .push_next _
  | makeList count => exact .popMany_bind fun items _ => .push_next _
  | makeMap pairs =>
    exact .popMany_bind fun items _ =>
      .after (hasEffect_result fun fault => kind_of_mapOfPairs) fun entries => .push_next _
  | resolveTemplate count index =>
    exact .ends (hasEffect_resolveTemplate count index) _
  | call arity index => exact .ends (hasEffect_callFunction arity index) _
  | getProperty index =>
    exact .after (hasEffect_propertyName index) fun name => .pop_bind fun v => .push_next _
  | getIndex index => exact .pop_bind fun v => .push_next _
  | getPropertyOf r index =>
    exact .after (hasEffect_propertyName index) fun name => .after (.register r) fun v =>
      .push_next _
  | getIndexOf r index => exact .after (.register r) fun v => .push_next _
  | equals => exact .pop_bind fun b => .pop_bind fun a => .push_next _
  | stringEquals =>
    exact .pop_bind fun b => .pop_bind fun a =>
      .after (hasEffect_result fun fault => kind_of_compareTyped) fun v =>
      .push_next v
  | booleanEquals =>
    exact .pop_bind fun b => .pop_bind fun a =>
      .after (hasEffect_result fun fault => kind_of_compareTyped) fun v =>
      .push_next v
  | substring start stop reverse =>
    exact .pop_bind fun input =>
      .after (hasEffect_result fun fault => Operation.kind_of_substring) fun v => .push_next v
  | isHostLabel =>
    exact .pop_bind fun dots => .pop_bind fun label =>
      .after (hasEffect_result fun fault => Operation.kind_of_isHostLabel) fun v => .push_next v
  | parseUrl =>
    refine hasEffect_popString_bind fun text => ?_
    split
    · exact .push_next _
    · exact .after (.findUri? _) fun found => .push_next _
  | uriEncode =>
    refine hasEffect_popString_bind fun text => ?_
    split
    · exact .push_next _
    · exact .push_next _
  | split =>
    exact .pop_bind fun limit => .pop_bind fun delimiter => .pop_bind fun input =>
      .after (hasEffect_result fun fault => Operation.kind_of_split) fun v => .push_next v
  | raise => exact .pop_bind fun v => .fail rfl
  | returnEndpoint hasProperties hasHeaders =>
    exact (hasEffect_popEndpoint hasProperties hasHeaders).bind fun _ => .pure _
  | returnValue => exact .pop_bind fun v => .pure _
  | jumpIfSetOrPop distance => exact absurd rfl (h distance)

/-- What every instruction does to the stack: it replaces its operands, or underflows the stack for
    want of them, or faults otherwise. -/
theorem stack_perform (s : Setting) (i : Instruction) (f : Frame) :
    (∀ control g, s.perform i f = (.ok control, g) →
      Replaces (i.takes s.declaredArity) (i.leaves control.jumps) f.stack.items g.stack.items) ∧
    ∀ fault g, s.perform i f = (.error fault, g) → fault.kind = .stackUnderflow →
      f.stack.items.length < i.takes s.declaredArity := by
  by_cases hjump : ∃ distance, i = .jumpIfSetOrPop distance
  · obtain ⟨distance, rfl⟩ := hjump
    rw [perform_jumpIfSetOrPop]
    cases hitems : f.stack.items with
    | nil =>
      refine ⟨nofun, fun fault g h _ => ?_⟩
      exact Nat.zero_lt_one
    | cons v rest =>
      dsimp only
      cases v.isSet with
      | true =>
        refine ⟨fun control g h => ?_, nofun⟩
        cases h
        exact ⟨Nat.le_add_left 1 _, [v], rfl, hitems⟩
      | false =>
        refine ⟨fun control g h => ?_, nofun⟩
        cases h
        exact ⟨Nat.le_add_left 1 _, [], rfl, by simp [Stack.drop, hitems, Instruction.takes]⟩
  · have heffect := fun jumped => s.hasEffect_perform jumped i fun d hd => hjump ⟨d, hd⟩
    exact ⟨fun control g h => (heffect _).replaces h,
      fun fault g h => (heffect false).underflows h⟩

/-- Every opcode has its effect on the stack and a frame, whatever the operands are.  When it
    completes, it has taken as many operands as the table says and has left as many in their place,
    and below them the stack is as it was.  On a stack with fewer operands it does not complete, and
    only on such a stack does it underflow. -/
theorem stack_perform_decode (s : Setting) (op : Opcode) (a : Nat) (f : Frame) :
    let first := (s.program.code.getD (a + 1) 0).toNat
    let takes := op.takes first (s.declaredArity first)
    (∀ control g, s.perform (.decode op s.program.code a) f = (.ok control, g) →
      takes ≤ f.stack.items.length ∧
        ∃ left : List Value, left.length = op.leaves control.jumps ∧
          g.stack.items = left ++ f.stack.items.drop takes) ∧
    (f.stack.items.length < takes →
      ∃ fault g, s.perform (.decode op s.program.code a) f = (.error fault, g)) ∧
    ∀ fault g, s.perform (.decode op s.program.code a) f = (.error fault, g) →
      fault.kind = .stackUnderflow → f.stack.items.length < takes := by
  intro first takes
  obtain ⟨hreplaces, hunderflows⟩ := s.stack_perform (.decode op s.program.code a) f
  simp only [Instruction.takes_decode, Instruction.leaves_decode] at hreplaces hunderflows
  refine ⟨hreplaces, fun hfew => ?_, hunderflows⟩
  cases hperform : s.perform (.decode op s.program.code a) f with
  | mk result g =>
    cases result with
    | error fault => exact ⟨fault, g, rfl⟩
    | ok control =>
      have hle := (hreplaces control g hperform).1
      exact absurd hfew (Nat.not_lt.2 hle)

end Setting

end EndpointRules
