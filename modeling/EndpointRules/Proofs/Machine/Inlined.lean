import EndpointRules.Proofs.Machine.Straight
import EndpointRules.Proofs.Word

/-!
# Standard functions that have opcodes

The standard functions have opcodes of their own, which take their operands from the stack; the
bounds of a substring are bytes of the instruction.  `InlineOf` lists the opcodes with their
functions.  An opcode and its function name different operations in the faults they raise.  They
compare strings and booleans each in its own way, the machine by the kinds of the values and the
function by their contents; they tell null from a string each in its own way; and the machine may
look up URIs in a cache.  But they give the same values and the same kinds of faults.
-/

namespace EndpointRules

/-- The results are one value, or type errors both. -/
inductive SameResult {α : Type} : Except Fault α → Except Fault α → Prop
  | value (x : α) : SameResult (.ok x) (.ok x)
  | typeError {fault fault' : Fault} (h : fault.kind = .typeError)
      (h' : fault'.kind = .typeError) : SameResult (.error fault) (.error fault')

namespace SameResult

variable {α β : Type} {r r' : Except Fault α}

theorem bind {k k' : α → Except Fault β} (h : SameResult r r')
    (hk : ∀ x, SameResult (k x) (k' x)) : SameResult (r >>= k) (r' >>= k') := by
  cases h with
  | value x => exact hk x
  | typeError h h' => exact .typeError h h'

theorem eq_ok_iff (h : SameResult r r') (x : α) : r = .ok x ↔ r' = .ok x := by
  cases h with
  | value y => exact Iff.rfl
  | typeError h h' => simp

theorem exists_typeError_iff (h : SameResult r r') :
    (∃ fault, r = .error fault ∧ fault.kind = .typeError) ↔
      ∃ fault, r' = .error fault ∧ fault.kind = .typeError := by
  cases h with
  | value x => simp
  | typeError h h' => exact ⟨fun _ => ⟨_, rfl, h'⟩, fun _ => ⟨_, rfl, h⟩⟩

end SameResult

/-! ## Operations under two names -/

namespace Operation

variable (operation operation' : Bytes)

theorem sameResult_stringArgument (v : Value) :
    SameResult (stringArgument operation v) (stringArgument operation' v) := by
  cases v with
  | null => exact .value none
  | string s => exact .value (some s)
  | _ => exact .typeError rfl rfl

theorem sameResult_substring (input start stop reverse : Value) :
    SameResult (substring operation input start stop reverse)
      (substring operation' input start stop reverse) := by
  refine (sameResult_stringArgument operation operation' input).bind fun text => ?_
  cases start with
  | integer start =>
    cases stop with
    | integer stop =>
      cases reverse with
      | boolean reverse => exact .value _
      | _ => exact .typeError rfl rfl
    | _ => exact .typeError rfl rfl
  | _ => exact .typeError rfl rfl

theorem sameResult_isHostLabel (label dots : Value) :
    SameResult (isHostLabel operation label dots) (isHostLabel operation' label dots) := by
  refine (sameResult_stringArgument operation operation' label).bind fun text => ?_
  cases dots with
  | null => exact .value _
  | boolean dots => exact .value _
  | _ => exact .typeError rfl rfl

theorem sameResult_split (input delimiter limit : Value) :
    SameResult (split operation input delimiter limit)
      (split operation' input delimiter limit) := by
  refine (sameResult_stringArgument operation operation' input).bind fun text => ?_
  split
  · split
    · exact .value _
    · exact .typeError rfl rfl
  · exact .typeError rfl rfl

end Operation

/-- The equality that an opcode computes from the kinds of its operands is the one that a function
    computes from their contents. -/
theorem Setting.sameResult_compareTyped {α : Type} [BEq α] {kind : Kind}
    {content? : Value → Option α}
    (hkind : ∀ v, (content? v).isSome = true ↔ v.kind = kind)
    (hsame : ∀ v w x y, content? v = some x → content? w = some y → (v == w) = (x == y))
    (op : Opcode) (name : Bytes) (expected : Expectation) (a b : Value) :
    SameResult (compareTyped op kind a b)
      (StandardFunctions.typedEquals name expected content? a b) := by
  have hother : ∀ {v}, content? v = none → v.kind ≠ kind := by
    intro v hv heq
    have hsome := (hkind v).2 heq
    rw [hv] at hsome
    cases hsome
  unfold compareTyped StandardFunctions.typedEquals
  by_cases hnull : (a.isNull || b.isNull) = true
  · rw [if_pos hnull, if_pos hnull]
    exact .value _
  rw [if_neg hnull, if_neg hnull]
  cases ha : content? a with
  | none =>
    rw [if_pos (.inl (hother ha))]
    exact .typeError rfl rfl
  | some x =>
    have hakind := (hkind a).1 (by rw [ha]; rfl)
    cases hb : content? b with
    | none =>
      rw [if_pos (.inr (hother hb))]
      exact .typeError rfl rfl
    | some y =>
      have hbkind := (hkind b).1 (by rw [hb]; rfl)
      rw [if_neg (by simp [hakind, hbkind]), hsame a b x y ha hb]
      exact .value _

theorem Value.isSome_string?_iff (v : Value) : v.string?.isSome = true ↔ v.kind = .string := by
  cases v <;> simp [string?, kind]

theorem Value.isSome_boolean?_iff (v : Value) : v.boolean?.isSome = true ↔ v.kind = .boolean := by
  cases v <;> simp [boolean?, kind]

theorem Value.beq_of_string? (v w : Value) (x y : Bytes) (hv : v.string? = some x)
    (hw : w.string? = some y) : (v == w) = (x == y) := by
  cases v <;> cases hv
  cases w <;> cases hw
  rw [Bool.eq_iff_iff]
  simp

theorem Value.beq_of_boolean? (v w : Value) (x y : Bool) (hv : v.boolean? = some x)
    (hw : w.boolean? = some y) : (v == w) = (x == y) := by
  cases v <;> cases hv
  cases w <;> cases hw
  rw [Bool.eq_iff_iff]
  simp

/-! ## Instructions that push a result -/

namespace Exec

variable {α : Type} {items rest : List Value} {v : Value} {r : Except Fault Value}

/-- On every stack of the first operands the computation has the result: it pushes a value on the
    second operands and goes on with the next instruction, or ends in the fault. -/
def Pushes (m : Exec Control) (items rest : List Value) (r : Except Fault Value) : Prop :=
  ∀ f, f.stack.items = items → (m f).1 = r.map (fun _ => .next) ∧
    ∀ v, r = .ok v → (m f).2.stack.items = v :: rest ∧ (m f).2.registers = f.registers

theorem pushes_error {m : Exec Control} {fault : Fault} (h : ∀ f, m f = (.error fault, f)) :
    Pushes m items rest (.error fault) := by
  intro f _
  rw [h f]
  exact ⟨rfl, nofun⟩

theorem pushes_push (v : Value) : Pushes (do push v; pure .next) rest rest (.ok v) := by
  intro f hitems
  refine ⟨rfl, fun w hw => ?_⟩
  cases hw
  exact ⟨(f.stack.items_push v).trans (by rw [hitems]), rfl⟩

theorem pushes_pop {k : Value → Exec Control} (h : Pushes (k v) items rest r) :
    Pushes (pop >>= k) (v :: items) rest r := by
  intro f hitems
  have hpop : (pop >>= k) f = k v { f with stack := f.stack.drop 1 } := by
    simp [bind_apply, pop, hitems]
  rw [hpop]
  exact h { f with stack := f.stack.drop 1 } (by simp [Stack.drop, hitems])

theorem pushes_bind_result {x : Except Fault α} {k : α → Exec Control}
    {k' : α → Except Fault Value} (h : ∀ a, Pushes (k a) items rest (k' a)) :
    Pushes (result x >>= k) items rest (x >>= k') := by
  cases x with
  | ok a => exact h a
  | error fault => exact pushes_error fun f => rfl

theorem pushes_result (r : Except Fault Value) :
    Pushes (do push (← result r); pure .next) rest rest r := by
  cases r with
  | ok v => exact pushes_push v
  | error fault => exact pushes_error fun f => rfl

theorem pushes_findUri? {text : Bytes} {k : Option Uri → Exec Control}
    (h : Pushes (k (Uri.parse? text)) items rest r) :
    Pushes (findUri? text >>= k) items rest r := by
  intro f hitems
  obtain ⟨cache, hfound⟩ := exists_findUri?_eq text f
  rw [bind_apply, hfound]
  exact h { f with cache } hitems

end Exec

/-! ## The opcodes of standard functions -/

/-- The instruction does what the function does for operands from the stack, as many as the number
    says, and the immediate arguments behind them. -/
inductive InlineOf : Written → Function → Nat → List Value → Prop
  | not : InlineOf ⟨.not, [], rfl⟩ StandardFunctions.not 1 []
  | isSet : InlineOf ⟨.isSet, [], rfl⟩ StandardFunctions.isSet 1 []
  | stringEquals : InlineOf ⟨.stringEquals, [], rfl⟩ StandardFunctions.stringEquals 2 []
  | booleanEquals : InlineOf ⟨.booleanEquals, [], rfl⟩ StandardFunctions.booleanEquals 2 []
  | substring (start stop reverse : UInt8) :
      InlineOf ⟨.substring, [start, stop, reverse], rfl⟩ StandardFunctions.substring 1
        [.integer start.toNat, .integer stop.toNat, .boolean (reverse != 0)]
  | isValidHostLabel : InlineOf ⟨.isValidHostLabel, [], rfl⟩ StandardFunctions.isValidHostLabel 2 []
  | parseUrl : InlineOf ⟨.parseUrl, [], rfl⟩ StandardFunctions.parseUrl 1 []
  | uriEncode : InlineOf ⟨.uriEncode, [], rfl⟩ StandardFunctions.uriEncode 1 []
  | split : InlineOf ⟨.split, [], rfl⟩ StandardFunctions.split 3 []

namespace InlineOf

variable {w : Written} {F : Function} {count : Nat} {immediates : List Value}

theorem straight (h : InlineOf w F count immediates) : w.instruction.Straight := by
  have hop : w.op.isReturn = false ∧ w.op.isJump = false := by cases h <;> exact ⟨rfl, rfl⟩
  exact Written.straight hop.1 hop.2

/-- The function is a standard function, and takes the operands and the immediate arguments. -/
theorem standard (h : InlineOf w F count immediates) :
    F ∈ StandardFunctions.all ∧ F.arity = count + immediates.length := by
  cases h <;> exact ⟨by simp [StandardFunctions.all], rfl⟩

end InlineOf

namespace Setting

open Exec

variable {s : Setting} {b : Body} {a count : Nat} {w : Written} {F : Function}
  {immediates arguments rest : List Value} {f g : Frame}

theorem pushes_popString {op : Opcode} {v : Value} {k : Option Bytes → Exec Control}
    {k' : Option Bytes → Except Fault Value} (h : ∀ text, Pushes (k text) rest rest (k' text)) :
    Pushes (popString op >>= k) (v :: rest) rest
      (Operation.stringArgument op.mnemonic v >>= k') := by
  rw [popString_eq, Exec.bind_assoc]
  exact pushes_pop (pushes_bind_result h)

/-- A URI with a query is dropped by the opcode as it is by the function. -/
theorem elim_filter_hasQuery (uri? : Option Uri) :
    (uri?.filter (!·.hasQuery)).elim .null Value.uri = Operation.ofUri? uri? := by
  cases uri? with
  | none => rfl
  | some u => cases hquery : u.hasQuery <;> simp [Operation.ofUri?, Option.filter, hquery]

theorem pushes_parseUrl (v : Value) :
    Pushes (s.perform .parseUrl) (v :: rest) rest
      (Operation.stringArgument Opcode.parseUrl.mnemonic v >>= fun text =>
        pure (Operation.ofUri? (text.bind Uri.parse?))) := by
  refine pushes_popString fun text => ?_
  cases text with
  | none => exact pushes_push .null
  | some text =>
    refine pushes_findUri? ?_
    rw [Option.bind_some, ← elim_filter_hasQuery]
    exact pushes_push _

theorem pushes_uriEncode (v : Value) :
    Pushes (s.perform .uriEncode) (v :: rest) rest
      (Operation.stringArgument Opcode.uriEncode.mnemonic v >>= fun text =>
        pure ((text.map fun s => Value.string (Text.percentEncode s)).getD .null)) := by
  refine pushes_popString fun text => ?_
  cases text with
  | none => exact pushes_push .null
  | some text => exact pushes_push _

/-- An opcode pushes a result that is the same as the one of its function. -/
theorem exists_pushes_of_inline (h : InlineOf w F count immediates)
    (hcount : arguments.length = count) (rest : List Value) :
    ∃ r, Pushes (s.perform w.instruction) (arguments.reverse ++ rest) rest r ∧
      SameResult r (F.apply (arguments ++ immediates)) := by
  cases h with
  | not =>
    obtain ⟨v, rfl⟩ := List.length_eq_one_iff.1 hcount
    exact ⟨_, pushes_pop (pushes_push _), .value _⟩
  | isSet =>
    obtain ⟨v, rfl⟩ := List.length_eq_one_iff.1 hcount
    exact ⟨_, pushes_pop (pushes_push _), .value _⟩
  | stringEquals =>
    obtain ⟨v, v', rfl⟩ := List.length_eq_two.1 hcount
    exact ⟨_, pushes_pop (pushes_pop (pushes_result _)),
      sameResult_compareTyped Value.isSome_string?_iff Value.beq_of_string? ..⟩
  | booleanEquals =>
    obtain ⟨v, v', rfl⟩ := List.length_eq_two.1 hcount
    exact ⟨_, pushes_pop (pushes_pop (pushes_result _)),
      sameResult_compareTyped Value.isSome_boolean?_iff Value.beq_of_boolean? ..⟩
  | substring start stop reverse =>
    obtain ⟨v, rfl⟩ := List.length_eq_one_iff.1 hcount
    rw [← Word.toNat_bne_zero reverse]
    exact ⟨_, pushes_pop (pushes_result (Operation.substring Opcode.substring.mnemonic v
      (.integer start.toNat) (.integer stop.toNat) (.boolean (reverse.toNat != 0)))),
      Operation.sameResult_substring ..⟩
  | isValidHostLabel =>
    obtain ⟨v, v', rfl⟩ := List.length_eq_two.1 hcount
    exact ⟨_, pushes_pop (pushes_pop (pushes_result _)), Operation.sameResult_isHostLabel ..⟩
  | parseUrl =>
    obtain ⟨v, rfl⟩ := List.length_eq_one_iff.1 hcount
    exact ⟨_, pushes_parseUrl v,
      (Operation.sameResult_stringArgument _ _ v).bind fun text => .value _⟩
  | uriEncode =>
    obtain ⟨v, rfl⟩ := List.length_eq_one_iff.1 hcount
    exact ⟨_, pushes_uriEncode v,
      (Operation.sameResult_stringArgument _ _ v).bind fun text => .value _⟩
  | split =>
    obtain ⟨v, v', v'', rfl⟩ := List.length_eq_three.1 hcount
    exact ⟨_, pushes_pop (pushes_pop (pushes_pop (pushes_result _))), Operation.sameResult_split ..⟩

/-- With enough operands an opcode leads to the next instruction with a value pushed exactly if that
    is the value of its function for the operands in the order of their pushes, and it ends in a
    type error exactly if the function does. -/
theorem inline_iff_apply (h : InlineOf w F count immediates) (hw : s.Holds b a w.bytes)
    (hcount : arguments.length = count) (hitems : f.stack.items = arguments.reverse ++ rest) :
    (∀ v, (∃ g, s.Step b (a, f) (a + w.bytes.length, g) ∧ g.stack.items = v :: rest ∧
          g.registers = f.registers) ↔
        F.apply (arguments ++ immediates) = .ok v) ∧
      ((∃ failure g, s.Ends b (a, f) (.error failure) g ∧ failure.kind = .typeError) ↔
        ∃ fault, F.apply (arguments ++ immediates) = .error fault ∧ fault.kind = .typeError) := by
  obtain ⟨r, hpushes, hsame⟩ := exists_pushes_of_inline (s := s) h hcount rest
  obtain ⟨hresult, hframe⟩ := hpushes f hitems
  constructor
  · intro v
    rw [← hsame.eq_ok_iff]
    constructor
    · rintro ⟨g, hstep, hg, -⟩
      rw [hw.perform_of_step h.straight hstep] at hresult hframe
      obtain ⟨v', hv', -⟩ := Except.map_eq_ok_iff.1 hresult.symm
      have hitem := (hframe v' hv').1
      rw [hg] at hitem
      rw [hv', (List.cons.inj hitem).1]
    · intro hv
      rw [hv] at hresult
      exact ⟨_, hw.step (Prod.ext hresult rfl), hframe v hv⟩
  · rw [← hsame.exists_typeError_iff]
    constructor
    · rintro ⟨failure, g, hends, hkind⟩
      rw [hw.perform_of_ends hends] at hresult
      exact ⟨failure.fault, Except.map_eq_error_iff.1 hresult.symm, hkind⟩
    · rintro ⟨fault, hfault, hkind⟩
      rw [hfault] at hresult
      exact ⟨⟨fault, some a⟩, _, hw.ends (Prod.ext hresult rfl), hkind⟩

/-- A body that splits a string and returns its parts. -/
def splitting : Program where
  parts := {
    code := #[0x29, 0x28]
    conditions := #[0]
    diagram := { entries := #[], root := 1 } }
  starts := [0]
  starts_eq := by decide
  check_eq := by cbv

/-- The setting of the runs of `splitting`. -/
def splitter : Setting := { program := splitting, hooks := [], context := [] }

/-- A frame with a string, a delimiter and a limit on the stack. -/
def beforeSplit : Frame where
  registers := #[]
  stack := ⟨[.integer 0, .string ",", .string "a,b"], 13⟩

/-- The machine pushes the parts that the function gives. -/
theorem inline_iff_apply_splitting :
    splitter.Holds ⟨.condition, 0, 0, 2⟩ 0 (Written.bytes ⟨.split, [], rfl⟩) ∧
    StandardFunctions.split.apply [.string "a,b", .string ",", .integer 0] =
      .ok (.list [.string "a", .string "b"]) ∧
    ∃ g, splitter.Step ⟨.condition, 0, 0, 2⟩ (0, beforeSplit) (1, g) ∧
      g.stack.items = [.list [.string "a", .string "b"]] ∧ g.registers = #[] := by
  have hw : splitter.Holds ⟨.condition, 0, 0, 2⟩ 0 (Written.bytes ⟨.split, [], rfl⟩) :=
    ⟨by decide, by decide⟩
  have hvalue : StandardFunctions.split.apply [.string "a,b", .string ",", .integer 0] =
      .ok (.list [.string "a", .string "b"]) := by cbv
  have hitems : beforeSplit.stack.items =
      [.string "a,b", .string ",", .integer 0].reverse ++ [] := rfl
  exact ⟨hw, hvalue, ((inline_iff_apply .split hw rfl hitems).1 _).2 hvalue⟩

end Setting

end EndpointRules
