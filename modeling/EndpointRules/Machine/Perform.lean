import EndpointRules.Endpoint
import EndpointRules.Machine.Frame
import EndpointRules.Machine.Instruction
import EndpointRules.StandardFunctions

/-!
# Meaning of instructions

`perform` is the effect of one instruction on a frame.  It says nothing of where the instruction
stands: a jump is a distance, so a body means the same wherever it is placed.
-/

namespace EndpointRules

/-- What a body returns. -/
inductive Exit
  | value (value : Value)
  | endpoint (endpoint : Endpoint)
  deriving DecidableEq

/-- How a body goes on after an instruction: with the next one, behind a number of bytes that are
    skipped, or not at all. -/
inductive Control
  | next
  | skip (distance : Nat)
  | exit (exit : Exit)
  deriving DecidableEq

/-- What stays the same while a body runs. -/
structure Setting where
  program : Program
  hooks : List Hook
  context : Context

namespace Setting

open Exec

/-- The text of a template with its slots filled by strings; `place` counts the slots before. -/
def fillTemplate (place : Nat) : List TemplatePart → List Value → Except Fault Bytes
  | [], _ => .ok []
  | .text s :: parts, arguments => (fillTemplate place parts arguments).map (s ++ ·)
  | .slot :: parts, .string s :: arguments =>
    (fillTemplate (place + 1) parts arguments).map (s ++ ·)
  | .slot :: _, v :: _ => .error (.templateArgument place v.kind)
  | .slot :: _, [] => .error .stackUnderflow

/-- The map of values each followed by its key, of which the last of each key counts. -/
def mapOfPairs (entries : Dict Value) : List Value → Except Fault (Dict Value)
  | v :: .string key :: rest => mapOfPairs (entries.insert key v) rest
  | _ :: key :: _ => .error (.mapKey key.kind)
  | _ => .ok entries

/-- The strings of a header: one string, or a list of strings. -/
def headerValues (name : Bytes) : Value → Except Fault (List Bytes)
  | .string s => .ok [s]
  | .list items => items.mapM fun
    | .string s => .ok s
    | _ => .error (.headerNotStrings name)
  | _ => .error (.headerNotStrings name)

/-- The headers that the entries of a map stand for. -/
def headersOfMap (entries : Dict Value) : Except Fault Headers :=
  entries.mapM fun (name, v) => (headerValues name v).map fun strings => (name, strings)

/-- Pops a string or null, for which `none` stands. -/
def popString (op : Opcode) : Exec (Option Bytes) := do
  let v ← pop
  if v.isNull then pure none
  else
    match v.string? with
    | some s => pure (some s)
    | none => fail (.operand op.mnemonic .aString v.kind)

/-- Whether two operands of a kind are equal; null is equal to nothing.  Of operands that are of
    other kinds the first is at fault. -/
def compareTyped (op : Opcode) (kind : Kind) (a b : Value) : Except Fault Value :=
  if a.isNull || b.isNull then .ok (.boolean false)
  else if a.kind ≠ kind ∨ b.kind ≠ kind then
    let bad := if a.kind ≠ kind then a else b
    .error (.operand op.mnemonic (.only kind) bad.kind)
  else .ok (.boolean (a == b))

/-- Calls a function with the arguments on the stack. -/
def callFunction (s : Setting) (arity : Option Nat) (index : Nat) : Exec Unit := do
  match s.program.parts.functions[index]? with
  | none => fail (.functionIndex index)
  | some slot =>
    match slot.function with
    | none => fail (.unlinkedFunction slot.name)
    | some f =>
      let arguments ← popMany (arity.getD f.arity)
      match f.apply arguments with
      | .ok v => push v
      | .error fault => fail (.functionFailed slot.name fault.text)

/-- Pushes a template filled with the strings on the stack. -/
def resolveTemplate (s : Setting) (count index : Nat) : Exec Unit := do
  match ← constant s.program index with
  | .template parts =>
    let slots := Value.slotCount parts
    if slots ≠ count then fail (.templateArity slots count)
    let arguments ← popMany count
    push (.string (← result (fillTemplate 0 parts arguments)))
  | _ => fail (.notATemplate index)

/-- The string constant that names a property. -/
def propertyName (s : Setting) (index : Nat) : Exec Bytes := do
  match ← constant s.program index with
  | .string name => pure name
  | _ => fail .propertyName

/-- Pops a URI, or a string that is one. -/
def popUri : Exec Uri := do
  match ← pop with
  | .uri u => pure u
  | .string text =>
    match ← findUri? text with
    | some u => pure u
    | none => fail (.invalidUrl text)
  | v => fail (.endpointUrl v.kind)

/-- Pops the properties of an endpoint, if it has any. -/
def popProperties (present : Bool) : Exec (Dict Value) := do
  if present then
    match ← pop with
    | .map entries => pure entries
    | v => fail (.endpointProperties v.kind)
  else pure []

/-- Pops the headers of an endpoint, if it has any. -/
def popHeaders (present : Bool) : Exec Headers := do
  if present then
    match ← pop with
    | .map entries => result (headersOfMap entries)
    | v => fail (.endpointHeaders v.kind)
  else pure []

/-- The endpoint of the operands on the stack, as the hooks in turn leave it. -/
def popEndpoint (s : Setting) (hasProperties hasHeaders : Bool) : Exec Endpoint := do
  let uri ← popUri
  let properties ← popProperties hasProperties
  let headers ← popHeaders hasHeaders
  pure (s.hooks.foldl (fun e hook => hook e s.context properties headers)
    { uri, headers, properties })

/-- The effect of an instruction. -/
def perform (s : Setting) : Instruction → Exec Control
  | .loadConstant index => do
    push (← constant s.program index)
    pure .next
  | .setRegister index => do
    let _ ← register index
    assign index (← pop)
    pure .next
  | .loadRegister index => do
    push (← register index)
    pure .next
  | .test predicate => do
    push (.boolean (predicate.holds (← pop)))
    pure .next
  | .testRegister predicate index => do
    push (.boolean (predicate.holds (← register index)))
    pure .next
  | .makeList count => do
    push (.list (← popMany count))
    pure .next
  | .makeMap pairs => do
    let items ← popMany (pairs * 2)
    push (.map (← result (mapOfPairs [] items)))
    pure .next
  | .resolveTemplate count index => do
    s.resolveTemplate count index
    pure .next
  | .call arity index => do
    s.callFunction arity index
    pure .next
  | .getProperty index => do
    let name ← s.propertyName index
    push ((← pop).property name)
    pure .next
  | .getIndex index => do
    push ((← pop).index index)
    pure .next
  | .getPropertyOf r index => do
    let name ← s.propertyName index
    push ((← register r).property name)
    pure .next
  | .getIndexOf r index => do
    push ((← register r).index index)
    pure .next
  | .equals => do
    let b ← pop
    let a ← pop
    push (.boolean (a == b))
    pure .next
  | .stringEquals => do
    let b ← pop
    let a ← pop
    push (← result (compareTyped .stringEquals .string a b))
    pure .next
  | .booleanEquals => do
    let b ← pop
    let a ← pop
    push (← result (compareTyped .booleanEquals .boolean a b))
    pure .next
  | .substring start stop reverse => do
    let input ← pop
    push (← result (Operation.substring Opcode.substring.mnemonic input (.integer start)
      (.integer stop) (.boolean reverse)))
    pure .next
  | .isHostLabel => do
    let dots ← pop
    let label ← pop
    push (← result (Operation.isHostLabel Opcode.isValidHostLabel.mnemonic label dots))
    pure .next
  | .parseUrl => do
    match ← popString .parseUrl with
    | none => push .null
    | some text =>
      let uri ← findUri? text
      push ((uri.filter (!·.hasQuery)).elim .null Value.uri)
    pure .next
  | .uriEncode => do
    match ← popString .uriEncode with
    | none => push .null
    | some text => push (.string (Text.percentEncode text))
    pure .next
  | .split => do
    let limit ← pop
    let delimiter ← pop
    let input ← pop
    push (← result (Operation.split Opcode.split.mnemonic input delimiter limit))
    pure .next
  | .raise => do
    fail (.rule (← pop).display)
  | .returnEndpoint hasProperties hasHeaders => do
    pure (.exit (.endpoint (← s.popEndpoint hasProperties hasHeaders)))
  | .returnValue => do
    pure (.exit (.value (← pop)))
  | .jumpIfSetOrPop distance => do
    if (← peek).isSet then pure (.skip distance)
    else
      let _ ← pop
      pure .next

end Setting

end EndpointRules
