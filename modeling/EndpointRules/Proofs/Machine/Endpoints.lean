import EndpointRules.Proofs.Except
import EndpointRules.Proofs.Machine.Likeness
import EndpointRules.Proofs.Machine.Steps

/-!
# Returned endpoints

An endpoint is made of the operands on the stack: a URL, and properties and headers where the flags
of the instruction announce them.  If they are well typed the hooks adjust the endpoint one after
the other, each of them once, and each is given the properties and headers that the operands stand
for.  Otherwise the body fails before any hook has run.
-/

namespace EndpointRules

/-! ## Operands -/

/-- The operand is the URI, or a text that is read as it. -/
def DenotesUri (v : Value) (u : Uri) : Prop :=
  v = .uri u ∨ ∃ text, v = .string text ∧ Uri.parse? text = some u

/-- The operand holds the strings of a header: a single one, or those of a list in order. -/
def HoldsStrings (v : Value) (strings : List Bytes) : Prop :=
  (∃ s, v = .string s ∧ strings = [s]) ∨ v = .list (strings.map .string)

/-- The header stands for the entry of a map: it has its name and the strings that it holds. -/
def HeaderOf (entry : Bytes × Value) (header : Bytes × List Bytes) : Prop :=
  header.1 = entry.1 ∧ HoldsStrings entry.2 header.2

/-- The operands of an endpoint. -/
structure Operands where
  url : Value
  properties : Option (Dict Value)
  headers : Option (Dict Value)

namespace Operands

/-- The operands as they stand on a stack, the URL on top. -/
def items (o : Operands) : List Value :=
  o.url :: ((o.properties.map .map).toList ++ (o.headers.map .map).toList)

/-- The operands are on top of the stack, and they are those that the flags announce: properties by
    the second lowest bit, headers by the lowest one. -/
structure OnTop (o : Operands) (flags : UInt8) (stack : List Value) : Prop where
  properties : o.properties.isSome = flags.toNat.testBit 1
  headers : o.headers.isSome = flags.toNat.testBit 0
  items : o.items <+: stack

/-- The URL is a URI or a text that is one, and every header holds a string or a list of strings. -/
structure WellTyped (o : Operands) : Prop where
  url : ∃ u, DenotesUri o.url u
  headers : ∀ entry ∈ o.headers.getD [], ∃ strings, HoldsStrings entry.2 strings

/-- The operands stand for the endpoint.  It has exactly the entries of the properties, and a header
    for each entry of the headers. -/
structure Describe (o : Operands) (e : Endpoint) : Prop where
  uri : DenotesUri o.url e.uri
  properties : e.properties = o.properties.getD []
  headers : List.Forall₂ HeaderOf (o.headers.getD []) e.headers

end Operands

/-- Every hook is run once, in order, on the endpoint as the one before it has left it, and each is
    given the properties and the headers that the endpoint had first. -/
def Adjusts (hooks : List Hook) (context : Context) (first last : Endpoint) : Prop :=
  ∃ stages : Nat → Endpoint, stages 0 = first ∧ stages hooks.length = last ∧
    ∀ i (h : i < hooks.length),
      stages (i + 1) = hooks[i] (stages i) context first.properties first.headers

/-- The endpoint that the hooks leave. -/
def adjusted (hooks : List Hook) (context : Context) (first : Endpoint) : Endpoint :=
  hooks.foldl (fun e hook => hook e context first.properties first.headers) first

theorem adjusts_adjusted (hooks : List Hook) (context : Context) (first : Endpoint) :
    Adjusts hooks context first (adjusted hooks context first) := by
  refine ⟨fun i => adjusted (hooks.take i) context first, rfl, ?_, ?_⟩
  · dsimp only
    rw [List.take_length]
  · intro i hi
    dsimp only
    rw [adjusted, List.take_add_one, List.getElem?_eq_getElem hi, List.foldl_append]
    rfl

theorem exists_headerOf_iff {entry : Bytes × Value} :
    (∃ header, HeaderOf entry header) ↔ ∃ strings, HoldsStrings entry.2 strings := by
  constructor
  · intro ⟨header, _, hstrings⟩
    exact ⟨header.2, hstrings⟩
  · intro ⟨strings, hstrings⟩
    exact ⟨(entry.1, strings), rfl, hstrings⟩

theorem exists_headersOf_iff {entries : Dict Value} :
    (∃ headers, List.Forall₂ HeaderOf entries headers) ↔
      ∀ entry ∈ entries, ∃ strings, HoldsStrings entry.2 strings := by
  induction entries with
  | nil => simp
  | cons entry entries ih =>
    rw [List.forall_mem_cons, ← ih, ← exists_headerOf_iff]
    constructor
    · intro ⟨headers, h⟩
      cases h with
      | cons hheader hheaders => exact ⟨⟨_, hheader⟩, _, hheaders⟩
    · intro ⟨⟨header, hheader⟩, headers, hheaders⟩
      exact ⟨header :: headers, .cons hheader hheaders⟩

theorem Operands.wellTyped_iff {o : Operands} : o.WellTyped ↔ ∃ e, o.Describe e := by
  constructor
  · intro ⟨⟨uri, huri⟩, hheaders⟩
    obtain ⟨headers, hheaders⟩ := exists_headersOf_iff.2 hheaders
    exact ⟨{ uri, headers, properties := o.properties.getD [] }, huri, rfl, hheaders⟩
  · intro ⟨e, he⟩
    exact ⟨⟨e.uri, he.uri⟩, exists_headersOf_iff.1 ⟨e.headers, he.headers⟩⟩

theorem length_toList_map (o : Option (Dict Value)) :
    (o.map Value.map).toList.length = o.isSome.toNat := by
  cases o <;> rfl

theorem toList_map_injective :
    Function.Injective fun o : Option (Dict Value) => (o.map Value.map).toList := by
  intro o o' h
  cases o with
  | none =>
    cases o' with
    | none => rfl
    | some entries' => cases h
  | some entries =>
    cases o' with
    | none => cases h
    | some entries' =>
      cases h
      rfl

/-- The flags and the stack determine the operands. -/
theorem Operands.OnTop.unique {o o' : Operands} {flags : UInt8} {stack : List Value}
    (h : o.OnTop flags stack) (h' : o'.OnTop flags stack) : o = o' := by
  have hproperties : (o.properties.map Value.map).toList.length =
      (o'.properties.map Value.map).toList.length := by
    rw [length_toList_map, length_toList_map, h.properties, h'.properties]
  have hheaders : (o.headers.map Value.map).toList.length =
      (o'.headers.map Value.map).toList.length := by
    rw [length_toList_map, length_toList_map, h.headers, h'.headers]
  have hlength : o.items.length = o'.items.length := by
    simp only [Operands.items, List.length_cons, List.length_append, hproperties, hheaders]
  have hitems : o.items = o'.items :=
    (List.prefix_of_prefix_length_le h.items h'.items (Nat.le_of_eq hlength)).eq_of_length hlength
  obtain ⟨hurl, hmaps⟩ := List.cons.inj hitems
  obtain ⟨hpropertiesList, hheadersList⟩ := List.append_inj hmaps hproperties
  cases o
  cases o'
  congr
  · exact toList_map_injective hpropertiesList
  · exact toList_map_injective hheadersList

/-! ## Taking operands -/

namespace Exec

variable {α β : Type} {m : Exec α} {form form' : List Value → α → Prop}

/-- A computation has a value exactly if operands of the form that goes with the value are on top of
    the stack, and takes them off. -/
structure Takes (m : Exec α) (form : List Value → α → Prop) : Prop where
  sound : ∀ {f g x}, m f = (.ok x, g) → ∃ items, form items x ∧
    f.stack.items = items ++ g.stack.items
  complete : ∀ {f items rest x}, form items x → f.stack.items = items ++ rest →
    ∃ g, m f = (.ok x, g) ∧ g.stack.items = rest

namespace Takes

theorem congr (h : Takes m form) (hform : ∀ items x, form items x ↔ form' items x) :
    Takes m form' := by
  obtain rfl : form = form' := funext₂ fun items x => propext (hform items x)
  exact h

theorem pure (x : α) : Takes (Pure.pure x) fun items y => items = [] ∧ y = x where
  sound h := by
    cases h
    exact ⟨[], ⟨rfl, rfl⟩, rfl⟩
  complete h hitems := by
    obtain ⟨rfl, rfl⟩ := h
    exact ⟨_, rfl, hitems⟩

theorem fail (fault : Fault) : Takes (Exec.fail fault : Exec α) fun _ _ => False where
  sound h := by cases h
  complete h _ := h.elim

theorem result (r : Except Fault α) :
    Takes (Exec.result r) fun items x => items = [] ∧ r = .ok x := by
  cases r with
  | ok x => exact (pure x).congr fun items y => by simp [eq_comm]
  | error fault => exact (fail fault).congr fun items y => by simp

theorem bind {k : α → Exec β} {next : α → List Value → β → Prop} (hm : Takes m form)
    (hk : ∀ x, Takes (k x) (next x)) :
    Takes (m >>= k) fun items y => ∃ x taken left, items = taken ++ left ∧ form taken x ∧
      next x left y where
  sound {f h y} heq := by
    rw [bind_apply] at heq
    split at heq
    · next x g hx =>
      obtain ⟨taken, htaken, hf⟩ := hm.sound hx
      obtain ⟨left, hleft, hg⟩ := (hk x).sound heq
      exact ⟨taken ++ left, ⟨x, taken, left, rfl, htaken, hleft⟩, by simp [hf, hg]⟩
    · cases heq
  complete {f items rest y} hform hitems := by
    obtain ⟨x, taken, left, rfl, htaken, hleft⟩ := hform
    obtain ⟨g, hx, hg⟩ := hm.complete htaken (hitems.trans (List.append_assoc ..))
    obtain ⟨h, hy, hh⟩ := (hk x).complete hleft hg
    exact ⟨h, by rw [bind_apply, hx]; exact hy, hh⟩

theorem pop : Takes Exec.pop fun items v => items = [v] where
  sound {f g v} h := by
    unfold Exec.pop at h
    split at h
    · cases h
    · next w rest hitems =>
      cases h
      exact ⟨[v], rfl, by simp [hitems, Stack.drop]⟩
  complete {f items rest v} h hitems := by
    subst h
    exact ⟨{ f with stack := f.stack.drop 1 }, by simp [Exec.pop, hitems],
      by simp [hitems, Stack.drop]⟩

/-- A lookup of a URI takes nothing; what follows is given the URI of the text. -/
theorem findUri?_bind {text : Bytes} {k : Option Uri → Exec α}
    (h : Takes (k (Uri.parse? text)) form) : Takes (Exec.findUri? text >>= k) form where
  sound {f g x} heq := by
    obtain ⟨cache, hfind⟩ := exists_findUri?_eq text f
    rw [bind_apply, hfind] at heq
    exact h.sound (f := { f with cache }) heq
  complete {f items rest x} hform hitems := by
    obtain ⟨cache, hfind⟩ := exists_findUri?_eq text f
    obtain ⟨g, hg, hrest⟩ := h.complete (f := { f with cache }) hform hitems
    exact ⟨g, by rw [bind_apply, hfind]; exact hg, hrest⟩

/-- What is done with the top of the stack decides which operands a computation takes. -/
theorem pop_bind {k : Value → Exec α} {next : Value → List Value → α → Prop}
    (hk : ∀ v, Takes (k v) (next v)) :
    Takes (Exec.pop >>= k) fun items x => ∃ v left, items = v :: left ∧ next v left x :=
  (pop.bind hk).congr fun items x => by
    constructor
    · intro ⟨v, taken, left, hitems, htaken, hleft⟩
      exact ⟨v, left, by rw [hitems, htaken]; rfl, hleft⟩
    · intro ⟨v, left, hitems, hleft⟩
      exact ⟨v, [v], left, hitems, rfl, hleft⟩

end Takes

end Exec

namespace Setting

open Exec

theorem takes_popUri : Takes popUri fun items u => ∃ v, items = [v] ∧ DenotesUri v u := by
  have h : Takes popUri fun items u =>
      ∃ v left, items = v :: left ∧ left = [] ∧ DenotesUri v u := by
    refine .pop_bind fun v => ?_
    cases v with
    | uri u => exact (Takes.pure u).congr fun items u' => by simp [DenotesUri, eq_comm]
    | string text =>
      refine .findUri?_bind ?_
      cases hparse : Uri.parse? text with
      | none => exact (Takes.fail _).congr fun items u => by simp [DenotesUri, hparse]
      | some u => exact (Takes.pure u).congr fun items u' => by simp [DenotesUri, hparse, eq_comm]
    | _ => exact (Takes.fail _).congr fun items u => by simp [DenotesUri]
  exact h.congr fun items u => by simp

/-- An operand that is announced has to be a map, of which `deal` makes a value.  If none is
    announced, the value is the one that belongs to the empty map. -/
theorem takes_optional {α : Type} {present : Bool} {deal : Dict Value → Exec α} {nothing : α}
    (refuse : Value → Fault) (deals : Dict Value → α → Prop)
    (hdeal : ∀ entries, Takes (deal entries) fun items x => items = [] ∧ deals entries x)
    (hnothing : ∀ x, deals [] x ↔ x = nothing) :
    Takes (do
      if present then
        match ← pop with
        | .map entries => deal entries
        | v => fail (refuse v)
      else pure nothing) fun items x => ∃ o : Option (Dict Value), o.isSome = present ∧
        items = (o.map .map).toList ∧ deals (o.getD []) x := by
  cases present with
  | false =>
    refine (Takes.pure nothing).congr fun items x => ?_
    rw [← hnothing]
    constructor
    · intro ⟨hitems, hx⟩
      exact ⟨none, rfl, hitems, hx⟩
    · intro ⟨o, hnone, hitems, hx⟩
      obtain rfl := Option.not_isSome_iff_eq_none.1 (ne_true_of_eq_false hnone)
      exact ⟨hitems, hx⟩
  | true =>
    have hnext : ∀ v : Value, Takes (match v with
        | .map entries => deal entries
        | v => fail (refuse v)) fun items x =>
          items = [] ∧ ∃ entries, v = .map entries ∧ deals entries x := by
      intro v
      cases v with
      | map entries => exact (hdeal entries).congr fun items x => by simp
      | _ => exact (Takes.fail _).congr fun items x => by simp
    refine (Takes.pop_bind hnext).congr fun items x => ?_
    constructor
    · rintro ⟨v, left, rfl, rfl, entries, rfl, hx⟩
      exact ⟨some entries, rfl, rfl, hx⟩
    · intro ⟨o, hsome, hitems, hx⟩
      obtain ⟨entries, rfl⟩ := Option.isSome_iff_exists.1 hsome
      exact ⟨_, [], hitems, rfl, entries, rfl, hx⟩

theorem takes_popProperties (present : Bool) :
    Takes (popProperties present) fun items properties => ∃ o : Option (Dict Value),
      o.isSome = present ∧ items = (o.map .map).toList ∧ properties = o.getD [] :=
  takes_optional (fun v => .endpointProperties v.kind) (fun entries x => x = entries) Takes.pure
    fun _ => Iff.rfl

theorem headerValues_eq_ok_iff {name : Bytes} {v : Value} {strings : List Bytes} :
    headerValues name v = .ok strings ↔ HoldsStrings v strings := by
  cases v with
  | string s => simp [headerValues, HoldsStrings, eq_comm]
  | list items =>
    have hstrings : List.Forall₂ (fun v s => v = Value.string s) items strings ↔
        items = strings.map .string := by
      rw [← List.forall₂_map_right_iff (R := Eq), List.forall₂_eq_eq_eq]
    rw [headerValues, Except.mapM_eq_ok_iff (R := fun v s => v = .string s)
      (fun v s => by cases v <;> simp), hstrings]
    simp [HoldsStrings]
  | _ => simp [headerValues, HoldsStrings]

theorem headersOfMap_eq_ok_iff {entries : Dict Value} {headers : Headers} :
    headersOfMap entries = .ok headers ↔ List.Forall₂ HeaderOf entries headers := by
  refine Except.mapM_eq_ok_iff ?_
  intro entry header
  rw [Except.map_eq_ok_iff]
  constructor
  · rintro ⟨strings, hstrings, rfl⟩
    exact ⟨rfl, headerValues_eq_ok_iff.1 hstrings⟩
  · intro ⟨hname, hstrings⟩
    exact ⟨header.2, headerValues_eq_ok_iff.2 hstrings, Prod.ext hname.symm rfl⟩

theorem takes_popHeaders (present : Bool) :
    Takes (popHeaders present) fun items headers => ∃ o : Option (Dict Value),
      o.isSome = present ∧ items = (o.map .map).toList ∧
        List.Forall₂ HeaderOf (o.getD []) headers := by
  refine takes_optional (fun v => .endpointHeaders v.kind) (List.Forall₂ HeaderOf) ?_ ?_
  · intro entries
    exact (Takes.result _).congr fun items headers => by rw [headersOfMap_eq_ok_iff]
  · intro headers
    simp

/-! ## The instruction -/

/-- Pops the operands of an endpoint, and makes the endpoint that they stand for. -/
def popDescribed (hasProperties hasHeaders : Bool) : Exec Endpoint := do
  let uri ← popUri
  let properties ← popProperties hasProperties
  let headers ← popHeaders hasHeaders
  pure { uri, headers, properties }

theorem takes_popDescribed (hasProperties hasHeaders : Bool) :
    Takes (popDescribed hasProperties hasHeaders) fun items e => ∃ o : Operands,
      o.properties.isSome = hasProperties ∧ o.headers.isSome = hasHeaders ∧ items = o.items ∧
        o.Describe e := by
  refine (takes_popUri.bind fun uri => (takes_popProperties hasProperties).bind fun properties =>
    (takes_popHeaders hasHeaders).bind fun headers => Takes.pure _).congr ?_
  intro items e
  constructor
  · rintro ⟨uri, _, _, rfl, ⟨v, rfl, huri⟩, properties, _, _, rfl, ⟨o, ho, rfl, hproperties⟩,
      headers, _, _, rfl, ⟨o', ho', rfl, hheaders⟩, rfl, rfl⟩
    exact ⟨⟨v, o, o'⟩, ho, ho', by simp [Operands.items], huri, hproperties, hheaders⟩
  · rintro ⟨o, hproperties, hheaders, rfl, he⟩
    exact ⟨e.uri, [o.url], _, rfl, ⟨_, rfl, he.uri⟩,
      e.properties, _, _, rfl, ⟨o.properties, hproperties, rfl, he.properties⟩,
      e.headers, _, [], (List.append_nil _).symm, ⟨o.headers, hheaders, rfl, he.headers⟩, rfl, rfl⟩

/-- There is an endpoint to make exactly if the operands on top of the stack describe one. -/
theorem exists_popDescribed_iff {flags : UInt8} {f : Frame} {e : Endpoint} :
    (∃ g, popDescribed (flags.toNat.testBit 1) (flags.toNat.testBit 0) f = (.ok e, g)) ↔
      ∃ o : Operands, o.OnTop flags f.stack.items ∧ o.Describe e := by
  constructor
  · intro ⟨g, hg⟩
    obtain ⟨_, ⟨o, hproperties, hheaders, rfl, he⟩, hitems⟩ := (takes_popDescribed _ _).sound hg
    exact ⟨o, ⟨hproperties, hheaders, g.stack.items, hitems.symm⟩, he⟩
  · intro ⟨o, htop, he⟩
    obtain ⟨rest, hrest⟩ := htop.items
    obtain ⟨g, hg, -⟩ := (takes_popDescribed _ _).complete
      ⟨o, htop.properties, htop.headers, rfl, he⟩ hrest.symm
    exact ⟨g, hg⟩

/-- The hooks see nothing of an endpoint before all its operands have been popped. -/
theorem popEndpoint_eq (s : Setting) (hasProperties hasHeaders : Bool) (f : Frame) :
    s.popEndpoint hasProperties hasHeaders f =
      match popDescribed hasProperties hasHeaders f with
      | (.ok e, g) => (.ok (adjusted s.hooks s.context e), g)
      | (.error fault, g) => (.error fault, g) := by
  simp only [popEndpoint, popDescribed, bind_apply]
  rcases popUri f with ⟨_ | uri, f⟩
  · rfl
  · dsimp only
    rcases popProperties hasProperties f with ⟨_ | properties, f⟩
    · rfl
    · dsimp only
      rcases popHeaders hasHeaders f with ⟨_ | headers, f⟩
      · rfl
      · rfl

variable {s : Setting} {body : Body} {a : Nat}

/-- A run of an instruction that returns an endpoint, whatever the hooks are. -/
theorem runFrom_of_fetch_returnEndpoint (hfetch : s.fetch body a = .ok .returnEndpoint)
    (record : Bool) (f : Frame) (events : Array Trace.Event) :
    ∃ events', ∀ hooks, { s with hooks }.runFrom record body a f events =
      match popDescribed ((s.program.code.getD (a + 1) 0).toNat.testBit 1)
        ((s.program.code.getD (a + 1) 0).toNat.testBit 0) f with
      | (.ok e, g) => (.ok (.endpoint (adjusted hooks s.context e)), g, events')
      | (.error fault, g) => (.error ⟨fault, some a⟩, g, events') := by
  refine ⟨if record then events.push (.step body.sort body.index a) else events, ?_⟩
  intro hooks
  have hinstruction : Instruction.decode .returnEndpoint s.program.code a =
      .returnEndpoint ((s.program.code.getD (a + 1) 0).toNat.testBit 1)
        ((s.program.code.getD (a + 1) 0).toNat.testBit 0) := by
    rw [Nat.testBit_eq_decide_div_mod_eq, Nat.testBit_eq_decide_div_mod_eq, Nat.pow_zero,
      Nat.div_one]
    rfl
  rw [runFrom_eq_of_fetch (s := { s with hooks }) hfetch]
  simp only [hinstruction, perform, bind_apply, popEndpoint_eq]
  rcases popDescribed _ _ f with ⟨_ | e, g⟩
  · rfl
  · rfl

/-- Returning an endpoint.  The instruction completes exactly if well-typed operands are on top of
    the stack.  It then returns the endpoint that they stand for, as the hooks one after the other
    leave it.  Otherwise the body fails at the instruction, and in the same way whatever the hooks
    are, so none of them is run. -/
theorem returnEndpoint_all_or_nothing (hfetch : s.fetch body a = .ok .returnEndpoint)
    (record : Bool) (f : Frame) (events : Array Trace.Event) :
    ((∃ exit, (s.runFrom record body a f events).1 = .ok exit) ↔
      ∃ o : Operands, o.OnTop (s.program.code.getD (a + 1) 0) f.stack.items ∧ o.WellTyped) ∧
    (∀ o : Operands, o.OnTop (s.program.code.getD (a + 1) 0) f.stack.items → o.WellTyped →
      ∃ first last, o.Describe first ∧ Adjusts s.hooks s.context first last ∧
        (s.runFrom record body a f events).1 = .ok (.endpoint last)) ∧
    ((¬ ∃ o : Operands, o.OnTop (s.program.code.getD (a + 1) 0) f.stack.items ∧ o.WellTyped) →
      ∃ fault g events', ∀ hooks, { s with hooks }.runFrom record body a f events =
        (.error ⟨fault, some a⟩, g, events')) := by
  obtain ⟨events', hrun⟩ := runFrom_of_fetch_returnEndpoint hfetch record f events
  have hcompletes : ∀ (o : Operands) (e : Endpoint),
      o.OnTop (s.program.code.getD (a + 1) 0) f.stack.items → o.Describe e →
        (s.runFrom record body a f events).1 = .ok (.endpoint (adjusted s.hooks s.context e)) := by
    intro o e htop he
    obtain ⟨g, hg⟩ := exists_popDescribed_iff.2 ⟨o, htop, he⟩
    rw [hrun s.hooks, hg]
  refine ⟨⟨?_, ?_⟩, ?_, ?_⟩
  · intro ⟨exit, hexit⟩
    rw [hrun s.hooks] at hexit
    split at hexit
    · next e g hg =>
      obtain ⟨o, htop, he⟩ := exists_popDescribed_iff.1 ⟨g, hg⟩
      exact ⟨o, htop, Operands.wellTyped_iff.2 ⟨e, he⟩⟩
    · cases hexit
  · intro ⟨o, htop, htyped⟩
    obtain ⟨e, he⟩ := Operands.wellTyped_iff.1 htyped
    exact ⟨_, hcompletes o e htop he⟩
  · intro o htop htyped
    obtain ⟨e, he⟩ := Operands.wellTyped_iff.1 htyped
    exact ⟨e, _, he, adjusts_adjusted .., hcompletes o e htop he⟩
  · intro hnone
    cases hg : popDescribed ((s.program.code.getD (a + 1) 0).toNat.testBit 1)
        ((s.program.code.getD (a + 1) 0).toNat.testBit 0) f with
    | mk r g =>
      cases r with
      | error fault =>
        rw [hg] at hrun
        exact ⟨fault, g, events', hrun⟩
      | ok e =>
        obtain ⟨o, htop, he⟩ := exists_popDescribed_iff.1 ⟨g, hg⟩
        exact absurd ⟨o, htop, Operands.wellTyped_iff.2 ⟨e, he⟩⟩ hnone

/-- A hook that takes the headers and properties away from an endpoint. -/
def stripped : Hook := fun e _ _ _ => { e with headers := [], properties := [] }

/-- A hook that gives an endpoint the headers and properties that the rule returned. -/
def restored : Hook := fun e _ properties headers => { e with headers, properties }

/-- A program whose result returns an endpoint with properties and headers. -/
def withEndpoint : Program where
  parts := {
    code := #[0x27, 0x03]
    results := #[0]
    diagram := { entries := #[], root := Reference.resultOffset } }
  starts := [0]
  starts_eq := by decide
  check_eq := by cbv

/-- The setting of `withEndpoint`. -/
def restoring : Setting :=
  { program := withEndpoint, hooks := [stripped, restored], context := [] }

/-- The URI of the endpoint. -/
def returned : Uri where
  text := "https://h/p"
  components := {
    scheme := "https"
    authority := "h"
    host := "h"
    path := "/p"
    query := none
    fragment := none }
  ofText?_eq := by decide +kernel

/-- Operands with a property and two headers, of which one is given. -/
def operandsWith (v : Value) : Operands where
  url := .string returned.text
  properties := some [("authSchemes", .list [])]
  headers := some [("x-a", .string "1"), ("x-b", v)]

/-- A frame whose stack holds the operands. -/
def holding (o : Operands) : Frame where
  registers := #[]
  stack := { items := o.items ++ [.null] }

theorem onTop_holding (v : Value) :
    (operandsWith v).OnTop 3 (holding (operandsWith v)).stack.items :=
  ⟨rfl, rfl, List.prefix_append _ _⟩

/-- The second hook still sees what the first one takes away; a header that holds an integer lets
    the body fail. -/
theorem returnEndpoint_all_or_nothing_restored :
    restoring.fetch ⟨.result, 0, 0, 2⟩ 0 = .ok .returnEndpoint ∧
    (∃ e, (restoring.runFrom false ⟨.result, 0, 0, 2⟩ 0
        (holding (operandsWith (.list [.string "2", .string "3"]))) #[]).1 = .ok (.endpoint e) ∧
      e.properties = ([("authSchemes", .list [])] : Dict Value) ∧
      e.headers = ([("x-a", ["1"]), ("x-b", ["2", "3"])] : Headers)) ∧
    ∃ fault g events', ∀ hooks,
      { restoring with hooks }.runFrom false ⟨.result, 0, 0, 2⟩ 0
        (holding (operandsWith (.integer 2))) #[] = (.error ⟨fault, some 0⟩, g, events') := by
  have hfetch : restoring.fetch ⟨.result, 0, 0, 2⟩ 0 = .ok .returnEndpoint :=
    fetch_eq_ok_iff.2 ⟨rfl, by decide⟩
  refine ⟨hfetch, ?_, ?_⟩
  · have hheaders :
        headersOfMap [("x-a", .string "1"), ("x-b", .list [.string "2", .string "3"])] =
          .ok [("x-a", ["1"]), ("x-b", ["2", "3"])] := rfl
    have htyped : (operandsWith (.list [.string "2", .string "3"])).WellTyped :=
      ⟨⟨returned, .inr ⟨_, rfl, Uri.parse?_text returned⟩⟩,
        exists_headersOf_iff.1 ⟨_, headersOfMap_eq_ok_iff.1 hheaders⟩⟩
    obtain ⟨-, hdescribed, -⟩ := returnEndpoint_all_or_nothing hfetch false
      (holding (operandsWith (.list [.string "2", .string "3"]))) #[]
    obtain ⟨first, last, hfirst, ⟨stages, -, rfl, hstages⟩, hrun⟩ :=
      hdescribed _ (onTop_holding _) htyped
    have hlast := hstages 1 (by decide)
    refine ⟨_, hrun, (congrArg (·.properties) hlast).trans hfirst.properties,
      (congrArg (·.headers) hlast).trans ?_⟩
    exact Except.ok.inj ((headersOfMap_eq_ok_iff.2 hfirst.headers).symm.trans hheaders)
  · obtain ⟨-, -, hfails⟩ := returnEndpoint_all_or_nothing hfetch false
      (holding (operandsWith (.integer 2))) #[]
    apply hfails
    rintro ⟨o, htop, htyped⟩
    obtain rfl := htop.unique (onTop_holding (.integer 2))
    obtain ⟨strings, hstrings⟩ := htyped.headers ("x-b", .integer 2) (.tail _ (.head _))
    simp [HoldsStrings] at hstrings

end Setting

end EndpointRules
