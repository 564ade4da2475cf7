import EndpointRules.Engine
import EndpointRules.Proofs.Image.RoundTrip
import EndpointRules.Proofs.RegisterFile.Precedence

/-!
# The order of registration

Functions and providers are registered one by one or in extensions, in any order.  Only the order in
which those of one name arrive matters.  A function name in an image is linked with the function of
that name that was registered last, the standard functions counting as the first ones.  A builtin
has the value of the provider of its name that was registered first among those that have one in the
context; providers without content count for nothing.
-/

namespace EndpointRules

/-! ## Registries -/

/-- The last function of a name. -/
def Function.last? (functions : List Function) (name : Bytes) : Option Function :=
  functions.reverse.find? (·.name == name)

/-- A registry has the last function of each name. -/
theorem Registry.get?_ofList (functions : List Function) (name : Bytes) :
    (Registry.ofList functions).get? name = Function.last? functions name := by
  induction functions using List.reverseRecOn with
  | nil => rfl
  | append_singleton functions f ih =>
    have hadd : Registry.ofList (functions ++ [f]) = (Registry.ofList functions).add f := by
      simp [Registry.ofList]
    rw [hadd, Registry.add, Dict.get?_insert, ih]
    by_cases hname : f.name = name
    · simp [Function.last?, hname]
    · simp [Function.last?, hname]

/-- The value of a key when every value is changed. -/
theorem Dict.get?_map {α β : Type} (d : Dict α) (g : α → β) (key : Bytes) :
    Dict.get? (d.map fun e => (e.1, g e.2)) key = (d.get? key).map g := by
  rw [Dict.get?, Dict.get?, List.find?_map]
  cases hfind : d.find? ((·.1 == key) ∘ fun e => (e.1, g e.2)) with
  | none =>
    have hfind' : d.find? (·.1 == key) = none := hfind
    rw [hfind']
    rfl
  | some e =>
    have hfind' : d.find? (·.1 == key) = some e := hfind
    rw [hfind']
    rfl

namespace Engine

/-- What can be registered with an engine. -/
inductive Registration
  | function (f : Function)
  | extension (x : Extension)
  | provider (name : Bytes) (content : Option Provider)

namespace Registration

/-- The functions that are registered, in order. -/
def functions : Registration → List Function
  | function f => [f]
  | extension x => x.functions
  | provider _ _ => []

/-- The providers that are registered, in order. -/
def providers : Registration → List (Bytes × Option Provider)
  | function _ => []
  | extension x => x.providers
  | provider name content => [(name, content)]

end Registration

/-- The engine after a registration. -/
def register (e : Engine) : Registration → Engine
  | .function f => e.addFunction f
  | .extension x => e.addExtension x
  | .provider name content => e.addProvider name content

/-- The engine after some registrations, made one after the other on an engine that knows the
    standard functions. -/
def ofRegistrations (registrations : List Registration) : Engine :=
  registrations.foldl register standard

variable {e : Engine} {registrations : List Registration}

/-! ## What an engine has collected -/

theorem foldl_addFunction (functions : List Function) (e : Engine) :
    functions.foldl addFunction e =
      { e with functions := functions.foldl Registry.add e.functions } := by
  induction functions generalizing e with
  | nil => rfl
  | cons f functions ih =>
    rw [List.foldl_cons, ih]
    rfl

theorem foldl_addProvider (providers : List (Bytes × Option Provider)) (e : Engine) :
    providers.foldl (fun e (name, content) => e.addProvider name content) e =
      { e with providers := e.providers ++ providers } := by
  induction providers generalizing e with
  | nil => simp
  | cons provider providers ih =>
    rw [List.foldl_cons, ih]
    simp [addProvider]

theorem addExtension_eq (e : Engine) (x : Extension) :
    e.addExtension x =
      { functions := x.functions.foldl Registry.add e.functions
        providers := e.providers ++ x.providers
        hooks := e.hooks ++ [x.hook] } := by
  rw [addExtension, foldl_addFunction, foldl_addProvider]

theorem functions_register (e : Engine) (r : Registration) :
    (e.register r).functions = r.functions.foldl Registry.add e.functions := by
  cases r with
  | function f => rfl
  | extension x => rw [register, addExtension_eq]; rfl
  | provider name content => rfl

theorem providers_register (e : Engine) (r : Registration) :
    (e.register r).providers = e.providers ++ r.providers := by
  cases r with
  | function f => simp [register, addFunction, Registration.providers]
  | extension x => rw [register, addExtension_eq]; rfl
  | provider name content => rfl

/-- An engine knows the functions of all registrations behind the standard ones. -/
theorem functions_ofRegistrations (registrations : List Registration) :
    (ofRegistrations registrations).functions =
      Registry.ofList (StandardFunctions.all ++ registrations.flatMap (·.functions)) := by
  induction registrations using List.reverseRecOn with
  | nil => simp [ofRegistrations, standard, addExtension_eq, Registry.ofList]
  | append_singleton registrations r ih =>
    have hlast : ofRegistrations (registrations ++ [r]) =
        (ofRegistrations registrations).register r := by
      simp [ofRegistrations]
    rw [hlast, functions_register, ih]
    simp [Registry.ofList]

/-- An engine has the providers of all registrations. -/
theorem providers_ofRegistrations (registrations : List Registration) :
    (ofRegistrations registrations).providers = registrations.flatMap (·.providers) := by
  induction registrations using List.reverseRecOn with
  | nil => simp [ofRegistrations, standard, addExtension_eq]
  | append_singleton registrations r ih =>
    have hlast : ofRegistrations (registrations ++ [r]) =
        (ofRegistrations registrations).register r := by
      simp [ofRegistrations]
    rw [hlast, providers_register, ih]
    simp

/-! ## Links -/

/-- The function that a name is linked with. -/
def linked? (registrations : List Registration) (name : Bytes) : Option Function :=
  Function.last? (StandardFunctions.all ++ registrations.flatMap (·.functions)) name

/-- The slot of a function name. -/
def slotOf (registrations : List Registration) (name : Bytes) : Slot :=
  { name, function := linked? registrations name }

theorem get?_functions (registrations : List Registration) (name : Bytes) :
    (ofRegistrations registrations).functions.get? name = linked? registrations name := by
  rw [functions_ofRegistrations, Registry.get?_ofList, linked?]

/-- Linking gives every name its slot, or refuses the names. -/
theorem link_eq_or_error {allowUnresolved : Bool} {names : Array Bytes} {slots : Array Slot}
    (h : Image.link (ofRegistrations registrations).functions allowUnresolved names = .ok slots) :
    slots = names.map (slotOf registrations) := by
  unfold Image.link at h
  simp only [get?_functions] at h
  split at h
  · cases h
    rfl
  · cases h

/-- Names that all have a function are not refused. -/
theorem link_eq_ok_of_isSome {names : Array Bytes} (allowUnresolved : Bool)
    (h : ∀ name ∈ names, (linked? registrations name).isSome) :
    Image.link (ofRegistrations registrations).functions allowUnresolved names =
      .ok (names.map (slotOf registrations)) := by
  have hslots : ∀ slot ∈ names.map (slotOf registrations),
      (ofRegistrations registrations).functions.get? slot.name = slot.function ∧
        slot.function.isSome := by
    intro slot hslot
    obtain ⟨name, hname, rfl⟩ := Array.mem_map.1 hslot
    exact ⟨get?_functions registrations name, h name hname⟩
  have hnames : (names.map (slotOf registrations)).map (·.name) = names := by
    simp [Function.comp_def, slotOf]
  have hlink : Image.link (ofRegistrations registrations).functions allowUnresolved
      ((names.map (slotOf registrations)).map (·.name)) = .ok (names.map (slotOf registrations)) :=
    Image.link_eq_ok (fun slot hslot => (hslots slot hslot).1)
      (.inr fun slot hslot => (hslots slot hslot).2)
  rwa [hnames] at hlink

/-! ## Builtins -/

/-- The providers of a name that have content, in order. -/
def contentsOf (providers : List (Bytes × Option Provider)) (name : Bytes) : List Provider :=
  providers.filterMap fun (n, content) => if n == name then content else none

/-- The providers of a name that have content, in the order of their registration. -/
def providersOfName (registrations : List Registration) (name : Bytes) : List Provider :=
  contentsOf (registrations.flatMap (·.providers)) name

/-- The first value that a provider of a name has in a context. -/
def builtin? (registrations : List Registration) (name : Bytes) (context : Context) :
    Option Value :=
  ((providersOfName registrations name).map (· context)).find? Value.isSet

/-- Sorting providers into chains puts those of a name behind each other, in their order. -/
theorem getD_foldl_chain (providers : List (Bytes × Option Provider))
    (chains : Dict (List Provider)) (name : Bytes) :
    ((providers.foldl chain chains).get? name).getD [] =
      (chains.get? name).getD [] ++ contentsOf providers name := by
  induction providers generalizing chains with
  | nil => simp [contentsOf]
  | cons provider providers ih =>
    obtain ⟨n, content⟩ := provider
    rw [List.foldl_cons, ih]
    cases content with
    | none => simp [chain, contentsOf]
    | some provider =>
      rw [chain, Dict.alter, Dict.get?_insert]
      by_cases hname : n = name
      · subst hname
        simp [contentsOf]
      · simp [contentsOf, hname]

/-- No chain is empty. -/
theorem ne_nil_of_foldl_chain {providers : List (Bytes × Option Provider)} {name : Bytes}
    {content : List Provider} (h : (providers.foldl chain []).get? name = some content) :
    content ≠ [] := by
  induction providers using List.reverseRecOn generalizing content with
  | nil => cases h
  | append_singleton providers provider ih =>
    obtain ⟨n, content'⟩ := provider
    rw [List.foldl_append, List.foldl_cons, List.foldl_nil] at h
    cases content' with
    | none => exact ih h
    | some provider =>
      rw [chain, Dict.alter, Dict.get?_insert] at h
      by_cases hname : n = name
      · rw [if_pos hname] at h
        cases h
        simp
      · rw [if_neg hname] at h
        exact ih h

/-- A name has the chain of its providers with content, and none if there are no such. -/
theorem get?_chains (e : Engine) (name : Bytes) :
    e.chains.get? name =
      if contentsOf e.providers name = [] then none else some (contentsOf e.providers name) := by
  have hcontents : (e.chains.get? name).getD [] = contentsOf e.providers name :=
    getD_foldl_chain e.providers [] name
  rw [← hcontents]
  cases hchain : e.chains.get? name with
  | none => simp
  | some content => simp [ne_nil_of_foldl_chain hchain]

/-- A chain answers the first value that one of its providers has. -/
theorem chained_eq (providers : List Provider) (context : Context) :
    Provider.chained providers context =
      ((providers.map (· context)).find? Value.isSet).getD .null := by
  induction providers with
  | nil => rfl
  | cons provider providers ih =>
    rw [Provider.chained, List.map_cons]
    by_cases hset : (provider context).isSet = true
    · rw [List.find?_cons_of_pos hset, if_pos hset]
      rfl
    · rw [List.find?_cons_of_neg hset, if_neg hset, ih]

/-- A chain of one and longer chains offer the same: the first value that there is, or nothing. -/
theorem filter_ofChain (providers : List Provider) (context : Context) :
    (some (Provider.ofChain providers context)).filter Value.isSet =
      (providers.map (· context)).find? Value.isSet := by
  unfold Provider.ofChain
  split
  · next provider =>
    by_cases hset : (provider context).isSet = true
    · simp [hset]
    · simp [hset]
  · rw [chained_eq]
    cases hfind : (providers.map (· context)).find? Value.isSet with
    | none => rfl
    | some v => simp [List.find?_some hfind]

theorem get?_combined (e : Engine) (name : Bytes) :
    e.combined.get? name = (e.chains.get? name).map fun content =>
      some (Provider.ofChain content) :=
  Dict.get?_map e.chains (fun content => some (Provider.ofChain content)) name

/-- The combined providers offer the first value that there is, or nothing. -/
theorem offer?_combined (e : Engine) (name : Bytes) (context : Context) :
    Register.offer? context e.combined name =
      ((contentsOf e.providers name).map (· context)).find? Value.isSet := by
  rw [Register.offer?, get?_combined, get?_chains]
  by_cases hnone : contentsOf e.providers name = []
  · rw [if_pos hnone, hnone]
    rfl
  · rw [if_neg hnone, ← filter_ofChain]
    rfl

theorem offer?_ofRegistrations (registrations : List Registration) (name : Bytes)
    (context : Context) :
    Register.offer? context (ofRegistrations registrations).combined name =
      builtin? registrations name context := by
  rw [offer?_combined, providers_ofRegistrations, builtin?, providersOfName]

/-- The value of a register of a builtin that takes no parameter. -/
theorem initial_of_builtin {r : Register} {name : Bytes} {parameters : Parameters}
    (hbuiltin : r.builtin = some name) (hsupplied : r.supplied? parameters = none)
    (context : Context) :
    r.initial context parameters (ofRegistrations registrations).combined =
      ((builtin? registrations name context).or r.defaultValue).getD .null := by
  rw [Register.initial, Register.provided?, hsupplied, hbuiltin, Option.none_or, Option.bind_some,
    offer?_ofRegistrations]

theorem registers_reset_make (p : Program) (capacity : Nat) (mode : Trace.Mode) (e : Engine)
    {parameters : Parameters} (h : (parameters.map (·.1)).Nodup) (context : Context)
    (m : Machine) :
    (m.reset (Resolver.make e p capacity mode).setup context parameters).2.frame.registers =
      p.parts.registers.map (Register.initial context parameters e.combined) := by
  have hfill := RegisterFile.fill_choose h p none context e.combined
  simp only [Machine.reset, Resolver.make, hfill]

/-! ## The last function and the first value -/

/-- After any registrations, every function of a program that is loaded is the one registered last
    under its name; an image is loaded with these functions if there is one for each of its names.
    For every builtin, a resolver that is made then uses the first value that a provider registered
    under its name has in the context; so a register of the builtin that takes no parameter starts
    with this value, and with its default if there is none. -/
theorem registration_order_decides (registrations : List Registration) :
    let e := ofRegistrations registrations
    (∀ image allowUnresolved p, e.load image allowUnresolved = .ok p →
        ∀ slot ∈ p.parts.functions, slot.function = linked? registrations slot.name) ∧
      (∀ image allowUnresolved t, Image.tables image = .ok t →
        (∀ name ∈ t.names, (linked? registrations name).isSome) →
        e.load image allowUnresolved =
          Program.create { t.parts with functions := t.names.map (slotOf registrations) }) ∧
      ∀ p capacity mode,
        let setup := (Resolver.make e p capacity mode).setup
        (∀ name context, Register.offer? context setup.providers name =
          builtin? registrations name context) ∧
        ∀ (context : Context) (parameters : Parameters) (m : Machine) (i : Nat) (r : Register)
          (name : Bytes), (parameters.map (·.1)).Nodup →
          p.parts.registers[i]? = some r → r.builtin = some name →
          r.supplied? parameters = none →
          (m.reset setup context parameters).2.frame.registers[i]? =
            some (((builtin? registrations name context).or r.defaultValue).getD .null) := by
  intro e
  refine ⟨?_, ?_, ?_⟩
  · intro image allowUnresolved p h slot hslot
    obtain ⟨t, slots, -, hlink, hcreate⟩ := Image.decode_eq_ok_iff.1 h
    have hparts : p.parts.functions = t.names.map (slotOf registrations) := by
      rw [Program.parts_of_create hcreate, link_eq_or_error hlink]
    rw [hparts] at hslot
    obtain ⟨name, -, rfl⟩ := Array.mem_map.1 hslot
    rfl
  · intro image allowUnresolved t ht hnames
    rw [load, Image.decode_of_tables ht, link_eq_ok_of_isSome allowUnresolved hnames]
    rfl
  · intro p capacity mode setup
    refine ⟨fun name context => offer?_ofRegistrations registrations name context, ?_⟩
    intro context parameters m i r name hnames hr hbuiltin hsupplied
    rw [registers_reset_make p capacity mode e hnames, Array.getElem?_map, hr, Option.map_some,
      initial_of_builtin hbuiltin hsupplied]

/-- A function of the same name as `Image.echo`, and registered before it. -/
def pair : Function where
  name := "echo"
  arity := 2
  apply arguments := .ok (.list arguments)

/-- Registrations in which two functions have one name, and providers of one name have no content,
    no value, a value in some contexts, and a value in all. -/
def mixed : List Registration :=
  [ .function pair,
    .provider "Region" none,
    .extension {
      functions := [Image.echo]
      providers := [("Region", some fun context => (context.get? "region").getD .null),
        ("Stage", some fun _ => .null)] },
    .provider "Region" (some fun _ => .integer 6) ]

/-- The later function is linked.  The first provider that has a value is used, and where there is
    none, the default. -/
theorem registration_order_decides_mixed :
    (ofRegistrations mixed).load Image.storedImage false = .ok Image.stored ∧
    ∀ m : Machine,
      let setup := (Resolver.make (ofRegistrations mixed) RegisterFile.layered 32 .off).setup
      let registers (context : Context) := (m.reset setup context []).2.frame.registers
      (registers [("region", .integer 5)])[0]? = some (.integer 5) ∧
        (registers [])[0]? = some (.integer 6) ∧ (registers [])[2]? = some (.integer 2) ∧
        (registers [])[3]? = some (.integer 3) := by
  obtain ⟨-, hload, hmake⟩ := registration_order_decides mixed
  refine ⟨?_, ?_⟩
  · have htables : Image.tables Image.storedImage =
        .ok ⟨#["echo"], { Image.stored.parts with functions := #[] }⟩ := by cbv
    have hlinked : linked? mixed "echo" = some Image.echo := rfl
    have hslots : #[("echo" : Bytes)].map (slotOf mixed) = Image.stored.parts.functions := by
      simp [slotOf, hlinked, Image.stored]
    rw [hload _ false _ htables (by simp [hlinked]), hslots]
    exact Image.stored.create_parts
  · intro m
    obtain ⟨-, hregister⟩ := hmake RegisterFile.layered 32 .off
    refine ⟨?_, ?_, ?_, ?_⟩
    · exact hregister [("region", .integer 5)] [] m 0 _ "Region" (by simp) rfl rfl rfl
    · exact hregister [] [] m 0 _ "Region" (by simp) rfl rfl rfl
    · exact hregister [] [] m 2 _ "Endpoint" (by simp) rfl rfl rfl
    · exact hregister [] [] m 3 _ "Stage" (by simp) rfl rfl rfl

end Engine

end EndpointRules
