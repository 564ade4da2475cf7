import EndpointRules.Image.Decode
import EndpointRules.Machine

/-!
# Engine and resolver

An engine collects what programs may call on: functions, providers of builtin values, and hooks,
one by one or in extensions.  Of several functions of one name the last counts; of several
providers of one name the first that has a value in the context answers.  A resolver evaluates one
program with what the engine has collected, and keeps the URIs it parses in a cache that all its
calls share.
-/

namespace EndpointRules

/-- Functions, providers and a hook that come together. -/
structure Extension where
  functions : List Function := []
  providers : Providers := []
  hook : Hook := fun e _ _ _ => e

namespace Provider

/-- Asks the providers of a chain one after the other until one has a value. -/
def chained : List Provider → Provider
  | [], _ => .null
  | provider :: providers, context =>
    let v := provider context
    if v.isSet then v else chained providers context

/-- The provider that stands for a chain; a chain of one is that one. -/
def ofChain : List Provider → Provider
  | [provider] => provider
  | providers => chained providers

end Provider

/-- What programs may call on. -/
structure Engine where
  functions : Registry := []
  /-- The providers in the order of their registration. -/
  providers : List (Bytes × Option Provider) := []
  hooks : List Hook := []

namespace Engine

/-- Registers a function. -/
def addFunction (e : Engine) (f : Function) : Engine :=
  { e with functions := e.functions.add f }

/-- Registers a provider. -/
def addProvider (e : Engine) (name : Bytes) (provider : Option Provider) : Engine :=
  { e with providers := e.providers ++ [(name, provider)] }

/-- Registers the functions and the providers of an extension, and its hook. -/
def addExtension (e : Engine) (x : Extension) : Engine :=
  let e := x.functions.foldl addFunction e
  let e := x.providers.foldl (fun e (name, provider) => e.addProvider name provider) e
  { e with hooks := e.hooks ++ [x.hook] }

/-- An engine that knows the standard functions. -/
def standard : Engine := ({} : Engine).addExtension { functions := StandardFunctions.all }

/-- Puts a provider behind those of its name.  One without content is dropped. -/
def chain (chains : Dict (List Provider)) : Bytes × Option Provider → Dict (List Provider)
  | (name, some provider) => chains.alter name fun providers => providers.getD [] ++ [provider]
  | (_, none) => chains

/-- The chains of the names that have providers, each in the order of registration. -/
def chains (e : Engine) : Dict (List Provider) := e.providers.foldl chain []

/-- One provider for each name that has any. -/
def combined (e : Engine) : Providers :=
  e.chains.map fun (name, providers) => (name, some (Provider.ofChain providers))

/-- Reads a program from an image and links it with the registered functions. -/
def load (e : Engine) (image : Array UInt8) (allowUnresolved : Bool) : Except Error Program :=
  Image.decode image e.functions allowUnresolved

/-- The number of URIs that a resolver keeps unless told otherwise. -/
def defaultCacheCapacity : Nat := 32

end Engine

/-- A program set up for evaluation, and the cache that its evaluations share. -/
structure Resolver where
  setup : Setup
  cache : Uri.Cache

namespace Resolver

/-- The resolver of a program. -/
def make (e : Engine) (program : Program) (cacheCapacity : Nat) (mode : Trace.Mode) : Resolver :=
  { setup :=
      { program
        strategy := RegisterFile.Strategy.choose program none
        hooks := e.hooks
        providers := e.combined
        mode }
    cache := .ofCapacity cacheCapacity }

/-- One evaluation, made by a machine of its own.  It gives the answer, the events recorded, and
    the resolver with the cache as the evaluation leaves it. -/
def run (r : Resolver) (context : Context) (parameters : Parameters) :
    Except Failure Answer × List Trace.Event × Resolver :=
  let (result, m) :=
    (Machine.start r.setup (some r.cache)).evaluate r.setup context parameters
  (result, m.events.toList, { r with cache := m.frame.cache.getD r.cache })

/-- The endpoint of an answer, which must have one. -/
def endpointOf : Answer → Except Failure Endpoint
  | .unmatched _ => .error (.unplaced .noMatch)
  | .value index _ => .error (.unplaced (.valueInsteadOfEndpoint index))
  | .endpoint _ e => .ok e

/-- One evaluation that must answer an endpoint. -/
def resolveEndpoint (r : Resolver) (context : Context) (parameters : Parameters) :
    Except Failure Endpoint × List Trace.Event × Resolver :=
  let (result, events, r) := r.run context parameters
  (result.bind endpointOf, events, r)

end Resolver

end EndpointRules
