import EndpointRules.Value

/-!
# Endpoints

What a rule set is asked for: an endpoint, that is a URI with headers and properties.  Around it
stand the things that a caller supplies: the context, the parameters, providers of builtin values,
and hooks that adjust an endpoint before it is answered.
-/

namespace EndpointRules

/-- What is known of the call that an endpoint is resolved for. -/
abbrev Context := Dict Value

/-- Values that the caller supplies, by register name. -/
abbrev Parameters := Dict Value

/-- The values of each header. -/
abbrev Headers := Dict (List Bytes)

/-- An address with the headers and properties that go with it. -/
structure Endpoint where
  uri : Uri
  headers : Headers
  properties : Dict Value
  deriving DecidableEq

/-- Adjusts an endpoint.  A hook is given the endpoint as the hooks before it left it, the context,
    and the properties and headers that the rule returned. -/
abbrev Hook := Endpoint → Context → Dict Value → Headers → Endpoint

/-- The value of a builtin in a context; null if it has none there. -/
abbrev Provider := Context → Value

/-- Providers by the name of the builtin, `none` being a provider without any content. -/
abbrev Providers := Dict (Option Provider)

/-- The outcome of running rules: no result was reached and the diagram ended with a truth value,
    or the result of an index answered an endpoint or a value. -/
inductive Answer
  | unmatched (terminal : Bool)
  | endpoint (index : Nat) (endpoint : Endpoint)
  | value (index : Nat) (value : Value)
  deriving DecidableEq

end EndpointRules
