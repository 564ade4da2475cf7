import EndpointRules.Error.Fault

/-!
# Functions callable from rules

A function has a name, under which programs refer to it, and a fixed number of arguments.
-/

namespace EndpointRules

/-- A function that rules can call. -/
structure Function where
  name : Bytes
  /-- The number of arguments of a call. -/
  arity : Nat
  /-- The result for the arguments in the order in which they were pushed. -/
  apply : List Value → Except Fault Value

/-- Functions by name, consulted when an image is linked. -/
abbrev Registry := Dict Function

/-- Enters a function under its name, in place of an earlier one of that name. -/
def Registry.add (registry : Registry) (f : Function) : Registry := Dict.insert registry f.name f

/-- The registry of the functions in a list, of which the last of each name counts. -/
def Registry.ofList (functions : List Function) : Registry := functions.foldl Registry.add []

/-- The list of names that an error about missing functions shows: a comma stands before a name
    unless nothing has been written yet. -/
def missingText (names : List Bytes) : Bytes :=
  names.foldl (fun text name => if text.isEmpty then name else text ++ ", " ++ name) []

end EndpointRules
