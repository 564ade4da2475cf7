import EndpointRules.Engine
import EndpointRules.Listing

/-!
# Command line

The arguments say what is wanted: the version, the listing of an image, or the endpoint that an
image resolves for given parameters.  The answer is an exit code and two texts, one for the output
and one for errors and traces.  Reading the file that a request names is left to the caller.
-/

namespace EndpointRules

namespace CommandLine

/-- What the arguments ask for. -/
inductive Request
  | version
  | usage
  /-- Print the listing of an image; unless `link` holds, functions may be missing. -/
  | list (path : Bytes) (link : Bool)
  | resolve (path : Bytes) (parameters : Parameters)
  /-- An argument that should have been a parameter. -/
  | badParameter (argument : Bytes)

/-- Exit code, output and errors. -/
structure Reply where
  code : UInt8
  out : Bytes := []
  err : Bytes := []

/-- Reads parameters `name=value`, of which the last of each name counts. -/
def readParameters (parameters : Parameters) : List Bytes → Except Bytes Parameters
  | [] => .ok parameters
  | argument :: rest =>
    match Bytes.cut '='.toUInt8 argument with
    | (name@(_ :: _), some value) =>
      readParameters (Dict.insert parameters name (.string value)) rest
    | _ => .error argument

/-- What the arguments ask for.  The option that resolves comes before all other readings of its
    arguments. -/
def Request.ofArguments (arguments : List Bytes) : Request :=
  match arguments with
  | [a] =>
    if a == Bytes.ofString "--version" then .version
    else if a.head? == some '-'.toUInt8 then .usage
    else .list a true
  | a :: path :: rest =>
    if a == Bytes.ofString "--resolve" then
      match readParameters [] rest with
      | .ok parameters => .resolve path parameters
      | .error argument => .badParameter argument
    else if a == Bytes.ofString "--no-link" && rest.isEmpty then .list path false
    else .usage
  | [] => .usage

/-- The file that a request needs. -/
def Request.path? : Request → Option Bytes
  | .list path _ => some path
  | .resolve path _ => some path
  | _ => none

/-- The trace mode of a setting; every unknown setting means none. -/
def traceMode (setting : Option Bytes) : Trace.Mode :=
  if setting == some (Bytes.ofString "bdd") then .diagram
  else if setting == some (Bytes.ofString "instructions") then .instructions
  else .off

/-- The text for arguments that ask for nothing. -/
def usageText : Bytes :=
  "Usage: rules-dis [--no-link] <file.rbc>\n       rules-dis --resolve <file.rbc> [name=value...]\n"

/-- An error, reported in a line. -/
def failure (e : Error) : Reply := { code := 1, err := e.report }

/-- The program in a file, if the file is there. -/
def load (path : Bytes) (file : Option (Array UInt8)) (allowUnresolved : Bool) :
    Except Error Program :=
  match file with
  | none => .error (.format (.cannotOpen path))
  | some image => Engine.standard.load image allowUnresolved

/-- The line of a header; its values follow the colon with commas between them. -/
def headerLine (name : Bytes) (values : List Bytes) : Bytes :=
  let shown : Bytes := if values.isEmpty then [] else " " ++ Bytes.join ", " values
  "Header: " ++ name ++ ":" ++ shown ++ "\n"

/-- The line of a property. -/
def propertyLine (key : Bytes) (v : Value) : Bytes :=
  "Property: " ++ key ++ " = " ++ v.display ++ "\n"

/-- An endpoint: its URI, a line for each header and a line for each property. -/
def endpointText (e : Endpoint) : Bytes :=
  "URI: " ++ e.uri.text ++ "\n"
    ++ e.headers.flatMap (fun (name, values) => headerLine name values)
    ++ e.properties.flatMap (fun (key, v) => propertyLine key v)

/-- The reply to a request, given the content of the file that it names and the setting that asks
    for a trace. -/
def reply (request : Request) (file : Option (Array UInt8)) (setting : Option Bytes) : Reply :=
  match request with
  | .version => { code := 0, out := "rules-dis (bytecode 1.1)\n" }
  | .usage => { code := 1, err := usageText }
  | .badParameter argument =>
    { code := 1, err := "rules-dis: expected name=value, got '" ++ argument ++ "'\n" }
  | .list path link =>
    match load path file (!link) with
    | .error e => failure e
    | .ok program => { code := 0, out := Listing.text program }
  | .resolve path parameters =>
    match load path file false with
    | .error e => failure e
    | .ok program =>
      let resolver := Resolver.make Engine.standard program Engine.defaultCacheCapacity
        (traceMode setting)
      let (result, events, _) := resolver.resolveEndpoint [] parameters
      let trace := Trace.text program events
      match result with
      | .error e => { code := 1, err := trace ++ (Error.evaluation e).report }
      | .ok endpoint => { code := 0, out := endpointText endpoint, err := trace }

end CommandLine

end EndpointRules
