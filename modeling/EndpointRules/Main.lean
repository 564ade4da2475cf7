import EndpointRules.CommandLine

/-!
# The program

Reads the arguments, the trace setting and the file, and writes the reply.
-/

namespace EndpointRules

/-- The bytes of a text in UTF-8. -/
def utf8 (s : String) : Bytes := s.toUTF8.toList

/-- The content of a file, if it can be read. -/
def readImage (path : Bytes) : IO (Option (Array UInt8)) := do
  match String.fromUTF8? ⟨path.toArray⟩ with
  | none => pure none
  | some name =>
    try
      let content ← IO.FS.readBinFile name
      pure (some content.data)
    catch _ => pure none

/-- Writes bytes to a stream. -/
def emit (stream : IO.FS.Stream) (text : Bytes) : IO Unit := stream.write ⟨text.toArray⟩

end EndpointRules

open EndpointRules in
/-- Answers the arguments. -/
def main (arguments : List String) : IO UInt32 := do
  let request := CommandLine.Request.ofArguments (arguments.map utf8)
  let file ← match request.path? with
    | some path => readImage path
    | none => pure none
  let setting := (← IO.getEnv "RULESVM_TRACE").map utf8
  let reply := CommandLine.reply request file setting
  emit (← IO.getStdout) reply.out
  emit (← IO.getStderr) reply.err
  pure reply.code.toUInt32
