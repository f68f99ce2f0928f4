import VisualProgram.CommandLine

/-!
# The program

Reads the files named on the command line, runs the command and writes what it says.
-/

namespace VisualProgram
open CommandLine

/-- why a file could not be opened -/
def reasonOf : IO.Error → String
  | .noFileOrDirectory .. => Source.notFound
  | e => toString e

def readSource (path : String) : IO Source := do
  try
    let bytes ← IO.FS.readBinFile path
    pure (.ofBytes path bytes)
  catch e => pure ⟨path, .error (reasonOf e)⟩

def emit (output : Option String) (text : String) : IO UInt32 := do
  match output with
  | none =>
    IO.print text
    pure 0
  | some path =>
    try
      IO.FS.writeFile path text
      pure 0
    catch e =>
      IO.eprint (failure ("Failed to write '" ++ path ++ "': " ++ reasonOf e)).messages
      pure 1

def execute (invocation : Invocation) : IO UInt32 := do
  let config ← invocation.config.mapM readSource
  let input ← readSource invocation.input
  let response := respond invocation.command config input
  IO.eprint response.messages
  match response.text with
  | some text => emit invocation.output text
  | none => pure response.status.toUInt32

end VisualProgram

def main (args : List String) : IO UInt32 := do
  match VisualProgram.CommandLine.Invocation.ofArgs args with
  | .ok invocation => VisualProgram.execute invocation
  | .error message =>
    IO.eprintln ("error: " ++ message)
    pure 2
