import VisualProgram.Definition
import VisualProgram.Program
import VisualProgram.Source

/-!
# The command line

Three commands compile a project document, a workspace state or a block definition.  The options
are loaded first, then the input is read, then it is compiled; the first failure ends the run.
Everything here is a function of the arguments and of the files' contents: `Main` reads and writes.
-/

namespace VisualProgram.CommandLine

inductive Command where
  | graph
  | blocks
  | schema (stubOnly : Bool)
deriving DecidableEq, Repr

/-- what a run says: its exit status, its messages, and its text if it got so far -/
structure Response where
  status : Nat
  messages : String
  text : Option String
deriving DecidableEq, Repr

def failure (message : String) : Response := ⟨1, "\nError: " ++ message ++ "\n", none⟩

def success (warnings : List String) (text : String) : Response :=
  ⟨0, String.join (warnings.map fun w => "warning: " ++ w ++ "\n"), some text⟩

/-- a result that loads, or the failure it ends in -/
def attempt {α : Type} (intro : String) (result : Except LoadError α) (go : α → Response) :
    Response :=
  match result with
  | .ok a => go a
  | .error cause => failure (intro ++ cause.message)

/-! ## commands -/

def runGraph (t : Toolchain) (input : String) : Response :=
  attempt "Invalid project: " (Program.compileText t input) fun output =>
    success (output.diagnostics.map Diagnostic.display) output.source

def runBlocks (t : Toolchain) (input : String) : Response :=
  attempt "Invalid block state: " (Workspace.ofText input) fun w =>
    let output := w.compile t
    success (output.diagnostics.map Diagnostic.display) output.code

def runSchema (stubOnly : Bool) (input : String) : Response :=
  attempt "Invalid definition: " (Workspace.ofText input) fun w =>
    let output := Definition.compileWorkspace w
    success output.warnings
      (if stubOnly then output.stub else output.schema ++ "\n\n" ++ output.stub)

def Command.run (t : Toolchain) (input : String) : Command → Response
  | .graph => runGraph t input
  | .blocks => runBlocks t input
  | .schema stubOnly => runSchema stubOnly input

/-- runs a command on the files it was given -/
def respond (command : Command) (config : Option Source) (input : Source) : Response :=
  let withOptions (options : Options) : Response :=
    match input.contents with
    | .error reason => failure ("Failed to read '" ++ input.path ++ "': " ++ reason)
    | .ok text => command.run { Toolchain.standard with options := options } text
  match config with
  | none => withOptions .standard
  | some source =>
    attempt ("Failed to load config '" ++ source.path ++ "': ") source.options withOptions

/-! ## arguments -/

/-- the arguments of a run, as far as they were read -/
structure Arguments where
  words : List String
  config : Option String
  output : Option String
  verbose : Bool
  stubOnly : Bool
deriving DecidableEq, Repr

structure Invocation where
  command : Command
  input : String
  config : Option String
  output : Option String
  verbose : Bool
deriving DecidableEq, Repr

/-- reads options and plain words from left to right -/
def Arguments.read (a : Arguments) : List String → Except String Arguments
  | [] => .ok a
  | "-v" :: rest | "--verbose" :: rest => Arguments.read { a with verbose := true } rest
  | "--stub-only" :: rest => Arguments.read { a with stubOnly := true } rest
  | "-c" :: path :: rest | "--config" :: path :: rest =>
    Arguments.read { a with config := some path } rest
  | "-o" :: path :: rest | "--output" :: path :: rest =>
    Arguments.read { a with output := some path } rest
  | word :: rest =>
    if word.toList.head? = some '-' then .error ("unexpected argument '" ++ word ++ "' found")
    else Arguments.read { a with words := a.words ++ [word] } rest

def Invocation.ofArgs (args : List String) : Except String Invocation := do
  let a ← Arguments.read ⟨[], none, none, false, false⟩ args
  let command ← match a.words.head? with
    | some "graph" => pure Command.graph
    | some "blocks" => pure Command.blocks
    | some "schema" => pure (Command.schema a.stubOnly)
    | some word => throw ("unrecognized subcommand '" ++ word ++ "'")
    | none => throw "a subcommand is required: graph, blocks or schema"
  match a.words.drop 1 with
  | [input] => pure ⟨command, input, a.config, a.output, a.verbose⟩
  | [] => throw "a path to the input is required"
  | _ :: word :: _ => throw ("unexpected argument '" ++ word ++ "' found")

end VisualProgram.CommandLine
