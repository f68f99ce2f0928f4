import VisualProgram.Document
import VisualProgram.Script

/-!
# Programs

A wiring graph compiles to a program that makes one component per node, connects them and runs an
engine: a header, the imports, the set-up of logging, `create_engine` and `main`.

* `ClassTable`  the classes of the nodes, each type resolved once;
* `nodeConfig`  the configuration of a node: its properties without the state of its script, the
                compiled script, and the defaults of its class for keys that are still missing;
* `plan`        the instance of each node, with a variable of its own and its class from the table;
* `compile`     the text, the classes in order of first use, and the diagnostics.
-/

namespace VisualProgram.Program

/-- names the program uses for itself -/
def scaffoldNames : List String :=
  ["engine", "logger", "logging", "time", "sys", "create_engine", "main"]

structure Output where
  source : String
  classes : List String
  diagnostics : List Diagnostic
deriving DecidableEq

/-- one node as the program makes it -/
structure Instance where
  node : Node
  identifier : String
  className : String
  config : List (String × Json)
deriving DecidableEq

/-! ## classes -/

def className (t : Toolchain) (n : Node) : String := (t.resolve n.type).name

/-- what is reported of a node whose type has no class -/
def unresolvedAt (t : Toolchain) (n : Node) : Diagnostic :=
  ⟨n.id, .unresolvedComponentType,
    "component type '" ++ n.type ++ "' is not registered; using '" ++ className t n ++ "'"⟩

/-- what is known of the classes after some nodes -/
structure ClassTable where
  /-- the class names, each once, in order of first use -/
  names : List String
  /-- the class name of every type that was met -/
  ofType : List (String × String)
  diagnostics : List Diagnostic
deriving DecidableEq

namespace ClassTable

def empty : ClassTable := ⟨[], [], []⟩

/-- a type is resolved at its first node, and reported there if it has no class -/
def meet (t : Toolchain) (table : ClassTable) (n : Node) : ClassTable :=
  if Assoc.contains n.type table.ofType then table
  else
    { names := if className t n ∈ table.names then table.names else table.names ++ [className t n]
      ofType := Assoc.put n.type (className t n) table.ofType
      diagnostics :=
        if (t.resolve n.type).derived then table.diagnostics ++ [unresolvedAt t n]
        else table.diagnostics }

def ofNodes (t : Toolchain) (nodes : List Node) : ClassTable := nodes.foldl (meet t) empty

/-- the class name for a node, empty if its type was not met -/
def nameFor (table : ClassTable) (n : Node) : String := (Assoc.get? n.type table.ofType).getD ""

end ClassTable

/-! ## configurations -/

/-- the script of a node that has one, or why its state could not be loaded -/
def nodeScript (t : Toolchain) (n : Node) : Option (Except LoadError ScriptOutput) :=
  (Assoc.get? t.options.scriptStateKey n.properties).map fun state =>
    (Workspace.ofState state).map (Workspace.compile t)

/-- entries for keys that are missing -/
def addDefaults (config : List (String × Json)) : List (String × Json) → List (String × Json)
  | [] => config
  | (key, value) :: rest =>
    addDefaults (if Assoc.contains key config then config else Assoc.put key value config) rest

def nodeConfig (t : Toolchain) (n : Node) : List (String × Json) :=
  let own := n.properties.filter fun entry => entry.1 ≠ t.options.scriptStateKey
  let scripted := match nodeScript t n with
    | some (.ok output) => Assoc.put t.options.generatedCodeKey (.string output.code) own
    | _ => own
  addDefaults scripted ((t.resolve n.type).defaults.getD [])

def nodeDiagnostics (t : Toolchain) (n : Node) : List Diagnostic :=
  match nodeScript t n with
  | some (.ok output) => output.diagnostics
  | some (.error cause) => [⟨n.id, .invalidScriptState, cause.message⟩]
  | none => []

/-! ## instances -/

/-- a node goes by its label, or by its id if it has none -/
def nodeIdentifier (n : Node) : String :=
  Identifier.ofLabel "component" (if n.label = "" then n.id else n.label) n.id

/-- the instances of some nodes, their classes taken from a table -/
def planWith (t : Toolchain) (table : ClassTable) (scope : Scope) : List Node → List Instance
  | [] => []
  | n :: rest =>
    let (identifier, scope) := scope.claim (nodeIdentifier n)
    ⟨n, identifier, table.nameFor n, nodeConfig t n⟩ :: planWith t table scope rest

def plan (t : Toolchain) (scope : Scope) (nodes : List Node) : List Instance :=
  planWith t (.ofNodes t nodes) scope nodes

/-! ## lines -/

/-- a line of the program at a level of indentation -/
abbrev Line := Nat × String

def blank : Line := (0, "")

def writeLine (unit : String) (line : Line) : String := Text.pad unit line.1 ++ line.2 ++ "\n"

def writeLines (unit : String) (lines : List Line) : String :=
  String.join (lines.map (writeLine unit))

def doubleBackslashes (cs : List Char) : List Char := cs.flatMap fun c => if c = '\\' then ['\\', '\\'] else [c]

/-- three quotes in a row escaped, from the left -/
def escapeTriples : List Char → List Char
  | '"' :: '"' :: '"' :: rest => '\\' :: '"' :: '\\' :: '"' :: '\\' :: '"' :: escapeTriples rest
  | c :: rest => c :: escapeTriples rest
  | [] => []

/-- text inside a docstring: first every backslash is doubled, then three quotes are escaped -/
def docstring (cs : List Char) : List Char := escapeTriples (doubleBackslashes cs)

def docstringText (text : String) : String := String.ofList (docstring text.toList)

def header (info : Meta) : List Line :=
  [(0, "\"\"\""), (0, docstringText info.name ++ " v" ++ docstringText info.version)]
    ++ (if info.description = "" then [] else [blank, (0, docstringText info.description)])
    ++ [blank, (0, "Generated from the project graph. Do not edit by hand."), (0, "\"\"\""), blank]

def imports (o : Options) (classes : List String) : List Line :=
  [(0, "import logging"), (0, "import time"), blank,
   (0, "from " ++ o.engineModule ++ " import " ++ o.engineClass)]
    ++ (if classes = [] then []
        else [(0, "from " ++ o.componentModule ++ " import (")]
          ++ classes.map (fun name => (1, name ++ ",")) ++ [(0, ")")])
    ++ [blank]

def logging : List Line :=
  [(0, "logging.basicConfig("), (1, "level=logging.INFO,"),
   (1, "format=\"%(asctime)s [%(levelname)s] %(name)s: %(message)s\","), (0, ")"),
   (0, "logger = logging.getLogger(__name__)"), blank, blank]

def instanceLines (unit : String) (i : Instance) : List Line :=
  [(1, "# " ++ Text.commentText i.node.type ++ " (" ++ Text.commentText i.node.id ++ ")"),
   (1, i.identifier ++ " = " ++ i.className ++ "(" ++ Literal.quote i.node.id ++ ", "
     ++ Literal.renderMembers unit 1 i.config ++ ")"),
   (1, "engine.add_component(" ++ i.identifier ++ ")"), blank]

def wireLine (w : Wire) : Line :=
  (1, "engine.connect(" ++ Literal.quote w.source.node ++ ", " ++ Literal.quote w.source.port ++ ", "
    ++ Literal.quote w.target.node ++ ", " ++ Literal.quote w.target.port ++ ")")

def createEngine (o : Options) (instances : List Instance) (wires : List Wire) : List Line :=
  [(0, "def create_engine():"), (1, "engine = " ++ o.engineClass ++ "()"), blank]
    ++ instances.flatMap (instanceLines o.indent)
    ++ wires.map wireLine ++ (if wires = [] then [] else [blank])
    ++ [(1, "return engine"), blank, blank]

def mainLines (o : Options) (info : Meta) : List Line :=
  [(0, "def main():"), (1, "engine = None"), (1, "try:"), (2, "engine = create_engine()"),
   (2, "engine.start()"),
   (2, "logger.info(\"Running %s, press Ctrl+C to stop\", " ++ Literal.quote info.name ++ ")"),
   (2, "while True:"), (3, "time.sleep(" ++ Literal.float o.idleSleepSeconds ++ ")"),
   (1, "except KeyboardInterrupt:"), (2, "logger.info(\"Interrupted, stopping engine\")"),
   (1, "except Exception:"), (2, "logger.exception(\"Engine failed\")"), (2, "raise"),
   (1, "finally:"), (2, "if engine is not None:"), (3, "engine.stop()"), blank, blank,
   (0, "if __name__ == \"__main__\":"), (1, "main()")]

/-! ## the whole -/

def compile (t : Toolchain) (g : Graph) : Output :=
  let table := ClassTable.ofNodes t g.nodes
  let instances := planWith t table (.reserving scaffoldNames) g.nodes
  { source := writeLines t.options.indent
      (header g.info ++ imports t.options table.names ++ logging
        ++ createEngine t.options instances g.wires ++ mainLines t.options g.info)
    classes := table.names
    diagnostics := table.diagnostics ++ g.nodes.flatMap (nodeDiagnostics t) }

/-- loads a project document and compiles its graph -/
def compileText (t : Toolchain) (text : String) : Except LoadError Output := do
  let d ← Document.ofText text
  let g ← d.toGraph
  pure (compile t g)

end VisualProgram.Program
