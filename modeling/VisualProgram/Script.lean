import VisualProgram.Script.Rules
import VisualProgram.Toolchain
import VisualProgram.Workspace

/-!
# Scripts

A workspace compiles to a script: the imports, then the variables, then the code of each chain in
the order of the workspace, set apart by blank lines.

The compilation is one structural pass over each tree: `Block.compile` gives what a socket needs of
a block, and the sockets of a block are compiled before its rule sees them (`Site`).
-/

namespace VisualProgram

namespace Toolchain

/-- the expression of a block in a value position -/
def valueOf (t : Toolchain) (site : Site) : Script Expr :=
  match t.rule? site.tag with
  | some (.value rule) => rule.run t.options.indent site
  | some (.statement _) => do
    site.report .misplacedBlock ("statement block '" ++ site.tag ++ "' used as a value")
    pure .absent
  | none => site.unknownValue

/-- the code of a block in a statement position, its chain aside -/
def statementOf (t : Toolchain) (site : Site) : Script String :=
  match t.rule? site.tag with
  | some (.statement rule) => rule.run t.options.indent site
  | some (.value rule) => do
    let e ← rule.run t.options.indent site
    pure e.text
  | none => site.unknownStatement

end Toolchain

namespace Block

mutual
def compile (t : Toolchain) : Block → Child
  | ⟨id, tag, fields, inputs, statements, next⟩ =>
    let site : Site := ⟨id, tag, fields, compileSockets t inputs, compileSockets t statements⟩
    { tag := tag
      value := fun required => do
        let e ← t.valueOf site
        pure (e.place required)
      chain := do
        let text ← t.statementOf site
        let rest ← compileNext t next
        pure (Text.terminated text ++ rest) }

def compileSockets (t : Toolchain) : List (String × Block) → List (String × Child)
  | [] => []
  | (socket, child) :: rest => (socket, child.compile t) :: compileSockets t rest

/-- the code of the rest of a chain -/
def compileNext (t : Toolchain) : Option Block → Script String
  | none => pure ""
  | some b => (b.compile t).chain
end

/-- the block as its rule sees it -/
def site (t : Toolchain) (b : Block) : Site :=
  ⟨b.id, b.tag, b.fields, compileSockets t b.inputs, compileSockets t b.statements⟩

/-- the expression of a block in a position that asks for `required` -/
def compileValue (t : Toolchain) (b : Block) (required : Precedence) : Script Expr :=
  (b.compile t).value required

/-- the code of a chain that may be missing -/
def compileChain (t : Toolchain) (head : Option Block) : Script String := compileNext t head

end Block

/-! ## whole scripts -/

/-- a script and what was reported while it was compiled -/
structure ScriptOutput where
  code : String
  diagnostics : List Diagnostic
deriving DecidableEq

namespace Session

def importSection (s : Session) : String :=
  String.join (s.imports.map fun name => "import " ++ name ++ "\n")

def variableSection (s : Session) : String :=
  String.join (s.identifiers.map fun v => v.2 ++ " = None\n")

/-- the parts of a script that are not empty, with a blank line between each two -/
def assemble (s : Session) (chains : List String) : String :=
  String.intercalate "\n"
    (([s.importSection, s.variableSection] ++ chains).filter (· ≠ ""))

end Session

namespace Workspace

/-- the code of every chain, in the order of the workspace -/
def compileChains (t : Toolchain) : List Block → Script (List String)
  | [] => pure []
  | head :: rest => do
    let code ← Block.compileChain t (some head)
    let more ← compileChains t rest
    pure (code :: more)

/-- compiles a workspace in a session that may already hold something -/
def compileIn (t : Toolchain) (w : Workspace) (s : Session) : ScriptOutput :=
  let (chains, s) := (compileChains t w.blocks).run s
  ⟨s.assemble chains, s.diagnostics⟩

def compile (t : Toolchain) (w : Workspace) : ScriptOutput := w.compileIn t .initial

end Workspace

end VisualProgram
