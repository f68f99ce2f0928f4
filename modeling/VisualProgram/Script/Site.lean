import VisualProgram.Field
import VisualProgram.Identifier
import VisualProgram.Rule
import VisualProgram.Script.Session

/-!
# A block as its rule sees it

A rule is given a `Site`: the block's own data, and for every connected socket the compilation of
what hangs there, to be run when and as often as the rule asks for it.  Rules therefore need no
recursion of their own, and the compilation of a tree is a single pass over it.
-/

namespace VisualProgram

/-- a compilation in progress -/
abbrev Script := StateM Session

/-- a block in a socket: its tag, its value in a position, and its chain as statements -/
structure Child where
  tag : String
  value : Precedence → Script Expr
  chain : Script String

structure Site where
  id : String
  tag : String
  fields : List (String × Json)
  inputs : List (String × Child)
  statements : List (String × Child)

namespace Site

def report (site : Site) (kind : Diagnostic.Kind) (message : String) : Script Unit :=
  modify (Session.report ⟨site.id, kind, message⟩)

/-- the text of a value socket, or its fallback, in a position that asks for `required` -/
def operand (unit : String) (site : Site) (socket : String) (required : Precedence)
    (fallback : Fallback) : Script String :=
  match Assoc.get? socket site.inputs with
  | some child => do
    let e ← child.value required
    pure e.text
  | none => pure ((fallback.toExpr unit).place required).text

/-- a chain of statements as the body of another one: a body that does nothing has to say so -/
def asBody (unit : String) (code : String) : String :=
  Text.indentLines unit
    (if (Text.lines code).any Text.isExecutable then code else code ++ "pass\n")

/-- the body made from a statement socket -/
def body (unit : String) (site : Site) (socket : String) : Script String :=
  match Assoc.get? socket site.statements with
  | some child => do
    let code ← child.chain
    pure (asBody unit code)
  | none => pure (asBody unit "")

/-! ## templates -/

def renderPiece (unit : String) (site : Site) (previous : Option Expr) : Piece → Script String
  | .text text => pure text
  | .operand socket level fallback => site.operand unit socket level fallback
  | .field name default =>
    pure (Literal.render unit 0 ((Assoc.get? name site.fields).getD default))
  | .identifier name default =>
    pure (Identifier.ofLabel default ((Field.text? name site.fields).getD default) "")
  | .variableName field =>
    modifyGet (Session.identify ((Field.text? field site.fields).getD "item"))
  | .previous level =>
    match previous with
    | some e => pure (e.place level).text
    | none => pure Expr.absent.text

def renderPieces (unit : String) (site : Site) (previous : Option Expr) :
    List Piece → Script String
  | [] => pure ""
  | piece :: rest => do
    let text ← site.renderPiece unit previous piece
    let more ← site.renderPieces unit previous rest
    pure (text ++ more)

def render (unit : String) (site : Site) (previous : Option Expr) (template : Template) :
    Script Expr := do
  let text ← site.renderPieces unit previous template.pieces
  pure ⟨text, template.level⟩

/-- the last of the stages, each given the result of the one before -/
def renderStages (unit : String) (site : Site) (previous : Option Expr) :
    List Template → Script Expr
  | [] => pure (previous.getD .absent)
  | stage :: rest => do
    let e ← site.render unit previous stage
    site.renderStages unit (some e) rest

def renderLines (unit : String) (site : Site) : List Template.Line → Script String
  | [] => pure ""
  | .code template :: rest => do
    let e ← site.render unit none template
    let more ← site.renderLines unit rest
    pure (e.text ++ "\n" ++ more)
  | .body socket :: rest => do
    let body ← site.body unit socket
    let more ← site.renderLines unit rest
    pure (body ++ more)

end Site

end VisualProgram
