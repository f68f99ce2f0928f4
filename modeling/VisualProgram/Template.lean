import VisualProgram.Literal

/-!
# Templates

Most rules arrange fixed text, operands and fields.  A template lists these pieces once and is
filled in for each block.  `Fallback` is what stands in an empty value socket.
-/

namespace VisualProgram

/-! ## fallbacks -/

structure Fallback where
  literal : Json
  level : Precedence
deriving DecidableEq

/-- whether a value is a number below zero -/
def Json.isNegative : Json → Bool
  | .number (.whole n _) => n < 0
  | .number (.float x _) => x < 0
  | _ => false

namespace Fallback

/-- a literal, which has a sign if it is a number below zero -/
def ofJson (v : Json) : Fallback := ⟨v, if v.isNegative then .sign else .atomic⟩

def absent : Fallback := ⟨.null, .atomic⟩

def toExpr (unit : String) (f : Fallback) : Expr := ⟨Literal.render unit 0 f.literal, f.level⟩

end Fallback

/-! ## pieces -/

inductive Piece where
  | text (text : String)
  /-- a value socket, in a position that asks for `level` -/
  | operand (socket : String) (level : Precedence) (fallback : Fallback)
  /-- a field as a literal -/
  | field (name : String) (default : Json)
  /-- a field as a bare identifier -/
  | identifier (name default : String)
  /-- a field that names a variable of the script -/
  | variableName (field : String)
  /-- the result of the stage before -/
  | previous (level : Precedence)
deriving DecidableEq

structure Template where
  level : Precedence
  pieces : List Piece
deriving DecidableEq

/-- a line of a statement: code, or the indented chain of a statement socket -/
inductive Template.Line where
  | code (template : Template)
  | body (socket : String)
deriving DecidableEq

end VisualProgram
