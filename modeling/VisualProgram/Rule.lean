import VisualProgram.Template

/-!
# Rules

A rule says how the blocks of a tag compile: to an expression (`ValueRule`) or to lines of code
(`StatementRule`).  Rules are data, so an alias is a copy and a table of rules can be compared.
-/

namespace VisualProgram

/-! ## tables -/

/-- a binary operator, its level and the levels its two sides ask for -/
structure Operator where
  symbol : String
  level : Precedence
  left : Precedence
  right : Precedence
deriving DecidableEq, Repr

/-- a block with two operands whose operator a field selects; the first is the default -/
structure OperatorTable where
  field : String
  leftSocket : String
  rightSocket : String
  fallback : Fallback
  operators : List (String × Operator)
deriving DecidableEq

/-- what a function puts around its operand, and the module it needs -/
structure FunctionForm where
  opening : String
  closing : String
  level : Precedence
  operand : Precedence
  needs : Option String
deriving DecidableEq, Repr

/-- a block with one operand whose function a field selects; the first is the default -/
structure FunctionTable where
  field : String
  socket : String
  fallback : Fallback
  forms : List (String × FunctionForm)
deriving DecidableEq

/-! ## rules -/

inductive ValueRule where
  | operator (table : OperatorTable)
  | function (table : FunctionTable)
  /-- the field `NUM` as a number -/
  | number
  /-- the field `BOOL` as a truth value -/
  | truth
  /-- the sockets `ADD0`, `ADD1`, … joined as text -/
  | join
  | template (template : Template)
  /-- each stage takes up the result of the one before -/
  | staged (stages : List Template)
  | unknown
deriving DecidableEq

inductive StatementRule where
  /-- the sockets `IF0`, `DO0`, `IF1`, `DO1`, … and `ELSE` -/
  | branches
  /-- the sockets `BOOL` and `DO`, the field `MODE` -/
  | loop
  | template (lines : List Template.Line)
  | unknown
deriving DecidableEq

inductive Rule where
  | value (rule : ValueRule)
  | statement (rule : StatementRule)
deriving DecidableEq

def Rule.isValue : Rule → Bool
  | .value _ => true
  | .statement _ => false

end VisualProgram
