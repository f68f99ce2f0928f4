import VisualProgram.Json.Basic

/-!
# How tightly expressions bind

The levels run from the tightest to the loosest.  An expression stands as it is in a position that
asks for its own level or a looser one; in a tighter position it needs parentheses, and then binds
as tightly as a name.
-/

namespace VisualProgram

inductive Precedence where
  /-- literals, names and text in parentheses -/
  | atomic
  /-- calls, member access and subscripts -/
  | call
  | power
  | sign
  | product
  | sum
  | comparison
  | negation
  | conjunction
  | disjunction
  | conditional
  /-- a whole statement or an argument of a call -/
  | loosest
deriving DecidableEq, Repr

namespace Precedence

/-- the level as a number, tightest first -/
def rank : Precedence → Nat
  | .atomic => 0
  | .call => 1
  | .power => 2
  | .sign => 3
  | .product => 4
  | .sum => 5
  | .comparison => 6
  | .negation => 7
  | .conjunction => 8
  | .disjunction => 9
  | .conditional => 10
  | .loosest => 11

/-- whether an expression of this level needs parentheses where `required` is asked for -/
def needsParens (p required : Precedence) : Bool := required.rank < p.rank

/-- the next tighter level -/
def tighter : Precedence → Precedence
  | .atomic => .atomic
  | .call => .atomic
  | .power => .call
  | .sign => .power
  | .product => .sign
  | .sum => .product
  | .comparison => .sum
  | .negation => .comparison
  | .conjunction => .negation
  | .disjunction => .conjunction
  | .conditional => .disjunction
  | .loosest => .conditional

/-! ## names -/

def name : Precedence → String
  | .atomic => "ATOMIC"
  | .call => "FUNCTION_CALL"
  | .power => "EXPONENTIATION"
  | .sign => "UNARY"
  | .product => "MULTIPLICATIVE"
  | .sum => "ADDITIVE"
  | .comparison => "RELATIONAL"
  | .negation => "LOGICAL_NOT"
  | .conjunction => "LOGICAL_AND"
  | .disjunction => "LOGICAL_OR"
  | .conditional => "CONDITIONAL"
  | .loosest => "NONE"

def all : List Precedence :=
  [.atomic, .call, .power, .sign, .product, .sum, .comparison, .negation, .conjunction,
   .disjunction, .conditional, .loosest]

def ofName? (text : String) : Option Precedence := all.find? fun p => p.name = text

theorem ofName?_name (p : Precedence) : ofName? p.name = some p := by
  cases p <;> rfl

/-- a level is spelled by its name, or by an object with the name as its only key and no value -/
def ofJson? : Json → Option Precedence
  | .string s => ofName? s
  | .object [(key, .null)] => ofName? key
  | _ => none

end Precedence

/-! ## expressions -/

/-- the text of an expression and the level of its outermost operator -/
structure Expr where
  text : String
  level : Precedence
deriving DecidableEq, Repr

namespace Expr

def atom (text : String) : Expr := ⟨text, .atomic⟩

/-- the expression in a position that asks for `required` -/
def place (e : Expr) (required : Precedence) : Expr :=
  if e.level.needsParens required then atom ("(" ++ e.text ++ ")") else e

end Expr

end VisualProgram
