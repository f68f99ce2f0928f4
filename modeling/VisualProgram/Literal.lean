import VisualProgram.Json.Text
import VisualProgram.Precedence

/-!
# Literals of the generated code

Values are written as Python literals: scalars in place, containers one element a line as in
`Json.spread`.  Whole numbers stay whole and floats keep a fraction or an exponent, so a literal
reads back as the same value of the same kind.
-/

namespace VisualProgram.Literal

/-! ## leaves -/

/-- a character inside double quotes -/
def quoteChar (c : Char) : List Char :=
  if c = '\\' then ['\\', '\\']
  else if c = '"' then ['\\', '"']
  else if c = '\n' then ['\\', 'n']
  else if c = '\r' then ['\\', 'r']
  else if c = '\t' then ['\\', 't']
  else if c.toNat < 0x20 ∨ c.toNat = 0x7f then '\\' :: 'x' :: Json.hexText 2 c.toNat
  else [c]

def quote (s : String) : String := String.ofList ('"' :: s.toList.flatMap quoteChar ++ ['"'])

/-- floats are positional from `1e-4` up to `1e16`, a positive exponent has no sign -/
def floatLayout : Decimal.Layout where
  least := -4
  bound := 16
  plus := ""
  tie := .up
  nan := "NaN"
  infinity := "inf"
  negativeInfinity := "-inf"

/-- the values that have no literal are made by a call -/
def float (x : Float) : String :=
  if x.isFinite then floatLayout.write x
  else if x.isNaN then "float(\"nan\")"
  else if Decimal.signBit x.toBits then "float(\"-inf\")"
  else "float(\"inf\")"

def number : Number → String
  | .whole n _ => toString n
  | .float x _ => float x

def truth (b : Bool) : String := if b then "True" else "False"

/-- the literal of no value -/
def absent : String := "None"

def dialect : Json.Dialect where
  null := absent
  truth := truth
  number := number
  quote := quote

/-! ## values -/

/-- the unit of indentation where none is given -/
def standardUnit : String := "    "

/-- a value whose closing bracket stands at `level` -/
def render (unit : String) (level : Nat) (v : Json) : String := Json.spread dialect unit level v

def renderMembers (unit : String) (level : Nat) (members : List (String × Json)) : String :=
  render unit level (.object members)

end VisualProgram.Literal

namespace VisualProgram.Expr

/-- what stands where no expression can be made -/
def absent : Expr := atom Literal.absent

end VisualProgram.Expr
