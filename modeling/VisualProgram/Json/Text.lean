import VisualProgram.Json.Basic
import VisualProgram.Decimal.Layout
import VisualProgram.Text.Lines

/-!
# Writing values as text

`spread` writes a container one element a line, each a level deeper than the container, whose end
stands at its own level; an empty container is closed at once.  The spelling of the leaves is the
business of a `Dialect`, so that JSON itself and literals of another language are laid out alike.

`compact` writes JSON without blanks, `pretty` spreads it by two spaces.
-/

namespace VisualProgram.Json

/-- how the leaves of a value are spelled -/
structure Dialect where
  null : String
  truth : Bool → String
  number : Number → String
  quote : String → String

/-! ## one element a line -/

/-- a container around the lines of its elements -/
def enclose (unit : String) (level : Nat) (opening closing : String) (elements : List String) :
    String :=
  match elements with
  | [] => opening ++ closing
  | _ => opening ++ "\n" ++ String.intercalate ",\n" elements ++ "\n" ++ Text.pad unit level ++ closing

mutual
def spread (dialect : Dialect) (unit : String) (level : Nat) : Json → String
  | .null => dialect.null
  | .bool b => dialect.truth b
  | .number n => dialect.number n
  | .string s => dialect.quote s
  | .array items => enclose unit level "[" "]" (spreadItems dialect unit (level + 1) items)
  | .object members =>
    enclose unit level "\x7b" "\x7d" (spreadMembers dialect unit (level + 1) members)

/-- the elements of an array, each on its line at `level` -/
def spreadItems (dialect : Dialect) (unit : String) (level : Nat) : List Json → List String
  | [] => []
  | v :: vs => (Text.pad unit level ++ spread dialect unit level v) :: spreadItems dialect unit level vs

/-- the members of an object, each on its line at `level` -/
def spreadMembers (dialect : Dialect) (unit : String) (level : Nat) :
    List (String × Json) → List String
  | [] => []
  | (k, v) :: rest =>
    (Text.pad unit level ++ dialect.quote k ++ ": " ++ spread dialect unit level v)
      :: spreadMembers dialect unit level rest
end

/-! ## the dialect of JSON -/

/-- a lower-case hexadecimal number with at least `width` digits -/
def hexText (width n : Nat) : List Char :=
  let digits := Nat.toDigits 16 n
  List.replicate (width - digits.length) '0' ++ digits

/-- a character inside quotes -/
def quoteChar (c : Char) : List Char :=
  if c = '"' then ['\\', '"']
  else if c = '\\' then ['\\', '\\']
  else if c = '\x08' then ['\\', 'b']
  else if c = '\x0c' then ['\\', 'f']
  else if c = '\n' then ['\\', 'n']
  else if c = '\r' then ['\\', 'r']
  else if c = '\t' then ['\\', 't']
  else if c.toNat < 0x20 then '\\' :: 'u' :: hexText 4 c.toNat
  else [c]

def quote (s : String) : String := String.ofList ('"' :: s.toList.flatMap quoteChar ++ ['"'])

/-- floats are positional from `1e-5` up to `1e16`, an exponent has its sign -/
def floatLayout : Decimal.Layout where
  least := -5
  bound := 16
  plus := "+"
  tie := .even
  nan := "null"
  infinity := "null"
  negativeInfinity := "null"

def numberText : Number → String
  | .whole n _ => toString n
  | .float x _ => floatLayout.write x

def truthText (b : Bool) : String := if b then "true" else "false"

def dialect : Dialect where
  null := "null"
  truth := truthText
  number := numberText
  quote := quote

def pretty (v : Json) : String := spread dialect "  " 0 v

/-! ## without blanks -/

mutual
def compact : Json → String
  | .null => "null"
  | .bool b => truthText b
  | .number n => numberText n
  | .string s => quote s
  | .array items => "[" ++ String.intercalate "," (compactItems items) ++ "]"
  | .object members => "\x7b" ++ String.intercalate "," (compactMembers members) ++ "\x7d"

def compactItems : List Json → List String
  | [] => []
  | v :: vs => compact v :: compactItems vs

def compactMembers : List (String × Json) → List String
  | [] => []
  | (k, v) :: rest => (quote k ++ ":" ++ compact v) :: compactMembers rest
end

end VisualProgram.Json
