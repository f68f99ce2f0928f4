import VisualProgram.Json.Basic
import VisualProgram.Text.Chars

/-!
# Fields of a block

A field is a value under a name.  An editor may store a number or a truth value as text, so `float?`
and `flag?` accept both spellings.
-/

namespace VisualProgram.Field

/-- the value of a field, if it is text -/
def text? (name : String) (fields : List (String × Json)) : Option String :=
  (Assoc.get? name fields).bind Json.text?

/-- a value as a float; text counts if it denotes one, blanks around it aside -/
def toFloat? : Json → Option Float
  | .number n => some n.toFloat
  | .string s => Decimal.float? (Text.trim s.toList)
  | _ => none

/-- a value as a truth value; the words count in any case -/
def toFlag? : Json → Option Bool
  | .bool b => some b
  | .string s =>
    match String.ofList (s.toList.map Char.toLower) with
    | "true" => some true
    | "false" => some false
    | _ => none
  | _ => none

def float? (name : String) (fields : List (String × Json)) : Option Float :=
  (Assoc.get? name fields).bind toFloat?

def flag? (name : String) (fields : List (String × Json)) : Option Bool :=
  (Assoc.get? name fields).bind toFlag?

end VisualProgram.Field
