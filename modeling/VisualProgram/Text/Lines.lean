import VisualProgram.Text.Chars

/-!
# Lines of generated code

A text is read as lines that end at a newline; the last one may lack it, and a return just before
the newline belongs to the line's end.  `indentLines` puts one unit in front of every line that is
not empty, `commentText` flattens a text into one comment line.
-/

namespace VisualProgram.Text

/-! ## cutting at newlines -/

/-- the part before the first newline, and the parts after each of the newlines -/
def segments : List Char → List Char × List (List Char)
  | [] => ([], [])
  | c :: cs =>
    let (first, rest) := segments cs
    if c = '\n' then ([], first :: rest) else (c :: first, rest)

@[simp] theorem segments_nil : segments [] = ([], []) := rfl

theorem segments_cons (c : Char) (cs : List Char) :
    segments (c :: cs)
      = if c = '\n' then ([], (segments cs).1 :: (segments cs).2)
        else (c :: (segments cs).1, (segments cs).2) := rfl

/-- a line without the return at its end -/
def dropReturn (line : List Char) : List Char :=
  if line.getLast? = some '\r' then line.dropLast else line

/-- the lines of a text given by its segments -/
def linesOf (first : List Char) : List (List Char) → List (List Char)
  | [] => if first = [] then [] else [first]
  | second :: rest => dropReturn first :: linesOf second rest

def lines (text : String) : List (List Char) :=
  linesOf (segments text.toList).1 (segments text.toList).2

/-! ## indenting -/

/-- a line with its newline, indented unless it is empty -/
def indentLine (unit : String) (line : List Char) : String :=
  if line = [] then "\n" else unit ++ String.ofList line ++ "\n"

def indentLines (unit : String) (code : String) : String :=
  String.join ((lines code).map (indentLine unit))

/-- the indentation of a level -/
def pad (unit : String) (level : Nat) : String := String.join (List.replicate level unit)

@[simp] theorem pad_zero (unit : String) : pad unit 0 = "" := rfl

/-- a text with a newline at its end, unless it is empty -/
def terminated (text : String) : String :=
  if text = "" then "" else if text.toList.getLast? = some '\n' then text else text ++ "\n"

/-! ## comments -/

/-- a line that runs: neither blank nor a comment -/
def isExecutable (line : List Char) : Bool :=
  match trim line with
  | [] => false
  | c :: _ => c != '#'

/-- control characters become spaces -/
def commentText (text : String) : String :=
  String.ofList (text.toList.map fun c => if isControl c then ' ' else c)

end VisualProgram.Text
