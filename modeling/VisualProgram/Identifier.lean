/-!
# Identifiers made from labels

A label is any text.  Its words are the runs of ASCII letters and digits in it, in lower case, and
the identifier is the words joined by underscores (`clean`).  A label without a letter gives a stem
instead, followed by what the id of the labelled thing has to say; otherwise a leading digit gets an
underscore before it and a keyword one after it, so the result is an identifier that is no keyword.

`className` makes a class name of a type tag in the same way, with capitals in place of underscores.
-/

namespace VisualProgram.Identifier

/-! ## words -/

/-- a word that has letters -/
def emit (word : List Char) : List (List Char) := if word = [] then [] else [word]

/-- the maximal runs of characters that pass a test, `word` being the run already begun -/
def runsFrom (keep : Char → Bool) (word : List Char) : List Char → List (List Char)
  | [] => emit word
  | c :: cs =>
    if keep c then runsFrom keep (word ++ [c]) cs else emit word ++ runsFrom keep [] cs

def runs (keep : Char → Bool) (cs : List Char) : List (List Char) := runsFrom keep [] cs

@[simp] theorem runs_nil (keep : Char → Bool) : runs keep [] = [] := rfl

/-! ## identifiers -/

/-- the lower-case words of the language that are no identifiers -/
def keywords : List String :=
  ["and", "as", "assert", "async", "await", "break", "class", "continue", "def", "del", "elif",
   "else", "except", "finally", "for", "from", "global", "if", "import", "in", "is", "lambda",
   "nonlocal", "not", "or", "pass", "raise", "return", "try", "while", "with", "yield"]

/-- the words of a text in lower case, joined by underscores -/
def clean (text : String) : String :=
  String.intercalate "_" ((runs Char.isAlphanum text.toList).map fun w =>
    String.ofList (w.map Char.toLower))

def startsWithDigit (text : String) : Bool := text.toList.head?.any Char.isDigit

def hasLetter (text : String) : Bool := text.toList.any Char.isLower

/-- an underscore keeps a keyword from being one -/
def avoidKeyword (name : String) : String := if name ∈ keywords then name ++ "_" else name

def avoidDigit (name : String) : String := if startsWithDigit name then "_" ++ name else name

/-- the identifier of a label; one without letters goes by `stem` and the id -/
def ofLabel (stem label id : String) : String :=
  let base := clean label
  if hasLetter base then avoidKeyword (avoidDigit base)
  else if clean id = "" then stem
  else stem ++ "_" ++ clean id

/-! ## class names -/

def capitalize : List Char → List Char
  | [] => []
  | c :: cs => c.toUpper :: cs

/-- the words of a type tag, capitalised and run together, with an ending -/
def className (ending tag : String) : String :=
  avoidDigit (String.ofList ((runs Char.isAlphanum tag.toList).flatMap capitalize)) ++ ending

/-- a type tag without its namespace: what follows the last colon -/
def bareTag (tag : String) : String :=
  String.ofList ((tag.toList.reverse.takeWhile (· != ':')).reverse)

end VisualProgram.Identifier
