import VisualProgram.Diagnostic
import VisualProgram.Identifier
import VisualProgram.Identifier.Scope
import VisualProgram.Assoc

/-!
# The session of a compilation

While a script is compiled, its imports, its variables and its diagnostics are collected in the
order in which they come up.  A variable gets its identifier on first use and keeps it.
-/

namespace VisualProgram

structure Session where
  imports : List String
  /-- the variables by name, with their identifiers -/
  identifiers : List (String × String)
  scope : Scope
  diagnostics : List Diagnostic
deriving DecidableEq

namespace Session

/-- what the generated code calls; no variable may hide it -/
def reservedNames : List String :=
  ["abs", "float", "get_input", "int", "len", "logger", "math", "print", "range", "round",
   "set_output", "str"]

def initial : Session := ⟨[], [], .reserving reservedNames, []⟩

/-- the identifier of a variable, made on first use -/
def identify (name : String) (s : Session) : String × Session :=
  match Assoc.get? name s.identifiers with
  | some identifier => (identifier, s)
  | none =>
    let base := Identifier.ofLabel "variable" name (toString (s.identifiers.length + 1))
    let (identifier, scope) := s.scope.claim base
    (identifier, { s with identifiers := s.identifiers ++ [(name, identifier)], scope := scope })

/-- records that the script needs a module -/
def require (name : String) (s : Session) : Session :=
  if name ∈ s.imports then s else { s with imports := s.imports ++ [name] }

def report (d : Diagnostic) (s : Session) : Session :=
  { s with diagnostics := s.diagnostics ++ [d] }

end Session

end VisualProgram
