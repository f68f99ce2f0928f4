/-!
# Diagnostics

A compiler does not stop at what it cannot interpret: it puts something inert in its place and
records a diagnostic that names the block or node.
-/

namespace VisualProgram

inductive Diagnostic.Kind where
  | unknownBlockType
  | misplacedBlock
  | invalidField
  | unresolvedComponentType
  | invalidScriptState
deriving DecidableEq, Repr

structure Diagnostic where
  subject : String
  kind : Diagnostic.Kind
  message : String
deriving DecidableEq, Repr

namespace Diagnostic

def Kind.name : Kind → String
  | .unknownBlockType => "UnknownBlockType"
  | .misplacedBlock => "MisplacedBlock"
  | .invalidField => "InvalidField"
  | .unresolvedComponentType => "UnresolvedComponentType"
  | .invalidScriptState => "InvalidScriptState"

def display (d : Diagnostic) : String :=
  "[" ++ d.kind.name ++ "] " ++ d.subject ++ ": " ++ d.message

end Diagnostic

end VisualProgram
