import VisualProgram.Wire

/-!
# What can go wrong

`EditError` is the cause for which an edit of a workspace or a graph is refused, `LoadError` the
cause for which a text is not taken for a document.  `message` gives the wording of each.  What a
reader of JSON says itself about a malformed text is not kept: the wording ends before it.

An editor holds one state and changes it step by step (`Editing`).  An edit may be refused at any of
its steps, and what the steps before have changed is then not taken back.
-/

namespace VisualProgram

inductive EditError where
  | duplicateBlock (id : String)
  | missingBlock (id : String)
  | blockCycle (parent child : String)
  | duplicateNode (id : String)
  | missingNode (id : String)
  | danglingWire (source target : Port)
  | duplicateWire (source target : Port)
  | wireCycle (source target : String)
deriving DecidableEq, Repr

inductive LoadError where
  /-- the text is not JSON, or its JSON is not what is expected there -/
  | malformed
  | missingSection (name : String)
  | invalid (cause : EditError)
  | unreadable (path reason : String)
deriving DecidableEq, Repr

def EditError.message : EditError → String
  | .duplicateBlock id => "A block with id '" ++ id ++ "' already exists in the workspace"
  | .missingBlock id => "Block '" ++ id ++ "' not found in the workspace"
  | .blockCycle parent child =>
    "Attaching block '" ++ child ++ "' under '" ++ parent ++ "' would create a cycle"
  | .duplicateNode id => "A component node with id '" ++ id ++ "' already exists in the graph"
  | .missingNode id => "Component node '" ++ id ++ "' not found in the graph"
  | .danglingWire source target =>
    "Wire " ++ source.label ++ " -> " ++ target.label ++ " references a missing node"
  | .duplicateWire source target =>
    "Wire " ++ source.label ++ " -> " ++ target.label ++ " already exists"
  | .wireCycle source target =>
    "Wiring '" ++ source ++ "' to '" ++ target ++ "' would close a dependency cycle"

/-- the wording of a cause; a colon and the reader's own words follow that of `malformed` -/
def LoadError.message : LoadError → String
  | .malformed => "Failed to parse JSON document"
  | .missingSection name => "Project document is missing the required '" ++ name ++ "' section"
  | .invalid cause => "Document describes an invalid structure: " ++ cause.message
  | .unreadable path reason => "Could not read '" ++ path ++ "': " ++ reason

/-! ## editing in place -/

/-- a change of a state in place, which may be refused at any point -/
abbrev Editing (σ : Type) := EStateM EditError σ

/-- what a search has found, or the refusal if it found nothing -/
def Editing.found {σ α : Type} (e : EditError) : Option α → Editing σ α
  | some a => pure a
  | none => throw e

end VisualProgram
