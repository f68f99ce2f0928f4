import VisualProgram.Json.Record

/-!
# Wires between component nodes

A wire leads from an output port of one node to an input port of another.
-/

namespace VisualProgram
open Json

structure Port where
  node : String
  port : String
deriving DecidableEq, Repr

structure Wire where
  id : String
  source : Port
  target : Port
deriving DecidableEq, Repr

namespace Port

/-- a port as it is named in messages and ids -/
def label (p : Port) : String := p.node ++ "." ++ p.port

def toJson (p : Port) : Json := .object [("nodeId", .string p.node), ("portId", .string p.port)]

def ofRaw? (raw : Raw) : Option Port := do
  let entries ← raw.record? ["nodeId", "portId"]
  let node ← required "nodeId" Raw.text? entries
  let port ← required "portId" Raw.text? entries
  some ⟨node, port⟩

end Port

namespace Wire

/-- a wire named after its ends -/
def between (source target : Port) : Wire := ⟨source.label ++ "->" ++ target.label, source, target⟩

def toJson (w : Wire) : Json :=
  .object [("id", .string w.id), ("source", w.source.toJson), ("target", w.target.toJson)]

def ofRaw? (raw : Raw) : Option Wire := do
  let entries ← raw.record? ["id", "source", "target"]
  let id ← optional "id" "" Raw.text? entries
  let source ← required "source" Port.ofRaw? entries
  let target ← required "target" Port.ofRaw? entries
  some ⟨id, source, target⟩

end Wire

end VisualProgram
