import VisualProgram.Graph
import VisualProgram.Json.Text

/-!
# Project documents

A document has a section about the project, a section of nodes and wires, and devices and widgets
that are carried along untouched.  The first two sections must be there; a document whose nodes and
wires are not a graph is refused when the graph is made (`toGraph`).
-/

namespace VisualProgram
open Json

structure Document where
  info : Meta
  devices : List Json
  nodes : List Node
  wires : List Wire
  widgets : List Json
deriving DecidableEq

/-! ## records -/

namespace Meta

def toJson (m : Meta) : Json :=
  .object [("name", .string m.name), ("version", .string m.version),
    ("schemaVersion", .string m.schemaVersion), ("description", .string m.description)]

def ofRaw? (raw : Raw) : Option Meta := do
  let entries ← raw.record? ["name", "version", "schemaVersion", "description"]
  let name ← optional "name" standard.name Raw.text? entries
  let version ← optional "version" standard.version Raw.text? entries
  let schemaVersion ← optional "schemaVersion" standard.schemaVersion Raw.text? entries
  let description ← optional "description" standard.description Raw.text? entries
  some ⟨name, version, schemaVersion, description⟩

end Meta

namespace Position

def toJson (p : Position) : Json := .object [("x", .ofFloat p.x), ("y", .ofFloat p.y)]

def ofRaw? (raw : Raw) : Option Position := do
  let entries ← raw.record? ["x", "y"]
  let x ← optional "x" 0 Raw.float? entries
  let y ← optional "y" 0 Raw.float? entries
  some ⟨x, y⟩

end Position

namespace Node

def toJson (n : Node) : Json :=
  .object [("id", .string n.id), ("type", .string n.type), ("label", .string n.label),
    ("position", n.position.toJson), ("properties", .object n.properties)]

def ofRaw? (raw : Raw) : Option Node := do
  let entries ← raw.record? ["id", "type", "label", "position", "properties"]
  let id ← required "id" Raw.text? entries
  let type ← required "type" Raw.text? entries
  let label ← optional "label" "" Raw.text? entries
  let position ← optional "position" .origin Position.ofRaw? entries
  let properties ← optional "properties" [] Raw.members? entries
  some ⟨id, type, label, position, properties⟩

end Node

namespace Document

/-! ## writing -/

def logicToJson (nodes : List Node) (wires : List Wire) : Json :=
  .object [("nodes", .array (nodes.map Node.toJson)), ("wires", .array (wires.map Wire.toJson))]

def toJson (d : Document) : Json :=
  .object [("meta", d.info.toJson), ("devices", .array d.devices),
    ("logic", logicToJson d.nodes d.wires), ("ui", .object [("widgets", .array d.widgets)])]

def toText (d : Document) : String := d.toJson.pretty

/-! ## reading -/

/-- a list whose elements are all readable -/
def listOf? {α : Type} (read : Raw → Option α) (raw : Raw) : Option (List α) :=
  raw.items?.bind (·.mapM read)

def logicOfRaw? (raw : Raw) : Option (List Node × List Wire) := do
  let entries ← raw.record? ["nodes", "wires"]
  let nodes ← optional "nodes" [] (listOf? Node.ofRaw?) entries
  let wires ← optional "wires" [] (listOf? Wire.ofRaw?) entries
  some (nodes, wires)

def widgetsOfRaw? (raw : Raw) : Option (List Json) := do
  let entries ← raw.record? ["widgets"]
  optional "widgets" [] (listOf? Raw.toJson?) entries

def ofRaw? (raw : Raw) : Option Document := do
  let entries ← raw.record? ["meta", "devices", "logic", "ui"]
  let info ← required "meta" Meta.ofRaw? entries
  let devices ← optional "devices" [] (listOf? Raw.toJson?) entries
  let (nodes, wires) ← required "logic" logicOfRaw? entries
  let widgets ← optional "ui" [] widgetsOfRaw? entries
  some ⟨info, devices, nodes, wires, widgets⟩

def requiredSections : List String := ["meta", "logic"]

/-- the sections are looked for before anything is read -/
def ofJson (v : Json) : Except LoadError Document :=
  match requiredSections.find? fun name => (v.member? name).isNone with
  | some name => .error (.missingSection name)
  | none =>
    match ofRaw? (Raw.ofJson v) with
    | some d => .ok d
    | none => .error .malformed

def ofText (text : String) : Except LoadError Document :=
  match Json.ofText? text with
  | some v => ofJson v
  | none => .error .malformed

/-! ## graphs -/

def ofGraph (g : Graph) : Document := ⟨g.info, [], g.nodes, g.wires, []⟩

/-- adds the nodes, then the wires, one by one -/
def toGraph (d : Document) : Except LoadError Graph :=
  (do
    let g ← d.nodes.foldlM Graph.addNode (.withMeta d.info)
    d.wires.foldlM Graph.connect g : Except EditError Graph).mapError .invalid

end Document

end VisualProgram
