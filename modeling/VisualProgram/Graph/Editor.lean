import VisualProgram.Graph

/-!
# Editing a graph in place

The edits are those of `Graph`, each with its checks and its changes in the order in which an editor
makes them.  Taking away a wire that is not there is no mistake, so `disconnect` is never refused.
-/

namespace VisualProgram.Graph.Editor
open Editing

def addNode (n : Node) : Editing Graph Unit := do
  let g ← get
  if (g.node? n.id).isSome then throw (.duplicateNode n.id)
  else set { g with nodes := g.nodes ++ [n] }

/-- the wires at a node go before the node does -/
def removeNode (id : String) : Editing Graph Node := do
  let g ← get
  let n ← found (.missingNode id) (g.node? id)
  modify fun g =>
    { g with wires := g.wires.filter fun w => !(w.source.node = id) && !(w.target.node = id) }
  modify fun g => { g with nodes := g.nodes.eraseP (·.id = id) }
  pure n

def changeNode (id : String) (change : Node → Node) : Editing Graph Unit := do
  let g ← get
  let _ ← found (.missingNode id) (g.node? id)
  set { g with nodes := changeFirst id change g.nodes }

def setLabel (id label : String) : Editing Graph Unit := changeNode id fun n => { n with label := label }

def setProperty (id name : String) (value : Json) : Editing Graph Unit :=
  changeNode id fun n => { n with properties := Assoc.put name value n.properties }

def connect (w : Wire) : Editing Graph Unit := do
  let g ← get
  if (g.node? w.source.node).isNone ∨ (g.node? w.target.node).isNone then
    throw (.danglingWire w.source w.target)
  else if g.wires.any fun v => v.source = w.source ∧ v.target = w.target then
    throw (.duplicateWire w.source w.target)
  else if g.reaches w.target.node w.source.node then
    throw (.wireCycle w.source.node w.target.node)
  else set { g with wires := g.wires ++ [w] }

def disconnect (source target : Port) : Editing Graph (Option Wire) := do
  let g ← get
  match g.wires.find? fun w => w.source = source ∧ w.target = target with
  | none => pure none
  | some w => do
    set { g with wires := g.wires.eraseP fun w => w.source = source ∧ w.target = target }
    pure (some w)

end VisualProgram.Graph.Editor
