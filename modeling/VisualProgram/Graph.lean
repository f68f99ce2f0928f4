import VisualProgram.Fault

/-!
# Wiring graphs

A project's program is a list of component nodes and a list of wires, each in the order in which
they were added.  Every edit keeps node ids distinct, both ends of a wire present, wires distinct by
their ports, and the wiring free of cycles; one that would not is refused with its cause.

`reachable` follows wires from a list of nodes.  Each step takes a node off the list and uses up the
wires that leave it, so the nodes to visit and the wires left together become fewer by one.
-/

namespace VisualProgram

structure Meta where
  name : String
  version : String
  schemaVersion : String
  description : String
deriving DecidableEq, Repr

def Meta.standard : Meta := ⟨"Untitled", "1.0.0", "0.1.0", ""⟩

/-- where a node stands on the canvas -/
structure Position where
  x : Float
  y : Float
deriving DecidableEq

def Position.origin : Position := ⟨0, 0⟩

structure Node where
  id : String
  type : String
  label : String
  position : Position
  properties : List (String × Json)
deriving DecidableEq

structure Graph where
  info : Meta
  nodes : List Node
  wires : List Wire
deriving DecidableEq

namespace Graph

def empty : Graph := ⟨.standard, [], []⟩

def withMeta (info : Meta) : Graph := ⟨info, [], []⟩

/-! ## looking around -/

def node? (g : Graph) (id : String) : Option Node := g.nodes.find? (·.id = id)

def incoming (g : Graph) (id : String) : List Wire := g.wires.filter (·.target.node = id)

def outgoing (g : Graph) (id : String) : List Wire := g.wires.filter (·.source.node = id)

/-- the nodes that wires from a node lead to -/
def targetsFrom (id : String) : List Wire → List String
  | [] => []
  | w :: rest => if w.source.node = id then w.target.node :: targetsFrom id rest else targetsFrom id rest

/-- the wires that do not leave a node -/
def wiresNotFrom (id : String) : List Wire → List Wire
  | [] => []
  | w :: rest => if w.source.node = id then wiresNotFrom id rest else w :: wiresNotFrom id rest

theorem length_targetsFrom_add (id : String) (wires : List Wire) :
    (targetsFrom id wires).length + (wiresNotFrom id wires).length = wires.length := by
  induction wires with
  | nil => rfl
  | cons w rest ih =>
    by_cases h : w.source.node = id <;> simp [targetsFrom, wiresNotFrom, h] <;> omega

/-- whether a node can be reached from one of a list along wires -/
def reachable (goal : String) : List String → List Wire → Bool
  | [], _ => false
  | current :: waiting, wires =>
    if current = goal then true
    else reachable goal (targetsFrom current wires ++ waiting) (wiresNotFrom current wires)
termination_by waiting wires => waiting.length + wires.length
decreasing_by
  have h := length_targetsFrom_add current wires
  simp only [List.length_append, List.length_cons]
  omega

def reaches (g : Graph) (source target : String) : Bool := reachable target [source] g.wires

/-! ## edits -/

def addNode (g : Graph) (n : Node) : Except EditError Graph :=
  if (g.node? n.id).isSome then .error (.duplicateNode n.id)
  else .ok { g with nodes := g.nodes ++ [n] }

/-- a node goes together with the wires at it -/
def removeNode (g : Graph) (id : String) : Except EditError (Node × Graph) :=
  match g.node? id with
  | none => .error (.missingNode id)
  | some n =>
    .ok (n, { g with
      nodes := g.nodes.eraseP (·.id = id)
      wires := g.wires.filter fun w => !(w.source.node = id) && !(w.target.node = id) })

/-- the first node of an id changed -/
def changeFirst (id : String) (change : Node → Node) : List Node → List Node
  | [] => []
  | n :: rest => if n.id = id then change n :: rest else n :: changeFirst id change rest

def changeNode (g : Graph) (id : String) (change : Node → Node) : Except EditError Graph :=
  if (g.node? id).isSome then .ok { g with nodes := changeFirst id change g.nodes }
  else .error (.missingNode id)

def setLabel (g : Graph) (id label : String) : Except EditError Graph :=
  g.changeNode id fun n => { n with label := label }

def setProperty (g : Graph) (id name : String) (value : Json) : Except EditError Graph :=
  g.changeNode id fun n => { n with properties := Assoc.put name value n.properties }

/-- adds a wire whose ends are there, that is not there yet and that closes no cycle -/
def connect (g : Graph) (w : Wire) : Except EditError Graph :=
  if (g.node? w.source.node).isNone ∨ (g.node? w.target.node).isNone then
    .error (.danglingWire w.source w.target)
  else if g.wires.any fun v => v.source = w.source ∧ v.target = w.target then
    .error (.duplicateWire w.source w.target)
  else if g.reaches w.target.node w.source.node then
    .error (.wireCycle w.source.node w.target.node)
  else .ok { g with wires := g.wires ++ [w] }

/-- takes away the wire between two ports, if there is one -/
def disconnect (g : Graph) (source target : Port) : Option (Wire × Graph) := do
  let w ← g.wires.find? fun w => w.source = source ∧ w.target = target
  some (w, { g with wires := g.wires.eraseP fun w => w.source = source ∧ w.target = target })

end Graph

end VisualProgram
