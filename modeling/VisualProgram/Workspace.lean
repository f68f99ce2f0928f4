import VisualProgram.Block.State
import VisualProgram.Fault

/-!
# Workspaces

A workspace is a list of chains, and every structural edit goes through it.  An edit that would
repeat an id, name a block that is not there or hang a block under itself is refused with its cause;
an edit that is not refused gives a new workspace.

* `addBlock`          a new chain at the end;
* `connectValue`      a block into a value socket; who was there goes to the end of the top level;
* `connectStatement`  a chain into a statement socket, before the chain that was there;
* `connectNext`       a chain after a block, before what followed it;
* `detach`            a block with all it owns to the end of the top level;
* `delete`            a block with its sockets goes, the rest of its chain takes its slot.
-/

namespace VisualProgram

structure Workspace where
  blocks : List Block
deriving DecidableEq

namespace Workspace

def empty : Workspace := ⟨[]⟩

/-! ## searching -/

def ids (w : Workspace) : List String := w.blocks.flatMap Block.ids

def find? (w : Workspace) (id : String) : Option Block := w.blocks.findSome? (Block.find? id)

def contains (w : Workspace) (id : String) : Bool := (w.find? id).isSome

/-- the first block of an id changed, in a list of chains -/
def updateFirst? (id : String) (change : Block → Block) : List Block → Option (List Block)
  | [] => none
  | b :: rest =>
    match b.update? id change with
    | some b => some (b :: rest)
    | none => (updateFirst? id change rest).map (b :: ·)

def update? (w : Workspace) (id : String) (change : Block → Block) : Option Workspace :=
  (updateFirst? id change w.blocks).map Workspace.mk

/-- where a block hangs; the top level is looked at first -/
def locate? (w : Workspace) (id : String) : Option Slot :=
  match w.blocks.findIdx? (fun b => b.id = id) with
  | some index => some (.top index)
  | none => w.blocks.findSome? (Block.slotOf? id)

/-! ## taking out and putting back -/

/-- takes one child of an owner out of its place -/
def takeFrom? (w : Workspace) (owner : String) (child : Block → Option Block)
    (without : Block → Block) : Option (Block × Workspace) := do
  let parent ← w.find? owner
  let b ← child parent
  let rest ← w.update? owner without
  some (b, rest)

/-- the block in a slot, with all it owns and the rest of its chain, and the workspace without it -/
def take? (w : Workspace) : Slot → Option (Block × Workspace)
  | .top index => do
    let b ← w.blocks[index]?
    some (b, ⟨w.blocks.eraseIdx index⟩)
  | .input owner socket =>
    w.takeFrom? owner (·.input? socket) fun p => { p with inputs := Assoc.erase socket p.inputs }
  | .statement owner socket =>
    w.takeFrom? owner (·.statement? socket) fun p =>
      { p with statements := Assoc.erase socket p.statements }
  | .after owner => w.takeFrom? owner (·.next) (·.setNext none)

/-- a block into an empty slot -/
def putAt (w : Workspace) (b : Block) : Slot → Workspace
  | .top index => ⟨w.blocks.insertIdx (min index w.blocks.length) b⟩
  | .input owner socket => putUnder owner (·.setInput socket b)
  | .statement owner socket => putUnder owner (·.setStatement socket b)
  | .after owner => putUnder owner (·.setNext (some b))
where
  putUnder (owner : String) (change : Block → Block) : Workspace :=
    (w.update? owner change).getD ⟨w.blocks ++ [b]⟩

/-! ## edits -/

/-- the first id that repeats one of those before it or one of the workspace -/
def repeatedId? (w : Workspace) : List String → List String → Option String
  | _, [] => none
  | seen, id :: rest =>
    if id ∈ seen ∨ w.contains id then some id else w.repeatedId? (id :: seen) rest

def addBlock (w : Workspace) (b : Block) : Except EditError Workspace :=
  match w.repeatedId? [] b.ids with
  | some id => .error (.duplicateBlock id)
  | none => .ok ⟨w.blocks ++ [b]⟩

def setField (w : Workspace) (id name : String) (value : Json) : Except EditError Workspace :=
  match w.update? id (·.setField name value) with
  | some w => .ok w
  | none => .error (.missingBlock id)

/-- checks that a child may hang under a parent, and takes it out of its slot -/
def takeForAttach (w : Workspace) (parent child : String) : Except EditError (Block × Workspace) :=
  if w.contains parent then
    match w.find? child with
    | none => .error (.missingBlock child)
    | some c =>
      if c.contains parent then .error (.blockCycle parent child)
      else
        match (w.locate? child).bind w.take? with
        | some taken => .ok taken
        | none => .error (.missingBlock child)
  else .error (.missingBlock parent)

/-- changes a parent that must be there, the result made from what the parent was -/
def changeParent (w : Workspace) (parent : String) (change : Block → Block)
    (displaced : Block → List Block) : Except EditError Workspace :=
  match w.find? parent, w.update? parent change with
  | some p, some w => .ok ⟨w.blocks ++ displaced p⟩
  | _, _ => .error (.missingBlock parent)

def connectValue (w : Workspace) (parent socket child : String) : Except EditError Workspace := do
  let (c, rest) ← w.takeForAttach parent child
  rest.changeParent parent (·.setInput socket c) fun p => (p.input? socket).toList

def connectStatement (w : Workspace) (parent socket child : String) :
    Except EditError Workspace := do
  let (c, rest) ← w.takeForAttach parent child
  rest.changeParent parent
    (fun p => p.setStatement socket (c.appendOption (p.statement? socket))) fun _ => []

def connectNext (w : Workspace) (parent child : String) : Except EditError Workspace := do
  let (c, rest) ← w.takeForAttach parent child
  rest.changeParent parent (fun p => p.setNext (some (c.appendOption p.next))) fun _ => []

def detach (w : Workspace) (id : String) : Except EditError Workspace :=
  match w.locate? id with
  | none => .error (.missingBlock id)
  | some (.top _) => .ok w
  | some slot =>
    match w.take? slot with
    | some (b, rest) => .ok ⟨rest.blocks ++ [b]⟩
    | none => .ok w

/-- the block taken away, without the rest of its chain, and the workspace that is left -/
def delete (w : Workspace) (id : String) : Except EditError (Block × Workspace) :=
  match w.locate? id with
  | none => .error (.missingBlock id)
  | some slot =>
    match w.take? slot with
    | none => .error (.missingBlock id)
    | some (b, rest) =>
      match b.next with
      | none => .ok (b, rest)
      | some trailing => .ok (b.setNext none, rest.putAt trailing slot)

/-! ## states -/

def toJson (w : Workspace) : Json := .object [("blocks", .array (w.blocks.map Block.toJson))]

/-- adds chains one by one -/
def ofBlocks (blocks : List Block) : Except EditError Workspace := blocks.foldlM addBlock empty

/-- the workspace of the chains that were read, if they could be -/
def ofChains : Option (List Block) → Except LoadError Workspace
  | none => .error .malformed
  | some blocks => (ofBlocks blocks).mapError .invalid

/-- a list of chains in a text -/
def chainListOfRaw? (raw : Json.Raw) : Option (List Block) := raw.items?.bind (·.mapM Block.ofRaw?)

/-- the chains of a state, read from what a text says -/
def chainsOfRaw? (raw : Json.Raw) : Option (List Block) :=
  (raw.record? ["blocks"]).bind (Json.optional "blocks" [] chainListOfRaw?)

/-- the workspace a state text describes -/
def ofText (text : String) : Except LoadError Workspace :=
  ofChains ((Json.Raw.ofText? text).bind chainsOfRaw?)

/-- a list of chains in a value -/
def chainListOfJson? : Json → Option (List Block)
  | .array items => items.mapM Block.ofJson?
  | _ => none

/-- one more member of a state, after others that may have listed the chains already -/
def addMember? (found : Option (List Block)) (member : String × Json) :
    Option (Option (List Block)) :=
  if member.1 = "blocks" then Json.fill? found (chainListOfJson? member.2) else some found

/-- the chains of a state, read from a value -/
def chainsOfJson? : Json → Option (List Block)
  | .object members => (members.foldlM addMember? none).map (·.getD [])
  | .array [] => some []
  | .array [v] => chainListOfJson? v
  | _ => none

/-- the workspace a state value describes -/
def ofJson (v : Json) : Except LoadError Workspace := ofChains (chainsOfJson? v)

/-- a state is a value, or a text that holds one -/
def ofState : Json → Except LoadError Workspace
  | .string text => ofText text
  | v => ofJson v

end Workspace

end VisualProgram
