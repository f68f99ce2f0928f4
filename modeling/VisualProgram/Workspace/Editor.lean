import VisualProgram.Workspace

/-!
# Editing a workspace in place

The edits are those of `Workspace`, taken apart into the steps that touch the workspace: a block is
out of its slot before its new owner is looked up, and an edit that is refused in the middle leaves
what has been changed so far.

* `takeAt`, `takeForAttach`, `changeParent`, `push`  the steps;
* `connectValue`, …, `delete`                        the edits.
-/

namespace VisualProgram.Workspace.Editor
open Editing

/-! ## steps -/

/-- takes the block out of a slot; an empty slot changes nothing -/
def takeAt (slot : Slot) : Editing Workspace (Option Block) := do
  let w ← get
  match w.take? slot with
  | some (b, rest) => do
    set rest
    pure (some b)
  | none => pure none

/-- checks that a child may hang under a parent, and takes it out of its slot -/
def takeForAttach (parent child : String) : Editing Workspace Block := do
  let w ← get
  if w.contains parent then do
    let c ← found (.missingBlock child) (w.find? child)
    if c.contains parent then throw (.blockCycle parent child)
    else do
      let slot ← found (.missingBlock child) (w.locate? child)
      let taken ← takeAt slot
      found (.missingBlock child) taken
  else throw (.missingBlock parent)

/-- changes a parent that must be there; the result is what the parent was -/
def changeParent (parent : String) (change : Block → Block) : Editing Workspace Block := do
  let w ← get
  match w.find? parent, w.update? parent change with
  | some p, some changed => do
    set changed
    pure p
  | _, _ => throw (.missingBlock parent)

/-- a chain at the end of the top level -/
def push (b : Block) : Editing Workspace Unit := modify fun w => ⟨w.blocks ++ [b]⟩

/-- takes the block out of a slot and puts it at the end of the top level -/
def moveToTop (slot : Slot) : Editing Workspace Unit := do
  match ← takeAt slot with
  | some b => push b
  | none => pure ()

/-! ## edits -/

def addBlock (b : Block) : Editing Workspace Unit := do
  let w ← get
  match w.repeatedId? [] b.ids with
  | some id => throw (.duplicateBlock id)
  | none => push b

def setField (id name : String) (value : Json) : Editing Workspace Unit := do
  let w ← get
  let changed ← found (.missingBlock id) (w.update? id (·.setField name value))
  set changed

def connectValue (parent socket child : String) : Editing Workspace Unit := do
  let c ← takeForAttach parent child
  let p ← changeParent parent (·.setInput socket c)
  match p.input? socket with
  | some displaced => push displaced
  | none => pure ()

def connectStatement (parent socket child : String) : Editing Workspace Unit := do
  let c ← takeForAttach parent child
  discard (changeParent parent fun p => p.setStatement socket (c.appendOption (p.statement? socket)))

def connectNext (parent child : String) : Editing Workspace Unit := do
  let c ← takeForAttach parent child
  discard (changeParent parent fun p => p.setNext (some (c.appendOption p.next)))

def detach (id : String) : Editing Workspace Unit := do
  let w ← get
  match w.locate? id with
  | none => throw (.missingBlock id)
  | some (.top _) => pure ()
  | some slot => moveToTop slot

def delete (id : String) : Editing Workspace Block := do
  let w ← get
  let slot ← found (.missingBlock id) (w.locate? id)
  let taken ← takeAt slot
  let b ← found (.missingBlock id) taken
  match b.next with
  | none => pure b
  | some trailing => do
    modify fun rest => rest.putAt trailing slot
    pure (b.setNext none)

end VisualProgram.Workspace.Editor
