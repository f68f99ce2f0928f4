import VisualProgram.Block
import VisualProgram.Json.Record

/-!
# Blocks as JSON

A block is a record of `id`, `type`, `fields`, `inputs`, `statements` and `next`; what is empty is
not written.  There are two ways to read one.

* From a text (`ofRaw?`), what the text says is read bottom up: `view` says of every subtree what it
  is as a block and what it is as a set of sockets, and the view of an object or array is put
  together from the views of its parts.
* From a value (`ofJson?`), the value is read top down: the members of an object, or the elements of
  an array, fill the entries of a `Draft` one after the other, each read as its place asks for.
-/

namespace VisualProgram.Block
open Json

/-! ## writing -/

/-- a member that is left out if there is nothing in it -/
def memberUnless (empty : Bool) (key : String) (value : Json) : List (String × Json) :=
  if empty then [] else [(key, value)]

mutual
def toJson : Block → Json
  | ⟨id, tag, fields, inputs, statements, next⟩ =>
    .object ([("id", .string id), ("type", .string tag)]
      ++ memberUnless fields.isEmpty "fields" (.object fields)
      ++ memberUnless inputs.isEmpty "inputs" (.object (socketsToJson inputs))
      ++ memberUnless statements.isEmpty "statements" (.object (socketsToJson statements))
      ++ memberUnless next.isNone "next" (nextToJson next))

def socketsToJson : List (String × Block) → List (String × Json)
  | [] => []
  | (socket, child) :: rest => (socket, child.toJson) :: socketsToJson rest

def nextToJson : Option Block → Json
  | none => .null
  | some b => b.toJson
end

/-! ## reading from a text -/

/-- a tree, and what it is where a block or a set of sockets is expected -/
structure View where
  raw : Raw
  block : Option Block
  sockets : Option (List (String × Block))

/-- the rest of a chain may be null -/
def View.next? (v : View) : Option (Option Block) :=
  match v.raw with
  | .null => some none
  | _ => v.block.map some

def entryNames : List String := ["id", "type", "fields", "inputs", "statements", "next"]

def ofEntries? (entries : List (String × View)) : Option Block := do
  let id ← required "id" (·.raw.text?) entries
  let tag ← required "type" (·.raw.text?) entries
  let fields ← optional "fields" [] (·.raw.members?) entries
  let inputs ← optional "inputs" [] (·.sockets) entries
  let statements ← optional "statements" [] (·.sockets) entries
  let next ← optional "next" none (·.next?) entries
  some ⟨id, tag, fields, inputs, statements, next⟩

/-- the sockets an object lists; of a repeated name the last counts -/
def socketsOf? : List (Option String × View) → List (String × Block) → Option (List (String × Block))
  | [], done => some done
  | (key, v) :: rest, done => do
    let socket ← key
    let child ← v.block
    socketsOf? rest (Assoc.insert socket child done)

def View.ofMembers (raw : Raw) (members : List (Option String × View)) : View where
  raw := raw
  block := (knownMembers? entryNames members).bind ofEntries?
  sockets := socketsOf? members []

def View.ofItems (raw : Raw) (items : List View) : View where
  raw := raw
  block := (knownItems? entryNames items).bind ofEntries?
  sockets := none

mutual
def view : Raw → View
  | .object members => .ofMembers (.object members) (viewMembers members)
  | .array items => .ofItems (.array items) (viewItems items)
  | .null => ⟨.null, none, none⟩
  | .bool b => ⟨.bool b, none, none⟩
  | .number n => ⟨.number n, none, none⟩
  | .string s => ⟨.string s, none, none⟩

def viewMembers : List (Option String × Raw) → List (Option String × View)
  | [] => []
  | (key, raw) :: rest => (key, view raw) :: viewMembers rest

def viewItems : List Raw → List View
  | [] => []
  | raw :: rest => view raw :: viewItems rest
end

def ofRaw? (raw : Raw) : Option Block := (view raw).block

/-! ## reading from a value -/

/-- the entries of a block that have come so far -/
structure Draft where
  id : Option String
  tag : Option String
  fields : Option (List (String × Json))
  inputs : Option (List (String × Block))
  statements : Option (List (String × Block))
  next : Option (Option Block)

namespace Draft

def empty : Draft := ⟨none, none, none, none, none, none⟩

/-- the rest of a chain may be null -/
def next? (v : Json) (block : Unit → Option Block) : Option (Option Block) :=
  match v with
  | .null => some none
  | _ => (block ()).map some

/-- one more entry, given what its value is as a block and as a set of sockets; an entry of another
name is skipped -/
def add? (d : Draft) (name : String) (v : Json) (block : Unit → Option Block)
    (sockets : Unit → Option (List (String × Block))) : Option Draft :=
  match name with
  | "id" => (fill? d.id v.text?).map fun id => { d with id }
  | "type" => (fill? d.tag v.text?).map fun tag => { d with tag }
  | "fields" => (fill? d.fields v.members?).map fun fields => { d with fields }
  | "inputs" => (fill? d.inputs (sockets ())).map fun inputs => { d with inputs }
  | "statements" => (fill? d.statements (sockets ())).map fun statements => { d with statements }
  | "next" => (fill? d.next (next? v block)).map fun next => { d with next }
  | _ => some d

/-- the block, once all entries have come; what has not come has its default, if there is one -/
def finish? (d : Draft) : Option Block := do
  let id ← d.id
  let tag ← d.tag
  some ⟨id, tag, d.fields.getD [], d.inputs.getD [], d.statements.getD [], d.next.getD none⟩

end Draft

mutual
def ofJson? : Json → Option Block
  | .object members => (readMembers? members .empty).bind Draft.finish?
  | .array items => (readItems? entryNames items .empty).bind Draft.finish?
  | _ => none

def socketsOfJson? : Json → Option (List (String × Block))
  | .object members => readSockets? members []
  | _ => none

def readMembers? : List (String × Json) → Draft → Option Draft
  | [], d => some d
  | (name, v) :: rest, d => do
    let d ← d.add? name v (fun _ => ofJson? v) (fun _ => socketsOfJson? v)
    readMembers? rest d

/-- the elements of an array are the entries in their order -/
def readItems? : List String → List Json → Draft → Option Draft
  | _, [], d => some d
  | [], _ :: _, _ => none
  | name :: names, v :: rest, d => do
    let d ← d.add? name v (fun _ => ofJson? v) (fun _ => socketsOfJson? v)
    readItems? names rest d

/-- of a repeated name the last counts -/
def readSockets? : List (String × Json) → List (String × Block) → Option (List (String × Block))
  | [], done => some done
  | (socket, v) :: rest, done => do
    let child ← ofJson? v
    readSockets? rest (Assoc.insert socket child done)
end

end VisualProgram.Block
